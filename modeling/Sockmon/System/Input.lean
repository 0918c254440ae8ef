import Sockmon.System.Screen

set_option autoImplicit false

/-! # The keys

`input.c`: a handler for each key of each screen, and `should_stop`, which waits for a key and
runs its handler. A handler that reads further keys takes them from the list it is given and
returns those it leaves.
-/

namespace Sockmon

/-! ## Main screen -/

def mainIpHandler (s : Sys) : Sys := { s with n := { s.n with family := AF_INET } }
def mainIp6Handler (s : Sys) : Sys := { s with n := { s.n with family := AF_INET6 } }

/-- The first loop of `main_delay_handler`: the number read, whether it was ended by a newline,
and the keys left. -/
def delayLoop : List Key → Int → Option (Int × Bool × List Key)
  | [], _ => none
  | ch :: keys, delay =>
      if isdigit ch then
        -- The digit that takes the number over 255 is read, and no key behind it.
        let delay := delay * 10 + (ch - 48)
        if 255 < delay then some (delay, false, keys) else delayLoop keys delay
      else if isNewline ch then some (delay, true, keys)
      else some (delay, false, keys)

def mainDelayHandler (s : Sys) (keys : List Key) : Option (Sys × List Key) := do
  let (delay, seenNl, keys) ← delayLoop keys 0
  if seenNl then
    if delay < 1 ∨ 255 < delay then return (s, keys)
    else return ({ s with n := { s.n with delay } }, keys)
  else return (s, ← drain keys)

def mainFieldHandler (s : Sys) : Option Sys := drawFieldHeader s
def mainHelpHandler (s : Sys) : Sys := drawHelp s
def mainQuitHandler (s : Sys) : Sys := { s with n := { s.n with shouldStop := true } }
def mainTcpHandler (s : Sys) : Sys := { s with n := { s.n with protocol := IPPROTO_TCP } }
def mainUdpHandler (s : Sys) : Sys := { s with n := { s.n with protocol := IPPROTO_UDP } }

/-- `(n->lines - 4) / 2`, which C truncates towards zero. -/
def pageStep (n : NmCtx) : Int := (n.lines - 4).tdiv 2

def Sys.setPosMain (s : Sys) (pos : Position) : Sys := { s with n := { s.n with posMain := pos } }

def mainKeyDownHandler (s : Sys) : Sys :=
  -- The end of the list is left to the clamp of `draw_connections`.
  s.setPosMain { s.n.posMain with y := i32 (s.n.posMain.y + 1) }

def mainKeyUpHandler (s : Sys) : Sys :=
  if s.n.posMain.y ≤ 0 then s else s.setPosMain { s.n.posMain with y := s.n.posMain.y - 1 }

def mainKeyLeftHandler (s : Sys) : Sys :=
  if s.n.posMain.x ≤ 0 then s else s.setPosMain { s.n.posMain with x := s.n.posMain.x - 1 }

def mainKeyRightHandler (s : Sys) : Sys :=
  s.setPosMain { s.n.posMain with x := i32 (s.n.posMain.x + 1) }

def mainKeyPgdnHandler (s : Sys) : Sys :=
  s.setPosMain { s.n.posMain with y := i32 (s.n.posMain.y + pageStep s.n) }

def mainKeyPgupHandler (s : Sys) : Sys :=
  if s.n.posMain.y ≤ 0 then s
  else
    let y := i32 (s.n.posMain.y - pageStep s.n)
    s.setPosMain { s.n.posMain with y := if y < 0 then 0 else y }

/-! ## Field screen -/

def commonQuitHandler (s : Sys) : Sys := { s with n := { s.n with curScreen := .main } }

/-- `&tcp_fields[pos->y]`, as the element it points at. -/
def Sys.cursorField (s : Sys) : Option Field := s.fieldAt s.n.posField.y

def Sys.setCursorField (s : Sys) (f : Field) : Sys := s.setField s.n.posField.y f

def fieldSpaceHandler (s : Sys) : Option Sys := do
  let f ← s.cursorField
  if f.drawRow.isNone then return s
  else drawFieldHeader (s.setCursorField { f with enabled := !f.enabled })

def fieldFilterHandler (s : Sys) (keys : List Key) : Option (Sys × List Key) := do
  let f ← s.cursorField
  match f.filterParse with
  | none => return (s, keys)
  | some filterParse =>
      if !f.filterOn then
        let r ← filterParse.run f s.allocs keys
        -- Success switches the filter on, whether there is one or not.
        let s := s.setCursorField { f with filter := r.filter, filterOn := !r.err }
        return (← drawFieldHeader s, r.rest)
      -- Switched off, the filter stays in the field.
      else return (← drawFieldHeader (s.setCursorField { f with filterOn := false }), keys)

def fieldPinHandler (s : Sys) : Option Sys := do
  let f ← s.cursorField
  if f.drawRow.isNone then return s
  else drawFieldHeader (s.setCursorField { f with pinned := !f.pinned })

/-- The extensions that the enabled fields need. -/
def extReqOf (fields : List Field) : BitVec 32 :=
  fields.foldl (fun ext f => if f.enabled && f.extReq != 0 then extSet ext f.extReq else ext) 0

def fieldQuitHandler (s : Sys) : Sys :=
  commonQuitHandler { s with n := { s.n with
    extReq := extReqOf s.tcpFields
    selField := none } }

/-- What an s key does with the pointer `f`, whatever that points at: the sort key of a first
press is `f` in descending order, a second press makes the order ascending, a third clears the
sort key. -/
def toggleSortKey (n : NmCtx) (f : Int) : NmCtx :=
  if n.sortKey = some f then
    if !n.sortAscending then { n with sortAscending := true } else { n with sortKey := none }
  else { n with sortKey := some f, sortAscending := false }

/-- `field_sort_handler` takes the address under the cursor and does not look at the field. -/
def fieldSortHandler (s : Sys) : Option Sys :=
  drawFieldHeader { s with n := toggleSortKey s.n s.n.posField.y }

def Sys.setPosField (s : Sys) (y : Int) : Sys :=
  { s with n := { s.n with posField := { s.n.posField with y } } }

def fieldKeyDownHandler (s : Sys) : Option Sys :=
  if s.nrTcpFields - 1 ≤ s.n.posField.y then some s
  else drawFieldHeader (s.setPosField (s.n.posField.y + 1))

def fieldKeyUpHandler (s : Sys) : Option Sys :=
  if s.n.posField.y ≤ 0 then some s else drawFieldHeader (s.setPosField (s.n.posField.y - 1))

/-- The sort key moves with its field. -/
def swapKey (a b : Int) (sortKey : Option Int) : Option Int :=
  if sortKey = some a then some b else if sortKey = some b then some a else sortKey

def swapField (s : Sys) (a b : Nat) : Option Sys := do
  let fa ← s.tcpFields[a]?
  let fb ← s.tcpFields[b]?
  return { s with
    n := { s.n with sortKey := swapKey a b s.n.sortKey }
    tcpFields := (s.tcpFields.set a fb).set b fa }

/-- `k` rounds of the loop that moves the picked field down from index `f`. -/
def moveDownLoop : Nat → Nat → Sys → Option Sys
  | 0, _, s => some s
  | k + 1, f, s => do moveDownLoop k (f + 1) (← swapField s f (f + 1))

/-- `k` rounds of the loop that moves the picked field up from index `f`. -/
def moveUpLoop : Nat → Nat → Sys → Option Sys
  | 0, _, s => some s
  | k + 1, f, s => do moveUpLoop k (f - 1) (← swapField s f (f - 1))

/-- The loops that move the picked field from index `sel` to index `y`. -/
def moveLoop (sel y : Nat) (s : Sys) : Option Sys :=
  if sel < y then moveDownLoop (y - sel) sel s else moveUpLoop (sel - y) sel s

def fieldKeyLeftHandler (s : Sys) : Option Sys :=
  match s.n.selField with
  | none => some s
  | some sel => do
      let f ← s.cursorField
      let y := s.n.posField.y.toNat
      -- No field is put down on a heading, or on its own row.
      if f.drawRow.isNone then return s
      else if sel = y then return s
      else
        let s ← moveLoop sel y s
        return { s with n := { s.n with selField := none } }

def fieldKeyRightHandler (s : Sys) : Option Sys :=
  if s.n.selField.isSome then some s
  else do
    let f ← s.cursorField
    if f.drawRow.isNone then return s
    else return { s with n := { s.n with selField := some s.n.posField.y.toNat } }

def fieldPgdnHandler (s : Sys) : Option Sys :=
  if s.nrTcpFields - 1 ≤ s.n.posField.y then some s
  else
    let y := i32 (s.n.posField.y + pageStep s.n)
    -- A negative step is not provided for.
    drawFieldHeader (s.setPosField (if s.nrTcpFields - 1 < y then s.nrTcpFields - 1 else y))

def fieldPgupHandler (s : Sys) : Option Sys :=
  if s.n.posField.y ≤ 0 then some s
  else
    let y := i32 (s.n.posField.y - pageStep s.n)
    drawFieldHeader (s.setPosField (if y < 0 then 0 else y))

/-! ## Help screen -/

def helpQuitHandler (s : Sys) : Sys := commonQuitHandler s

/-! ## Dispatch -/

inductive MainHandler
  | quit | ip | ip6 | delay | field | help | tcp | udp | keyDown | keyUp | keyLeft | keyRight
  | keyPgdn | keyPgup
  deriving DecidableEq, Repr

inductive FieldHandler
  | quit | space | filter | pin | sort | keyDown | keyUp | keyLeft | keyRight | pgdn | pgup
  deriving DecidableEq, Repr

/-- `CTRL(x)` -/
def ctrl (c : Char) : Key := c.toNat % 32

def mainKeyHandler : List (Key × MainHandler) :=
  [(ctrl 'C', .quit), (key '4', .ip), (key '6', .ip6), (key 'd', .delay), (key 'f', .field),
    (key 'h', .help), (key 'q', .quit), (key 't', .tcp), (key 'u', .udp), (KEY_DOWN, .keyDown),
    (KEY_UP, .keyUp), (KEY_LEFT, .keyLeft), (KEY_RIGHT, .keyRight), (KEY_NPAGE, .keyPgdn),
    (KEY_PPAGE, .keyPgup)]

def fieldKeyHandler : List (Key × FieldHandler) :=
  [(KEY_ESC, .quit), (key ' ', .space), (key 'f', .filter), (key 'p', .pin), (key 'q', .quit),
    (key 's', .sort), (KEY_DOWN, .keyDown), (KEY_UP, .keyUp), (KEY_LEFT, .keyLeft),
    (KEY_RIGHT, .keyRight), (KEY_NPAGE, .pgdn), (KEY_PPAGE, .pgup)]

def helpKeyHandler : List Key := [KEY_ESC, key 'q']

def MainHandler.run : MainHandler → Sys → List Key → Option (Sys × List Key)
  | .quit, s, keys => some (mainQuitHandler s, keys)
  | .ip, s, keys => some (mainIpHandler s, keys)
  | .ip6, s, keys => some (mainIp6Handler s, keys)
  | .delay, s, keys => mainDelayHandler s keys
  | .field, s, keys => (mainFieldHandler s).map (·, keys)
  | .help, s, keys => some (mainHelpHandler s, keys)
  | .tcp, s, keys => some (mainTcpHandler s, keys)
  | .udp, s, keys => some (mainUdpHandler s, keys)
  | .keyDown, s, keys => some (mainKeyDownHandler s, keys)
  | .keyUp, s, keys => some (mainKeyUpHandler s, keys)
  | .keyLeft, s, keys => some (mainKeyLeftHandler s, keys)
  | .keyRight, s, keys => some (mainKeyRightHandler s, keys)
  | .keyPgdn, s, keys => some (mainKeyPgdnHandler s, keys)
  | .keyPgup, s, keys => some (mainKeyPgupHandler s, keys)

def FieldHandler.run : FieldHandler → Sys → List Key → Option (Sys × List Key)
  | .quit, s, keys => some (fieldQuitHandler s, keys)
  | .space, s, keys => (fieldSpaceHandler s).map (·, keys)
  | .filter, s, keys => fieldFilterHandler s keys
  | .pin, s, keys => (fieldPinHandler s).map (·, keys)
  | .sort, s, keys => (fieldSortHandler s).map (·, keys)
  | .keyDown, s, keys => (fieldKeyDownHandler s).map (·, keys)
  | .keyUp, s, keys => (fieldKeyUpHandler s).map (·, keys)
  | .keyLeft, s, keys => (fieldKeyLeftHandler s).map (·, keys)
  | .keyRight, s, keys => (fieldKeyRightHandler s).map (·, keys)
  | .pgdn, s, keys => (fieldPgdnHandler s).map (·, keys)
  | .pgup, s, keys => (fieldPgupHandler s).map (·, keys)

/-- Run the handler of the key `ch` on the current screen, if it has one. -/
def dispatch (ch : Key) (s : Sys) (keys : List Key) : Option (Sys × List Key) :=
  match s.n.curScreen with
  | .main =>
      match mainKeyHandler.lookup ch with
      | none => some (s, keys)
      | some h => h.run s keys
  | .field =>
      match fieldKeyHandler.lookup ch with
      | none => some (s, keys)
      | some h => h.run s keys
  | .help => if ch ∈ helpKeyHandler then some (helpQuitHandler s, keys) else some (s, keys)

/-- What one call of `should_stop` meets: the key `wgetch` returns, the keys its handler then
reads, the outcomes of its allocations, and the size of the terminal if that is asked for. -/
structure Input where
  ch : Key
  typed : List Key
  allocs : List Bool
  size : TermSize

/-- `should_stop`, but for its return value `n->should_stop`. The handler reads all the keys of
`typed` and no more. -/
def shouldStop (s : Sys) (i : Input) : Option Sys :=
  let s := { s with allocs := i.allocs }
  -- `halfdelay` has run out.
  if i.ch = ERR then (if i.typed = [] then some s else none)
  else if i.ch = KEY_RESIZE then (if i.typed = [] then some (windowResize s i.size) else none)
  else
    match dispatch i.ch s i.typed with
    | some (s, []) => some s
    | _ => none

end Sockmon

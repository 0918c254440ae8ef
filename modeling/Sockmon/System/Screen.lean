import Sockmon.System.Netlink
import Sockmon.Field.Apply
import Sockmon.Field.Draw

set_option autoImplicit false

/-! # Drawing

What `draw.c` prints into its windows, as the list of the calls of `mvwprintw` in their order,
and what drawing does to the state. Reading an element outside `tcp_fields`, or calling a null
function pointer, has no result.
-/

namespace Sockmon

structure Attrs where
  bold : Bool := false
  underline : Bool := false
  reverse : Bool := false
  deriving DecidableEq, Repr

/-- A text printed at a place, with the attributes switched on. -/
structure Write where
  y : Int
  x : Int
  text : List UInt8
  attrs : Attrs
  deriving DecidableEq, Repr

/-- `nm_mvwprintw`: the text passes through a buffer of 4096 bytes and is cut at the right
margin. -/
def nmMvwprintw (cols y x : Int) (text : List UInt8) (attrs : Attrs := {}) : List Write :=
  let colsLeft := cols - x
  if colsLeft ≤ 0 then []
  else [⟨y, x, (text.take 4095).take (min text.length colsLeft.toNat), attrs⟩]

/-! ## The connections -/

/-- The width of the column of `f`. -/
def columnWidth (family : Nat) (f : FieldInfo) : Nat :=
  if f.extRcv = INET_DIAG_ADDRESS then addrWidth family f.width else f.width

/-- The field loop of `draw_protocol` and what it returns (`rewind`). `stk` are the bytes on
the stack behind the local variables of the functions that apply filters. -/
def drawProtocolLoop (n : NmCtx) (stk : FieldInfo → Ptr) (y : Int) (ci : ConnInfo) :
    List Field → Int → Int → Bool → Option (Bool × List Write)
  | [], _, _, _ => some (false, [])
  | f :: fs, x, skipX, drawn =>
      match f.enabled, f.drawRow with
      | false, _ => drawProtocolLoop n stk y ci fs x skipX drawn
      -- A heading.
      | true, none => drawProtocolLoop n stk y ci fs x skipX drawn
      | true, some drawRow =>
          -- No connection of the dump has the extension, so the column is left out.
          if !hasBit n.extRcv f.extRcv then drawProtocolLoop n stk y ci fs x skipX drawn
          else do
            let p := ci.ptr f.offset
            let pass ←
              if !f.filterOn then some true
              else if hasBit ci.ext f.extRcv then
                (← f.filterApply).apply (stk f.toFieldInfo) f p
              -- A connection without the extension passes no filter on it.
              else some false
            if !pass then return (true, [])
            else if 0 < skipX ∧ !f.pinned then drawProtocolLoop n stk y ci fs x (skipX - 1) drawn
            else
              let sep := if drawn then nmMvwprintw n.cols y x (bytes " ") else []
              let x := if drawn then x + 1 else x
              let width := columnWidth n.family f.toFieldInfo
              let text :=
                if hasBit ci.ext f.extRcv then drawRow.text f.toFieldInfo p else padLeft width []
              let (rewind, writes) ← drawProtocolLoop n stk y ci fs (x + width) skipX true
              return (rewind, sep ++ nmMvwprintw n.cols y x text ++ writes)

def drawProtocol (s : Sys) (stk : FieldInfo → Ptr) (y : Int) (ci : ConnInfo) :
    Option (Bool × List Write) :=
  drawProtocolLoop s.n stk y ci s.tcpFields 0 s.n.posMain.x false

/-- The loop of `draw_connections` over the column headers. -/
def headerLoop (n : NmCtx) : List Field → Int → Int → Bool → List Write
  | [], _, _, _ => []
  | f :: fs, x, skipX, drawn =>
      if n.cols ≤ x then []
      else if !f.enabled || f.drawRow.isNone || !hasBit n.extRcv f.extRcv then
        headerLoop n fs x skipX drawn
      else if 0 < skipX ∧ !f.pinned then headerLoop n fs x (skipX - 1) drawn
      else
        let attrs := { reverse := true }
        let width := columnWidth n.family f.toFieldInfo
        let sep := if drawn then nmMvwprintw n.cols 0 x (bytes " ") attrs else []
        let x := if drawn then x + 1 else x
        sep ++ nmMvwprintw n.cols 0 x (padRight width (bytes f.header)) attrs
          ++ headerLoop n fs (x + width) skipX true

/-- The loop of `draw_connections` over the connections. -/
def rowLoop (s : Sys) (stk : ConnInfo → FieldInfo → Ptr) :
    List ConnInfo → Int → Int → Option (List Write)
  | [], _, _ => some []
  | ci :: cis, y, skipY =>
      if 0 < skipY then rowLoop s stk cis y (skipY - 1)
      else do
        let (rewind, writes) ← drawProtocol s (stk ci) y ci
        if rewind then
          -- What was drawn of a connection that is filtered out is wiped off again.
          let blank := nmMvwprintw s.n.cols y 0 (padLeft s.n.cols.toNat [])
          return writes ++ blank ++ (← rowLoop s stk cis y skipY)
        else return writes ++ (← rowLoop s stk cis (y + 1) skipY)

/-- The vertical position as `draw_connections` clamps it. -/
def clampY (n : NmCtx) : Int :=
  if 0 < n.nrConns then (if n.nrConns - 1 < n.posMain.y then n.nrConns - 1 else n.posMain.y)
  else if 0 < n.posMain.y then 0 else n.posMain.y

/-- A drawing of `WINDOW_CONN_INFO`: the number of lines it is given, and the writes. -/
structure Frame where
  lines : Int
  writes : List Write
  deriving DecidableEq, Repr

/-- `draw_connections` draws and frees the connections; what `free_sk_proc_map` returns is
ignored. -/
def drawConnections (s : Sys) (stk : ConnInfo → FieldInfo → Ptr) : Option (Frame × Sys) := do
  let y := clampY s.n
  let s := { s with n := { s.n with posMain := { s.n.posMain with y } } }
  let header := headerLoop s.n s.tcpFields 0 s.n.posMain.x false
  let rows ← rowLoop s stk s.n.connList 1 y
  let lines := s.n.nrConns + 1
  let s := { s with n := { s.n with
    connList := []
    nrConns := i32 (s.n.nrConns - s.n.connList.length) } }
  let (_, s) ← freeSkProcMap s true
  return (⟨lines, header ++ rows⟩, s)

/-! ## The fields -/

/-- `draw_header`, for the field `f` at index `idx` of the table. -/
def drawHeader (n : NmCtx) (y : Int) (reverse : Bool) (idx : Int) (f : Field) : List Write :=
  let header := (if f.drawRow.isSome then padLeft else padRight) 25 (bytes f.header)
  let sortMark :=
    if n.sortKey = some idx then (if n.sortAscending then "A" else "D") else " "
  nmMvwprintw n.cols y 0
    (header ++ bytes " " ++ bytes (if f.pinned then "P" else " ") ++ bytes " "
      ++ bytes sortMark ++ bytes " " ++ bytes (if f.filterOn then "F" else " ") ++ bytes " "
      ++ bytes f.desc)
    { bold := f.drawRow.isSome && f.enabled, underline := f.drawRow.isNone, reverse }

/-- The index of the field that `draw_field_header` shows on the row `i` of the table: while a
field is picked up, the field stands at the cursor and those in between make room. -/
def shownIdx (n : NmCtx) (i : Nat) : Int :=
  let y := n.posField.y
  match n.selField with
  | none => i
  | some sel =>
      if sel < y then
        if sel ≤ i ∧ i < y then i + 1 else if (i : Int) = y then sel else i
      else if y < sel then
        if (i : Int) = y then sel else if y < i ∧ i ≤ sel then i - 1 else i
      else i

/-- The rows `is` of the table, from line `y` on, the first `skip` of them left out. -/
def fieldRowLoop (s : Sys) : List Nat → Int → Int → Option (List Write)
  | [], _, _ => some []
  | i :: is, y, skip =>
      if s.n.lines ≤ y then some []
      else if 0 < skip then fieldRowLoop s is y (skip - 1)
      else do
        let idx := shownIdx s.n i
        let f ← s.fieldAt idx
        return drawHeader s.n y (i == s.n.posField.y) idx f ++ (← fieldRowLoop s is (y + 1) skip)

/-- The number of rows scrolled out at the top. -/
def fieldSkip (s : Sys) : Int :=
  let skip := i32 (s.n.posField.y - (s.n.lines - 4).tdiv 2)
  let skip := if skip < 0 then 0 else skip
  -- The last page is filled up; a table shorter than the screen gets a negative `skip`.
  if s.nrTcpFields - skip < s.n.lines - 4 then s.nrTcpFields - (s.n.lines - 4) else skip

/-- What `draw_field_header` prints. -/
def fieldHeaderWrites (s : Sys) : Option (List Write) := do
  let print := fun y text => nmMvwprintw s.n.cols y 0 (bytes text)
  let rows ← fieldRowLoop s (List.range s.tcpFields.length) 4 (fieldSkip s)
  return print 0 "Fields:"
    ++ print 1 "   Right: Select, Up/Down: Move, Left: Done, s: Set sort key,"
    ++ print 2 "   Space: Toggle display, f: Set filter, p: Toggle pinning, q: Quit"
    ++ rows

/-- `draw_field_header` draws and makes the field screen the current one. -/
def drawFieldHeader (s : Sys) : Option Sys := do
  let _ ← fieldHeaderWrites s
  return { s with n := { s.n with curScreen := .field } }

/-- `draw_help`, but for its texts. -/
def drawHelp (s : Sys) : Sys := { s with n := { s.n with curScreen := .help } }

/-! ## The terminal -/

def windowResize (s : Sys) (size : TermSize) : Sys :=
  { s with n := { s.n with lines := size.lines, cols := size.cols } }

end Sockmon

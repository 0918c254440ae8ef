import Sockmon.Field.Draw

set_option autoImplicit false

/-! # Entering a filter

The `fp_*` functions. They read keys from the keyboard, given as the list of the keys to come;
a key pushed back by `ungetch` goes to the front of that list. A function that waits for a key
when the list is empty has no result. `allocs` are the outcomes of the allocations in the
order they are made; those not listed succeed.
-/

namespace Sockmon

/-! ## Key codes -/

def ERR : Key := -1
def KEY_DOWN : Key := 258
def KEY_UP : Key := 259
def KEY_LEFT : Key := 260
def KEY_RIGHT : Key := 261
def KEY_NPAGE : Key := 338
def KEY_PPAGE : Key := 339
def KEY_RESIZE : Key := 410
def KEY_ESC : Key := 27

/-- What a parser leaves behind: its return value, `f->filter` and the keys not read. -/
structure FpResult where
  err : Bool
  filter : Option Filter
  rest : List Key
  deriving DecidableEq, Repr

/-! ## Reading a line -/

/-- Read up to the first key that is no blank. -/
def skipBlanks : List Key → Option (Key × List Key)
  | [] => none
  | ch :: keys => if isBlank ch then skipBlanks keys else some (ch, keys)

/-- Read up to the end of the line. -/
def drain : List Key → Option (List Key)
  | [] => none
  | ch :: keys => if isNewline ch then some keys else drain keys

/-- The result of reading the operator, with the keys that follow: an operator, something
else, or the end of a blank line. -/
inductive OpResult
  | op (op : CmpOp) (keys : List Key)
  | bad (keys : List Key)
  | blank (keys : List Key)
  deriving DecidableEq, Repr

/-- `sizeof(buf)` -/
def bufSize : Nat := 80

/-- The variables of the operand loop at its exit. `buf` holds the characters stored, and
`nul` the index at which the terminating NUL was stored. -/
structure Operand where
  err : Bool
  seenNl : Bool
  seenInput : Bool
  v : Nat
  buf : List UInt8
  nul : Option Nat
  keys : List Key
  deriving DecidableEq, Repr

/-! ## Numbers and strings -/

/-- The operator switch of `fp_common`. -/
def fpCommonOp (keys : List Key) : Option OpResult := do
  let (ch, keys) ← skipBlanks keys
  if ch = key '=' then return .op .eq keys
  else if ch = key '!' then
    match keys with
    | [] => none
    | ch :: keys =>
        if ch = key '=' then return .op .ne keys
        else if ch = key '~' then return .op .nc keys
        -- `ungetch`
        else return .bad (ch :: keys)
  else if ch = key '>' then
    match keys with
    | [] => none
    | ch :: keys => if ch = key '=' then return .op .ge keys else return .op .gt (ch :: keys)
  else if ch = key '<' then
    match keys with
    | [] => none
    | ch :: keys => if ch = key '=' then return .op .le keys else return .op .lt (ch :: keys)
  else if ch = key '~' then return .op .ct keys
  else if isNewline ch then return .blank keys
  else return .bad keys

/-- The operand loop of `fp_common`, for a string field (`str`) or a numeric one. -/
def fpCommonOperand (str : Bool) : List Key → Bool → Nat → List UInt8 → Option Operand
  | [], _, _, _ => none
  | ch :: keys, seenInput, v, buf =>
      -- In a string blanks are characters.
      if !str && isBlank ch then fpCommonOperand str keys seenInput v buf
      else if isNewline ch then
        some ⟨false, true, seenInput, v, buf, if str then some buf.length else none, keys⟩
      else if str then
        if isprint ch then
          -- The check leaves no room for the NUL of a string of `sizeof(buf)` characters.
          if bufSize ≤ buf.length then some ⟨true, false, true, v, buf, none, keys⟩
          else fpCommonOperand str keys true v (buf ++ [(ch.toNat % 256).toUInt8])
        else some ⟨true, false, seenInput, v, buf, none, keys⟩
      else
        if isdigit ch then
          -- `unsigned long long` wraps.
          fpCommonOperand str keys true ((v * 10 + (ch.toNat - 48)) % 18446744073709551616) buf
        else some ⟨true, false, seenInput, v, buf, none, keys⟩

/-- What `fp_common` does after the operand loop: install the filter, or read to the end of the
line. -/
def fpCommonEnd (f : Field) (allocs : List Bool) (str : Bool) (op : CmpOp) (r : Operand) :
    Option FpResult :=
  if !r.err && r.seenNl && r.seenInput then
    if !allocs.getD 0 true then some ⟨true, f.filter, r.keys⟩
    else if str && !allocs.getD 1 true then some ⟨true, f.filter, r.keys⟩
    else some ⟨false, some ⟨op, if str then .s r.buf else .v r.v⟩, r.keys⟩
  -- Here `err` may still be 0: an operator and nothing behind it.
  else if r.seenNl then some ⟨r.err, f.filter, r.keys⟩
  else (drain r.keys).map fun keys => ⟨r.err, f.filter, keys⟩

def fpCommon (f : Field) (allocs : List Bool) (keys : List Key) : Option FpResult := do
  let str : Bool := f.type = .string
  match ← fpCommonOp keys with
  -- A blank line asks for the filter the field has, and fails without one.
  | .blank keys => return ⟨f.filter.isNone, f.filter, keys⟩
  | .bad keys => return ⟨true, f.filter, ← drain keys⟩
  | .op op keys => fpCommonEnd f allocs str op (← fpCommonOperand str keys false 0 [])

/-! ## Addresses -/

/-- The operator switch of `fp_addr`. -/
def fpAddrOp (keys : List Key) : Option OpResult := do
  let (ch, keys) ← skipBlanks keys
  if ch = key '=' then return .op .eq keys
  else if ch = key '!' then
    match keys with
    | [] => none
    | ch :: keys => if ch = key '=' then return .op .ne keys else return .bad (ch :: keys)
  else if isNewline ch then return .blank keys
  else return .bad keys

/-- A character of an address with a prefix length. -/
def isAddrChar (ch : Key) : Bool :=
  isxdigit ch || ch == key ':' || ch == key '.' || ch == key '/'

/-- The operand loop of `fp_addr`. -/
def fpAddrOperand : List Key → Bool → List UInt8 → Option Operand
  | [], _, _ => none
  | ch :: keys, seenInput, buf =>
      if isBlank ch then fpAddrOperand keys seenInput buf
      else if isNewline ch then some ⟨false, true, seenInput, 0, buf, some buf.length, keys⟩
      else if isAddrChar ch then
        if bufSize ≤ buf.length then some ⟨true, false, true, 0, buf, none, keys⟩
        else fpAddrOperand keys true (buf ++ [(ch.toNat % 256).toUInt8])
      else some ⟨true, false, seenInput, 0, buf, none, keys⟩

/-- `strrchr(buf, '/')`: the parts before and after the last slash. -/
def splitSlash (buf : List UInt8) : Option (List UInt8 × List UInt8) :=
  let r := buf.reverse
  if 47 ∈ buf then
    some ((r.dropWhile (· != 47)).tail.reverse, (r.takeWhile (· != 47)).reverse)
  else none

/-- The mask of a prefix of `pfix` bits: whole bytes, then the partial byte bit by bit. -/
def prefixMask (pfix : Nat) : List UInt8 :=
  (List.range 16).map fun i =>
    if i < pfix / 8 then 255
    else if i = pfix / 8 then
      (List.range (pfix % 8)).foldl (fun (m : UInt8) j => m ||| (128 : UInt8) >>> j.toUInt8) 0
    else 0

/-- The address and the mask written in `buf`, or `none` where `fp_addr` goes to `err_out`. -/
def parseAddr (buf : List UInt8) : Option FilterArg := do
  let (host, mask) ←
    match splitSlash buf with
    | some (host, slash) =>
        let (pfix, endp) := strtol slash
        -- Up to 128 bits, whichever family the address will have.
        if endp ≠ [] ∨ pfix < 0 ∨ 128 < pfix then none
        else some (host, prefixMask pfix.toNat)
    | none => some (buf, List.replicate 16 255)
  match inetPton AF_INET host with
  | some addr => return .addr addr mask AF_INET
  | none => return .addr (← inetPton AF_INET6 host) mask AF_INET6

/-- What `fp_addr` does after the operand loop. -/
def fpAddrEnd (f : Field) (allocs : List Bool) (op : CmpOp) (r : Operand) : Option FpResult :=
  if !r.err && r.seenNl && r.seenInput then
    match parseAddr r.buf with
    | none => some ⟨true, f.filter, r.keys⟩
    | some arg =>
        if !allocs.getD 0 true then some ⟨true, f.filter, r.keys⟩
        else some ⟨false, some ⟨op, arg⟩, r.keys⟩
  else if r.seenNl then some ⟨r.err, f.filter, r.keys⟩
  else (drain r.keys).map fun keys => ⟨r.err, f.filter, keys⟩

def fpAddr (f : Field) (allocs : List Bool) (keys : List Key) : Option FpResult := do
  match ← fpAddrOp keys with
  | .blank keys => return ⟨f.filter.isNone, f.filter, keys⟩
  | .bad keys => return ⟨true, f.filter, ← drain keys⟩
  | .op op keys => fpAddrEnd f allocs op (← fpAddrOperand keys false [])

/-! ## Popups of labels -/

/-- The key loop of `fp_str_common`: the cursor row `y` runs from 1 to `height`. -/
def popupLoop (height start : Nat) : List Key → Nat → BitVec 32 → Option (BitVec 32 × List Key)
  | [], _, _ => none
  | ch :: keys, y, selected =>
      if ch = KEY_DOWN then
        popupLoop height start keys (if y < height then y + 1 else y) selected
      else if ch = KEY_UP then
        popupLoop height start keys (if 1 < y then y - 1 else y) selected
      else if ch = key ' ' then
        let i := y - 1 + start
        popupLoop height start keys y
          (if hasBit selected i then selected &&& ~~~bit i else selected ||| bit i)
      else if ch = key 'q' ∨ ch = key 'Q' ∨ ch = KEY_ESC then some (selected, keys)
      else popupLoop height start keys y selected

/-- The selection a popup starts from. -/
def oldSelected (f : Field) : Option (BitVec 32) :=
  match f.filter with
  | some flt => flt.selected
  | none => some 0

/-- `fp_str_common`, with `height` rows for the labels from `start` on. -/
def fpStrCommon (height start : Nat) (f : Field) (allocs : List Bool) (keys : List Key) :
    Option FpResult := do
  let (selected, keys) ← popupLoop height start keys 1 (← oldSelected f)
  if selected ≠ 0 then
    if f.filter.isNone && !allocs.getD 0 true then return ⟨true, f.filter, keys⟩
    else return ⟨false, some ⟨.other, .selected selected⟩, keys⟩
  else
    -- The loop has changed the filter of the field in place.
    return ⟨true, f.filter.map fun flt => { flt with arg := .selected selected }, keys⟩

def fpState := fpStrCommon (stateStr.length - 1) 1
def fpTimer := fpStrCommon timerStr.length 0
def fpShutdown := fpStrCommon (4 - 1) RCV_SHUTDOWN
def fpBool := fpStrCommon 2 0
def fpCaState := fpStrCommon caStateStr.length 0
def fpOptions := fpStrCommon 8 0
def fpFastopenClientFail := fpStrCommon fastopenClientFailStr.length 0
def fpEcnMode := fpStrCommon ecnModeStr.length 0
def fpAccecnOptSeen := fpStrCommon accecnOptSeenStr.length 0
def fpAccecnFailMode := fpStrCommon 4 0

/-- The function `filter_parse` points at. -/
def FilterParse.run : FilterParse → Field → List Bool → List Key → Option FpResult
  | .fpCommon => Sockmon.fpCommon
  | .fpAddr => Sockmon.fpAddr
  | .fpState => Sockmon.fpState
  | .fpTimer => Sockmon.fpTimer
  | .fpShutdown => Sockmon.fpShutdown
  | .fpBool => Sockmon.fpBool
  | .fpCaState => Sockmon.fpCaState
  | .fpOptions => Sockmon.fpOptions
  | .fpFastopenClientFail => Sockmon.fpFastopenClientFail
  | .fpEcnMode => Sockmon.fpEcnMode
  | .fpAccecnOptSeen => Sockmon.fpAccecnOptSeen
  | .fpAccecnFailMode => Sockmon.fpAccecnFailMode

end Sockmon

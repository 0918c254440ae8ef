import Sockmon.Field.Sort

set_option autoImplicit false

/-! # Applying a filter

The `fa_*` functions. They have no result where C gives them none: `f->filter` is null, the
member of the union they read is not the one stored, or a shift count is not below 32. Helpers
that hand the address of a local variable on to a function that may read past it take the
bytes behind that variable, `stk`, as an argument.
-/

namespace Sockmon

/-! ## Numbers -/

/-- `TYPE_OP` -/
def typeOp (op : CmpOp) (data v : Nat) : Bool :=
  match op with
  | .eq => data = v
  | .ne => data ≠ v
  | .gt => data > v
  | .ge => data ≥ v
  | .lt => data < v
  | .le => data ≤ v
  | _ => false

def faCommon (f : Field) (p : Ptr) : Option Bool :=
  let op := fun data => do
    let flt ← f.filter
    return typeOp flt.op data (← flt.v)
  match f.type with
  | .u8 => op (rdU8 p)
  | .u16 => op (rdU16 p)
  | .u16Port => op (rdBe16 p)
  | .u32 => op (rdU32 p)
  | .u64 => op (rdU64 p)
  | _ => some false

/-! ## Selections -/

/-- `f->filter->selected & (1U << i)` -/
def isSelected (f : Field) (i : Nat) : Option Bool := do
  let flt ← f.filter
  let selected ← flt.selected
  if i < 32 then return hasBit selected i else none

def faStrCommon (f : Field) (p : Ptr) : Option Bool :=
  match f.type with
  | .u8 | .boolU8 => isSelected f (rdU8 p)
  | .u16 | .boolU16 => isSelected f (rdU16 p)
  | .u32 | .boolU32 => isSelected f (rdU32 p)
  | .bitU8 nr => isSelected f (if nr < 8 then rdBits p nr 1 else 0)
  | _ => some false

/-- `f->filter->selected == v` -/
def selectedEq (f : Field) (v : Nat) : Option Bool := do
  let flt ← f.filter
  let selected ← flt.selected
  return selected.toNat == v

def faOptions (f : Field) (p : Ptr) : Option Bool := selectedEq f (rdU8 p)

def faAccecnFailMode (f : Field) (p : Ptr) : Option Bool := selectedEq f (rdBits p 4 4)

/-! ## Through a local variable -/

/-- The address of a local variable of `n` bytes that holds `v`, with `stk` behind it. -/
def localVar (n v : Nat) (stk : Ptr) : Ptr := fun i =>
  if i < n then (v / 256 ^ i % 256).toUInt8 else stk i

@[simp] theorem rdU8_localVar (v : Nat) (stk : Ptr) : rdU8 (localVar 1 v stk) = v % 256 := by
  simp [rdU8, localVar]

/-- A variable of eight bytes holds a 64-bit number. -/
theorem rdU64_localVar (v : Nat) (stk : Ptr) :
    rdU64 (localVar 8 v stk) = v % 18446744073709551616 := by
  simp [rdU64, rdU32, rdU16, Ptr.add, localVar]
  omega

def faSndWscale (stk : Ptr) (f : Field) (p : Ptr) : Option Bool :=
  faCommon f (localVar 1 (rdBits p 0 4) stk)

def faRcvWscale (stk : Ptr) (f : Field) (p : Ptr) : Option Bool :=
  faCommon f (localVar 1 (rdBits p 4 4) stk)

def faBbrBw (stk : Ptr) (f : Field) (p : Ptr) : Option Bool :=
  faCommon f (localVar 8 (bbrBw p) stk)

/-- The helper that copies the bit-field of `n` bits at bit `lo` into an `unsigned char`. -/
def faBits (lo n : Nat) (stk : Ptr) (f : Field) (p : Ptr) : Option Bool :=
  faStrCommon f (localVar 1 (rdBits p lo n) stk)

def faDeliveryRateAppLimited := faBits 0 1
def faFastopenClientFail := faBits 1 2
def faEcnMode := faBits 0 2
def faAccecnOptSeen := faBits 2 2
def faBindAddressNoPort := faBits 0 1
def faRecverrRfc4884 := faBits 1 1
def faDeferConnect := faBits 2 1

def faVegasEnabled (stk : Ptr) (f : Field) (p : Ptr) : Option Bool :=
  faStrCommon f (localVar 1 (rdU32 p % 256) stk)

def faDctcpEnabled (stk : Ptr) (f : Field) (p : Ptr) : Option Bool :=
  faStrCommon f (localVar 1 (rdU16 p % 256) stk)

/-! ## Strings and addresses -/

/-- `strstr(s, t) != NULL` -/
def strstr (t : List UInt8) : List UInt8 → Bool
  | [] => t.isEmpty
  | c :: s => t.isPrefixOf (c :: s) || strstr t s

def faString (f : Field) (p : Ptr) : Option Bool := do
  let flt ← f.filter
  let s := cstr p (sizeofConnInfo - f.offset)
  match flt.op with
  | .eq => return s == (← flt.s)
  | .ct => return strstr (← flt.s) s
  | .nc => return !strstr (← flt.s) s
  | _ => return false

def faAddr (f : Field) (family : Nat) (address : Ptr) : Option Bool := do
  let flt ← f.filter
  let (addr, mask, fam) ← flt.addr
  let len := if family = AF_INET then 4 else 16
  let ret :=
    if family ≠ fam then false
    else (List.range len).all fun i =>
      (address i &&& mask.getD i 0) == (addr.getD i 0 &&& mask.getD i 0)
  return if flt.op = .ne then !ret else ret

def faSrc (f : Field) (p : Ptr) : Option Bool :=
  faAddr f (rdU8 (p.add ofInetDiagMsg.idiagFamily))
    (p.add (ofInetDiagMsg.id + ofInetDiagSockid.idiagSrc))

def faDst (f : Field) (p : Ptr) : Option Bool :=
  faAddr f (rdU8 (p.add ofInetDiagMsg.idiagFamily))
    (p.add (ofInetDiagMsg.id + ofInetDiagSockid.idiagDst))

/-- The function `filter_apply` points at. -/
def FilterApply.apply : FilterApply → Ptr → Field → Ptr → Option Bool
  | .faCommon, _ => Sockmon.faCommon
  | .faSrc, _ => Sockmon.faSrc
  | .faDst, _ => Sockmon.faDst
  | .faStrCommon, _ => Sockmon.faStrCommon
  | .faString, _ => Sockmon.faString
  | .faOptions, _ => Sockmon.faOptions
  | .faSndWscale, stk => Sockmon.faSndWscale stk
  | .faRcvWscale, stk => Sockmon.faRcvWscale stk
  | .faDeliveryRateAppLimited, stk => Sockmon.faDeliveryRateAppLimited stk
  | .faFastopenClientFail, stk => Sockmon.faFastopenClientFail stk
  | .faEcnMode, stk => Sockmon.faEcnMode stk
  | .faAccecnOptSeen, stk => Sockmon.faAccecnOptSeen stk
  | .faAccecnFailMode, _ => Sockmon.faAccecnFailMode
  | .faVegasEnabled, stk => Sockmon.faVegasEnabled stk
  | .faDctcpEnabled, stk => Sockmon.faDctcpEnabled stk
  | .faBbrBw, stk => Sockmon.faBbrBw stk
  | .faBindAddressNoPort, stk => Sockmon.faBindAddressNoPort stk
  | .faRecverrRfc4884, stk => Sockmon.faRecverrRfc4884 stk
  | .faDeferConnect, stk => Sockmon.faDeferConnect stk

end Sockmon

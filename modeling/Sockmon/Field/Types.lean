import Sockmon.Basic.ConnInfo

set_option autoImplicit false

/-! # Fields and filters

`struct field` and `struct filter`. A field is its fixed description (`FieldInfo`: header,
type, place in the connection, the functions that draw, sort and filter it) and the part the
user changes. The function pointers of the table are enumerations of the functions they may
point at, so that descriptions can be compared; `none` is the null pointer.
-/

namespace Sockmon

/-- The low byte of `type`; `bitU8 nr` is `TYPE_BIT_U8 | nr << 8`. -/
inductive FieldType
  | s8 | u8 | s16 | u16 | u16Port | s32 | u32 | s64 | u64 | address | string
  | boolU8 | boolU16 | boolU32 | bitU8 (nr : Nat) | other
  deriving DecidableEq, Repr

inductive DrawRow
  | drCommon | drSrc | drDst | drPort | drState | drTimer | drShutdown | drCaState | drOptions
  | drSndWscale | drRcvWscale | drDeliveryRateAppLimited | drFastopenClientFail | drEcnMode
  | drAccecnOptSeen | drAccecnFailMode | drBbrBw | drBindAddressNoPort | drRecverrRfc4884
  | drDeferConnect
  deriving DecidableEq, Repr

inductive SortFunc
  | sortCommon | sortSrc | sortDst | sortPort | sortSndWscale | sortRcvWscale
  | sortDeliveryRateAppLimited | sortFastopenClientFail | sortEcnMode | sortAccecnOptSeen
  | sortAccecnFailMode | sortBbrBw | sortBindAddressNoPort | sortRecverrRfc4884
  | sortDeferConnect
  deriving DecidableEq, Repr

inductive FilterParse
  | fpCommon | fpAddr | fpState | fpTimer | fpShutdown | fpBool | fpCaState | fpOptions
  | fpFastopenClientFail | fpEcnMode | fpAccecnOptSeen | fpAccecnFailMode
  deriving DecidableEq, Repr

inductive FilterApply
  | faCommon | faSrc | faDst | faStrCommon | faString | faOptions | faSndWscale | faRcvWscale
  | faDeliveryRateAppLimited | faFastopenClientFail | faEcnMode | faAccecnOptSeen
  | faAccecnFailMode | faVegasEnabled | faDctcpEnabled | faBbrBw | faBindAddressNoPort
  | faRecverrRfc4884 | faDeferConnect
  deriving DecidableEq, Repr

/-- `enum cmp_op` -/
inductive CmpOp
  | eq | ne | gt | ge | lt | le | ct | nc | other
  deriving DecidableEq, Repr

/-- The member of the union in `struct filter` that was stored. An address has the 4 or 16
bytes of its family; the mask always has 16. -/
inductive FilterArg
  | v (v : Nat)
  | selected (selected : BitVec 32)
  | addr (addr mask : List UInt8) (family : Nat)
  | s (s : List UInt8)
  deriving DecidableEq, Repr

structure Filter where
  op : CmpOp
  arg : FilterArg
  deriving DecidableEq, Repr

/-! The members of the union, which have no value when another one was stored. -/

namespace Filter

/-- `flt->v` -/
def v (flt : Filter) : Option Nat :=
  match flt.arg with
  | .v v => some v
  | _ => none

/-- `flt->selected` -/
def selected (flt : Filter) : Option (BitVec 32) :=
  match flt.arg with
  | .selected w => some w
  | _ => none

/-- `flt->s` -/
def s (flt : Filter) : Option (List UInt8) :=
  match flt.arg with
  | .s s => some s
  | _ => none

/-- `flt->addr`, `flt->mask` and `flt->family` -/
def addr (flt : Filter) : Option (List UInt8 × List UInt8 × Nat) :=
  match flt.arg with
  | .addr a m fam => some (a, m, fam)
  | _ => none

end Filter

/-- The part of `struct field` that no handler writes. -/
structure FieldInfo where
  header : String
  desc : String
  extReq : Nat
  extRcv : Nat
  width : Nat
  type : FieldType
  offset : Nat
  drawRow : Option DrawRow
  sortFunc : Option SortFunc
  filterParse : Option FilterParse
  filterApply : Option FilterApply
  deriving DecidableEq, Repr

/-- `struct field` -/
structure Field extends FieldInfo where
  enabled : Bool
  pinned : Bool
  filterOn : Bool
  filter : Option Filter
  deriving DecidableEq, Repr

end Sockmon

import Sockmon.Field.Table
import Sockmon.Basic.Inet
import Sockmon.Lib.Compare

set_option autoImplicit false

/-! # The comparison functions of the fields

`sort_common` and the `sort_*` functions beside it. Each compares one decoded value of the two
connections, so each is a three-way comparison (`SortFunc.threeWay`); the address functions
are so for connections of one family, since they take the family of the first.
-/

namespace Sockmon

open Compare

/-! ## The functions -/

/-- The string loop of `sort_common`: compare the first difference, a NUL ending each. -/
def sortString : List UInt8 → List UInt8 → Int
  | c₁ :: s₁, c₂ :: s₂ => if c₁ = c₂ then sortString s₁ s₂ else cmp3 (schar c₁) (schar c₂)
  | [], c₂ :: _ => cmp3 0 (schar c₂)
  | c₁ :: _, [] => cmp3 (schar c₁) 0
  | [], [] => 0

def sortCommon (f : FieldInfo) (p₁ p₂ : Ptr) : Int :=
  match f.type with
  | .u8 | .boolU8 => cmp3 (rdU8 p₁) (rdU8 p₂)
  | .u16 | .boolU16 => cmp3 (rdU16 p₁) (rdU16 p₂)
  | .u32 | .boolU32 => cmp3 (rdU32 p₁) (rdU32 p₂)
  | .u64 => cmp3 (rdU64 p₁) (rdU64 p₂)
  | .string =>
      sortString (cstr p₁ (sizeofConnInfo - f.offset)) (cstr p₂ (sizeofConnInfo - f.offset))
  | .bitU8 nr => if nr < 8 then cmp3 (rdBits p₁ nr 1) (rdBits p₂ nr 1) else cmp3 0 0
  | _ => 0

/-- The loop of `sort_address` over the words after the first. -/
def sortAddressLoop (a₁ a₂ : Ptr) : List Nat → Int → Int
  | [], ret => ret
  | i :: is, _ =>
      let ret := cmp3 (rdBe32 (a₁.add (4 * i))) (rdBe32 (a₂.add (4 * i)))
      if ret ≠ 0 then ret else sortAddressLoop a₁ a₂ is ret

/-- `sort_address`: the first word decides for `AF_INET`, all four for any other family. -/
def sortAddress (family : Nat) (a₁ a₂ : Ptr) : Int :=
  let ret := cmp3 (rdBe32 a₁) (rdBe32 a₂)
  if family = AF_INET ∨ ret ≠ 0 then ret else sortAddressLoop a₁ a₂ [1, 2, 3] ret

def sortSrc (_ : FieldInfo) (p₁ p₂ : Ptr) : Int :=
  let src := ofInetDiagMsg.id + ofInetDiagSockid.idiagSrc
  sortAddress (rdU8 (p₁.add ofInetDiagMsg.idiagFamily)) (p₁.add src) (p₂.add src)

def sortDst (_ : FieldInfo) (p₁ p₂ : Ptr) : Int :=
  let dst := ofInetDiagMsg.id + ofInetDiagSockid.idiagDst
  sortAddress (rdU8 (p₁.add ofInetDiagMsg.idiagFamily)) (p₁.add dst) (p₂.add dst)

def sortPort (_ : FieldInfo) (p₁ p₂ : Ptr) : Int := cmp3 (rdBe16 p₁) (rdBe16 p₂)

/-- The comparison of the bit-field of `n` bits at bit `lo`, which many functions make. -/
def sortBits (lo n : Nat) (_ : FieldInfo) (p₁ p₂ : Ptr) : Int :=
  cmp3 (rdBits p₁ lo n) (rdBits p₂ lo n)

def sortSndWscale := sortBits 0 4
def sortRcvWscale := sortBits 4 4
def sortDeliveryRateAppLimited := sortBits 0 1
def sortFastopenClientFail := sortBits 1 2
def sortEcnMode := sortBits 0 2
def sortAccecnOptSeen := sortBits 2 2
def sortAccecnFailMode := sortBits 4 4
def sortBindAddressNoPort := sortBits 0 1
def sortRecverrRfc4884 := sortBits 1 1
def sortDeferConnect := sortBits 2 1

/-- The bandwidth stored as two words, the low one first. -/
def bbrBw (p : Ptr) : Nat := rdU32 (p.add 4) * 4294967296 + rdU32 p

def sortBbrBw (_ : FieldInfo) (p₁ p₂ : Ptr) : Int := cmp3 (bbrBw p₁) (bbrBw p₂)

/-- The function `sort_func` points at. -/
def SortFunc.apply : SortFunc → FieldInfo → Ptr → Ptr → Int
  | .sortCommon => Sockmon.sortCommon
  | .sortSrc => Sockmon.sortSrc
  | .sortDst => Sockmon.sortDst
  | .sortPort => Sockmon.sortPort
  | .sortSndWscale => Sockmon.sortSndWscale
  | .sortRcvWscale => Sockmon.sortRcvWscale
  | .sortDeliveryRateAppLimited => Sockmon.sortDeliveryRateAppLimited
  | .sortFastopenClientFail => Sockmon.sortFastopenClientFail
  | .sortEcnMode => Sockmon.sortEcnMode
  | .sortAccecnOptSeen => Sockmon.sortAccecnOptSeen
  | .sortAccecnFailMode => Sockmon.sortAccecnFailMode
  | .sortBbrBw => Sockmon.sortBbrBw
  | .sortBindAddressNoPort => Sockmon.sortBindAddressNoPort
  | .sortRecverrRfc4884 => Sockmon.sortRecverrRfc4884
  | .sortDeferConnect => Sockmon.sortDeferConnect

/-! ## Each compares a key -/

theorem schar_injective : Function.Injective schar := by
  intro a b h
  have ha := a.toNat_lt
  have hb := b.toNat_lt
  apply UInt8.toNat_inj.mp
  unfold schar at h
  split at h <;> split at h <;> omega

theorem schar_ne_zero {c : UInt8} (h : c ≠ 0) : schar c ≠ 0 := fun h0 =>
  h (schar_injective (h0.trans (by decide : (0 : Int) = schar 0)))

/-- A string as its letters with the terminator, in the order of `char`. -/
def strKey (s : List UInt8) : List Int := s.map schar ++ [0]

theorem sortString_eq {s₁ s₂ : List UInt8} (h₁ : ∀ c ∈ s₁, c ≠ 0) (h₂ : ∀ c ∈ s₂, c ≠ 0) :
    sortString s₁ s₂ = cmp3 (strKey s₁) (strKey s₂) := by
  induction s₁ generalizing s₂ with
  | nil =>
      cases s₂ with
      | nil => exact (cmp3_self _).symm
      | cons c₂ s₂ =>
          have hc : schar c₂ ≠ 0 := schar_ne_zero (h₂ c₂ List.mem_cons_self)
          simp only [sortString, strKey, List.map_nil, List.nil_append, List.map_cons,
            List.cons_append]
          rw [cmp3_cons, if_neg hc.symm]
  | cons c₁ s₁ ih =>
      have hc₁ : schar c₁ ≠ 0 := schar_ne_zero (h₁ c₁ List.mem_cons_self)
      cases s₂ with
      | nil =>
          simp only [sortString, strKey, List.map_nil, List.nil_append, List.map_cons,
            List.cons_append]
          rw [cmp3_cons, if_neg hc₁]
      | cons c₂ s₂ =>
          simp only [sortString, strKey, List.map_cons, List.cons_append]
          rw [cmp3_cons]
          by_cases hc : c₁ = c₂
          · rw [if_pos hc, if_pos (congrArg schar hc)]
            exact ih (fun c hm => h₁ c (List.mem_cons_of_mem c₁ hm))
              fun c hm => h₂ c (List.mem_cons_of_mem c₂ hm)
          · rw [if_neg hc, if_neg fun he => hc (schar_injective he)]

theorem rdBe32_lt (p : Ptr) : rdBe32 p < 4294967296 := by
  have h0 := (p 0).toNat_lt
  have h1 := (p 1).toNat_lt
  have h2 := (p 2).toNat_lt
  have h3 := (p 3).toNat_lt
  simp only [rdBe32, rdBe16, Ptr.add, Nat.reduceAdd]
  omega

/-- The number `sort_address` compares: the first word for `AF_INET`, the 128-bit address in
network order for any other family. -/
def addrKey (family : Nat) (a : Ptr) : Nat :=
  if family = AF_INET then rdBe32 a
  else 4294967296 * (4294967296 * (4294967296 * rdBe32 a + rdBe32 (a.add 4))
    + rdBe32 (a.add 8)) + rdBe32 (a.add 12)

theorem sortAddress_eq (family : Nat) (a₁ a₂ : Ptr) :
    sortAddress family a₁ a₂ = cmp3 (addrKey family a₁) (addrKey family a₂) := by
  unfold sortAddress addrKey
  by_cases hf : family = AF_INET
  · simp [hf]
  · simp only [hf, false_or, if_false, sortAddressLoop]
    rw [cmp3_digits (rdBe32_lt _) (rdBe32_lt _), cmp3_digits (rdBe32_lt _) (rdBe32_lt _),
      cmp3_digits (rdBe32_lt _) (rdBe32_lt _)]
    grind

/-- **Every comparison function is a three-way comparison**, the address functions on
connections of one family. -/
theorem SortFunc.threeWay (g : SortFunc) (f : FieldInfo) (fam : Nat) :
    ThreeWay (fun p => g = .sortSrc ∨ g = .sortDst → rdU8 (p.add ofInetDiagMsg.idiagFamily) = fam)
      (g.apply f) := by
  cases g with
  | sortCommon =>
      cases hf : f.type with
      | u8 | boolU8 =>
          exact threeWay_of_key rdU8 fun a b _ _ => by simp [apply, Sockmon.sortCommon, hf]
      | u16 | boolU16 =>
          exact threeWay_of_key rdU16 fun a b _ _ => by simp [apply, Sockmon.sortCommon, hf]
      | u32 | boolU32 =>
          exact threeWay_of_key rdU32 fun a b _ _ => by simp [apply, Sockmon.sortCommon, hf]
      | u64 => exact threeWay_of_key rdU64 fun a b _ _ => by simp [apply, Sockmon.sortCommon, hf]
      | string =>
          refine threeWay_of_key (fun p => strKey (cstr p (sizeofConnInfo - f.offset)))
            fun a b _ _ => ?_
          simp only [apply, Sockmon.sortCommon, hf]
          exact sortString_eq cstr_ne_zero cstr_ne_zero
      | bitU8 nr =>
          by_cases hn : nr < 8
          · exact threeWay_of_key (rdBits · nr 1) fun a b _ _ => by
              simp [apply, Sockmon.sortCommon, hf, hn]
          · exact threeWay_of_key (fun _ => 0) fun a b _ _ => by
              simp [apply, Sockmon.sortCommon, hf, hn, cmp3_self]
      | s8 | s16 | u16Port | s32 | s64 | address | other =>
          exact threeWay_of_key (fun _ => 0) fun a b _ _ => by
            simp [apply, Sockmon.sortCommon, hf, cmp3_self]
  | sortSrc =>
      refine threeWay_of_key (fun p => addrKey fam
        (p.add (ofInetDiagMsg.id + ofInetDiagSockid.idiagSrc))) fun a b ha _ => ?_
      simp only [apply, Sockmon.sortSrc, sortAddress_eq, ha (Or.inl rfl)]
  | sortDst =>
      refine threeWay_of_key (fun p => addrKey fam
        (p.add (ofInetDiagMsg.id + ofInetDiagSockid.idiagDst))) fun a b ha _ => ?_
      simp only [apply, Sockmon.sortDst, sortAddress_eq, ha (Or.inr rfl)]
  | sortPort => exact threeWay_of_key rdBe16 fun a b _ _ => rfl
  | sortBbrBw => exact threeWay_of_key bbrBw fun a b _ _ => rfl
  | sortSndWscale => exact threeWay_of_key (rdBits · 0 4) fun a b _ _ => rfl
  | sortRcvWscale => exact threeWay_of_key (rdBits · 4 4) fun a b _ _ => rfl
  | sortDeliveryRateAppLimited => exact threeWay_of_key (rdBits · 0 1) fun a b _ _ => rfl
  | sortFastopenClientFail => exact threeWay_of_key (rdBits · 1 2) fun a b _ _ => rfl
  | sortEcnMode => exact threeWay_of_key (rdBits · 0 2) fun a b _ _ => rfl
  | sortAccecnOptSeen => exact threeWay_of_key (rdBits · 2 2) fun a b _ _ => rfl
  | sortAccecnFailMode => exact threeWay_of_key (rdBits · 4 4) fun a b _ _ => rfl
  | sortBindAddressNoPort => exact threeWay_of_key (rdBits · 0 1) fun a b _ _ => rfl
  | sortRecverrRfc4884 => exact threeWay_of_key (rdBits · 1 1) fun a b _ _ => rfl
  | sortDeferConnect => exact threeWay_of_key (rdBits · 2 1) fun a b _ _ => rfl

end Sockmon

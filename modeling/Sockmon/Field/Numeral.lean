import Sockmon.Field.CommonLine
import Sockmon.Field.Numeric

set_option autoImplicit false

/-! # Numerals

`fp_common` reads a numeral of any length into an `unsigned long long`, which wraps. So the
filter compares with the number typed if that is below 2^64 (`numeral_iff`).
-/

namespace Sockmon

open LineScan

/-- The number that digits stand for. -/
def numeral (ks : List Key) : Nat := ks.foldl (fun v ch => v * 10 + (ch.toNat - 48)) 0

/-- The number typed as `w`, in which blanks do not count. -/
def typedNumber (w : List Key) : Nat := numeral (w.filter fun k => !isBlank k)

/-- The line with the operator `op` and the numeral `w` is taken for what it says. -/
structure ReadExactly (f : Field) (op : CmpOp) (w : List Key) : Prop where
  /-- The filter installed compares the value of the field with the number typed. -/
  compares : ∀ bl allocs nl rest flt, (∀ k ∈ bl, isBlank k = true) → isNewline nl = true →
    Installs .fpCommon f allocs (bl ++ (op.keys ++ w) ++ nl :: rest) flt →
    ∃ g, f.filterApply = some g ∧ ∀ (stk : Ptr) (ci : ConnInfo),
      ∃ b, g.apply stk { f with filter := some flt } (ci.ptr f.offset) = some b ∧
        (b = true ↔ op.Holds (f.val ci) (typedNumber w))
  /-- A number that does not fit in 64 bits is an error. -/
  rejects : ∀ bl allocs nl rest r, (∀ k ∈ bl, isBlank k = true) → isNewline nl = true →
    2 ^ 64 ≤ typedNumber w →
    fpCommon f allocs (bl ++ (op.keys ++ w) ++ nl :: rest) = some r → r.err = true

/-- Wrapping at every digit is wrapping once. -/
theorem wrapValue_eq (ks : List Key) : wrapValue ks = numeral ks % 2 ^ 64 := by
  induction ks using List.reverseRecOn with
  | nil => rfl
  | append_singleton ks ch ih =>
      have hnum : numeral (ks ++ [ch]) = numeral ks * 10 + (ch.toNat - 48) := by simp [numeral]
      rw [wrapValue_append, ih, hnum]
      omega

theorem isNumeric_type {f : FieldInfo} (hf : f ∈ tcpFields.map (·.toFieldInfo))
    (hnum : f.isNumeric = true) : f.type ≠ .string ∧ f.type ≠ .address := by
  obtain ⟨k, hk, -, -, -, htype⟩ := tcpFields_numeric f hf hnum
  simp only [numericKinds, List.mem_cons, List.not_mem_nil, or_false] at hk
  rw [htype]
  rcases hk with rfl | rfl | rfl | rfl | rfl | rfl | rfl | rfl <;> simp

section

variable {f : Field} {op : CmpOp} {w : List Key}

/-- What the line of a numeral is read as. -/
theorem commonReading_numeral (hstr : f.type ≠ .string) (haddr : f.type ≠ .address)
    (hop : op ∈ [CmpOp.eq, .ne, .gt, .ge, .lt, .le])
    (hw : ∀ k ∈ w, isBlank k = true ∨ isdigit k = true) (hdigit : ∃ k ∈ w, isdigit k = true)
    {bl : List Key} (hbl : ∀ k ∈ bl, isBlank k = true) :
    commonReading (f.type = .string) (bl ++ (op.keys ++ w)) =
      .new ⟨op, .v (typedNumber w % 2 ^ 64)⟩ := by
  have hbox : op ∈ boxOps f.type := by
    unfold boxOps
    rwa [if_neg haddr, if_neg hstr]
  have hchars : OperandChars f.type w := by
    unfold OperandChars
    rwa [if_neg hstr]
  have hgiven : OperandGiven f.type w := by
    unfold OperandGiven
    rwa [if_neg hstr]
  rw [commonReading_advertised hbl hbox hchars, operandReading_new]
  refine ⟨takes_iff.mpr ⟨hchars, fun ht => absurd ht hstr⟩, (kept_ne_nil_iff hchars).mpr hgiven,
    ?_⟩
  simp only [hstr, decide_false, commonArg, kept_number, wrapValue_eq]
  rfl

theorem isLine_numeral (op : CmpOp) {bl : List Key}
    (hw : ∀ k ∈ w, isBlank k = true ∨ isdigit k = true) (hbl : ∀ k ∈ bl, isBlank k = true) :
    IsLine isNewline (bl ++ (op.keys ++ w)) :=
  isLine_op op hbl (isLine_of_kind (by decide) hw)

/-- The filter that the line of a numeral installs. -/
theorem installs_numeral (hstr : f.type ≠ .string) (haddr : f.type ≠ .address)
    (hop : op ∈ [CmpOp.eq, .ne, .gt, .ge, .lt, .le])
    (hw : ∀ k ∈ w, isBlank k = true ∨ isdigit k = true) (hdigit : ∃ k ∈ w, isdigit k = true)
    {bl rest : List Key} {nl : Key} {allocs : List Bool} {flt : Filter}
    (hbl : ∀ k ∈ bl, isBlank k = true) (hnl : isNewline nl = true)
    (h : Installs .fpCommon f allocs (bl ++ (op.keys ++ w) ++ nl :: rest) flt) :
    flt = ⟨op, .v (typedNumber w % 2 ^ 64)⟩ := by
  obtain ⟨hread, -⟩ := (installs_common (isLine_numeral _ hw hbl) hnl).mp h
  rw [commonReading_numeral hstr haddr hop hw hdigit hbl] at hread
  cases hread
  rfl

end

/-- **Numerals are read exactly** if they fit in 64 bits, and only then. -/
theorem numeral_iff (f : Field) (op : CmpOp) (w : List Key)
    (hf : f.toFieldInfo ∈ tcpFields.map (·.toFieldInfo)) (hnum : f.isNumeric = true)
    (hop : op ∈ [CmpOp.eq, .ne, .gt, .ge, .lt, .le])
    (hw : ∀ k ∈ w, isBlank k = true ∨ isdigit k = true) (hdigit : ∃ k ∈ w, isdigit k = true) :
    ReadExactly f op w ↔ typedNumber w < 2 ^ 64 := by
  obtain ⟨hstr, haddr⟩ := isNumeric_type hf hnum
  constructor
  · intro h
    by_contra hbig
    -- With memory for the filter, the line is accepted.
    have herr := h.rejects [] [] (key '\n') [] _ (by simp) rfl (by omega)
      (fpCommon_line (isLine_numeral _ hw (by simp)) rfl)
    rw [commonReading_numeral hstr haddr hop hw hdigit (by simp)] at herr
    simp [hstr, Reading.result, commonMem] at herr
  · intro hlt
    refine ⟨fun bl allocs nl rest flt hbl hnl hinst => ?_,
      fun bl allocs nl rest r hbl hnl hbig => absurd hlt (by omega)⟩
    have hflt := installs_numeral hstr haddr hop hw hdigit hbl hnl hinst
    rw [Nat.mod_eq_of_lt hlt] at hflt
    obtain ⟨k, hk, hdraw, hsort, hfilter, htype⟩ := tcpFields_numeric f.toFieldInfo hf hnum
    obtain ⟨g, hg, happly⟩ := (oneValue_kind hk hdraw hsort hfilter htype).filter
    refine ⟨g, hg, fun stk ci => ?_⟩
    exact happly { f with filter := some flt } op (typedNumber w) stk ci rfl (by rw [hflt]) hop

/-- The largest number that fits. -/
theorem numeral_iff_largest :
    ReadExactly (tcpFields.getD 4 (heading "" 0)) .eq (typing "18446744073709551615") ↔
      typedNumber (typing "18446744073709551615") < 2 ^ 64 :=
  numeral_iff _ .eq _ (by decide +kernel) (by decide +kernel) (by decide) (by decide)
    ⟨key '1', by decide, by decide⟩

/-- The number 2^64 + 22 is read as 22. -/
theorem numeral_wraps :
    ¬ ∀ (f : Field) (op : CmpOp) (w : List Key), f ∈ tcpFields → f.isNumeric = true →
      op ∈ [CmpOp.eq, .ne, .gt, .ge, .lt, .le] →
      (∀ k ∈ w, isBlank k = true ∨ isdigit k = true) → (∃ k ∈ w, isdigit k = true) →
      ReadExactly f op w := by
  intro h
  have hread := h (tcpFields.getD 4 (heading "" 0)) .eq (typing "18446744073709551638")
    (by decide +kernel) (by decide +kernel) (by decide) (by decide)
    ⟨key '1', by decide, by decide⟩
  have herr := hread.rejects [] [] (key '\n') []
    ⟨false, some ⟨.eq, .v 22⟩, []⟩ (by simp) rfl (by decide) (by decide +kernel)
  cases herr

end Sockmon

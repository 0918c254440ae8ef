import Sockmon.Lib.LineScan
import Sockmon.Field.BareLine

set_option autoImplicit false

/-! # The operator and the operand of a line

`fp_common` and `fp_addr` read an operator and then an operand, character by character. On a
complete line the operator is the first of a list that the line begins with (`fpCommonOp_line`,
`fpAddrOp_line`), and the loops over the operand are readers in the sense of `LineScan`
(`fpCommonOperand_scan`, `fpAddrOperand_scan`).
-/

namespace Sockmon

open LineScan

/-! ## Operators -/

/-- The first of the operators that the keys begin with, and the keys behind it. -/
def readOp : List CmpOp → List Key → Option (CmpOp × List Key)
  | [], _ => none
  | op :: ops, w =>
      if op.keys.isPrefixOf w then some (op, w.drop op.keys.length) else readOp ops w

/-! ## Operands -/

/-- The character that a key is stored as. -/
def keyByte (ch : Key) : UInt8 := (ch.toNat % 256).toUInt8

/-- The number that digits are read as, in an `unsigned long long`. -/
def wrapValue (ks : List Key) : Nat :=
  ks.foldl (fun v ch => (v * 10 + (ch.toNat - 48)) % 18446744073709551616) 0

/-- The operand loop of `fp_common` as a reader. -/
def commonReader (str : Bool) : Reader Key where
  skip ch := !str && isBlank ch
  stop := isNewline
  ok := if str then isprint else isdigit
  cap := if str then some bufSize else none

/-- The operand loop of `fp_addr` as a reader. -/
def addrReader : Reader Key where
  skip := isBlank
  stop := isNewline
  ok := isAddrChar
  cap := some bufSize

/-- The operand that `fp_common` stores for the keys it has not passed over. -/
def commonArg (str : Bool) (ks : List Key) : FilterArg :=
  if str then .s (ks.map keyByte) else .v (wrapValue ks)

/-- The variables of the operand loop of `fp_common` for what its reader has. -/
def commonOperand (str : Bool) (r : Result Key) : Operand where
  err := !r.good
  seenNl := r.good
  seenInput := !r.stored.isEmpty
  v := if str then 0 else wrapValue r.stored
  buf := if str then r.stored.map keyByte else []
  nul := if r.good && str then some r.stored.length else none
  keys := r.rest

/-- The variables of the operand loop of `fp_addr` for what its reader has. -/
def addrOperand (r : Result Key) : Operand where
  err := !r.good
  seenNl := r.good
  seenInput := !r.stored.isEmpty
  v := 0
  buf := r.stored.map keyByte
  nul := if r.good then some r.stored.length else none
  keys := r.rest

theorem isEmpty_append_singleton (ks : List Key) (ch : Key) : (ks ++ [ch]).isEmpty = false := by
  simp

theorem wrapValue_append (ks : List Key) (ch : Key) :
    wrapValue (ks ++ [ch]) = (wrapValue ks * 10 + (ch.toNat - 48)) % 18446744073709551616 := by
  simp [wrapValue]

/-- A full buffer is not empty. -/
theorem isEmpty_of_full {stored : List Key} (h : bufSize ≤ stored.length) :
    stored.isEmpty = false := by
  cases stored with
  | nil => simp [bufSize] at h
  | cons k ks => rfl

theorem fpCommonOperand_string (keys stored : List Key) :
    fpCommonOperand true keys (!stored.isEmpty) 0 (stored.map keyByte) =
      (scan (commonReader true) keys stored).map (commonOperand true) := by
  induction keys generalizing stored with
  | nil => rfl
  | cons ch keys ih =>
      have hskip : (commonReader true).skip ch = false := rfl
      rw [fpCommonOperand, Bool.not_true, Bool.false_and, if_neg (by decide)]
      cases hnl : isNewline ch with
      | true => simp [scan_stop hskip hnl, commonOperand]
      | false =>
          cases hok : isprint ch with
          | false => simp [scan_error hskip hnl hok, commonOperand]
          | true =>
              simp only [Bool.false_eq_true, if_false, if_true, List.length_map]
              by_cases hfull : bufSize ≤ stored.length
              · rw [scan_full hskip hnl hok (decide_eq_true hfull), if_pos hfull]
                simp [commonOperand, isEmpty_of_full hfull]
              · rw [scan_store hskip hnl hok (decide_eq_false hfull), if_neg hfull, ← ih,
                  isEmpty_append_singleton, List.map_append]
                rfl

theorem fpCommonOperand_number (keys stored : List Key) :
    fpCommonOperand false keys (!stored.isEmpty) (wrapValue stored) [] =
      (scan (commonReader false) keys stored).map (commonOperand false) := by
  induction keys generalizing stored with
  | nil => rfl
  | cons ch keys ih =>
      rw [fpCommonOperand, Bool.not_false, Bool.true_and]
      cases hskip : isBlank ch with
      | true => rw [if_pos rfl, scan_skip hskip, ih]
      | false =>
          cases hnl : isNewline ch with
          | true => simp [scan_stop (c := commonReader false) hskip hnl, commonOperand]
          | false =>
              cases hok : isdigit ch with
              | false => simp [scan_error (c := commonReader false) hskip hnl hok, commonOperand]
              | true =>
                  rw [scan_store (c := commonReader false) hskip hnl hok rfl, ← ih,
                    isEmpty_append_singleton, wrapValue_append]
                  rfl

theorem fpCommonOperand_scan (str : Bool) (keys : List Key) :
    fpCommonOperand str keys false 0 [] =
      (scan (commonReader str) keys []).map (commonOperand str) := by
  cases str with
  | true => exact fpCommonOperand_string keys []
  | false => exact fpCommonOperand_number keys []

theorem fpAddrOperand_eq (keys stored : List Key) :
    fpAddrOperand keys (!stored.isEmpty) (stored.map keyByte) =
      (scan addrReader keys stored).map addrOperand := by
  induction keys generalizing stored with
  | nil => rfl
  | cons ch keys ih =>
      rw [fpAddrOperand]
      cases hskip : isBlank ch with
      | true => rw [if_pos rfl, scan_skip hskip, ih]
      | false =>
          cases hnl : isNewline ch with
          | true => simp [scan_stop (c := addrReader) hskip hnl, addrOperand]
          | false =>
              cases hok : isAddrChar ch with
              | false => simp [scan_error (c := addrReader) hskip hnl hok, addrOperand]
              | true =>
                  simp only [Bool.false_eq_true, if_false, if_true, List.length_map]
                  by_cases hfull : bufSize ≤ stored.length
                  · rw [scan_full (c := addrReader) hskip hnl hok (decide_eq_true hfull),
                      if_pos hfull]
                    simp [addrOperand, isEmpty_of_full hfull]
                  · rw [scan_store (c := addrReader) hskip hnl hok (decide_eq_false hfull),
                      if_neg hfull, ← ih, isEmpty_append_singleton, List.map_append]
                    rfl

theorem fpAddrOperand_scan (keys : List Key) :
    fpAddrOperand keys false [] = (scan addrReader keys []).map addrOperand :=
  fpAddrOperand_eq keys []

/-! ## The operator of a line -/

/-- The keys do not begin with a blank. -/
def NoBlank (w : List Key) : Prop := ∀ c ∈ w.head?, isBlank c = false

theorem skipBlanks_cons {c : Key} {w : List Key} (h : isBlank c = false) :
    skipBlanks (c :: w) = some (c, w) := by
  rw [skipBlanks, h, if_neg (by decide)]

theorem newline_cases {nl : Key} (h : isNewline nl = true) : nl = 10 ∨ nl = 13 := by
  simpa [isNewline] using h

section

variable {kind : Key → Bool} {k : Key} {w : List Key}

/-- Characters of a kind that has no newline. -/
theorem isNewline_of_kind (hkind : kind 10 = false ∧ kind 13 = false) (h : kind k = true) :
    isNewline k = false := by
  cases hnl : isNewline k with
  | false => rfl
  | true =>
      rcases newline_cases hnl with rfl | rfl
      · rw [hkind.1] at h
        cases h
      · rw [hkind.2] at h
        cases h

theorem isNewline_of_blank (h : isBlank k = true) : isNewline k = false :=
  isNewline_of_kind (by decide) h

theorem isNewline_of_print (h : isprint k = true) : isNewline k = false :=
  isNewline_of_kind (by decide) h

/-- Such characters and blanks are part of a line. -/
theorem isLine_of_kind (hkind : kind 10 = false ∧ kind 13 = false)
    (h : ∀ k ∈ w, isBlank k = true ∨ kind k = true) : IsLine isNewline w := by
  intro k hk
  rcases h k hk with hb | hkd
  · exact isNewline_of_blank hb
  · exact isNewline_of_kind hkind hkd

/-- An operator with blanks in front of it and part of a line behind it. -/
theorem isLine_op {bl : List Key} (op : CmpOp) (hbl : ∀ k ∈ bl, isBlank k = true)
    (hw : IsLine isNewline w) : IsLine isNewline (bl ++ (op.keys ++ w)) := by
  have hop : IsLine isNewline op.keys := by cases op <;> decide
  exact isLine_append.mpr ⟨fun k hk => isNewline_of_blank (hbl k hk),
    isLine_append.mpr ⟨hop, hw⟩⟩

/-- Printable characters are stored as they are. -/
theorem print_range (h : isprint k = true) : 0 < k ∧ k < 256 := by
  unfold isprint at h
  simp only [Bool.and_eq_true, decide_eq_true_eq] at h
  exact ⟨lt_of_lt_of_le (by decide) h.1, lt_of_le_of_lt h.2 (by decide)⟩

end

theorem newline_ne {nl : Key} (h : isNewline nl = true) :
    nl ≠ 61 ∧ nl ≠ 33 ∧ nl ≠ 62 ∧ nl ≠ 60 ∧ nl ≠ 126 := by
  rcases newline_cases h with rfl | rfl <;> decide

section

attribute [local simp] readOp commonOps addrOps CmpOp.keys key List.isPrefixOf

/-- What `fp_common` reads at the start of a line: the longest operator it knows. -/
theorem fpCommonOp_line {bl w : List Key} (rest : List Key) {nl : Key}
    (hbl : ∀ k ∈ bl, isBlank k = true)
    (hw : NoBlank w) (hline : IsLine isNewline w) (hnl : isNewline nl = true) :
    fpCommonOp (bl ++ (w ++ nl :: rest)) =
      match readOp commonOps w with
      | some (op, w') => some (.op op (w' ++ nl :: rest))
      | none => if w = [] then some (.blank rest) else some (.bad (w.tail ++ nl :: rest)) := by
  have hnls := newline_ne hnl
  unfold fpCommonOp
  rw [skipBlanks_append hbl]
  cases w with
  | nil =>
      rw [List.nil_append, skipBlanks_cons (not_blank_of_newline hnl)]
      simp [hnl, hnls]
  | cons c w =>
      have hcn := (isLine_cons.mp hline).1
      rw [List.cons_append, skipBlanks_cons (hw c rfl)]
      by_cases heq : c = 61
      · simp [heq]
      by_cases hbang : c = 33
      · -- A key behind `!` that makes no operator is pushed back.
        cases w with
        | nil => simp [hbang, hnls]
        | cons d w =>
            by_cases hd : d = 61
            · simp [hbang, hd]
            by_cases hd' : d = 126
            · simp [hbang, hd']
            · simp [hbang, hd, hd', Ne.symm hd, Ne.symm hd']
      by_cases hgt : c = 62
      · cases w with
        | nil => simp [hgt, hnls]
        | cons d w =>
            by_cases hd : d = 61
            · simp [hgt, hd]
            · simp [hgt, hd, Ne.symm hd]
      by_cases hlt : c = 60
      · cases w with
        | nil => simp [hlt, hnls]
        | cons d w =>
            by_cases hd : d = 61
            · simp [hlt, hd]
            · simp [hlt, hd, Ne.symm hd]
      by_cases hct : c = 126
      · simp [hct]
      · simp [heq, hbang, hgt, hlt, hct, hcn, Ne.symm heq, Ne.symm hbang, Ne.symm hgt,
          Ne.symm hlt, Ne.symm hct]

theorem fpAddrOp_line {bl w : List Key} (rest : List Key) {nl : Key}
    (hbl : ∀ k ∈ bl, isBlank k = true)
    (hw : NoBlank w) (hline : IsLine isNewline w) (hnl : isNewline nl = true) :
    fpAddrOp (bl ++ (w ++ nl :: rest)) =
      match readOp addrOps w with
      | some (op, w') => some (.op op (w' ++ nl :: rest))
      | none => if w = [] then some (.blank rest) else some (.bad (w.tail ++ nl :: rest)) := by
  have hnls := newline_ne hnl
  unfold fpAddrOp
  rw [skipBlanks_append hbl]
  cases w with
  | nil =>
      rw [List.nil_append, skipBlanks_cons (not_blank_of_newline hnl)]
      simp [hnl, hnls]
  | cons c w =>
      have hcn := (isLine_cons.mp hline).1
      rw [List.cons_append, skipBlanks_cons (hw c rfl)]
      by_cases heq : c = 61
      · simp [heq]
      by_cases hbang : c = 33
      · cases w with
        | nil => simp [hbang, hnls]
        | cons d w =>
            by_cases hd : d = 61
            · simp [hbang, hd]
            · simp [hbang, hd, Ne.symm hd]
      · simp [heq, hbang, hcn, Ne.symm heq, Ne.symm hbang]

end

end Sockmon

import Sockmon.Field.Reading

set_option autoImplicit false

/-! # The lines that `fp_common` accepts

The box of a filter advertises the operators of the field's type (`boxOps`), and `fp_common`
reads all of `commonOps` whatever the type. So it installs what the box promises, and rejects
the rest, except for an operator of the other type, an operator with nothing behind it, and a
string that is longer than the buffer (`commonLine_iff`).
-/

namespace Sockmon

open LineScan

/-- The operators that `draw_box_with_op` shows: `= !=`, `= ~(contains) !~` or
`= != > >= < <=`. -/
def boxOps (type : FieldType) : List CmpOp :=
  if type = .address then [.eq, .ne]
  else if type = .string then [.eq, .ct, .nc]
  else [.eq, .ne, .gt, .ge, .lt, .le]

/-- Something passes a filter with the operator: with any other one `fa_string` and the switch of
`fa_common` end in their default. -/
def Implements (f : Field) (op : CmpOp) : Prop :=
  if f.type = .string then
    ∃ t p, faString { f with filter := some ⟨op, .s t⟩ } p = some true
  else ∃ data v, typeOp op data v = true

/-- The keys are characters of an operand: printable ones for a string, digits and blanks for a
number. -/
def OperandChars (type : FieldType) (w : List Key) : Prop :=
  if type = .string then ∀ k ∈ w, isprint k = true
  else ∀ k ∈ w, isBlank k = true ∨ isdigit k = true

/-- The operand is not empty. -/
def OperandGiven (type : FieldType) (w : List Key) : Prop :=
  if type = .string then w ≠ [] else ∃ k ∈ w, isdigit k = true

/-- The line is, behind blanks, an operator that the box shows and an operand of the type. -/
def AdvertisedLine (type : FieldType) (line : List Key) : Prop :=
  ∃ bl op w, line = bl ++ (op.keys ++ w) ∧ (∀ k ∈ bl, isBlank k = true) ∧ op ∈ boxOps type ∧
    OperandChars type w ∧ OperandGiven type w

/-- `fp_common` does with the line what the box promises. -/
structure KeepsPromise (f : Field) (line : List Key) : Prop where
  /-- A filter is installed exactly for an advertised line, if there is memory for it. -/
  installs : ∀ allocs nl rest, isNewline nl = true →
    ((∃ flt, Installs .fpCommon f allocs (line ++ nl :: rest) flt) ↔
      AdvertisedLine f.type line ∧ commonMem (f.type = .string) allocs = true)
  /-- Any other line that is not blank is an error. -/
  rejects : ∀ allocs nl rest r, isNewline nl = true → ¬ AdvertisedLine f.type line →
    (∃ k ∈ line, isBlank k = false) →
    fpCommon f allocs (line ++ nl :: rest) = some r → r.err = true
  /-- The filter has an operator that the box shows, and `filter_apply` implements it. -/
  implemented : ∀ allocs nl rest flt, isNewline nl = true →
    Installs .fpCommon f allocs (line ++ nl :: rest) flt →
      flt.op ∈ boxOps f.type ∧ Implements f flt.op

/-- Where the line is an operator of `fp_common` and characters of an operand, at most as many
as the buffer holds of a string, the operator is an advertised one and the operand is not empty;
and no string behind an advertised operator is longer than the buffer. -/
structure PlainLine (type : FieldType) (line : List Key) : Prop where
  advertised : ∀ bl op w, line = bl ++ (op.keys ++ w) → (∀ k ∈ bl, isBlank k = true) →
    op ∈ commonOps → OperandChars type w → (type = .string → w.length ≤ bufSize) →
    op ∈ boxOps type ∧ OperandGiven type w
  short : ∀ bl op w, line = bl ++ (op.keys ++ w) → (∀ k ∈ bl, isBlank k = true) →
    op ∈ boxOps type → OperandChars type w → type = .string → w.length ≤ bufSize

/-! ## Operators and operands -/

theorem boxOps_common {type : FieldType} {op : CmpOp} (h : op ∈ boxOps type) :
    op ∈ commonOps := by
  unfold boxOps at h
  split_ifs at h
  · revert op
    decide
  · revert op
    decide
  · revert op
    decide

theorem cstr_zero (n : Nat) : cstr (fun _ => 0) n = [] := by
  cases n with
  | zero => rfl
  | succ n =>
      unfold cstr Ptr.take
      rw [List.range_succ_eq_map]
      rfl

/-- The operators that the box shows are implemented. -/
theorem implements_of_boxOps {f : Field} {op : CmpOp} (h : op ∈ boxOps f.type) :
    Implements f op := by
  unfold Implements
  by_cases hstr : f.type = .string
  · rw [hstr] at h
    rw [if_pos hstr]
    -- The value is the empty string.
    unfold faString
    cases op with
    | eq => exact ⟨[], fun _ => 0, by rw [cstr_zero]; rfl⟩
    | ct => exact ⟨[], fun _ => 0, by rw [cstr_zero]; rfl⟩
    | nc => exact ⟨[1], fun _ => 0, by rw [cstr_zero]; rfl⟩
    | ne | gt | ge | lt | le | other => exact absurd h (by decide)
  · have hnum : op ∈ [.eq, .ne, .gt, .ge, .lt, .le] := by
      unfold boxOps at h
      rw [if_neg hstr] at h
      split_ifs at h
      · exact List.mem_append_left [.gt, .ge, .lt, .le] h
      · exact h
    rw [if_neg hstr]
    cases op with
    | eq | ge | le => exact ⟨0, 0, rfl⟩
    | ne | lt => exact ⟨0, 1, rfl⟩
    | gt => exact ⟨1, 0, rfl⟩
    | ct | nc | other => exact absurd hnum (by decide)

/-- **Nothing else is implemented**: for a number not `~` and `!~`, for a string not `!=` and the
comparisons. -/
theorem boxOps_of_implements {f : Field} {op : CmpOp} (haddr : f.type ≠ .address)
    (h : Implements f op) : op ∈ boxOps f.type := by
  unfold Implements at h
  unfold boxOps
  rw [if_neg haddr]
  split_ifs at h ⊢
  · obtain ⟨t, p, h⟩ := h
    cases op with
    | eq | ct | nc => decide
    | ne | gt | ge | lt | le | other => cases h
  · obtain ⟨data, v, h⟩ := h
    cases op with
    | eq | ne | gt | ge | lt | le => decide
    | ct | nc | other => cases h

/-- The first key of an operator. -/
theorem exists_opKey {op : CmpOp} (hop : op ∈ commonOps) :
    ∃ c cs, op.keys = c :: cs ∧ isBlank c = false := by
  cases op with
  | other => exact absurd hop (by decide)
  | eq | ne | gt | ge | lt | le | ct | nc => exact ⟨_, _, rfl, rfl⟩

theorem noBlank_op {op : CmpOp} {w : List Key} (hop : op ∈ commonOps) :
    NoBlank (op.keys ++ w) := by
  obtain ⟨c, cs, hkeys, hc⟩ := exists_opKey hop
  rintro d hd
  rw [hkeys, List.cons_append, List.head?_cons] at hd
  cases hd
  exact hc

/-- An operator is read as it stands, unless it is `>` or `<` with a `=` behind it. -/
theorem readOp_keys {op : CmpOp} {w : List Key} (hop : op ∈ commonOps)
    (hw : op = .gt ∨ op = .lt → w.head? ≠ some (key '=')) :
    readOp commonOps (op.keys ++ w) = some (op, w) := by
  cases op with
  | eq | ne | ge | le | ct | nc =>
      simp [readOp, commonOps, CmpOp.keys, key, List.isPrefixOf]
  | gt | lt =>
      have hne := hw (by simp)
      cases w with
      | nil => decide
      | cons c w =>
          have hc : (61 : Key) ≠ c := fun he => hne (by rw [← he]; rfl)
          simp [readOp, commonOps, CmpOp.keys, key, List.isPrefixOf, hc]
  | other => exact absurd hop (by decide)

section

variable {type : FieldType} {w : List Key}

theorem kept_string (w : List Key) : (commonReader true).kept w = w :=
  List.filter_eq_self.mpr (by simp [commonReader])

theorem kept_number (w : List Key) :
    (commonReader false).kept w = w.filter fun k => !isBlank k := rfl

theorem takes_iff : (commonReader (type = .string)).Takes [] w ↔
    OperandChars type w ∧ (type = .string → w.length ≤ bufSize) := by
  unfold Reader.Takes OperandChars
  by_cases ht : type = .string
  · simp only [ht, decide_true, kept_string]
    simp [commonReader]
  · simp only [ht, decide_false, kept_number]
    simp only [commonReader, List.mem_filter, Bool.not_eq_true']
    constructor
    · rintro ⟨h, -⟩
      refine ⟨?_, by simp⟩
      intro k hk
      cases hb : isBlank k with
      | true => exact Or.inl rfl
      | false => exact Or.inr (h k ⟨hk, hb⟩)
    · rintro ⟨h, -⟩
      refine ⟨?_, by simp⟩
      rintro k ⟨hk, hb⟩
      rcases h k hk with hb' | hd
      · rw [hb] at hb'
        cases hb'
      · exact hd

theorem not_blank_of_digit {k : Key} (h : isdigit k = true) : isBlank k = false := by
  unfold isBlank
  simp only [Bool.or_eq_false_iff, beq_eq_false_iff_ne]
  constructor
  · rintro rfl
    exact absurd h (by decide)
  · rintro rfl
    exact absurd h (by decide)

theorem kept_ne_nil_iff (h : OperandChars type w) :
    (commonReader (type = .string)).kept w ≠ [] ↔ OperandGiven type w := by
  unfold OperandGiven
  by_cases ht : type = .string
  · simp only [ht, decide_true, kept_string, if_true]
  · unfold OperandChars at h
    rw [if_neg ht] at h
    simp only [ht, decide_false, kept_number, if_false]
    constructor
    · intro hne
      obtain ⟨k, hk⟩ := List.exists_mem_of_ne_nil _ hne
      obtain ⟨hk, hb⟩ := List.mem_filter.mp hk
      rcases h k hk with hb' | hd
      · simp [hb'] at hb
      · exact ⟨k, hk, hd⟩
    · rintro ⟨k, hk, hd⟩
      refine List.ne_nil_of_mem (List.mem_filter.mpr ⟨hk, ?_⟩)
      rw [not_blank_of_digit hd]
      rfl

/-- Behind `>` or `<` stands no `=` if what stands there is the operand of a number. -/
theorem readOp_operand {op : CmpOp} (hop : op ∈ boxOps type) (hw : OperandChars type w) :
    readOp commonOps (op.keys ++ w) = some (op, w) := by
  refine readOp_keys (boxOps_common hop) fun hgl hhead => ?_
  unfold boxOps at hop
  unfold OperandChars at hw
  split_ifs at hop hw
  · rename_i haddr hstr
    rw [haddr] at hstr
    cases hstr
  · rcases hgl with rfl | rfl <;> exact absurd hop (by decide)
  · rcases hgl with rfl | rfl <;> exact absurd hop (by decide)
  · cases w with
    | nil => cases hhead
    | cons c w =>
        cases hhead
        exact absurd (hw _ List.mem_cons_self) (by decide)

end

/-! ## The promise -/

section

variable {f : Field} {line : List Key}

/-- The reading of an advertised line. -/
theorem commonReading_advertised {bl w : List Key} {op : CmpOp}
    (hbl : ∀ k ∈ bl, isBlank k = true) (hop : op ∈ boxOps f.type) (hw : OperandChars f.type w) :
    commonReading (f.type = .string) (bl ++ (op.keys ++ w)) =
      operandReading (commonReader (f.type = .string))
        (fun ks => some ⟨op, commonArg (f.type = .string) ks⟩) w :=
  lineReading_of_split hbl (noBlank_op (boxOps_common hop)) (readOp_operand hop hw)

/-- A line that is read as an operator, with an operand or without. -/
theorem commonReading_split (f : Field) {line : List Key}
    (hblank : commonReading (f.type = .string) line ≠ .blank)
    (hbad : commonReading (f.type = .string) line ≠ .bad) :
    ∃ bl op w, line = bl ++ (op.keys ++ w) ∧ (∀ k ∈ bl, isBlank k = true) ∧ op ∈ commonOps ∧
      OperandChars f.type w ∧ (f.type = .string → w.length ≤ bufSize) ∧
      commonReading (f.type = .string) line =
        operandReading (commonReader (f.type = .string))
          (fun ks => some ⟨op, commonArg (f.type = .string) ks⟩) w := by
  obtain ⟨bl, op, w, hline, hbl, hop, ht, hread⟩ := lineReading_split hblank hbad
  obtain ⟨hw, hlen⟩ := takes_iff.mp ht
  exact ⟨bl, op, w, hline, hbl, hop, hw, hlen, hread⟩

/-- The filter of a line has the operator and the operand that the line is split into. -/
theorem new_of_reading {op : CmpOp} {w : List Key} {flt : Filter} (hw : OperandChars f.type w)
    (h : operandReading (commonReader (f.type = .string))
      (fun ks => some ⟨op, commonArg (f.type = .string) ks⟩) w = .new flt) :
    flt.op = op ∧ OperandGiven f.type w := by
  obtain ⟨-, hk, hmake⟩ := operandReading_new.mp h
  exact ⟨by rw [← Option.some.inj hmake], (kept_ne_nil_iff hw).mp hk⟩

section

variable (h : PlainLine f.type line)

include h

theorem PlainLine.advertised_of_new {flt : Filter}
    (hread : commonReading (f.type = .string) line = .new flt) :
    AdvertisedLine f.type line ∧ flt.op ∈ boxOps f.type := by
  obtain ⟨bl, op, w, hline, hbl, hop, hw, hlen, heq⟩ :=
    commonReading_split f (ne_of_eq_of_ne hread (by simp)) (ne_of_eq_of_ne hread (by simp))
  rw [hread] at heq
  obtain ⟨hflt, hgiven⟩ := new_of_reading hw heq.symm
  obtain ⟨hbox, -⟩ := h.advertised bl op w hline hbl hop hw hlen
  rw [hflt]
  exact ⟨⟨bl, op, w, hline, hbl, hbox, hw, hgiven⟩, hbox⟩

theorem PlainLine.not_bare : commonReading (f.type = .string) line ≠ .bare := by
  intro hread
  obtain ⟨bl, op, w, hline, hbl, hop, hw, hlen, heq⟩ :=
    commonReading_split f (ne_of_eq_of_ne hread (by simp)) (ne_of_eq_of_ne hread (by simp))
  rw [hread] at heq
  obtain ⟨-, hk⟩ := operandReading_bare.mp heq.symm
  obtain ⟨-, hgiven⟩ := h.advertised bl op w hline hbl hop hw hlen
  exact (kept_ne_nil_iff hw).mpr hgiven hk

theorem PlainLine.new_of_advertised (hadv : AdvertisedLine f.type line) :
    ∃ flt, commonReading (f.type = .string) line = .new flt := by
  obtain ⟨bl, op, w, hline, hbl, hop, hw, hgiven⟩ := hadv
  have hlen := h.short bl op w hline hbl hop hw
  rw [hline, commonReading_advertised hbl hop hw]
  exact ⟨_, operandReading_new.mpr ⟨takes_iff.mpr ⟨hw, hlen⟩, (kept_ne_nil_iff hw).mpr hgiven,
    rfl⟩⟩

end

theorem KeepsPromise.of_plain (hline : IsLine isNewline line) (h : PlainLine f.type line) :
    KeepsPromise f line where
  installs allocs nl rest hnl := by
    constructor
    · rintro ⟨flt, hinst⟩
      obtain ⟨hread, hmem⟩ := (installs_common hline hnl).mp hinst
      exact ⟨(h.advertised_of_new hread).1, hmem⟩
    · rintro ⟨hadv, hmem⟩
      obtain ⟨flt, hread⟩ := h.new_of_advertised hadv
      exact ⟨flt, (installs_common hline hnl).mpr ⟨hread, hmem⟩⟩
  rejects allocs nl rest r hnl hadv hkey hr := by
    rw [fpCommon_line hline hnl] at hr
    cases hr
    cases hread : commonReading (f.type = .string) line with
    | bad => rfl
    | bare => exact absurd hread h.not_bare
    | new flt => exact absurd (h.advertised_of_new hread).1 hadv
    | blank =>
        obtain ⟨k, hk, hnb⟩ := hkey
        have hall := blank_of_lineReading hread k hk
        rw [hnb] at hall
        cases hall
  implemented allocs nl rest flt hnl hinst := by
    obtain ⟨hread, -⟩ := (installs_common hline hnl).mp hinst
    have hbox := (h.advertised_of_new hread).2
    exact ⟨hbox, implements_of_boxOps hbox⟩

section

variable (hline : IsLine isNewline line) (h : KeepsPromise f line)

include hline

theorem installs_iff_new (flt : Filter) :
    Installs .fpCommon f [] (line ++ key '\n' :: []) flt ↔
      commonReading (f.type = .string) line = .new flt := by
  rw [installs_common hline rfl]
  exact and_iff_left (commonMem_nil _)

include h

/-- An operator with nothing behind it is no error, so it would have to be an advertised line,
and install a filter. -/
theorem KeepsPromise.not_bare (hkey : ∃ k ∈ line, isBlank k = false) :
    commonReading (f.type = .string) line ≠ .bare := by
  intro hbare
  have hadv : ¬ AdvertisedLine f.type line := by
    intro hadv
    obtain ⟨flt, hinst⟩ := (h.installs [] (key '\n') [] rfl).mpr
      ⟨hadv, commonMem_nil _⟩
    have hread := (installs_iff_new hline flt).mp hinst
    rw [hbare] at hread
    cases hread
  have herr := h.rejects [] (key '\n') [] _ rfl hadv hkey (fpCommon_line hline rfl)
  rw [hbare] at herr
  cases herr

/-- An operator that is read as it stands, with an operand that is taken, is an advertised one
with an operand. -/
theorem KeepsPromise.of_readOp (op : CmpOp) {bl w : List Key} (hl : line = bl ++ (op.keys ++ w))
    (hbl : ∀ k ∈ bl, isBlank k = true) (hop : op ∈ commonOps)
    (hread : readOp commonOps (op.keys ++ w) = some (op, w)) (hw : OperandChars f.type w)
    (hlen : f.type = .string → w.length ≤ bufSize) :
    op ∈ boxOps f.type ∧ OperandGiven f.type w := by
  have hreading : commonReading (f.type = .string) line =
      operandReading (commonReader (f.type = .string))
        (fun ks => some ⟨op, commonArg (f.type = .string) ks⟩) w := by
    rw [hl]
    exact lineReading_of_split hbl (noBlank_op hop) hread
  have ht := takes_iff.mpr ⟨hw, hlen⟩
  have hkey : ∃ k ∈ line, isBlank k = false := by
    obtain ⟨c, cs, hkeys, hc⟩ := exists_opKey hop
    exact ⟨c, by simp [hl, hkeys], hc⟩
  have hgiven : OperandGiven f.type w := by
    rw [← kept_ne_nil_iff hw]
    intro hnil
    exact h.not_bare hline hkey (hreading.trans (operandReading_bare.mpr ⟨ht, hnil⟩))
  refine ⟨?_, hgiven⟩
  have hnew := hreading.trans
    (operandReading_new.mpr ⟨ht, (kept_ne_nil_iff hw).mpr hgiven, rfl⟩)
  exact (h.implemented [] (key '\n') [] _ rfl ((installs_iff_new hline _).mpr hnew)).1

/-- No operand of `>` or `<` begins with `=`: the line would be read as `>=` or `<=`, which is no
operator of a string. -/
theorem KeepsPromise.not_doubled {op : CmpOp} {bl w : List Key} (hl : line = bl ++ (op.keys ++ w))
    (hbl : ∀ k ∈ bl, isBlank k = true) (hop : op = .gt ∨ op = .lt) (hw : OperandChars f.type w)
    (hlen : f.type = .string → w.length ≤ bufSize) : w.head? ≠ some (key '=') := by
  intro hhead
  obtain ⟨w', rfl⟩ : ∃ w', w = key '=' :: w' := by
    cases w with
    | nil => cases hhead
    | cons c w' =>
        cases hhead
        exact ⟨w', rfl⟩
  have hstr : f.type = .string := by
    by_contra hstr
    unfold OperandChars at hw
    rw [if_neg hstr] at hw
    exact absurd (hw _ List.mem_cons_self) (by decide)
  have hw' : OperandChars f.type w' := by
    unfold OperandChars at hw ⊢
    rw [if_pos hstr] at hw ⊢
    exact fun k hk => hw k (List.mem_cons_of_mem _ hk)
  have hlen' : f.type = .string → w'.length ≤ bufSize := by
    intro ht
    have hle := hlen ht
    rw [List.length_cons] at hle
    omega
  have hno : CmpOp.ge ∉ boxOps f.type ∧ CmpOp.le ∉ boxOps f.type := by
    rw [hstr]
    decide
  rcases hop with rfl | rfl
  · exact hno.1 (h.of_readOp hline .ge hl hbl (by decide) (readOp_keys (by decide) (by simp))
      hw' hlen').1
  · exact hno.2 (h.of_readOp hline .le hl hbl (by decide) (readOp_keys (by decide) (by simp))
      hw' hlen').1

theorem KeepsPromise.plain : PlainLine f.type line where
  advertised bl op w hl hbl hop hw hlen :=
    h.of_readOp hline op hl hbl hop
      (readOp_keys hop fun hgl => h.not_doubled hline hl hbl hgl hw hlen) hw hlen
  short bl op w hl hbl hop hw hstr := by
    -- The line is an advertised one, so it installs a filter, and a longer string is not taken.
    by_contra hlong
    have hne : w ≠ [] := by
      rintro rfl
      exact hlong (Nat.zero_le _)
    have hadv : AdvertisedLine f.type line := by
      refine ⟨bl, op, w, hl, hbl, hop, hw, ?_⟩
      unfold OperandGiven
      rwa [if_pos hstr]
    obtain ⟨flt, hinst⟩ := (h.installs [] (key '\n') [] rfl).mpr
      ⟨hadv, commonMem_nil _⟩
    have hread := (installs_iff_new hline flt).mp hinst
    rw [hl, commonReading_advertised hbl hop hw] at hread
    exact hlong ((takes_iff.mp (operandReading_new.mp hread).1).2 hstr)

end

/-- **What `fp_common` accepts**: it keeps the promise of the box for the plain lines. With a
string of exactly `bufSize` characters the NUL is stored behind `buf` (`Operand.nul`), which is
taken to do no harm here; `buffers_safe_iff` tells when that happens. -/
theorem commonLine_iff (f : Field) (line : List Key) (hline : IsLine isNewline line) :
    KeepsPromise f line ↔ PlainLine f.type line :=
  ⟨KeepsPromise.plain hline, KeepsPromise.of_plain hline⟩

end

/-- The remote port. -/
theorem commonLine_iff_dport :
    KeepsPromise (tcpFields.getD 4 (heading "" 0)) (typing "=22") ↔
      PlainLine (tcpFields.getD 4 (heading "" 0)).type (typing "=22") :=
  commonLine_iff _ _ (by decide)

/-- For a number `~5` is accepted, although the box does not show the operator and
`filter_apply` does not implement it. -/
theorem commonLine_tilde :
    ¬ ∀ (f : Field) (line : List Key), f ∈ tcpFields → f.filterParse = some .fpCommon →
      IsLine isNewline line → KeepsPromise f line := by
  intro h
  have hkeep := h (tcpFields.getD 4 (heading "" 0)) (typing "~5") (by decide +kernel)
    (by decide +kernel) (by decide)
  have himpl := hkeep.implemented [] (key '\n') [] ⟨.ct, .v 5⟩ rfl
    ((installs_common (by decide) rfl).mpr ⟨by decide +kernel, by decide +kernel⟩)
  exact absurd (boxOps_of_implements (by decide +kernel) himpl.2) (by decide +kernel)

end Sockmon

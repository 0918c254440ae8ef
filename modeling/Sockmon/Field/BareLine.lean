import Sockmon.Field.Parse

set_option autoImplicit false

/-! # Lines that install no filter

A parser that returns success has left a filter in the field, except after one kind of line:
an operator with no operand (`BareOperator`). `fp_common` and `fp_addr` then go past the branch
that installs a filter without having set `err`, and a field without a filter stays without
one (`run_bare`).
-/

namespace Sockmon

/-- The keys that type a text. -/
def typing (s : String) : List Key := s.toList.map key

/-- The operators that a parser reads. -/
def FilterParse.operators : FilterParse → List (List Key)
  | .fpCommon => ["=", "!=", "!~", ">", ">=", "<", "<=", "~"].map typing
  | .fpAddr => ["=", "!="].map typing
  | _ => []

/-- The keys typed are an operator and the end of the line. Blanks may stand before and after
the operator; for a string field those after it would be its operand. -/
def BareOperator (fp : FilterParse) (type : FieldType) (typed : List Key) : Prop :=
  ∃ bl op bl' nl rest, typed = bl ++ (op ++ (bl' ++ nl :: rest)) ∧
    (∀ k ∈ bl, isBlank k = true) ∧ op ∈ fp.operators ∧ (∀ k ∈ bl', isBlank k = true) ∧
    (fp = .fpCommon → type = .string → bl' = []) ∧ isNewline nl = true

/-! ## The operator -/

theorem skipBlanks_append {bl ks : List Key} (h : ∀ k ∈ bl, isBlank k = true) :
    skipBlanks (bl ++ ks) = skipBlanks ks := by
  induction bl with
  | nil => rfl
  | cons k bl ih =>
      rw [List.cons_append, skipBlanks, if_pos (h k List.mem_cons_self)]
      exact ih fun k' hk' => h k' (List.mem_cons_of_mem k hk')

theorem skipBlanks_some {keys ks : List Key} {ch : Key} (h : skipBlanks keys = some (ch, ks)) :
    ∃ bl, keys = bl ++ ch :: ks ∧ ∀ k ∈ bl, isBlank k = true := by
  induction keys with
  | nil => cases h
  | cons k keys ih =>
      rw [skipBlanks] at h
      split at h
      · rename_i hk
        obtain ⟨bl, rfl, hbl⟩ := ih h
        refine ⟨k :: bl, rfl, fun k' hk' => ?_⟩
        rcases List.mem_cons.mp hk' with rfl | hk'
        · exact hk
        · exact hbl k' hk'
      · cases h
        exact ⟨[], rfl, by simp⟩

/-- The keys that type an operator. -/
def CmpOp.keys : CmpOp → List Key
  | .eq => [key '=']
  | .ne => [key '!', key '=']
  | .gt => [key '>']
  | .ge => [key '>', key '=']
  | .lt => [key '<']
  | .le => [key '<', key '=']
  | .ct => [key '~']
  | .nc => [key '!', key '~']
  | .other => []

/-- The operators that `fp_common` reads, a longer one before its beginning. -/
def commonOps : List CmpOp := [.ne, .nc, .ge, .le, .eq, .gt, .lt, .ct]

/-- The operators that `fp_addr` reads. -/
def addrOps : List CmpOp := [.ne, .eq]

theorem mem_addrOps {op : CmpOp} : op ∈ addrOps ↔ op = .ne ∨ op = .eq := by
  simp [addrOps]

/-- Behind `>` or `<` there is a key that does not make another operator of it. -/
def NotDoubled (op : CmpOp) (ks : List Key) : Prop :=
  op = .gt ∨ op = .lt → ∃ c cs, ks = c :: cs ∧ c ≠ key '='

theorem commonOps_operators {o : List Key} :
    o ∈ FilterParse.operators .fpCommon ↔ ∃ op ∈ commonOps, op.keys = o := by
  constructor
  · revert o
    decide
  · rintro ⟨op, hop, rfl⟩
    revert op
    decide

theorem addrOps_operators {o : List Key} :
    o ∈ FilterParse.operators .fpAddr ↔ ∃ op ∈ addrOps, op.keys = o := by
  constructor
  · revert o
    decide
  · rintro ⟨op, hop, rfl⟩
    revert op
    decide

/-- `>` and `<` take an `=` behind them. -/
theorem doubled_split {ks ks' : List Key} {op single double : CmpOp}
    (h : (match ks' with
      | [] => none
      | ch :: keys =>
          if ch = key '=' then some (OpResult.op double keys)
          else some (.op single (ch :: keys))) = some (.op op ks)) :
    op = double ∧ ks' = key '=' :: ks ∨
      op = single ∧ ks' = ks ∧ ∃ c cs, ks = c :: cs ∧ c ≠ key '=' := by
  cases ks' with
  | nil => cases h
  | cons ch ks' =>
      dsimp only at h
      split at h
      · rename_i hch
        cases h
        exact Or.inl ⟨rfl, by rw [hch]⟩
      · rename_i hch
        cases h
        exact Or.inr ⟨rfl, rfl, ch, ks', rfl, hch⟩

/-- An operator read by `fp_common` is one of its operators, behind blanks. -/
theorem fpCommonOp_split {keys ks : List Key} {op : CmpOp}
    (h : fpCommonOp keys = some (.op op ks)) :
    ∃ bl, keys = bl ++ (op.keys ++ ks) ∧ (∀ k ∈ bl, isBlank k = true) ∧ op ∈ commonOps ∧
      NotDoubled op ks := by
  obtain ⟨⟨ch, ks'⟩, hsk, hop⟩ := bind_some h
  obtain ⟨bl, rfl, hbl⟩ := skipBlanks_some hsk
  dsimp only at hop
  split at hop
  · rename_i hch
    cases hop
    exact ⟨bl, by rw [hch]; rfl, hbl, by decide, by simp [NotDoubled]⟩
  split at hop
  · rename_i hch
    cases ks' with
    | nil => cases hop
    | cons ch' ks' =>
        dsimp only at hop
        split at hop
        · rename_i hch'
          cases hop
          exact ⟨bl, by rw [hch, hch']; rfl, hbl, by decide, by simp [NotDoubled]⟩
        · split at hop
          · rename_i hch'
            cases hop
            exact ⟨bl, by rw [hch, hch']; rfl, hbl, by decide, by simp [NotDoubled]⟩
          · cases hop
  split at hop
  · rename_i hch
    rcases doubled_split hop with ⟨rfl, rfl⟩ | ⟨rfl, rfl, hne⟩
    · exact ⟨bl, by rw [hch]; rfl, hbl, by decide, by simp [NotDoubled]⟩
    · exact ⟨bl, by rw [hch]; rfl, hbl, by decide, fun _ => hne⟩
  split at hop
  · rename_i hch
    rcases doubled_split hop with ⟨rfl, rfl⟩ | ⟨rfl, rfl, hne⟩
    · exact ⟨bl, by rw [hch]; rfl, hbl, by decide, by simp [NotDoubled]⟩
    · exact ⟨bl, by rw [hch]; rfl, hbl, by decide, fun _ => hne⟩
  split at hop
  · rename_i hch
    cases hop
    exact ⟨bl, by rw [hch]; rfl, hbl, by decide, by simp [NotDoubled]⟩
  split at hop
  · cases hop
  · cases hop

theorem fpCommonOp_of_split {bl ks : List Key} {op : CmpOp} (hbl : ∀ k ∈ bl, isBlank k = true)
    (hop : op ∈ commonOps) (hks : NotDoubled op ks) :
    fpCommonOp (bl ++ (op.keys ++ ks)) = some (.op op ks) := by
  unfold fpCommonOp
  rw [skipBlanks_append hbl]
  cases op with
  | eq | ne | ge | le | ct | nc => rfl
  | gt | lt =>
      obtain ⟨c, cs, rfl, hc⟩ := hks (by simp)
      exact if_neg hc
  | other => exact absurd hop (by decide)

/-- What follows a bare operator is not taken for a part of it. -/
theorem ne_eq_of_blank {c : Key} (h : isBlank c = true ∨ isNewline c = true) : c ≠ key '=' := by
  intro he
  subst he
  revert h
  decide

theorem not_blank_of_newline {nl : Key} (h : isNewline nl = true) : isBlank nl = false := by
  simp only [isNewline, Bool.or_eq_true, beq_iff_eq] at h
  rcases h with rfl | rfl <;> decide

theorem fpAddrOp_split {keys ks : List Key} {op : CmpOp} (h : fpAddrOp keys = some (.op op ks)) :
    ∃ bl, keys = bl ++ (op.keys ++ ks) ∧ (∀ k ∈ bl, isBlank k = true) ∧ op ∈ addrOps := by
  obtain ⟨⟨ch, ks'⟩, hsk, hop⟩ := bind_some h
  obtain ⟨bl, rfl, hbl⟩ := skipBlanks_some hsk
  clear h
  rename' hop => h
  dsimp only at h
  split at h
  · rename_i hch
    cases h
    exact ⟨bl, by rw [hch]; rfl, hbl, by decide⟩
  split at h
  · rename_i hch
    cases ks' with
    | nil => cases h
    | cons ch' ks' =>
        dsimp only at h
        split at h
        · rename_i hch'
          cases h
          exact ⟨bl, by rw [hch, hch']; rfl, hbl, by decide⟩
        · cases h
  split at h
  · cases h
  · cases h

theorem fpAddrOp_of_split {bl ks : List Key} {op : CmpOp} (hbl : ∀ k ∈ bl, isBlank k = true)
    (hop : op ∈ addrOps) : fpAddrOp (bl ++ (op.keys ++ ks)) = some (.op op ks) := by
  unfold fpAddrOp
  rw [skipBlanks_append hbl]
  rcases mem_addrOps.mp hop with rfl | rfl
  · rfl
  · rfl

/-! ## The operand -/

/-- The operand loops leave without an error only at the end of the line, and without input
only if there was nothing but blanks before it. -/
theorem fpCommonOperand_noInput {str : Bool} {ks : List Key} {seenInput : Bool} {v : Nat}
    {buf : List UInt8} {o : Operand} (h : fpCommonOperand str ks seenInput v buf = some o)
    (herr : o.err = false) :
    o.seenNl = true ∧ (o.seenInput = false →
      seenInput = false ∧ ∃ bl nl rest, ks = bl ++ nl :: rest ∧
        (∀ k ∈ bl, isBlank k = true) ∧ (str = true → bl = []) ∧ isNewline nl = true) := by
  induction ks generalizing seenInput v buf with
  | nil => cases h
  | cons ch ks ih =>
      rw [fpCommonOperand] at h
      split at h
      · rename_i hblank
        obtain ⟨hnl, hin⟩ := ih h
        refine ⟨hnl, fun hno => ?_⟩
        obtain ⟨hsi, bl, nl, rest, rfl, hbl, -, hnl'⟩ := hin hno
        simp only [Bool.and_eq_true, Bool.not_eq_true'] at hblank
        refine ⟨hsi, ch :: bl, nl, rest, rfl, fun k hk => ?_, ?_, hnl'⟩
        · rcases List.mem_cons.mp hk with rfl | hk
          · exact hblank.2
          · exact hbl k hk
        · intro hstr
          rw [hblank.1] at hstr
          cases hstr
      split at h
      · rename_i hnl
        cases h
        exact ⟨rfl, fun hno => ⟨hno, [], ch, ks, rfl, by simp, fun _ => rfl, hnl⟩⟩
      split at h
      · split at h
        · split at h
          · cases h; cases herr
          · obtain ⟨hnl, hin⟩ := ih h
            exact ⟨hnl, fun hno => absurd (hin hno).1 (by decide)⟩
        · cases h; cases herr
      · split at h
        · obtain ⟨hnl, hin⟩ := ih h
          exact ⟨hnl, fun hno => absurd (hin hno).1 (by decide)⟩
        · cases h; cases herr

theorem fpCommonOperand_bare {str : Bool} {bl rest : List Key} {nl : Key}
    (hbl : ∀ k ∈ bl, isBlank k = true) (hstr : str = true → bl = [])
    (hnl : isNewline nl = true) :
    fpCommonOperand str (bl ++ nl :: rest) false 0 [] =
      some ⟨false, true, false, 0, [], if str then some 0 else none, rest⟩ := by
  have hnb : isBlank nl = false := not_blank_of_newline hnl
  induction bl with
  | nil =>
      rw [List.nil_append, fpCommonOperand, hnb, Bool.and_false, if_neg (by decide), if_pos hnl]
      rfl
  | cons k bl ih =>
      cases str with
      | true => exact absurd (hstr rfl) (by simp)
      | false =>
          rw [List.cons_append, fpCommonOperand, if_pos (by simp [hbl k List.mem_cons_self])]
          exact ih (fun k' hk' => hbl k' (List.mem_cons_of_mem k hk')) (by simp)

theorem fpAddrOperand_noInput {ks : List Key} {seenInput : Bool} {buf : List UInt8}
    {o : Operand} (h : fpAddrOperand ks seenInput buf = some o) (herr : o.err = false) :
    o.seenNl = true ∧ (o.seenInput = false →
      seenInput = false ∧ ∃ bl nl rest, ks = bl ++ nl :: rest ∧
        (∀ k ∈ bl, isBlank k = true) ∧ isNewline nl = true) := by
  induction ks generalizing seenInput buf with
  | nil => cases h
  | cons ch ks ih =>
      rw [fpAddrOperand] at h
      split at h
      · rename_i hblank
        obtain ⟨hnl, hin⟩ := ih h
        refine ⟨hnl, fun hno => ?_⟩
        obtain ⟨hsi, bl, nl, rest, rfl, hbl, hnl'⟩ := hin hno
        refine ⟨hsi, ch :: bl, nl, rest, rfl, fun k hk => ?_, hnl'⟩
        rcases List.mem_cons.mp hk with rfl | hk
        · exact hblank
        · exact hbl k hk
      split at h
      · rename_i hnl
        cases h
        exact ⟨rfl, fun hno => ⟨hno, [], ch, ks, rfl, by simp, hnl⟩⟩
      split at h
      · split at h
        · cases h; cases herr
        · obtain ⟨hnl, hin⟩ := ih h
          exact ⟨hnl, fun hno => absurd (hin hno).1 (by decide)⟩
      · cases h; cases herr

theorem fpAddrOperand_bare {bl rest : List Key} {nl : Key}
    (hbl : ∀ k ∈ bl, isBlank k = true) (hnl : isNewline nl = true) :
    fpAddrOperand (bl ++ nl :: rest) false [] =
      some ⟨false, true, false, 0, [], some 0, rest⟩ := by
  have hnb : isBlank nl = false := not_blank_of_newline hnl
  induction bl with
  | nil =>
      rw [List.nil_append, fpAddrOperand, hnb, if_neg (by decide), if_pos hnl]
      rfl
  | cons k bl ih =>
      rw [List.cons_append, fpAddrOperand, if_pos (hbl k List.mem_cons_self)]
      exact ih fun k' hk' => hbl k' (List.mem_cons_of_mem k hk')

/-! ## The parsers -/

section

variable {f : Field} {allocs : List Bool} {keys : List Key} {r : FpResult}

/-- What a parser does: read the operator and then, with it, the operand. -/
theorem parser_cases {o : Option OpResult} {operand : List Key → Option Operand}
    {finish : CmpOp → Operand → Option FpResult}
    (h : (o.bind fun
      | .blank keys => some ⟨f.filter.isNone, f.filter, keys⟩
      | .bad keys => (drain keys).bind fun keys => some ⟨true, f.filter, keys⟩
      | .op op keys => (operand keys).bind (finish op)) = some r) :
    (∃ ks, o = some (.blank ks) ∧ r = ⟨f.filter.isNone, f.filter, ks⟩) ∨
      (∃ ks ks', o = some (.bad ks) ∧ r = ⟨true, f.filter, ks'⟩) ∨
        ∃ op ks x, o = some (.op op ks) ∧ operand ks = some x ∧ finish op x = some r := by
  obtain ⟨res, rfl, hr⟩ := bind_some h
  cases res with
  | blank ks =>
      cases hr
      exact Or.inl ⟨ks, rfl, rfl⟩
  | bad ks =>
      obtain ⟨ks', -, hr⟩ := bind_some hr
      cases hr
      exact Or.inr (Or.inl ⟨ks, ks', rfl, rfl⟩)
  | op op ks =>
      obtain ⟨x, hx, hr⟩ := bind_some hr
      exact Or.inr (Or.inr ⟨op, ks, x, rfl, hx, hr⟩)

/-- What a parser leaves behind after the operand `o`: an allocation may fail, or else there is a
new filter, and without a complete operand it returns `err` and leaves the filter of the field. -/
inductive Finished (f : Field) (o : Operand) (r : FpResult) : Prop
  | failed (herr : r.err = true) (hflt : r.filter = f.filter)
  | installed (hok : o.err = false) (hflt : r.filter.isSome)
  | incomplete (hall : (!o.err && o.seenNl && o.seenInput) ≠ true) (herr : r.err = o.err)
      (hflt : r.filter = f.filter)

/-- The end of both parsers if there is no complete operand. -/
theorem finished_incomplete {o : Operand} (hall : (!o.err && o.seenNl && o.seenInput) ≠ true)
    (h : (if o.seenNl then some ⟨o.err, f.filter, o.keys⟩
      else (drain o.keys).map fun keys => ⟨o.err, f.filter, keys⟩) = some r) :
    Finished f o r := by
  split at h
  · cases h
    exact .incomplete hall rfl rfl
  · obtain ⟨ks, -, he⟩ := Option.map_eq_some_iff.mp h
    cases he
    exact .incomplete hall rfl rfl

theorem fpCommonEnd_finished {str : Bool} {op : CmpOp} {o : Operand}
    (h : fpCommonEnd f allocs str op o = some r) : Finished f o r := by
  unfold fpCommonEnd at h
  split at h
  · rename_i hall
    simp only [Bool.and_eq_true, Bool.not_eq_true'] at hall
    split at h
    · cases h
      exact .failed rfl rfl
    split at h
    · cases h
      exact .failed rfl rfl
    · cases h
      exact .installed hall.1.1 rfl
  · rename_i hall
    exact finished_incomplete hall h

theorem fpAddrEnd_finished {op : CmpOp} {o : Operand} (h : fpAddrEnd f allocs op o = some r) :
    Finished f o r := by
  unfold fpAddrEnd at h
  split at h
  · rename_i hall
    simp only [Bool.and_eq_true, Bool.not_eq_true'] at hall
    split at h
    · cases h
      exact .failed rfl rfl
    split at h
    · cases h
      exact .failed rfl rfl
    · cases h
      exact .installed hall.1.1 rfl
  · rename_i hall
    exact finished_incomplete hall h

/-- Success without a filter means that the end of the line came before any input. -/
theorem Finished.noInput {o : Operand} (h : Finished f o r) (herr : r.err = false) :
    o.err = false ∧ (r.filter = none → o.seenNl = true → o.seenInput = false) := by
  cases h with
  | failed herr' hflt =>
      rw [herr] at herr'
      cases herr'
  | installed hok hflt =>
      refine ⟨hok, fun hnone => ?_⟩
      rw [hnone] at hflt
      cases hflt
  | incomplete hall herr' hflt =>
      have hok : o.err = false := herr'.symm.trans herr
      exact ⟨hok, fun _ hnl => by simpa [hok, hnl] using hall⟩

theorem Finished.filter {o : Operand} (h : Finished f o r) :
    r.filter = f.filter ∨ r.filter.isSome := by
  cases h with
  | failed _ hflt => exact Or.inl hflt
  | installed _ hflt => exact Or.inr hflt
  | incomplete _ _ hflt => exact Or.inl hflt

theorem fpCommon_bare (hf : f.filter = none) (h : fpCommon f allocs keys = some r) :
    (r.err = false ∧ r.filter = none) ↔ BareOperator .fpCommon f.type keys := by
  constructor
  · rintro ⟨herr, hnone⟩
    rcases parser_cases h with ⟨ks, -, rfl⟩ | ⟨ks, ks', -, rfl⟩ | ⟨op, ks, o, hop, ho, hend⟩
    · rw [hf] at herr
      cases herr
    · cases herr
    · obtain ⟨bl, rfl, hbl, hmem, -⟩ := fpCommonOp_split hop
      obtain ⟨hoerr, hno⟩ := (fpCommonEnd_finished hend).noInput herr
      obtain ⟨hnl, hin⟩ := fpCommonOperand_noInput ho hoerr
      obtain ⟨-, bl', nl, rest, rfl, hbl', hstr, hnl'⟩ := hin (hno hnone hnl)
      exact ⟨bl, op.keys, bl', nl, rest, rfl, hbl, commonOps_operators.mpr ⟨op, hmem, rfl⟩,
        hbl', fun _ ht => hstr (by simp [ht]), hnl'⟩
  · rintro ⟨bl, w, bl', nl, rest, rfl, hbl, hw, hbl', hstr, hnl⟩
    -- The key behind the operator is a blank or the end of the line.
    obtain ⟨c, cs, hc, hcs⟩ : ∃ c cs, (isBlank c = true ∨ isNewline c = true) ∧
        bl' ++ nl :: rest = c :: cs := by
      cases bl' with
      | nil => exact ⟨nl, rest, Or.inr hnl, rfl⟩
      | cons c cs => exact ⟨c, cs ++ nl :: rest, Or.inl (hbl' c List.mem_cons_self), rfl⟩
    obtain ⟨op, hmem, rfl⟩ := commonOps_operators.mp hw
    have hop : fpCommonOp (bl ++ (op.keys ++ c :: cs)) = some (.op op (c :: cs)) :=
      fpCommonOp_of_split hbl hmem fun _ => ⟨c, cs, rfl, ne_eq_of_blank hc⟩
    have hoperand : fpCommonOperand (decide (f.type = .string)) (bl' ++ nl :: rest) false 0 [] =
        some ⟨false, true, false, 0, [],
          if decide (f.type = .string) then some 0 else none, rest⟩ :=
      fpCommonOperand_bare hbl' (fun ht => hstr rfl (by simpa using ht)) hnl
    rw [← hcs] at hop
    unfold fpCommon at h
    rw [hop] at h
    simp only [Option.bind_eq_bind, Option.bind_some, hoperand] at h
    cases h
    exact ⟨rfl, hf⟩

theorem fpAddr_bare (hf : f.filter = none) (h : fpAddr f allocs keys = some r) :
    (r.err = false ∧ r.filter = none) ↔ BareOperator .fpAddr f.type keys := by
  constructor
  · rintro ⟨herr, hnone⟩
    rcases parser_cases h with ⟨ks, -, rfl⟩ | ⟨ks, ks', -, rfl⟩ | ⟨op, ks, o, hop, ho, hend⟩
    · rw [hf] at herr
      cases herr
    · cases herr
    · obtain ⟨bl, rfl, hbl, hmem⟩ := fpAddrOp_split hop
      obtain ⟨hoerr, hno⟩ := (fpAddrEnd_finished hend).noInput herr
      obtain ⟨hnl, hin⟩ := fpAddrOperand_noInput ho hoerr
      obtain ⟨-, bl', nl, rest, rfl, hbl', hnl'⟩ := hin (hno hnone hnl)
      exact ⟨bl, op.keys, bl', nl, rest, rfl, hbl, addrOps_operators.mpr ⟨op, hmem, rfl⟩, hbl',
        nofun, hnl'⟩
  · rintro ⟨bl, w, bl', nl, rest, rfl, hbl, hw, hbl', -, hnl⟩
    obtain ⟨op, hmem, rfl⟩ := addrOps_operators.mp hw
    have hop : fpAddrOp (bl ++ (op.keys ++ (bl' ++ nl :: rest))) =
        some (.op op (bl' ++ nl :: rest)) := fpAddrOp_of_split hbl hmem
    unfold fpAddr at h
    rw [hop] at h
    simp only [Option.bind_eq_bind, Option.bind_some, fpAddrOperand_bare hbl' hnl] at h
    cases h
    exact ⟨rfl, hf⟩

/-- A popup is left with success only when something is selected, and then there is a filter. -/
theorem fpStrCommon_filter {height start : Nat}
    (h : fpStrCommon height start f allocs keys = some r) (herr : r.err = false) :
    r.filter.isSome := by
  obtain ⟨old, -, h⟩ := bind_some h
  obtain ⟨⟨selected, ks⟩, -, h⟩ := bind_some h
  dsimp only at h
  split at h
  · split at h
    · cases h; cases herr
    · cases h; rfl
  · cases h; cases herr

/-! ## A field that has a filter -/

theorem fpCommon_filter (h : fpCommon f allocs keys = some r) :
    r.filter = f.filter ∨ r.filter.isSome := by
  rcases parser_cases h with ⟨ks, -, rfl⟩ | ⟨ks, ks', -, rfl⟩ | ⟨op, ks, o, -, -, hend⟩
  · exact Or.inl rfl
  · exact Or.inl rfl
  · exact (fpCommonEnd_finished hend).filter

theorem fpAddr_filter (h : fpAddr f allocs keys = some r) :
    r.filter = f.filter ∨ r.filter.isSome := by
  rcases parser_cases h with ⟨ks, -, rfl⟩ | ⟨ks, ks', -, rfl⟩ | ⟨op, ks, o, -, -, hend⟩
  · exact Or.inl rfl
  · exact Or.inl rfl
  · exact (fpAddrEnd_finished hend).filter

/-- The popup writes into the filter the field has. -/
theorem fpStrCommon_keeps {height start : Nat} (hf : f.filter.isSome)
    (h : fpStrCommon height start f allocs keys = some r) : r.filter.isSome := by
  obtain ⟨old, -, h⟩ := bind_some h
  obtain ⟨⟨selected, ks⟩, -, h⟩ := bind_some h
  dsimp only at h
  split at h
  · split at h
    · cases h; exact hf
    · cases h; rfl
  · cases h
    show (f.filter.map _).isSome = true
    rw [Option.isSome_map, hf]

/-- A parser keeps or replaces the filter of a field that has one. -/
theorem FilterParse.run_filter {fp : FilterParse} (hf : f.filter.isSome)
    (h : fp.run f allocs keys = some r) : r.filter.isSome := by
  cases fp with
  | fpCommon =>
      rcases fpCommon_filter h with he | he
      · rw [he]; exact hf
      · exact he
  | fpAddr =>
      rcases fpAddr_filter h with he | he
      · rw [he]; exact hf
      · exact he
  | fpState | fpTimer | fpShutdown | fpBool | fpCaState | fpOptions | fpFastopenClientFail
  | fpEcnMode | fpAccecnOptSeen | fpAccecnFailMode => exact fpStrCommon_keeps hf h

/-- **On a field without a filter a parser succeeds and leaves none exactly after a bare
operator.** -/
theorem FilterParse.run_bare {fp : FilterParse} (hf : f.filter = none)
    (h : fp.run f allocs keys = some r) :
    (r.err = false ∧ r.filter = none) ↔ BareOperator fp f.type keys := by
  cases fp with
  | fpCommon => exact fpCommon_bare hf h
  | fpAddr => exact fpAddr_bare hf h
  | fpState | fpTimer | fpShutdown | fpBool | fpCaState | fpOptions | fpFastopenClientFail
  | fpEcnMode | fpAccecnOptSeen | fpAccecnFailMode =>
      constructor
      · rintro ⟨herr, hnone⟩
        have hsome := fpStrCommon_filter h herr
        rw [hnone] at hsome
        cases hsome
      · rintro ⟨bl, op, bl', nl, rest, -, -, hop, -⟩
        cases hop

end

end Sockmon

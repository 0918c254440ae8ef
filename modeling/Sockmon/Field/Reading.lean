import Sockmon.Field.Line
import Sockmon.System.Input

set_option autoImplicit false

/-! # Reading a line

What `fp_common` and `fp_addr` make of a complete line is a `Reading` of it (`fpCommon_line`,
`fpAddr_line`), which tells what the line installs (`installs_common`, `installs_addr`). They and
`main_delay_handler` leave exactly the keys behind the line (`readers_take_line`).
-/

namespace Sockmon

open LineScan

/-! ## What a line is read as -/

/-- What a parser makes of a line: nothing but blanks, an error, an operator without an operand,
or a filter. -/
inductive Reading
  | blank
  | bad
  | bare
  | new (flt : Filter)
  deriving DecidableEq, Repr

/-- The reading of the operand `w`, from which `make` makes the filter. -/
def operandReading (c : Reader Key) (make : List Key → Option Filter) (w : List Key) : Reading :=
  if c.Takes [] w then
    if c.kept w = [] then .bare
    else
      match make (c.kept w) with
      | some flt => .new flt
      | none => .bad
  else .bad

/-- The reading of a line by a parser with the operators `ops` and the operand loop `c`. -/
def lineReading (ops : List CmpOp) (c : Reader Key) (make : CmpOp → List Key → Option Filter)
    (line : List Key) : Reading :=
  let w := line.dropWhile isBlank
  match readOp ops w with
  | some (op, w) => operandReading c (make op) w
  | none => if w = [] then .blank else .bad

/-- The reading of a line by `fp_common`. -/
def commonReading (str : Bool) : List Key → Reading :=
  lineReading commonOps (commonReader str) fun op ks => some ⟨op, commonArg str ks⟩

/-- The reading of a line by `fp_addr`. -/
def addrReading : List Key → Reading :=
  lineReading addrOps addrReader fun op ks =>
    (parseAddr (ks.map keyByte)).map fun arg => ⟨op, arg⟩

section

variable {ops : List CmpOp} {c : Reader Key} {make : CmpOp → List Key → Option Filter}
  {line w : List Key} {op : CmpOp}

theorem lineReading_op (h : readOp ops (line.dropWhile isBlank) = some (op, w)) :
    lineReading ops c make line = operandReading c (make op) w := by
  unfold lineReading
  dsimp only
  rw [h]

theorem lineReading_blank (h : readOp ops (line.dropWhile isBlank) = none)
    (hline : line.dropWhile isBlank = []) : lineReading ops c make line = .blank := by
  unfold lineReading
  dsimp only
  rw [h]
  exact if_pos hline

theorem lineReading_bad (h : readOp ops (line.dropWhile isBlank) = none)
    (hline : line.dropWhile isBlank ≠ []) : lineReading ops c make line = .bad := by
  unfold lineReading
  dsimp only
  rw [h]
  exact if_neg hline

end

/-- What a parser leaves behind after such a line; `mem` tells whether its allocations succeed. -/
def Reading.result (f : Field) (mem : Bool) (rest : List Key) : Reading → FpResult
  | .blank => ⟨f.filter.isNone, f.filter, rest⟩
  | .bad => ⟨true, f.filter, rest⟩
  | .bare => ⟨false, f.filter, rest⟩
  | .new flt => if mem then ⟨false, some flt, rest⟩ else ⟨true, f.filter, rest⟩

theorem drain_eq (keys : List Key) : drain keys = skipLine isNewline keys := by
  induction keys with
  | nil => rfl
  | cons k keys ih => rw [drain, skipLine, ih]

theorem drain_line {line rest : List Key} {nl : Key} (hline : IsLine isNewline line)
    (hnl : isNewline nl = true) : drain (line ++ nl :: rest) = some rest := by
  rw [drain_eq, skipLine_append hline hnl]

theorem isLine_tail {w : List Key} (h : IsLine isNewline w) : IsLine isNewline w.tail :=
  fun k hk => h k (List.mem_of_mem_tail hk)

theorem isLine_readOp {ops : List CmpOp} {w w' : List Key} {op : CmpOp}
    (h : IsLine isNewline w) (hop : readOp ops w = some (op, w')) : IsLine isNewline w' := by
  induction ops with
  | nil => cases hop
  | cons o ops ih =>
      rw [readOp] at hop
      split at hop
      · cases hop
        exact fun k hk => h k (List.mem_of_mem_drop hk)
      · exact ih hop

section

variable {f : Field} {allocs : List Bool} {line rest : List Key} {nl : Key}

/-- The allocations that `fp_common` makes for a filter succeed. -/
def commonMem (str : Bool) (allocs : List Bool) : Bool :=
  allocs.getD 0 true && (!str || allocs.getD 1 true)

/-- There is memory unless an allocation is said to fail. -/
theorem commonMem_nil (str : Bool) : commonMem str [] = true := by
  cases str <;> rfl

/-- A complete operand is installed if the allocations succeed. -/
theorem fpCommonEnd_read (f : Field) (allocs : List Bool) (str : Bool) (op : CmpOp)
    {r : Operand} (herr : r.err = false) (hseen : r.seenNl = true) (hin : r.seenInput = true) :
    fpCommonEnd f allocs str op r =
      some ((Reading.new ⟨op, if str then .s r.buf else .v r.v⟩).result f (commonMem str allocs)
        r.keys) := by
  unfold fpCommonEnd commonMem Reading.result
  rw [herr, hseen, hin]
  cases allocs.getD 0 true <;> cases str <;> cases allocs.getD 1 true <;> rfl

theorem fpAddrEnd_read {op : CmpOp} {r : Operand} (herr : r.err = false)
    (hseen : r.seenNl = true) (hin : r.seenInput = true) :
    fpAddrEnd f allocs op r =
      some ((match (parseAddr r.buf).map fun arg => (⟨op, arg⟩ : Filter) with
        | some flt => Reading.new flt
        | none => .bad).result f (allocs.getD 0 true) r.keys) := by
  unfold fpAddrEnd
  rw [herr, hseen, hin]
  cases parseAddr r.buf with
  | none => rfl
  | some arg => cases allocs.getD 0 true <;> rfl

/-- What follows the operator does what the reading of the operand tells if that is so for what
a reader has that took the line, and if after an error it goes on to the end of the line. -/
theorem operand_line {c : Reader Key} {make : List Key → Option Filter} {mem : Bool}
    {finish : Result Key → Option FpResult} {w : List Key} (hstop : c.stop = isNewline)
    (hskip : ∀ k, isNewline k = true → c.skip k = false)
    (htaken : ∀ ks, finish ⟨true, ks, rest⟩ = some
      ((if ks = [] then Reading.bare
        else match make ks with
          | some flt => .new flt
          | none => .bad).result f mem rest))
    (herror : ∀ r, r.good = false →
      finish r = (drain r.rest).map fun keys => ⟨true, f.filter, keys⟩)
    (hline : IsLine isNewline w) (hnl : isNewline nl = true) :
    (scan c (w ++ nl :: rest) []).bind finish =
      some ((operandReading c make w).result f mem rest) := by
  rw [← hstop] at hline hnl hskip
  unfold operandReading
  by_cases ht : c.Takes [] w
  · rw [scan_good hskip hline hnl ht, Option.bind_some, List.nil_append, htaken, if_pos ht]
  · -- The error is inside the line, so what is read from there on is the rest of the line.
    obtain ⟨r, line', hr, hgood, hrest, hline'⟩ := scan_bad nl rest hline (by simp) ht
    rw [hstop] at hline' hnl
    rw [hr, Option.bind_some, herror r hgood, hrest, drain_line hline' hnl, if_neg ht]
    rfl

/-- What follows the operator in `fp_common`, on a line. -/
theorem fpCommonEnd_line {str : Bool} {op : CmpOp} {w : List Key} (hline : IsLine isNewline w)
    (hnl : isNewline nl = true) :
    ((fpCommonOperand str (w ++ nl :: rest) false 0 []).bind fun r =>
        fpCommonEnd f allocs str op r) =
      some ((operandReading (commonReader str) (fun ks => some ⟨op, commonArg str ks⟩) w).result
        f (commonMem str allocs) rest) := by
  rw [fpCommonOperand_scan, Option.bind_map]
  refine operand_line rfl (fun k hk => ?_) (fun ks => ?_) (fun r hgood => ?_) hline hnl
  · have hblank : isBlank k = false := not_blank_of_newline hk
    simp [commonReader, hblank]
  · cases ks with
    | nil => simp [commonOperand, fpCommonEnd, Reading.result]
    | cons k ks =>
        have hread := fpCommonEnd_read f allocs str op
          (r := commonOperand str ⟨true, k :: ks, rest⟩) rfl rfl rfl
        rw [Function.comp_apply, hread]
        cases str <;> rfl
  · simp [commonOperand, fpCommonEnd, hgood]

/-- What follows the operator in `fp_addr`, on a line. -/
theorem fpAddrEnd_line {op : CmpOp} {w : List Key} (hline : IsLine isNewline w)
    (hnl : isNewline nl = true) :
    ((fpAddrOperand (w ++ nl :: rest) false []).bind fun r => fpAddrEnd f allocs op r) =
      some ((operandReading addrReader
        (fun ks => (parseAddr (ks.map keyByte)).map fun arg => ⟨op, arg⟩) w).result
        f (allocs.getD 0 true) rest) := by
  rw [fpAddrOperand_scan, Option.bind_map]
  refine operand_line rfl (fun k hk => not_blank_of_newline hk) (fun ks => ?_)
    (fun r hgood => ?_) hline hnl
  · cases ks with
    | nil => simp [addrOperand, fpAddrEnd, Reading.result]
    | cons k ks => exact fpAddrEnd_read rfl rfl rfl
  · simp [addrOperand, fpAddrEnd, hgood]

/-! ## Whole lines -/

/-- The blanks at the start of a line, and the rest. -/
theorem blanks_dropWhile (line : List Key) :
    ∃ bl, line = bl ++ line.dropWhile isBlank ∧ (∀ k ∈ bl, isBlank k = true) ∧
      NoBlank (line.dropWhile isBlank) := by
  refine ⟨line.takeWhile isBlank, List.takeWhile_append_dropWhile.symm, fun k hk => ?_, ?_⟩
  · exact List.mem_takeWhile_imp hk
  · intro c hc
    have hne := List.head?_dropWhile_not isBlank line
    rw [Option.mem_def.mp hc] at hne
    simpa using hne

/-- What stands behind blanks is what is left of them. -/
theorem dropWhile_blanks {bl w : List Key} (hbl : ∀ k ∈ bl, isBlank k = true) (hw : NoBlank w) :
    (bl ++ w).dropWhile isBlank = w := by
  rw [List.dropWhile_append_of_pos hbl]
  cases w with
  | nil => rfl
  | cons c w =>
      have hc : isBlank c = false := hw c rfl
      exact List.dropWhile_cons_of_neg (by simp [hc])

/-- A parser does what the reading of the line tells if its operator is the first of `ops` that
the line begins with, and if what follows the operator does what the reading of the operand
tells. -/
theorem parser_line {ops : List CmpOp} {c : Reader Key}
    {make : CmpOp → List Key → Option Filter} {mem : Bool} {readsOp : List Key → Option OpResult}
    {follow : CmpOp → List Key → Option FpResult}
    (hop : ∀ bl w, (∀ k ∈ bl, isBlank k = true) → NoBlank w → IsLine isNewline w →
      readsOp (bl ++ (w ++ nl :: rest)) =
        match readOp ops w with
        | some (op, w') => some (.op op (w' ++ nl :: rest))
        | none => if w = [] then some (.blank rest) else some (.bad (w.tail ++ nl :: rest)))
    (hfollow : ∀ op w, IsLine isNewline w → follow op (w ++ nl :: rest) =
      some ((operandReading c (make op) w).result f mem rest))
    (hline : IsLine isNewline line) (hnl : isNewline nl = true) :
    ((readsOp (line ++ nl :: rest)).bind fun
      | .blank keys => some ⟨f.filter.isNone, f.filter, keys⟩
      | .bad keys => (drain keys).bind fun keys => some ⟨true, f.filter, keys⟩
      | .op op keys => follow op keys) =
      some ((lineReading ops c make line).result f mem rest) := by
  obtain ⟨bl, hsplit, hbl, hw⟩ := blanks_dropWhile line
  have hlinew : IsLine isNewline (line.dropWhile isBlank) := by
    rw [hsplit] at hline
    exact (isLine_append.mp hline).2
  have hop := hop bl (line.dropWhile isBlank) hbl hw hlinew
  rw [← List.append_assoc, ← hsplit] at hop
  cases hread : readOp ops (line.dropWhile isBlank) with
  | some p =>
      obtain ⟨op, w⟩ := p
      rw [hread] at hop
      rw [hop, lineReading_op hread]
      exact hfollow op w (isLine_readOp hlinew hread)
  | none =>
      rw [hread] at hop
      by_cases hempty : line.dropWhile isBlank = []
      · rw [hop, lineReading_blank hread hempty]
        simp [hempty, Reading.result]
      · rw [hop, lineReading_bad hread hempty]
        simp [hempty, drain_line (isLine_tail hlinew) hnl, Reading.result]

/-- **`fp_common` on a line** does what the reading of the line tells, and reads no key behind
it. -/
theorem fpCommon_line (hline : IsLine isNewline line) (hnl : isNewline nl = true) :
    fpCommon f allocs (line ++ nl :: rest) =
      some ((commonReading (f.type = .string) line).result f
        (commonMem (f.type = .string) allocs) rest) :=
  parser_line (fun _ _ hbl hw hlinew => fpCommonOp_line rest hbl hw hlinew hnl)
    (fun _ _ hlinew => fpCommonEnd_line hlinew hnl) hline hnl

/-- **`fp_addr` on a line.** -/
theorem fpAddr_line (hline : IsLine isNewline line) (hnl : isNewline nl = true) :
    fpAddr f allocs (line ++ nl :: rest) =
      some ((addrReading line).result f (allocs.getD 0 true) rest) :=
  parser_line (fun _ _ hbl hw hlinew => fpAddrOp_line rest hbl hw hlinew hnl)
    (fun _ _ hlinew => fpAddrEnd_line hlinew hnl) hline hnl

end

/-! ## What a line installs -/

/-- Whatever filter the field had, the parser leaves the filter `flt` in it. -/
def Installs (fp : FilterParse) (f : Field) (allocs : List Bool) (keys : List Key)
    (flt : Filter) : Prop :=
  ∀ old, ∃ r, fp.run { f with filter := old } allocs keys = some r ∧ r.filter = some flt

section

variable {f : Field} {allocs : List Bool} {line rest : List Key} {nl : Key} {flt : Filter}

/-- A parser that does what a reading tells installs the filter of the reading, if any. -/
theorem installs_iff {fp : FilterParse} {keys : List Key} {a : Reading} {mem : Bool}
    (h : ∀ old, fp.run { f with filter := old } allocs keys =
      some (a.result { f with filter := old } mem rest)) :
    Installs fp f allocs keys flt ↔ a = .new flt ∧ mem = true := by
  constructor
  · intro hinst
    obtain ⟨r, hr, hflt⟩ := hinst none
    rw [h none] at hr
    cases hr
    cases a with
    | blank | bad | bare => cases hflt
    | new flt' =>
        cases mem with
        | false => cases hflt
        | true =>
            cases hflt
            exact ⟨rfl, rfl⟩
  · rintro ⟨rfl, rfl⟩ old
    exact ⟨_, h old, rfl⟩

theorem installs_common (hline : IsLine isNewline line) (hnl : isNewline nl = true) :
    Installs .fpCommon f allocs (line ++ nl :: rest) flt ↔
      commonReading (f.type = .string) line = .new flt ∧
        commonMem (f.type = .string) allocs = true :=
  installs_iff fun _ => fpCommon_line hline hnl

theorem installs_addr (hline : IsLine isNewline line) (hnl : isNewline nl = true) :
    Installs .fpAddr f allocs (line ++ nl :: rest) flt ↔
      addrReading line = .new flt ∧ allocs.getD 0 true = true :=
  installs_iff fun _ => fpAddr_line hline hnl

end

/-! ## What a reading tells of the line -/

theorem readOp_some {ops : List CmpOp} {w w' : List Key} {op : CmpOp}
    (h : readOp ops w = some (op, w')) : op ∈ ops ∧ w = op.keys ++ w' := by
  induction ops with
  | nil => cases h
  | cons o ops ih =>
      rw [readOp] at h
      split at h
      · rename_i hprefix
        cases h
        obtain ⟨t, rfl⟩ := List.isPrefixOf_iff_prefix.mp hprefix
        exact ⟨List.mem_cons_self, by rw [List.drop_left]⟩
      · obtain ⟨hop, hw⟩ := ih h
        exact ⟨List.mem_cons_of_mem o hop, hw⟩

/-- A line that is read as more than blanks or an error is an operator and an operand. -/
theorem lineReading_split {ops : List CmpOp} {c : Reader Key}
    {make : CmpOp → List Key → Option Filter} {line : List Key}
    (hblank : lineReading ops c make line ≠ .blank) (hbad : lineReading ops c make line ≠ .bad) :
    ∃ bl op w, line = bl ++ (op.keys ++ w) ∧ (∀ k ∈ bl, isBlank k = true) ∧ op ∈ ops ∧
      c.Takes [] w ∧ lineReading ops c make line = operandReading c (make op) w := by
  obtain ⟨bl, hsplit, hbl, -⟩ := blanks_dropWhile line
  cases hread : readOp ops (line.dropWhile isBlank) with
  | none =>
      by_cases hempty : line.dropWhile isBlank = []
      · exact absurd (lineReading_blank hread hempty) hblank
      · exact absurd (lineReading_bad hread hempty) hbad
  | some p =>
      obtain ⟨op, w⟩ := p
      have heq : lineReading ops c make line = operandReading c (make op) w :=
        lineReading_op hread
      obtain ⟨hop, hw⟩ := readOp_some hread
      refine ⟨bl, op, w, by rw [← hw]; exact hsplit, hbl, hop, ?_, heq⟩
      by_contra ht
      rw [heq, operandReading, if_neg ht] at hbad
      exact hbad rfl

/-- The reading of blanks, an operator that is the first to match, and an operand. -/
theorem lineReading_of_split {ops : List CmpOp} {c : Reader Key}
    {make : CmpOp → List Key → Option Filter} {bl w : List Key} {op : CmpOp}
    (hbl : ∀ k ∈ bl, isBlank k = true) (hw : NoBlank (op.keys ++ w))
    (hop : readOp ops (op.keys ++ w) = some (op, w)) :
    lineReading ops c make (bl ++ (op.keys ++ w)) = operandReading c (make op) w := by
  refine lineReading_op ?_
  rw [dropWhile_blanks hbl hw, hop]

theorem operandReading_ne_blank {c : Reader Key} {make : List Key → Option Filter}
    {w : List Key} : operandReading c make w ≠ .blank := by
  unfold operandReading
  split_ifs
  · simp
  · cases make (c.kept w) <;> simp
  · simp

/-- Only blanks are read as a blank line. -/
theorem blank_of_lineReading {ops : List CmpOp} {c : Reader Key}
    {make : CmpOp → List Key → Option Filter} {line : List Key}
    (h : lineReading ops c make line = .blank) : ∀ k ∈ line, isBlank k = true := by
  cases hread : readOp ops (line.dropWhile isBlank) with
  | some p =>
      rw [lineReading_op hread] at h
      exact absurd h operandReading_ne_blank
  | none =>
      by_contra hne
      rw [← List.dropWhile_eq_nil_iff] at hne
      rw [lineReading_bad hread hne] at h
      cases h

theorem operandReading_new {c : Reader Key} {make : List Key → Option Filter} {w : List Key}
    {flt : Filter} : operandReading c make w = .new flt ↔
      c.Takes [] w ∧ c.kept w ≠ [] ∧ make (c.kept w) = some flt := by
  unfold operandReading
  split_ifs with ht hk
  · simp [hk]
  · cases make (c.kept w) <;> simp [ht, hk]
  · simp [ht]

theorem operandReading_bare {c : Reader Key} {make : List Key → Option Filter} {w : List Key} :
    operandReading c make w = .bare ↔ c.Takes [] w ∧ c.kept w = [] := by
  unfold operandReading
  split_ifs with ht hk
  · simp [ht, hk]
  · cases make (c.kept w) <;> simp [hk]
  · simp [ht]

/-! ## What is left behind a line -/

/-- The first loop of `main_delay_handler` ends with the line or inside it. -/
theorem delayLoop_line {line : List Key} (rest : List Key) {nl : Key}
    (hline : IsLine isNewline line) (hnl : isNewline nl = true) (delay : Int) :
    ∃ d seenNl ks, delayLoop (line ++ nl :: rest) delay = some (d, seenNl, ks) ∧
      (seenNl = true → ks = rest) ∧
      (seenNl = false → ∃ line', ks = line' ++ nl :: rest ∧ IsLine isNewline line') := by
  induction line generalizing delay with
  | nil =>
      have hdigit : isdigit nl = false := by
        rcases newline_cases hnl with rfl | rfl <;> decide
      exact ⟨delay, true, rest, by simp [delayLoop, hdigit, hnl], fun _ => rfl, by simp⟩
  | cons k line ih =>
      obtain ⟨hk, hline⟩ := isLine_cons.mp hline
      rw [List.cons_append, delayLoop, hk]
      cases hdigit : isdigit k with
      | false => exact ⟨delay, false, _, by simp, by simp, fun _ => ⟨line, rfl, hline⟩⟩
      | true =>
          rw [if_pos rfl]
          dsimp only
          split
          · exact ⟨_, false, _, rfl, by simp, fun _ => ⟨line, rfl, hline⟩⟩
          · exact ih hline _

theorem mainDelayHandler_line {line rest : List Key} {nl : Key} (hline : IsLine isNewline line)
    (hnl : isNewline nl = true) (s : Sys) :
    ∃ t, mainDelayHandler s (line ++ nl :: rest) = some (t, rest) := by
  obtain ⟨d, seenNl, ks, hloop, hseen, hinside⟩ := delayLoop_line rest hline hnl 0
  unfold mainDelayHandler
  rw [hloop]
  simp only [Option.bind_eq_bind, Option.bind_some]
  cases seenNl with
  | true =>
      rw [if_pos rfl, hseen rfl]
      split
      · exact ⟨s, rfl⟩
      · exact ⟨_, rfl⟩
  | false =>
      obtain ⟨line', rfl, hline'⟩ := hinside rfl
      rw [drain_line hline' hnl]
      exact ⟨s, rfl⟩

/-- **The three readers take a line**: from a stream with a newline in it exactly the keys up to
the first newline are read. Of an operand of exactly `bufSize` characters the NUL is stored behind
`buf` (`Operand.nul`, `buffers_safe_iff`); that this changes nothing is taken for granted. -/
theorem readers_take_line (keys : List Key) (h : ∃ k ∈ keys, isNewline k = true) :
    ∃ line nl rest, keys = line ++ nl :: rest ∧ IsLine isNewline line ∧ isNewline nl = true ∧
      (∀ f allocs, ∃ r, fpCommon f allocs keys = some r ∧ r.rest = rest) ∧
      (∀ f allocs, ∃ r, fpAddr f allocs keys = some r ∧ r.rest = rest) ∧
      ∀ s, ∃ t, mainDelayHandler s keys = some (t, rest) := by
  obtain ⟨line, nl, rest, rfl, hline, hnl⟩ := exists_line h
  have hrest : ∀ (f : Field) (mem : Bool) (a : Reading), (a.result f mem rest).rest = rest := by
    intro f mem a
    cases a with
    | blank | bad | bare => rfl
    | new flt => cases mem <;> rfl
  refine ⟨line, nl, rest, rfl, hline, hnl, fun f allocs => ?_, fun f allocs => ?_, fun s => ?_⟩
  · exact ⟨_, fpCommon_line hline hnl, hrest f _ _⟩
  · exact ⟨_, fpAddr_line hline hnl, hrest f _ _⟩
  · exact mainDelayHandler_line hline hnl s

/-- A key that makes no operator is pushed back, here the newline itself. -/
theorem readers_take_bang :
    ∃ line nl rest, typing "!\nq" = line ++ nl :: rest ∧ IsLine isNewline line ∧
      isNewline nl = true ∧
      (∀ f allocs, ∃ r, fpCommon f allocs (typing "!\nq") = some r ∧ r.rest = rest) ∧
      (∀ f allocs, ∃ r, fpAddr f allocs (typing "!\nq") = some r ∧ r.rest = rest) ∧
      ∀ s, ∃ t, mainDelayHandler s (typing "!\nq") = some (t, rest) :=
  readers_take_line (typing "!\nq") (by decide)

end Sockmon

import Mathlib.Data.UInt
import Sockmon.Draw.Columns
import Sockmon.Field.Numeric
import Sockmon.Basic.InetNtop

set_option autoImplicit false

/-! # Numbers in the connection list

`printf` takes the width of a field for a minimum, but the columns are counted by it. A longer
number runs into the separator and the column behind it, and these are printed over it: what
stays in its own column are the leading digits, which read as another number. A column shows
its number if and only if the digits fit (`readsNumber_iff`).
-/

namespace Sockmon

open Layout

/-- The columns `[x, x + width)` of line `y` read as `v` in decimal, aligned to the right. -/
def ReadsNumber (ws : List Write) (y x : Int) (width v : Nat) : Prop :=
  (List.range width).map (fun (j : Nat) => screen ws (y, x + j)) =
    (padLeft width (digits v)).map some

instance (ws : List Write) (y x : Int) (width v : Nat) :
    Decidable (ReadsNumber ws y x width v) :=
  inferInstanceAs (Decidable (_ = _))

/-- The numeric cells of the connection that are drawn in full. -/
def numberCells (s : Sys) (ci : ConnInfo) : List (Field × Int) :=
  (columns s).filter fun c => c.1.isNumeric && hasBit ci.ext c.1.extRcv &&
    decide (c.2 + columnWidth s.n.family c.1.toFieldInfo ≤ s.n.cols)

/-- The row `w` shows every number that has its columns inside the window. -/
def NumbersWhole (s : Sys) (y : Int) (ci : ConnInfo) (w : List Write) : Prop :=
  ∀ c ∈ numberCells s ci,
    ReadsNumber w y c.2 (columnWidth s.n.family c.1.toFieldInfo) (c.1.val ci)

/-- None of them has more digits than its field is wide. -/
def NumbersFit (s : Sys) (ci : ConnInfo) : Prop :=
  ∀ c ∈ numberCells s ci, c.1.val ci < 10 ^ c.1.width

/-! ## One column -/

section

variable {cols y x : Int} {text : List UInt8} {attrs : Attrs}

/-- The characters of a text that is printed inside the window. -/
theorem screen_nmMvwprintw {j : Nat} (hj : j < 4095) (hcols : x + j < cols) :
    screen (nmMvwprintw cols y x text attrs) (y, x + j) = text[j]? := by
  have hleft : ¬ cols - x ≤ 0 := by omega
  have hpos : (x + (j : Int) - x).toNat = j := by omega
  have hle : x ≤ x + (j : Int) := by omega
  unfold nmMvwprintw
  dsimp only
  rw [if_neg hleft, screen_singleton, Write.char, if_pos ⟨rfl, hle⟩, hpos,
    List.getElem?_take, List.getElem?_take]
  by_cases hlen : j < text.length
  · rw [if_pos (by omega), if_pos hj]
  · rw [List.getElem?_eq_none (by omega)]
    simp

end

section

variable {s : Sys} {y : Int} {attrs : Attrs} {text : Field → List UInt8} {c : Field × Int}

/-- **Each column keeps its text**: those to its right start behind it. -/
theorem screen_column (hc : c ∈ columns s) {j : Nat}
    (hj : j < columnWidth s.n.family c.1.toFieldInfo) (hwidth : j < 4095)
    (hcols : c.2 + j < s.n.cols) (htext : j < (text c.1).length) :
    screen ((columns s).flatMap (columnWrites s.n y attrs text)) (y, c.2 + j) =
      (text c.1)[j]? := by
  have hpair := columns_pairwise s
  obtain ⟨left, right, hsplit⟩ := List.append_of_mem hc
  have hright : Inside s.n.cols y (c.2 + columnWidth s.n.family c.1.toFieldInfo)
      (right.flatMap (columnWrites s.n y attrs text)) := by
    intro v hv
    obtain ⟨d, hd, hv⟩ := List.mem_flatMap.mp hv
    rw [hsplit] at hpair
    have hlt := List.rel_of_pairwise_cons (List.pairwise_append.mp hpair).2.1 hd
    exact columnWrites_inside hlt.le (fun _ => hlt) v hv
  have hbehind := hright.screen_outside (p := (y, c.2 + j)) (Or.inl (by dsimp only; omega))
  have hown : screen (columnWrites s.n y attrs text c) (y, c.2 + j) = (text c.1)[j]? := by
    rw [columnWrites, screen_append, screen_nmMvwprintw hwidth hcols,
      List.getElem?_eq_getElem htext]
    rfl
  rw [hsplit, List.flatMap_append, List.flatMap_cons, screen_append, screen_append, hbehind,
    hown, List.getElem?_eq_getElem htext]
  rfl

end

/-! ## Numbers -/

theorem tcpFields_numericWidth : ∀ f ∈ tcpFields.map (·.toFieldInfo), f.isNumeric = true →
    f.extRcv ≠ INET_DIAG_ADDRESS ∧ 0 < f.width ∧ f.width < 4095 := by
  decide +kernel

theorem cellText_number {n : NmCtx} {ci : ConnInfo} {f : Field}
    (hf : f.toFieldInfo ∈ tcpFields.map (·.toFieldInfo)) (hnum : f.isNumeric = true)
    (hext : hasBit ci.ext f.extRcv = true) :
    cellText n ci f = padLeft f.width (digits (f.val ci)) := by
  obtain ⟨k, hk, hdraw, hsort, hfilter, htype⟩ := tcpFields_numeric _ hf hnum
  obtain ⟨g, hg, htext⟩ := (oneValue_kind hk hdraw hsort hfilter htype).draw
  unfold cellText
  rw [if_pos hext, hg]
  exact htext ci

theorem length_padLeft (width : Nat) (t : List UInt8) :
    (padLeft width t).length = max width t.length := by
  unfold padLeft
  rw [List.length_append, List.length_replicate]
  omega

/-- A column of the padded width that keeps its text shows the number if its digits fit. -/
theorem readsNumber_iff_of_cells {ws : List Write} {y x : Int} {width v : Nat}
    (h : ∀ j : Nat, j < width → screen ws (y, x + j) = (padLeft width (digits v))[j]?) :
    ReadsNumber ws y x width v ↔ (digits v).length ≤ width := by
  have hlen := length_padLeft width (digits v)
  unfold ReadsNumber
  constructor
  · intro hreads
    have hlens := congrArg List.length hreads
    rw [List.length_map, List.length_map, List.length_range, hlen] at hlens
    omega
  · intro hfits
    refine List.ext_getElem ?_ fun j hj hj' => ?_
    · rw [List.length_map, List.length_map, List.length_range, hlen]
      omega
    · rw [List.length_map] at hj'
      rw [List.getElem_map, List.getElem_map, List.getElem_range,
        h j (by simpa using hj), List.getElem?_eq_getElem hj']

/-- **A column shows its number** exactly if the digits fit. -/
theorem readsNumber_iff {s : Sys} {stk : FieldInfo → Ptr} {y : Int} {ci : ConnInfo}
    {w : List Write} (h : drawProtocol s stk y ci = some (false, w)) {c : Field × Int}
    (hc : c ∈ numberCells s ci) (hf : c.1.toFieldInfo ∈ tcpFields.map (·.toFieldInfo)) :
    ReadsNumber w y c.2 (columnWidth s.n.family c.1.toFieldInfo) (c.1.val ci) ↔
      c.1.val ci < 10 ^ c.1.width := by
  obtain ⟨hcolumn, htest⟩ := List.mem_filter.mp hc
  rw [Bool.and_eq_true, Bool.and_eq_true, decide_eq_true_eq] at htest
  obtain ⟨⟨hnum, hext⟩, hinside⟩ := htest
  obtain ⟨haddr, hpos, hmax⟩ := tcpFields_numericWidth _ hf hnum
  have hwidth : columnWidth s.n.family c.1.toFieldInfo = c.1.width := if_neg haddr
  have hrow := drawProtocol_row h
  have hcells : ∀ j : Nat, j < c.1.width →
      screen w (y, c.2 + j) = (padLeft c.1.width (digits (c.1.val ci)))[j]? := by
    intro j hj
    have hlen := length_padLeft c.1.width (digits (c.1.val ci))
    have htext := cellText_number (n := s.n) hf hnum hext
    rw [hrow, ← htext]
    rw [hwidth] at hinside
    exact screen_column hcolumn (by omega) (by omega) (by omega) (by rw [htext]; omega)
  rw [hwidth, readsNumber_iff_of_cells hcells]
  exact length_digits_le hpos

/-- **A row shows its numbers in full** if and only if none of them is too long for its field. -/
theorem numbersWhole_iff {s : Sys} {stk : FieldInfo → Ptr} {y : Int} {ci : ConnInfo}
    {w : List Write} (htable : ∀ f ∈ s.tcpFields, f.toFieldInfo ∈ tcpFields.map (·.toFieldInfo))
    (h : drawProtocol s stk y ci = some (false, w)) :
    NumbersWhole s y ci w ↔ NumbersFit s ci := by
  have hcell : ∀ c ∈ numberCells s ci,
      (ReadsNumber w y c.2 (columnWidth s.n.family c.1.toFieldInfo) (c.1.val ci) ↔
        c.1.val ci < 10 ^ c.1.width) := by
    intro c hc
    have hshown : c.1 ∈ (columns s).map (·.1) := List.mem_map_of_mem (List.mem_filter.mp hc).1
    rw [columns_fst] at hshown
    have hmem := List.mem_filter.mp ((scroll_sublist _ _ _).mem hshown)
    exact readsNumber_iff h hc (htable c.1 hmem.1)
  exact forall₂_congr hcell

/-- A receive queue and a local port side by side. -/
def Sys.rqueue : Sys :=
  { Start.quiet.state with
    n := { Start.quiet.state.n with extRcv := bit INET_DIAG_NONE }
    tcpFields := [Sockmon.tcpFields.getD 6 (heading "" 0),
      Sockmon.tcpFields.getD 2 (heading "" 0)] }

/-- A connection with 54919 bytes to be received, and 65536 for each unit of `high`. -/
def ConnInfo.rqueue (high : UInt8) : ConnInfo :=
  { ConnInfo.zero with
    img := fun i => if i = 80 then 135 else if i = 81 then 214 else if i = 82 then high else 0
    ext := bit INET_DIAG_NONE }

/-- Five digits fit into the six columns. -/
theorem numbersWhole_rqueue :
    ∃ w, drawProtocol Sys.rqueue (fun _ => 0) 1 (ConnInfo.rqueue 0) = some (false, w) ∧
      NumbersWhole Sys.rqueue 1 (ConnInfo.rqueue 0) w := by
  have hdrawn : (drawProtocol Sys.rqueue (fun _ => 0) 1 (ConnInfo.rqueue 0)).map (·.1) =
      some false := by decide +kernel
  have hfit : ∀ c ∈ numberCells Sys.rqueue (ConnInfo.rqueue 0),
      c.1.val (ConnInfo.rqueue 0) < 10 ^ c.1.width := by decide +kernel
  obtain ⟨⟨rewind, w⟩, hw, hrewind⟩ := Option.map_eq_some_iff.mp hdrawn
  obtain rfl : rewind = false := hrewind
  exact ⟨w, hw, (numbersWhole_iff (by decide +kernel) hw).mpr hfit⟩

/-- The row of 1234567 bytes, where the columns of the queue read 123456. -/
def rqueueRow : List Write :=
  ((drawProtocol Sys.rqueue (fun _ => 0) 1 (ConnInfo.rqueue 18)).getD (true, [])).2

/-- A number of seven digits loses its last one to the separator. -/
theorem number_shortened : ¬ ∀ (s : Sys) (stk : FieldInfo → Ptr) (y : Int) (ci : ConnInfo)
    (w : List Write), (∀ f ∈ s.tcpFields, f.toFieldInfo ∈ tcpFields.map (·.toFieldInfo)) →
    drawProtocol s stk y ci = some (false, w) → NumbersWhole s y ci w := by
  intro h
  have hdraw : drawProtocol Sys.rqueue (fun _ => 0) 1 (ConnInfo.rqueue 18) =
      some (false, rqueueRow) := by decide +kernel
  have hwhole := h Sys.rqueue (fun _ => 0) 1 (ConnInfo.rqueue 18) rqueueRow (by decide +kernel)
    hdraw
  have hcell : (Sockmon.tcpFields.getD 6 (heading "" 0), 0) ∈
      numberCells Sys.rqueue (ConnInfo.rqueue 18) := by decide +kernel
  have hcolumns : (List.range 6).map (fun (j : Nat) => screen rqueueRow (1, 0 + j)) =
      (bytes "123456").map some := by decide +kernel
  have hreads := hwhole _ hcell
  have hwhole' : (bytes "123456").map some = (bytes "1234567").map some :=
    hcolumns.symm.trans hreads
  exact absurd hwhole' (by decide)

end Sockmon

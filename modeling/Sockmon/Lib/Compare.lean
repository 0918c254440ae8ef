import Mathlib.Tactic
import Mathlib.Order.Lattice
import Mathlib.Data.List.Lex

set_option autoImplicit false

/-! # Three-way comparison functions

A comparison function in the manner of C returns an integer whose sign orders its arguments.
`ThreeWay S c` says that on the elements of `S` these signs are those of a total preorder.
Comparing keys taken from a linear order by `cmp3` is one (`threeWay_of_key`), which is how a
program's comparison functions are shown to be.
-/

namespace Compare

variable {α κ : Type*}

/-- `(a < b) ? -1 : (a > b)` -/
def cmp3 [LinearOrder κ] (a b : κ) : Int := if a < b then -1 else if b < a then 1 else 0

section cmp3

variable [LinearOrder κ]

theorem cmp3_swap (a b : κ) : cmp3 b a = -cmp3 a b := by
  unfold cmp3
  rcases lt_trichotomy a b with h | h | h
  · simp [h, not_lt_of_gt h]
  · simp [h]
  · simp [h, not_lt_of_gt h]

theorem cmp3_nonpos {a b : κ} : cmp3 a b ≤ 0 ↔ a ≤ b := by
  unfold cmp3
  by_cases h : b < a
  · simp [h, not_lt_of_gt h]
  · rw [if_neg h]
    have : a ≤ b := not_lt.mp h
    split <;> simp [this]

@[simp] theorem cmp3_eq_zero {a b : κ} : cmp3 a b = 0 ↔ a = b := by
  unfold cmp3
  rcases lt_trichotomy a b with h | h | h
  · simp [h, ne_of_lt h]
  · simp [h]
  · simp [h, not_lt_of_gt h, ne_of_gt h]

theorem cmp3_self (a : κ) : cmp3 a a = 0 := cmp3_eq_zero.mpr rfl

end cmp3

/-- The signs of `c` on `S` are those of a total preorder. -/
structure ThreeWay (S : α → Prop) (c : α → α → Int) : Prop where
  swap : ∀ {a b}, S a → S b → c b a = -c a b
  trans : ∀ {a b d}, S a → S b → S d → c a b ≤ 0 → c b d ≤ 0 → c a d ≤ 0

/-- A function that compares keys is a three-way comparison. -/
theorem threeWay_of_key [LinearOrder κ] {S : α → Prop} {c : α → α → Int} (k : α → κ)
    (h : ∀ a b, S a → S b → c a b = cmp3 (k a) (k b)) : ThreeWay S c where
  swap ha hb := by rw [h _ _ hb ha, h _ _ ha hb, cmp3_swap]
  trans ha hb hd hab hbd := by
    rw [h _ _ ha hb, cmp3_nonpos] at hab
    rw [h _ _ hb hd, cmp3_nonpos] at hbd
    rw [h _ _ ha hd, cmp3_nonpos]
    exact le_trans hab hbd

/-- Comparing in the other direction. -/
theorem ThreeWay.neg {S : α → Prop} {c : α → α → Int} (h : ThreeWay S c) :
    ThreeWay S fun a b => -c a b where
  swap ha hb := congrArg Neg.neg (h.swap ha hb)
  trans ha hb hd hab hbd := by
    rw [← h.swap ha hb] at hab
    rw [← h.swap hb hd] at hbd
    rw [← h.swap ha hd]
    exact h.trans hd hb ha hbd hab

/-- Comparing parts. -/
theorem ThreeWay.comap {β : Type*} {T : α → Prop} {S : β → Prop} {c : α → α → Int}
    (h : ThreeWay T c) (φ : β → α) (hφ : ∀ b, S b → T (φ b)) :
    ThreeWay S fun a b => c (φ a) (φ b) where
  swap ha hb := h.swap (hφ _ ha) (hφ _ hb)
  trans ha hb hd := h.trans (hφ _ ha) (hφ _ hb) (hφ _ hd)

/-! ## Comparison digit by digit and letter by letter -/

/-- The leading digits decide, in base `n`. -/
theorem digits_lt {n a b a' b' : Nat} (hb : b < n) (h : a < a') : n * a + b < n * a' + b' := by
  calc n * a + b < n * a + n := by omega
    _ = n * (a + 1) := by ring
    _ ≤ n * a' := Nat.mul_le_mul_left n h
    _ ≤ n * a' + b' := Nat.le_add_right _ _

/-- Comparing digit by digit, in base `n`, is comparing the numbers. -/
theorem cmp3_digits {n a b a' b' : Nat} (hb : b < n) (hb' : b' < n) :
    cmp3 (n * a + b) (n * a' + b') = if cmp3 a a' = 0 then cmp3 b b' else cmp3 a a' := by
  rcases lt_trichotomy a a' with h | h | h
  · simp [cmp3, h, digits_lt hb h]
  · simp [cmp3, h]
  · have hlt : n * a' + b' < n * a + b := digits_lt hb' h
    simp [cmp3, h, hlt, not_lt_of_gt h, not_lt_of_gt hlt]

/-- Comparing the first difference of two lists that end in the same letter is comparing them
in lexicographic order. -/
theorem cmp3_cons [LinearOrder κ] (a b : κ) (l m : List κ) :
    cmp3 (a :: l) (b :: m) = if a = b then cmp3 l m else cmp3 a b := by
  unfold cmp3
  rcases lt_trichotomy a b with h | h | h
  · simp [List.cons_lt_cons_iff, h, ne_of_lt h]
  · subst h
    rcases lt_trichotomy l m with h | h | h
    · simp [h]
    · simp [h]
    · simp [h, not_lt_of_gt h]
  · simp [List.cons_lt_cons_iff, h, ne_of_gt h, not_lt_of_gt h, (ne_of_gt h).symm]

end Compare

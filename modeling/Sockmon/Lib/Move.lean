import Mathlib.Data.List.Basic
import Mathlib.Tactic

set_option autoImplicit false

/-! # Reordering a list by index

`Along σ l m` says that `m` has at index `i` what `l` has at index `σ i`. Exchanging two
elements reorders along `swapAt`. Moving an element to another place, those between shifting
by one, reorders along `moveTo`; carrying it there by exchanges with its neighbours is the same
(`swapAt_moveTo_down`, `swapAt_moveTo_up` are the steps of that induction).
-/

namespace Reorder

variable {α : Type*}

/-- `m` has at `i` what `l` has at `σ i`. -/
def Along (σ : Nat → Nat) (l m : List α) : Prop := ∀ i : Nat, m[i]? = l[σ i]?

theorem Along.refl (l : List α) : Along (fun i => i) l l := fun _ => rfl

theorem Along.trans {σ τ : Nat → Nat} {l m k : List α} (h : Along σ l m) (h' : Along τ m k) :
    Along (fun i => σ (τ i)) l k := by
  intro i
  rw [h' i, h (τ i)]

theorem Along.congr {σ τ : Nat → Nat} {l m : List α} (h : Along σ l m) (he : ∀ i, σ i = τ i) :
    Along τ l m := by
  intro i
  rw [h i, he i]

/-! ## Exchanging two elements -/

def swapAt (a b i : Nat) : Nat := if i = a then b else if i = b then a else i

@[simp] theorem swapAt_swapAt (a b i : Nat) : swapAt a b (swapAt a b i) = i := by
  unfold swapAt
  split_ifs <;> omega

/-- What an exchange leaves in the list. -/
theorem along_swap {l : List α} {a b : Nat} {x y : α} (ha : l[a]? = some x)
    (hb : l[b]? = some y) : Along (swapAt a b) l ((l.set a y).set b x) := by
  intro i
  have hla : a < l.length := (List.getElem?_eq_some_iff.mp ha).1
  have hlb : b < l.length := (List.getElem?_eq_some_iff.mp hb).1
  unfold swapAt
  rw [List.getElem?_set, List.getElem?_set]
  by_cases hib : b = i
  · subst hib
    rw [if_pos rfl, List.length_set, if_pos hlb]
    by_cases hba : b = a
    · subst hba
      rw [if_pos rfl, ha]
    · rw [if_neg hba, if_pos rfl, ha]
  · rw [if_neg hib]
    by_cases hia : a = i
    · subst hia
      rw [if_pos rfl, if_pos hla, if_pos rfl, hb]
    · rw [if_neg hia, if_neg fun h => hia h.symm, if_neg fun h => hib h.symm]

theorem perm_swap {l : List α} {a b : Nat} {x y : α} (ha : l[a]? = some x)
    (hb : l[b]? = some y) : ((l.set a y).set b x).Perm l := by
  obtain ⟨hla, rfl⟩ := List.getElem?_eq_some_iff.mp ha
  obtain ⟨hlb, rfl⟩ := List.getElem?_eq_some_iff.mp hb
  exact List.set_set_perm hla hlb

/-! ## Moving one element -/

/-- The old index of what stands at `i` once the element at `src` has moved to `dst`. -/
def moveTo (src dst i : Nat) : Nat :=
  if src < dst then if src ≤ i ∧ i < dst then i + 1 else if i = dst then src else i
  else if i = dst then src else if dst < i ∧ i ≤ src then i - 1 else i

theorem moveTo_self (a i : Nat) : moveTo a a i = i := by
  unfold moveTo
  split_ifs <;> omega

/-- The moved element stands at its destination. -/
theorem moveTo_dst (src dst : Nat) : moveTo src dst dst = src := by
  unfold moveTo
  split_ifs <;> omega

/-! The elements between the two places make room, the others stay. -/

theorem moveTo_down {src dst i : Nat} (h : src ≤ i) (h' : i < dst) :
    moveTo src dst i = i + 1 := by
  unfold moveTo
  split_ifs <;> omega

theorem moveTo_up {src dst i : Nat} (h : dst < i) (h' : i ≤ src) :
    moveTo src dst i = i - 1 := by
  unfold moveTo
  split_ifs <;> omega

theorem moveTo_outside {src dst i : Nat} (h : i < min src dst ∨ max src dst < i) :
    moveTo src dst i = i := by
  unfold moveTo
  split_ifs <;> omega

/-- Exchanging the element with its right neighbour is the first step of moving it down. -/
theorem swapAt_moveTo_down {src dst : Nat} (h : src < dst) (i : Nat) :
    swapAt src (src + 1) (moveTo (src + 1) dst i) = moveTo src dst i := by
  unfold swapAt moveTo
  split_ifs <;> omega

/-- Exchanging the element with its left neighbour is the first step of moving it up. -/
theorem swapAt_moveTo_up {src dst : Nat} (h : dst < src) (i : Nat) :
    swapAt src (src - 1) (moveTo (src - 1) dst i) = moveTo src dst i := by
  unfold swapAt moveTo
  split_ifs <;> omega

end Reorder

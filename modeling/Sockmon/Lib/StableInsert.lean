import Mathlib.Data.List.Sort
import Mathlib.Tactic
import Sockmon.Lib.Compare

set_option autoImplicit false

/-! # Stable sorting by insertion at the end of a class

`le a b` says that `a` may stand before `b`. A list is kept sorted by placing each new element
before the first one it may not stand behind (`insertLe`); elements that may stand in either
order then keep the order they came in. `StableSort le xs ys` says that `ys` is the result:
the elements of `xs`, in order, every class of equivalent elements in its order in `xs`.

`le` needs to be total and transitive on the elements that occur only, a set `S`.
-/

namespace StableInsert

variable {α : Type*} (le : α → α → Bool)

/-- Place `x` before the first element it may not stand behind. -/
def insertLe (x : α) (l : List α) : List α := l.orderedInsert (fun a b => ¬ le b a = true) x

/-- `le` orders the elements of `S`. -/
structure OrdersOn (S : α → Prop) : Prop where
  total : ∀ {a b}, S a → S b → le a b = true ∨ le b a = true
  trans : ∀ {a b c}, S a → S b → S c → le a b = true → le b c = true → le a c = true

/-- `a` and `b` may stand in either order. -/
def equiv (a b : α) : Bool := le a b && le b a

/-- `ys` is `xs` sorted, equivalent elements in their order in `xs`. -/
structure StableSort (S : α → Prop) (xs ys : List α) : Prop where
  perm : ys.Perm xs
  sorted : ys.Pairwise fun a b => le a b = true
  stable : ∀ a, S a → ys.filter (equiv le a) = xs.filter (equiv le a)

variable {le} {S : α → Prop}

/-- A three-way comparison orders. -/
theorem OrdersOn.of_threeWay {c : α → α → Int} (h : Compare.ThreeWay S c) :
    OrdersOn (fun a b => c a b ≤ 0) S where
  total := by
    intro a b ha hb
    have hswap := h.swap ha hb
    simp only [decide_eq_true_eq]
    omega
  trans := by
    intro a b d ha hb hd hab hbd
    simp only [decide_eq_true_eq] at *
    exact h.trans ha hb hd hab hbd

theorem insertLe_eq (x : α) (l : List α) :
    insertLe le x l = l.takeWhile (fun b => le b x) ++ x :: l.dropWhile (fun b => le b x) := by
  rw [insertLe, List.orderedInsert_eq_take_drop]
  simp

theorem mem_takeWhile_le {x a : α} {l : List α} (h : a ∈ l.takeWhile fun b => le b x) :
    le a x = true := by
  have := List.all_takeWhile (p := fun b => le b x) (l := l)
  exact List.all_eq_true.mp this a h

/-- In a sorted list, what stands from the first element on that `x` may not stand behind can
none of it stand before `x`. -/
theorem dropWhile_not_le (h : OrdersOn le S) {x : α} {l : List α} (hx : S x) (hl : ∀ a ∈ l, S a)
    (hs : l.Pairwise fun a b => le a b = true) :
    ∀ b ∈ l.dropWhile (fun b => le b x), le b x ≠ true := by
  induction l with
  | nil => simp
  | cons a l ih =>
      obtain ⟨ha, hs⟩ := List.pairwise_cons.mp hs
      have hSa : S a := hl a List.mem_cons_self
      have hSl : ∀ b ∈ l, S b := fun b hb => hl b (List.mem_cons_of_mem a hb)
      rw [List.dropWhile_cons]
      by_cases hax : le a x = true
      · rw [if_pos hax]
        exact ih hSl hs
      · rw [if_neg hax]
        intro b hb hbx
        rcases List.mem_cons.mp hb with rfl | hb
        · exact hax hbx
        · exact hax (h.trans hSa (hSl b hb) hx (ha b hb) hbx)

/-- **One insertion** extends a stable sort by the next element. -/
theorem StableSort.insertLe (h : OrdersOn le S) {x : α} {xs l : List α} (hx : S x)
    (hxs : ∀ a ∈ xs, S a) (hl : StableSort le S xs l) :
    StableSort le S (xs ++ [x]) (insertLe le x l) := by
  have hSl : ∀ a ∈ l, S a := fun a ha => hxs a (hl.perm.mem_iff.mp ha)
  have hback := dropWhile_not_le h hx hSl hl.sorted
  rw [insertLe_eq]
  set front := l.takeWhile (fun b => le b x) with hfront
  set back := l.dropWhile (fun b => le b x) with hbackdef
  have hsplit : front ++ back = l := List.takeWhile_append_dropWhile
  have hSback : ∀ b ∈ back, S b := fun b hb => hSl b (hsplit ▸ List.mem_append_right front hb)
  have hfx : ∀ a ∈ front, le a x = true := fun a ha => mem_takeWhile_le ha
  refine ⟨?_, ?_, fun a ha => ?_⟩
  -- The elements are those of the list and `x`.
  · calc List.Perm (front ++ x :: back) (x :: (front ++ back)) := List.perm_middle
      List.Perm _ (x :: l) := by rw [hsplit]
      List.Perm _ (x :: xs) := hl.perm.cons x
      List.Perm _ (xs ++ [x]) := (List.perm_append_singleton x xs).symm
  -- What stands before `x` may stand before it, and `x` before what stands behind it.
  · have hs := hl.sorted
    rw [← hsplit, List.pairwise_append] at hs
    obtain ⟨hs₁, hs₂, hs₃⟩ := hs
    rw [List.pairwise_append, List.pairwise_cons]
    refine ⟨hs₁, ⟨fun b hb => ?_, hs₂⟩, fun a ha b hb => ?_⟩
    · exact (h.total hx (hSback b hb)).resolve_right (hback b hb)
    · rcases List.mem_cons.mp hb with rfl | hb
      · exact hfx a ha
      · exact hs₃ a ha b hb
  -- In its own class `x` is the last.
  · have hst := hl.stable a ha
    rw [← hsplit, List.filter_append] at hst
    rw [List.filter_append, List.filter_append, ← hst, List.filter_cons]
    by_cases hax : equiv le a x = true
    · -- Nothing behind `x` is equivalent to `a`, or it could stand before `x`.
      have hnil : back.filter (equiv le a) = [] := by
        rw [List.filter_eq_nil_iff]
        intro b hb hab
        simp only [equiv, Bool.and_eq_true] at hax hab
        exact hback b hb (h.trans (hSback b hb) ha hx hab.2 hax.1)
      simp [hax, hnil]
    · simp [hax]

/-- **Inserting one after the other sorts stably.** -/
theorem stableSort_foldl (h : OrdersOn le S) {xs : List α} (hxs : ∀ a ∈ xs, S a) :
    StableSort le S xs (xs.foldl (fun l x => StableInsert.insertLe le x l) []) := by
  induction xs using List.reverseRecOn with
  | nil => exact ⟨List.Perm.refl _, List.Pairwise.nil, fun _ _ => rfl⟩
  | append_singleton xs x ih =>
      have hxs' : ∀ a ∈ xs, S a := fun a ha => hxs a (List.mem_append_left [x] ha)
      rw [List.foldl_append]
      exact (ih hxs').insertLe h (hxs x (by simp)) hxs'

/-! ## Elements without a key

`keyedLe p le` orders by `le` what satisfies `p`, which may never stand behind what does not;
the rest may stand in any order. A sorted list is then the sorted part that satisfies `p`
followed by the rest as it came. -/

/-- `le` among what satisfies `p`, and the rest behind. -/
def keyedLe (p : α → Bool) (le : α → α → Bool) (a b : α) : Bool :=
  if p b then p a && le a b else true

theorem OrdersOn.keyed (h : OrdersOn le S) (p : α → Bool) : OrdersOn (keyedLe p le) S where
  total := by
    intro a b ha hb
    unfold keyedLe
    cases hpa : p a
    · simp
    · cases hpb : p b
      · simp
      · simpa using h.total ha hb
  trans := by
    intro a b c ha hb hc hab hbc
    unfold keyedLe at *
    cases hpc : p c
    · simp
    · rw [hpc, if_pos rfl, Bool.and_eq_true] at hbc
      rw [hbc.1, if_pos rfl, Bool.and_eq_true] at hab
      rw [if_pos rfl, Bool.and_eq_true]
      exact ⟨hab.1, h.trans ha hb hc hab.2 hbc.2⟩

theorem sorted_split {p : α → Bool} {l : List α}
    (hs : l.Pairwise fun a b => keyedLe p le a b = true) :
    l = l.filter p ++ l.filter fun a => !p a := by
  induction l with
  | nil => rfl
  | cons a l ih =>
      obtain ⟨ha, hs⟩ := List.pairwise_cons.mp hs
      have hp : ∀ b ∈ l, p b = true → p a = true := by
        intro b hb hpb
        have hab := ha b hb
        rw [keyedLe, hpb, if_pos rfl, Bool.and_eq_true] at hab
        exact hab.1
      cases hpa : p a with
      | true => simpa [hpa] using ih hs
      | false =>
          have hl : ∀ b ∈ l, ¬ p b = true := by
            intro b hb hpb
            rw [hp b hb hpb] at hpa
            cases hpa
          have hnil : l.filter p = [] := List.filter_eq_nil_iff.mpr hl
          have hall : l.filter (fun a => !p a) = l :=
            List.filter_eq_self.mpr fun b hb => by simpa using hl b hb
          simp [hpa, hnil, hall]

/-- All elements without a key are equivalent. -/
theorem equiv_keyed_of_not {p : α → Bool} {a : α} (ha : p a = false) :
    equiv (keyedLe p le) a = fun b => !p b := by
  funext b
  unfold equiv keyedLe
  cases hb : p b <;> simp [ha]

/-- Those equivalent to an element with a key have one. -/
theorem equiv_keyed_of {p : α → Bool} {a : α} (ha : p a = true) :
    equiv (keyedLe p le) a = fun b => equiv le a b && p b := by
  funext b
  unfold equiv keyedLe
  cases hb : p b <;> simp [ha]

/-- **The two parts of a list sorted with missing keys.** -/
theorem StableSort.split {p : α → Bool} {xs ys : List α} (hxs : ∀ a ∈ xs, S a)
    (h : StableSort (keyedLe p le) S xs ys) :
    ys = ys.filter p ++ (xs.filter fun a => !p a) ∧
      StableSort le (· ∈ xs.filter p) (xs.filter p) (ys.filter p) := by
  have hrest : ys.filter (fun a => !p a) = xs.filter fun a => !p a := by
    by_cases hex : ∃ a ∈ xs, p a = false
    · obtain ⟨a, ha, hpa⟩ := hex
      have hst := h.stable a (hxs a ha)
      rwa [equiv_keyed_of_not hpa] at hst
    · have hall : ∀ a ∈ xs, ¬ (!p a) = true := by
        intro a ha hpa
        exact hex ⟨a, ha, by simpa using hpa⟩
      rw [List.filter_eq_nil_iff.mpr hall]
      exact List.filter_eq_nil_iff.mpr fun a ha => hall a (h.perm.mem_iff.mp ha)
  refine ⟨?_, h.perm.filter p, ?_, ?_⟩
  · rw [← hrest]
    exact sorted_split h.sorted
  · refine (h.sorted.filter p).imp_of_mem fun {a b} _ hb hab => ?_
    rw [keyedLe, (List.mem_filter.mp hb).2, if_pos rfl, Bool.and_eq_true] at hab
    exact hab.2
  · intro a ha
    obtain ⟨hax, hpa⟩ := List.mem_filter.mp ha
    have hst := h.stable a (hxs a hax)
    rw [equiv_keyed_of hpa] at hst
    rw [List.filter_filter, List.filter_filter]
    exact hst

end StableInsert

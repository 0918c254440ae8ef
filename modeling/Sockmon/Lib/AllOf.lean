import Mathlib.Tactic

set_option autoImplicit false

/-! # Partial tests one after the other

A conjunction of tests that is evaluated from left to right and stops at the first test that
fails. A test may have no result (`none`); then the conjunction has none, unless it has stopped
before. Where all tests have results the order does not matter, and evaluations in two orders
never contradict each other (`allOf_agree`).
-/

namespace PartialTest

variable {α : Type*}

/-- Evaluate the tests of the elements in order. -/
def allOf (test : α → Option Bool) : List α → Option Bool
  | [] => some true
  | a :: as => (test a).bind fun b => if b then allOf test as else some false

variable {test test' : α → Option Bool} {l l' : List α}

theorem allOf_eq_true : allOf test l = some true ↔ ∀ a ∈ l, test a = some true := by
  induction l with
  | nil => simp [allOf]
  | cons a l ih =>
      rw [allOf, List.forall_mem_cons, ← ih]
      cases test a with
      | none => simp
      | some b => cases b <;> simp

/-- The conjunction fails at the first test that does not hold. -/
theorem allOf_eq_false : allOf test l = some false ↔
    ∃ l₁ a l₂, l = l₁ ++ a :: l₂ ∧ (∀ b ∈ l₁, test b = some true) ∧ test a = some false := by
  induction l with
  | nil => simp [allOf]
  | cons a l ih =>
      constructor
      · intro h
        rw [allOf] at h
        obtain ⟨b, hb, h⟩ := Option.bind_eq_some_iff.mp h
        cases b with
        | false => exact ⟨[], a, l, rfl, nofun, hb⟩
        | true =>
            obtain ⟨l₁, c, l₂, rfl, hl₁, hc⟩ := ih.mp h
            exact ⟨a :: l₁, c, l₂, rfl, List.forall_mem_cons.mpr ⟨hb, hl₁⟩, hc⟩
      · rintro ⟨l₁, c, l₂, hl, hl₁, hc⟩
        cases l₁ with
        | nil =>
            obtain ⟨rfl, rfl⟩ := List.cons.inj hl
            rw [allOf, hc]
            rfl
        | cons b l₁ =>
            obtain ⟨rfl, rfl⟩ := List.cons.inj hl
            obtain ⟨hb, hl₁⟩ := List.forall_mem_cons.mp hl₁
            rw [allOf, hb]
            exact ih.mpr ⟨l₁, c, l₂, rfl, hl₁, hc⟩

/-- A test that does not hold makes the conjunction fail, if those before it have results. -/
theorem allOf_eq_false_of {l₁ l₂ : List α} {a : α} (h : ∀ b ∈ l₁, (test b).isSome)
    (ha : test a = some false) : allOf test (l₁ ++ a :: l₂) = some false := by
  induction l₁ with
  | nil =>
      rw [List.nil_append, allOf, ha]
      rfl
  | cons b l₁ ih =>
      obtain ⟨hb, hl₁⟩ := List.forall_mem_cons.mp h
      obtain ⟨c, hc⟩ := Option.isSome_iff_exists.mp hb
      rw [List.cons_append, allOf, hc]
      cases c with
      | false => rfl
      | true => exact ih hl₁

theorem allOf_isSome (h : ∀ a ∈ l, (test a).isSome) : (allOf test l).isSome := by
  induction l with
  | nil => rfl
  | cons a l ih =>
      obtain ⟨ha, hl⟩ := List.forall_mem_cons.mp h
      obtain ⟨b, hb⟩ := Option.isSome_iff_exists.mp ha
      rw [allOf, hb]
      cases b with
      | false => rfl
      | true => exact ih hl

/-- Only elements whose tests have results can be put in every order. -/
theorem isSome_of_forall_perm (h : ∀ l', l'.Perm l → (allOf test l').isSome) :
    ∀ a ∈ l, (test a).isSome := by
  intro a ha
  obtain ⟨l₁, l₂, rfl⟩ := List.append_of_mem ha
  have hfront := h (a :: (l₁ ++ l₂)) List.perm_middle.symm
  rw [allOf] at hfront
  cases hta : test a with
  | none =>
      rw [hta] at hfront
      cases hfront
  | some b => rfl

theorem allOf_congr (h : ∀ a ∈ l, test a = test' a) : allOf test l = allOf test' l := by
  induction l with
  | nil => rfl
  | cons a l ih =>
      obtain ⟨ha, hl⟩ := List.forall_mem_cons.mp h
      rw [allOf, allOf, ha, ih hl]

/-- What comes behind the first test without a result does not matter. -/
theorem allOf_congr_until (h : ∀ a ∈ l.takeWhile fun a => (test a).isSome, test' a = test a)
    (hnone : ∀ a ∈ l, test a = none → test' a = none) : allOf test' l = allOf test l := by
  induction l with
  | nil => rfl
  | cons a l ih =>
      rw [allOf, allOf]
      cases ha : test a with
      | none => rw [hnone a List.mem_cons_self ha]; rfl
      | some b =>
          rw [List.takeWhile_cons, ha, Option.isSome_some, if_pos rfl] at h
          obtain ⟨ha', hl⟩ := List.forall_mem_cons.mp h
          rw [ha', ha, ih hl fun c hc => hnone c (List.mem_cons_of_mem a hc)]

theorem allOf_map {β : Type*} (g : β → α) (l : List β) :
    allOf test (l.map g) = allOf (test ∘ g) l := by
  induction l with
  | nil => rfl
  | cons b l ih => rw [List.map_cons, allOf, allOf, ih]; rfl

/-- **Two evaluations agree**, if the tests of every element do where both have a result, and
the elements are the same in some order. -/
theorem allOf_agree (hmem : ∀ a, a ∈ l ↔ a ∈ l')
    (h : ∀ a ∈ l, ∀ b b', test a = some b → test' a = some b' → b = b') {b b' : Bool}
    (hb : allOf test l = some b) (hb' : allOf test' l' = some b') : b = b' := by
  -- An element whose test fails in one evaluation cannot have held in the other.
  have hno : ∀ a ∈ l, ¬ (test a = some true ∧ test' a = some false) ∧
      ¬ (test a = some false ∧ test' a = some true) := by
    intro a ha
    refine ⟨fun hc => ?_, fun hc => ?_⟩
    · exact absurd (h a ha _ _ hc.1 hc.2) (by decide)
    · exact absurd (h a ha _ _ hc.1 hc.2) (by decide)
  cases b with
  | true =>
      cases b' with
      | true => rfl
      | false =>
          obtain ⟨l₁, a, l₂, rfl, -, ha⟩ := allOf_eq_false.mp hb'
          have hal : a ∈ l := (hmem a).mpr (by simp)
          exact absurd ⟨allOf_eq_true.mp hb a hal, ha⟩ (hno a hal).1
  | false =>
      cases b' with
      | false => rfl
      | true =>
          obtain ⟨l₁, a, l₂, rfl, -, ha⟩ := allOf_eq_false.mp hb
          have hal : a ∈ l₁ ++ a :: l₂ := by simp
          exact absurd ⟨ha, allOf_eq_true.mp hb' a ((hmem a).mp hal)⟩ (hno a hal).2

end PartialTest

import Mathlib.Tactic

set_option autoImplicit false

/-! # A buffer for strings

Code that builds a string in a buffer of fixed size stores characters one behind the other, and
then a terminator, and reads strings from it. Such a trace is safe if every store is inside the
buffer and every string that is read ends inside it (`Safe`), whatever was in the buffer before.
-/

namespace StringBuffer

variable {α : Type*}

/-- A store of one character, or a read of the string that begins at `start`. -/
inductive Event (α : Type*)
  | store (i : Nat) (c : α)
  | read (start : Nat) (s : List α)

/-- The string at `start` is `s`, and its terminator is below `size`. -/
structure IsString [Zero α] (size : Nat) (m : Nat → α) (start : Nat) (s : List α) : Prop where
  chars : ∀ i < s.length, s[i]? = some (m (start + i)) ∧ m (start + i) ≠ 0
  terminated : m (start + s.length) = 0
  inside : start + s.length < size

/-- The events are safe for a buffer with the contents `m`. -/
def SafeFrom [Zero α] (size : Nat) : (Nat → α) → List (Event α) → Prop
  | _, [] => True
  | m, .store i c :: es => i < size ∧ SafeFrom size (Function.update m i c) es
  | m, .read start s :: es => IsString size m start s ∧ SafeFrom size m es

/-- The events are safe, whatever is in the buffer. -/
def Safe [Zero α] (size : Nat) (es : List (Event α)) : Prop := ∀ m, SafeFrom size m es

/-- The stores of the characters `s` from `start` on. -/
def pushes : Nat → List α → List (Event α)
  | _, [] => []
  | start, c :: s => .store start c :: pushes (start + 1) s

/-- The contents after such stores. -/
def pushed : (Nat → α) → Nat → List α → Nat → α
  | m, _, [] => m
  | m, start, c :: s => pushed (Function.update m start c) (start + 1) s

section

variable {size start : Nat} {m : Nat → α} {s t : List α} {es : List (Event α)}

/-- Characters that are stored later do not change what is before them. -/
theorem pushed_before {i : Nat} (h : i < start) : pushed m start s i = m i := by
  induction s generalizing start m with
  | nil => rfl
  | cons c s ih =>
      rw [pushed, ih (by omega)]
      exact Function.update_of_ne (by omega) _ _

theorem pushed_get {i : Nat} (h : i < s.length) :
    s[i]? = some (pushed m start s (start + i)) := by
  induction s generalizing start m i with
  | nil => cases h
  | cons c s ih =>
      rw [pushed]
      cases i with
      | zero =>
          rw [pushed_before (by omega)]
          simp
      | succ i =>
          have hstart : start + (i + 1) = start + 1 + i := by omega
          rw [hstart, List.getElem?_cons_succ]
          exact ih (by simpa using h)

variable [Zero α]

/-- Characters may be stored as long as they are inside the buffer. -/
theorem safeFrom_pushes (h : start + s.length ≤ size) :
    SafeFrom size m (pushes start s ++ es) ↔ SafeFrom size (pushed m start s) es := by
  induction s generalizing start m with
  | nil => rfl
  | cons c s ih =>
      rw [List.length_cons] at h
      rw [pushes, List.cons_append, SafeFrom, pushed, ih (by omega)]
      exact and_iff_right (by omega)

/-- A string with its terminator behind it. -/
theorem isString_pushed (hs : ∀ c ∈ s, c ≠ 0) (h : start + s.length < size) :
    IsString size (Function.update (pushed m start s) (start + s.length) 0) start s where
  chars i hi := by
    have hget : s[i]? = some (pushed m start s (start + i)) := pushed_get hi
    rw [Function.update_of_ne (by omega)]
    exact ⟨hget, hs _ (List.mem_of_getElem? hget)⟩
  terminated := Function.update_self _ _ _
  inside := h

/-- A terminator in a string cuts it in two. -/
theorem IsString.split {c : α} (h : IsString size m start (s ++ c :: t)) :
    IsString size (Function.update m (start + s.length) 0) start s ∧
      IsString size (Function.update m (start + s.length) 0) (start + s.length + 1) t := by
  have hlen : (s ++ c :: t).length = s.length + (t.length + 1) := by simp
  have hinside := h.inside
  rw [hlen] at hinside
  constructor
  · refine ⟨fun i hi => ?_, Function.update_self _ _ _, by omega⟩
    have hchar := h.chars i (by omega)
    rw [List.getElem?_append_left hi] at hchar
    rwa [Function.update_of_ne (by omega)]
  · refine ⟨fun i hi => ?_, ?_, by omega⟩
    · have hchar := h.chars (s.length + (i + 1)) (by omega)
      have hat : start + s.length + 1 + i = start + (s.length + (i + 1)) := by omega
      rw [List.getElem?_append_right (by omega), Nat.add_sub_cancel_left,
        List.getElem?_cons_succ] at hchar
      rwa [Function.update_of_ne (by omega), hat]
    · have hterm := h.terminated
      have hat : start + s.length + 1 + t.length = start + (s ++ c :: t).length := by omega
      rw [Function.update_of_ne (by omega), hat]
      exact hterm

end

end StringBuffer

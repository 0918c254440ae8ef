import Mathlib.Tactic

set_option autoImplicit false

/-! # Reading a line

A reader takes the elements of a stream one by one. Some it passes over and some it stores while
there is room, one ends the line, and any other is an error (`scan`). Of a complete line it
stores what it does not pass over if it takes all of that (`scan_good`), and otherwise stops
somewhere inside the line (`scan_bad`), from where `skipLine` finds the end of the line.
-/

namespace LineScan

variable {α : Type*}

/-- What a reader does with the elements of a stream; `cap` is the room it has. -/
structure Reader (α : Type*) where
  skip : α → Bool
  stop : α → Bool
  ok : α → Bool
  cap : Option Nat

/-- What a reader has when it stops: whether at the end of the line, the elements stored and the
rest of the stream. -/
structure Result (α : Type*) where
  good : Bool
  stored : List α
  rest : List α

/-- There is no room for one more element. -/
def Reader.full (c : Reader α) (stored : List α) : Bool := c.cap.any (· ≤ stored.length)

/-- Read up to the end of the line or the first error. A stream without either has no result. -/
def scan (c : Reader α) : List α → List α → Option (Result α)
  | [], _ => none
  | x :: xs, stored =>
      if c.skip x then scan c xs stored
      else if c.stop x then some ⟨true, stored, xs⟩
      else if c.ok x then
        if c.full stored then some ⟨false, stored, xs⟩ else scan c xs (stored ++ [x])
      else some ⟨false, stored, xs⟩

section

variable {c : Reader α} {x : α} {xs stored : List α} {n : Nat}

theorem Reader.full_iff (h : c.cap = some n) : c.full stored = true ↔ n ≤ stored.length := by
  unfold full
  rw [h]
  exact decide_eq_true_iff

theorem Reader.full_eq_false_iff (h : c.cap = some n) :
    c.full stored = false ↔ stored.length < n := by
  rw [← Bool.not_eq_true, full_iff h, not_le]

theorem scan_skip (h : c.skip x = true) : scan c (x :: xs) stored = scan c xs stored := by
  rw [scan, if_pos h]

theorem scan_stop (hskip : c.skip x = false) (h : c.stop x = true) :
    scan c (x :: xs) stored = some ⟨true, stored, xs⟩ := by
  rw [scan, hskip, if_neg (by decide), if_pos h]

theorem scan_error (hskip : c.skip x = false) (hstop : c.stop x = false) (h : c.ok x = false) :
    scan c (x :: xs) stored = some ⟨false, stored, xs⟩ := by
  rw [scan, hskip, if_neg (by decide), hstop, if_neg (by decide), h, if_neg (by decide)]

theorem scan_full (hskip : c.skip x = false) (hstop : c.stop x = false) (hok : c.ok x = true)
    (h : c.full stored = true) : scan c (x :: xs) stored = some ⟨false, stored, xs⟩ := by
  rw [scan, hskip, if_neg (by decide), hstop, if_neg (by decide), if_pos hok, if_pos h]

theorem scan_store (hskip : c.skip x = false) (hstop : c.stop x = false) (hok : c.ok x = true)
    (h : c.full stored = false) : scan c (x :: xs) stored = scan c xs (stored ++ [x]) := by
  rw [scan, hskip, if_neg (by decide), hstop, if_neg (by decide), if_pos hok, h,
    if_neg (by decide)]

end

/-- What follows the end of the line. -/
def skipLine (stop : α → Bool) : List α → Option (List α)
  | [] => none
  | x :: xs => if stop x then some xs else skipLine stop xs

/-- A line contains no end of a line. -/
def IsLine (stop : α → Bool) (line : List α) : Prop := ∀ x ∈ line, stop x = false

instance (stop : α → Bool) (line : List α) : Decidable (IsLine stop line) :=
  inferInstanceAs (Decidable (∀ x ∈ line, stop x = false))

section

variable {stop : α → Bool} {line rest : List α} {x nl : α}

theorem isLine_nil : IsLine stop ([] : List α) := nofun

theorem isLine_cons : IsLine stop (x :: line) ↔ stop x = false ∧ IsLine stop line :=
  List.forall_mem_cons

theorem isLine_append {line' : List α} :
    IsLine stop (line ++ line') ↔ IsLine stop line ∧ IsLine stop line' :=
  List.forall_mem_append

/-- A stream that contains the end of a line is a line, its end and what follows. -/
theorem exists_line {xs : List α} (h : ∃ x ∈ xs, stop x = true) :
    ∃ line nl rest, xs = line ++ nl :: rest ∧ IsLine stop line ∧ stop nl = true := by
  induction xs with
  | nil =>
      obtain ⟨x, hx, -⟩ := h
      cases hx
  | cons x xs ih =>
      cases hx : stop x with
      | true => exact ⟨[], x, xs, rfl, isLine_nil, hx⟩
      | false =>
          have hxs : ∃ y ∈ xs, stop y = true := by
            obtain ⟨y, hy, hstop⟩ := h
            rcases List.mem_cons.mp hy with rfl | hy
            · rw [hx] at hstop
              cases hstop
            · exact ⟨y, hy, hstop⟩
          obtain ⟨line, nl, rest, rfl, hline, hnl⟩ := ih hxs
          exact ⟨x :: line, nl, rest, rfl, isLine_cons.mpr ⟨hx, hline⟩, hnl⟩

theorem skipLine_append (hline : IsLine stop line) (hnl : stop nl = true) :
    skipLine stop (line ++ nl :: rest) = some rest := by
  induction line with
  | nil => exact if_pos hnl
  | cons x line ih =>
      obtain ⟨hx, hline⟩ := isLine_cons.mp hline
      rw [List.cons_append, skipLine, hx, if_neg (by decide)]
      exact ih hline

end

section

variable {c : Reader α} {line stored rest : List α} {nl : α}

/-- The part of a line that a reader does not pass over. -/
def Reader.kept (c : Reader α) (line : List α) : List α := line.filter fun x => !c.skip x

/-- A reader that has stored `stored` takes the whole line. -/
def Reader.Takes (c : Reader α) (stored line : List α) : Prop :=
  (∀ x ∈ c.kept line, c.ok x = true) ∧ ∀ n ∈ c.cap, (stored ++ c.kept line).length ≤ n

instance : Decidable (c.Takes stored line) := inferInstanceAs (Decidable (_ ∧ _))

theorem Reader.kept_cons_skip {x : α} (h : c.skip x = true) : c.kept (x :: line) = c.kept line :=
  List.filter_cons_of_neg (by simp [h])

theorem Reader.kept_cons {x : α} (h : c.skip x = false) :
    c.kept (x :: line) = x :: c.kept line :=
  List.filter_cons_of_pos (by simp [h])

theorem Reader.takes_cons_skip {x : α} (h : c.skip x = true) :
    c.Takes stored (x :: line) ↔ c.Takes stored line := by
  unfold Reader.Takes
  rw [kept_cons_skip h]

/-- Taking a line is taking its first element and then the rest. -/
theorem Reader.takes_cons {x : α} (h : c.skip x = false) :
    c.Takes stored (x :: line) ↔
      c.ok x = true ∧ c.full stored = false ∧ c.Takes (stored ++ [x]) line := by
  unfold Reader.Takes Reader.full
  rw [kept_cons h, List.forall_mem_cons, List.append_cons]
  constructor
  · rintro ⟨⟨hx, hok⟩, hcap⟩
    refine ⟨hx, ?_, hok, hcap⟩
    cases hc : c.cap with
    | none => rfl
    | some n =>
        have hlen := hcap n hc
        simp only [List.length_append, List.length_singleton] at hlen
        simp only [Option.any_some, decide_eq_false_iff_not]
        omega
  · rintro ⟨hx, -, hok, hcap⟩
    exact ⟨⟨hx, hok⟩, hcap⟩

/-- **A line that is taken** is stored but for what is passed over. -/
theorem scan_good (hstop : ∀ x, c.stop x = true → c.skip x = false)
    (hline : IsLine c.stop line) (hnl : c.stop nl = true) (h : c.Takes stored line) :
    scan c (line ++ nl :: rest) stored = some ⟨true, stored ++ c.kept line, rest⟩ := by
  induction line generalizing stored with
  | nil =>
      rw [List.nil_append, scan_stop (hstop nl hnl) hnl]
      simp [Reader.kept]
  | cons x line ih =>
      obtain ⟨hx, hline⟩ := isLine_cons.mp hline
      rw [List.cons_append]
      cases hskip : c.skip x with
      | true =>
          rw [scan_skip hskip, ih hline ((Reader.takes_cons_skip hskip).mp h),
            Reader.kept_cons_skip hskip]
      | false =>
          obtain ⟨hok, hfull, h⟩ := (Reader.takes_cons hskip).mp h
          rw [scan_store hskip hx hok hfull, ih hline h, Reader.kept_cons hskip,
            List.append_cons stored x (c.kept line)]

/-- **A line that is not taken** is left at an error inside it. -/
theorem scan_bad (nl : α) (rest : List α) (hline : IsLine c.stop line)
    (hfits : ∀ n ∈ c.cap, stored.length ≤ n) (h : ¬ c.Takes stored line) :
    ∃ r line', scan c (line ++ nl :: rest) stored = some r ∧ r.good = false ∧
      r.rest = line' ++ nl :: rest ∧ IsLine c.stop line' := by
  induction line generalizing stored with
  | nil =>
      refine absurd ⟨by simp [Reader.kept], fun n hn => ?_⟩ h
      simpa [Reader.kept] using hfits n hn
  | cons x line ih =>
      obtain ⟨hx, hline⟩ := isLine_cons.mp hline
      rw [List.cons_append]
      cases hskip : c.skip x with
      | true =>
          rw [scan_skip hskip]
          exact ih hline hfits fun ht => h ((Reader.takes_cons_skip hskip).mpr ht)
      | false =>
          -- An element that is not allowed, or has no room, is the last one that is read.
          cases hok : c.ok x with
          | false => exact ⟨_, line, scan_error hskip hx hok, rfl, rfl, hline⟩
          | true =>
              cases hfull : c.full stored with
              | true => exact ⟨_, line, scan_full hskip hx hok hfull, rfl, rfl, hline⟩
              | false =>
                  rw [scan_store hskip hx hok hfull]
                  refine ih hline (fun n hn => ?_) fun ht => h ?_
                  · have hroom : stored.length < n := (Reader.full_eq_false_iff hn).mp hfull
                    rw [List.length_append, List.length_singleton]
                    omega
                  · exact (Reader.takes_cons hskip).mpr ⟨hok, hfull, ht⟩

end

end LineScan

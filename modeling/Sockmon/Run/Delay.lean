import Sockmon.Field.Numeral
import Sockmon.Run.Keys

set_option autoImplicit false

/-! # The delay

`main_delay_handler` adds up the digits of a line and leaves its loop at a foreign character, at
a number over 255 or at the newline; only the last can set the delay. A line sets it exactly if it
is a numeral from 1 to 255 (`mainDelayHandler_delay`), and as no other key touches it, it stays in
that range in every run (`delay_step`). No sum is larger than 2559 (`delaySums_le`).
-/

namespace Sockmon

open Transition LineScan

/-! ## The sums -/

/-- The values that the first loop of `main_delay_handler` gives to `delay`, from the value
`delay` on. -/
def delaySums : List Key → Int → List Int
  | [], _ => []
  | ch :: keys, delay =>
      if isdigit ch then
        let delay := delay * 10 + (ch - 48)
        if 255 < delay then [delay] else delay :: delaySums keys delay
      else []

theorem isdigit_range {ch : Int} (h : isdigit ch = true) : 48 ≤ ch ∧ ch ≤ 57 := by
  unfold isdigit at h
  simpa using h

/-- The loop returns the last of them. -/
theorem delayLoop_last {keys ks : List Key} {delay d : Int} {seenNl : Bool}
    (h : delayLoop keys delay = some (d, seenNl, ks)) :
    d = (delaySums keys delay).getLastD delay := by
  induction keys generalizing delay with
  | nil => cases h
  | cons ch keys ih =>
      rw [delayLoop] at h
      rw [delaySums]
      cases hdigit : isdigit ch with
      | true =>
          rw [hdigit, if_pos rfl] at h
          rw [if_pos rfl]
          dsimp only at h ⊢
          split_ifs at h ⊢
          · cases h
            rfl
          · rw [ih h, List.getLastD_cons]
      | false =>
          rw [hdigit, if_neg (by decide)] at h
          rw [if_neg (by decide)]
          split_ifs at h
          · cases h
            rfl
          · cases h
            rfl

/-- **No sum** is too large: the loop goes on with at most 255. -/
theorem delaySums_le {keys : List Key} {delay : Int} (h0 : 0 ≤ delay) (h255 : delay ≤ 255) :
    ∀ d ∈ delaySums keys delay, 0 ≤ d ∧ d ≤ 2559 := by
  induction keys generalizing delay with
  | nil =>
      intro d hd
      cases hd
  | cons ch keys ih =>
      rw [delaySums]
      split_ifs with hdigit
      · have hrange := isdigit_range hdigit
        dsimp only
        split_ifs with hbig
        · intro d hd
          rw [List.mem_singleton] at hd
          omega
        · refine List.forall_mem_cons.mpr ⟨by omega, ih (by omega) (by omega)⟩
      · intro d hd
        cases hd

/-! ## The line -/

/-- The line is a numeral, from 1 to 255. -/
structure DelayGiven (line : List Key) : Prop where
  nonempty : line ≠ []
  digits : ∀ ch ∈ line, isdigit ch = true
  range : 1 ≤ numeral line ∧ numeral line ≤ 255

/-- The number that digits stand for behind the number `v`. -/
def numeralFrom (v : Nat) (ks : List Key) : Nat :=
  ks.foldl (fun v ch => v * 10 + (ch.toNat - 48)) v

theorem le_numeralFrom (v : Nat) (ks : List Key) : v ≤ numeralFrom v ks := by
  induction ks generalizing v with
  | nil => exact le_rfl
  | cons ch ks ih =>
      have hle := ih (v * 10 + (ch.toNat - 48))
      show v ≤ numeralFrom (v * 10 + (ch.toNat - 48)) ks
      omega

section

variable {line rest : List Key} {nl : Key} {v : Nat}

theorem delayLoop_digit {ch : Key} {keys : List Key} (hdigit : isdigit ch = true) :
    delayLoop (ch :: keys) v =
      if 255 < v * 10 + (ch.toNat - 48) then
        some (((v * 10 + (ch.toNat - 48) : Nat) : Int), false, keys)
      else delayLoop keys ((v * 10 + (ch.toNat - 48) : Nat) : Int) := by
  have hrange := isdigit_range hdigit
  have hsum : (v : Int) * 10 + (ch - 48) = ((v * 10 + (ch.toNat - 48) : Nat) : Int) := by omega
  rw [delayLoop, if_pos hdigit]
  dsimp only
  rw [hsum]
  split_ifs <;> first | rfl | omega

/-- **A numeral** up to 255 is read to its end. -/
theorem delayLoop_numeral (hnl : isNewline nl = true) (hdigits : ∀ ch ∈ line, isdigit ch = true)
    (hle : numeralFrom v line ≤ 255) :
    delayLoop (line ++ nl :: rest) v = some ((numeralFrom v line : Int), true, rest) := by
  induction line generalizing v with
  | nil =>
      have hdigit : isdigit nl = false := by
        rcases newline_cases hnl with rfl | rfl <;> decide
      rw [List.nil_append, delayLoop, hdigit, if_neg (by decide), if_pos hnl]
      rfl
  | cons ch line ih =>
      obtain ⟨hch, hdigits⟩ := List.forall_mem_cons.mp hdigits
      have hnext : numeralFrom v (ch :: line) = numeralFrom (v * 10 + (ch.toNat - 48)) line := rfl
      have hle' := le_numeralFrom (v * 10 + (ch.toNat - 48)) line
      rw [hnext] at hle ⊢
      rw [List.cons_append, delayLoop_digit hch, if_neg (by omega)]
      exact ih hdigits hle

/-- **Another line** is left before its end. -/
theorem delayLoop_other (hline : IsLine isNewline line) (hv : v ≤ 255)
    (hother : ¬ ((∀ ch ∈ line, isdigit ch = true) ∧ numeralFrom v line ≤ 255)) :
    ∃ d ks, delayLoop (line ++ nl :: rest) v = some (d, false, ks) := by
  induction line generalizing v with
  | nil => exact absurd ⟨fun ch hch => (List.not_mem_nil hch).elim, hv⟩ hother
  | cons ch line ih =>
      obtain ⟨hch, hline⟩ := isLine_cons.mp hline
      cases hdigit : isdigit ch with
      | false =>
          refine ⟨v, line ++ nl :: rest, ?_⟩
          rw [List.cons_append, delayLoop, hdigit, hch, if_neg (by decide), if_neg (by decide)]
      | true =>
          rw [List.cons_append, delayLoop_digit hdigit]
          split_ifs with hbig
          · exact ⟨_, _, rfl⟩
          · refine ih hline (by omega) fun h => hother ⟨?_, h.2⟩
            exact List.forall_mem_cons.mpr ⟨hdigit, h.1⟩

/-- A line that ends the loop at its newline with a number in range is one that is given. -/
theorem delayGiven_iff (line : List Key) : DelayGiven line ↔
    ((∀ ch ∈ line, isdigit ch = true) ∧ numeralFrom 0 line ≤ 255) ∧ 1 ≤ numeralFrom 0 line := by
  constructor
  · rintro ⟨-, hdigits, hrange⟩
    exact ⟨⟨hdigits, hrange.2⟩, hrange.1⟩
  · rintro ⟨⟨hdigits, hle⟩, hpos⟩
    refine ⟨?_, hdigits, hpos, hle⟩
    rintro rfl
    exact absurd hpos (by decide)

/-- What the handler does with a line that is given. -/
theorem mainDelayHandler_given (s : Sys) (hnl : isNewline nl = true) (hgiven : DelayGiven line) :
    mainDelayHandler s (line ++ nl :: rest) =
      some ({ s with n := { s.n with delay := numeral line } }, rest) := by
  have hloop : delayLoop (line ++ nl :: rest) 0 = some ((numeralFrom 0 line : Int), true, rest) :=
    delayLoop_numeral hnl hgiven.digits hgiven.range.2
  have hrange : ¬ ((numeralFrom 0 line : Int) < 1 ∨ 255 < (numeralFrom 0 line : Int)) := by
    have := hgiven.range
    unfold numeral at this
    unfold numeralFrom
    omega
  unfold mainDelayHandler
  rw [hloop]
  simp only [Option.bind_eq_bind, Option.bind_some, if_true]
  rw [if_neg hrange]
  rfl

/-- What it does with any other. -/
theorem mainDelayHandler_other (s : Sys) (hline : IsLine isNewline line)
    (hnl : isNewline nl = true) (hgiven : ¬ DelayGiven line) :
    mainDelayHandler s (line ++ nl :: rest) = some (s, rest) := by
  by_cases hread : (∀ ch ∈ line, isdigit ch = true) ∧ numeralFrom 0 line ≤ 255
  · -- The number is 0, or there is none.
    have hzero : ¬ 1 ≤ numeralFrom 0 line :=
      fun hpos => hgiven ((delayGiven_iff line).mpr ⟨hread, hpos⟩)
    have hloop : delayLoop (line ++ nl :: rest) 0 =
        some ((numeralFrom 0 line : Int), true, rest) := delayLoop_numeral hnl hread.1 hread.2
    unfold mainDelayHandler
    rw [hloop]
    simp only [Option.bind_eq_bind, Option.bind_some, if_true]
    rw [if_pos (Or.inl (by omega))]
    rfl
  · have hsome : ∃ t, mainDelayHandler s (line ++ nl :: rest) = some (t, rest) :=
      mainDelayHandler_line hline hnl s
    obtain ⟨t, ht⟩ := hsome
    have hloop : ∃ d ks, delayLoop (line ++ nl :: rest) 0 = some (d, false, ks) :=
      delayLoop_other hline (Nat.zero_le 255) hread
    obtain ⟨d, ks, hloop⟩ := hloop
    rw [ht]
    obtain ⟨r, hr, ht⟩ := bind_some ht
    rw [hloop] at hr
    cases hr
    obtain ⟨ks', -, ht⟩ := bind_some ht
    cases ht
    rfl

end

/-! ## The delay in a run -/

/-- The delay is one that can be given. -/
def DelayInRange (s : Sys) : Prop := 1 ≤ s.n.delay ∧ s.n.delay ≤ 255

/-- Whatever keys it reads, the handler sets a delay in range or none. -/
theorem mainDelayHandler_range {s t : Sys} {keys rest : List Key} (hs : DelayInRange s)
    (h : mainDelayHandler s keys = some (t, rest)) : DelayInRange t := by
  obtain ⟨⟨d, seenNl, ks⟩, -, h⟩ := bind_some h
  cases seenNl with
  | false =>
      obtain ⟨ks', -, h⟩ := bind_some h
      cases h
      exact hs
  | true =>
      dsimp only at h
      rw [if_pos rfl] at h
      split_ifs at h with hrange
      · cases h
        exact hs
      · cases h
        exact ⟨by show 1 ≤ d; omega, by show d ≤ 255; omega⟩

theorem MainHandler.delay_range {h : MainHandler} {s t : Sys} {keys rest : List Key}
    (hs : DelayInRange s) (hrun : h.run s keys = some (t, rest)) : DelayInRange t := by
  cases h with
  | delay => exact mainDelayHandler_range hs hrun
  | quit | ip | ip6 | help | tcp | udp | keyDown | keyRight | keyPgdn =>
      cases hrun
      exact hs
  | field =>
      obtain ⟨u, hu, he⟩ := Option.map_eq_some_iff.mp hrun
      cases he
      rw [drawFieldHeader_onField hu]
      exact hs
  | keyUp =>
      cases hrun
      unfold mainKeyUpHandler
      split_ifs <;> exact hs
  | keyLeft =>
      cases hrun
      unfold mainKeyLeftHandler
      split_ifs <;> exact hs
  | keyPgup =>
      cases hrun
      unfold mainKeyPgupHandler
      dsimp only
      split_ifs <;> exact hs

theorem FieldStep.delay {h : FieldHandler} {s t : Sys} {keys : List Key}
    (hstep : FieldStep s keys h t) : t.n.delay = s.n.delay := by
  cases hstep with
  | sort =>
      show (toggleSortKey s.n s.n.posField.y).delay = s.n.delay
      unfold toggleSortKey
      split_ifs <;> rfl
  | move sel f u hsel hf hd hne hu =>
      show u.n.delay = s.n.delay
      rw [(moveLoop_moved hu).frame]
  | quit | idle | space | pin | noFilter | setFilter | clearFilter | cursor | pick => rfl

/-- **No step** takes the delay out of its range. -/
theorem delay_step {s t : Sys} {e : Event} (hs : DelayInRange s) (h : step s e = some t) :
    DelayInRange t := by
  refine step_invariant (J := DelayInRange) (fun s t hq hs => ?_) (fun s i t hs hi => ?_) hs h
  · have hdelay : t.n.delay = s.n.delay := hq.proj Ui.delay fun _ _ => rfl
    unfold DelayInRange
    rw [hdelay]
    exact hs
  · cases hi with
    | idle | resize | help => exact hs
    | main k t hk hrun => exact MainHandler.delay_range hs hrun
    | field k t hc hk hstep =>
        unfold DelayInRange
        rw [hstep.delay]
        exact hs

theorem delay_start (b : Start) : DelayInRange b.state := by
  have hdelay : b.state.n.delay = 30 := congrArg Ui.delay b.ui
  unfold DelayInRange
  rw [hdelay]
  decide

/-- From `s` to `t` the handler has read the line. -/
structure DelayRead (s : Sys) (line : List Key) (t : Sys) : Prop where
  given : DelayGiven line → t = { s with n := { s.n with delay := numeral line } }
  other : ¬ DelayGiven line → t = s
  /-- The delay that is set already can be typed again. -/
  changed : t.n.delay ≠ s.n.delay ↔ DelayGiven line ∧ (numeral line : Int) ≠ s.n.delay

theorem mainDelayHandler_delay (s : Sys) {line rest : List Key} {nl : Key}
    (hline : IsLine isNewline line) (hnl : isNewline nl = true) :
    ∃ t, mainDelayHandler s (line ++ nl :: rest) = some (t, rest) ∧ DelayRead s line t := by
  by_cases hgiven : DelayGiven line
  · refine ⟨_, mainDelayHandler_given s hnl hgiven, fun _ => rfl, fun h => absurd hgiven h, ?_⟩
    exact (and_iff_right hgiven).symm
  · refine ⟨s, mainDelayHandler_other s hline hnl hgiven, fun h => absurd h hgiven, fun _ => rfl,
      ?_⟩
    exact iff_of_false (fun h => h rfl) fun h => hgiven h.1

/-- **The delay** is set by exactly the numerals from 1 to 255, is in that range in every
reachable state, and no sum on the way to it is larger than 2559. -/
theorem delay_law :
    (∀ (s : Sys) (keys : List Key), (∃ k ∈ keys, isNewline k = true) →
      ∃ line nl rest t, keys = line ++ nl :: rest ∧ IsLine isNewline line ∧
        isNewline nl = true ∧ mainDelayHandler s keys = some (t, rest) ∧ DelayRead s line t) ∧
    (∀ t, Reachable t → DelayInRange t) ∧
    ∀ keys, (∀ d ∈ delaySums keys 0, 0 ≤ d ∧ d ≤ 2559) ∧
      ∀ d seenNl ks, delayLoop keys 0 = some (d, seenNl, ks) →
        d = (delaySums keys 0).getLastD 0 := by
  refine ⟨fun s keys h => ?_, fun t ht => ?_, fun keys => ⟨?_, fun d seenNl ks h => ?_⟩⟩
  · obtain ⟨line, nl, rest, rfl, hline, hnl⟩ := exists_line h
    obtain ⟨t, ht, hread⟩ := mainDelayHandler_delay s hline hnl
    exact ⟨line, nl, rest, t, rfl, hline, hnl, ht, hread⟩
  · exact ht.invariant delay_start fun s e t hs hstep => delay_step hs hstep
  · exact delaySums_le le_rfl (by decide)
  · exact delayLoop_last h

/-- At the start the delay is 30, and typing it changes nothing. -/
theorem delay_retyped : ¬ ∀ (s : Sys) (line rest : List Key) (nl : Key) (t : Sys),
    IsLine isNewline line → isNewline nl = true →
    mainDelayHandler s (line ++ nl :: rest) = some (t, rest) →
    (t.n.delay ≠ s.n.delay ↔ DelayGiven line) := by
  intro h
  have hgiven : DelayGiven (typing "30") := ⟨by decide, by decide, by decide⟩
  have hchanged := (h Start.quiet.state (typing "30") [] (key '\n') Start.quiet.state (by decide)
    (by decide) rfl).mpr hgiven
  exact hchanged rfl

end Sockmon

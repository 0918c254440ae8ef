import Sockmon.Run.Keys

set_option autoImplicit false

/-! # The sort key can be sorted by

`n->sort_key` is null or points at a field that has a `sort_func` (`SortKeyValid`), unless an s
key is pressed with the cursor on a field that has none: `field_sort_handler`, unlike the
handlers beside it, does not look at the field. Moving fields takes the sort key along.
-/

namespace Sockmon

open Transition

def SortKeyValid (s : Sys) : Prop :=
  ∀ k, s.n.sortKey = some k → ∃ f, s.infoAt k = some f ∧ f.sortFunc.isSome

/-- The s key is pressed on fields with a `sort_func` only. -/
def SortsSortable (s : Sys) (i : Input) : Prop :=
  fieldKey s i = some .sort → ∃ f, s.cursorField = some f ∧ f.sortFunc.isSome

/-- The property is about the sort key and which field stands where. -/
theorem SortKeyValid.congr {s t : Sys} (hk : t.n.sortKey = s.n.sortKey)
    (hi : t.tcpFields.map (·.toFieldInfo) = s.tcpFields.map (·.toFieldInfo)) :
    SortKeyValid t ↔ SortKeyValid s := by
  unfold SortKeyValid
  simp only [infoAt_eq, hk, hi]

theorem sortKeyValid_quiet {s t : Sys} (h : Quiet s t) : SortKeyValid t ↔ SortKeyValid s :=
  SortKeyValid.congr h.sortKey (by rw [h.tcpFields])

/-- A reordering keeps the field that the sort key denotes. -/
theorem Moved.infoAt {σ : Nat → Nat} {s t : Sys} (h : Moved σ s t) {k' : Int}
    (hk' : t.n.sortKey = some k') : ∃ k, s.n.sortKey = some k ∧ t.infoAt k' = s.infoAt k := by
  cases hk : s.n.sortKey with
  | none =>
      rw [h.cleared hk] at hk'
      cases hk'
  | some k =>
      obtain ⟨k₁, hk₁, he⟩ := h.denotes k hk
      obtain rfl : k₁ = k' := Option.some.inj (hk₁.symm.trans hk')
      exact ⟨k, rfl, by unfold Sys.infoAt; rw [he]⟩

theorem Moved.sortKeyValid {σ : Nat → Nat} {s t : Sys} (h : Moved σ s t)
    (hs : SortKeyValid s) : SortKeyValid t := by
  intro k' hk'
  obtain ⟨k, hk, he⟩ := h.infoAt hk'
  rw [he]
  exact hs k hk

/-- An s key keeps the sort key valid exactly if it is pressed on a field with a `sort_func`. -/
theorem toggleSortKey_valid {s : Sys} (hs : SortKeyValid s) :
    SortKeyValid { s with n := toggleSortKey s.n s.n.posField.y } ↔
      ∃ f, s.cursorField = some f ∧ f.sortFunc.isSome := by
  -- The field under the cursor, in terms of what `SortKeyValid` says of it.
  have hcur : (∃ f, s.infoAt s.n.posField.y = some f ∧ f.sortFunc.isSome) ↔
      ∃ f, s.cursorField = some f ∧ f.sortFunc.isSome := by
    simp only [Sys.infoAt, Sys.cursorField, Option.map_eq_some_iff]
    constructor
    · rintro ⟨-, ⟨f, hf, rfl⟩, hsome⟩
      exact ⟨f, hf, hsome⟩
    · rintro ⟨f, hf, hsome⟩
      exact ⟨f.toFieldInfo, ⟨f, hf, rfl⟩, hsome⟩
  rw [← hcur]
  unfold toggleSortKey
  by_cases hk : s.n.sortKey = some s.n.posField.y
  · rw [if_pos hk]
    refine iff_of_true ?_ (hs _ hk)
    split
    · exact hs
    · intro k hk'
      cases hk'
  · rw [if_neg hk]
    constructor
    · intro h
      exact h s.n.posField.y rfl
    · intro h k hk'
      cases hk'
      exact h

theorem sortKeyValid_input {s t : Sys} {i : Input} (hs : SortKeyValid s)
    (hi : InputStep s i t) : SortKeyValid t ↔ SortsSortable s i := by
  cases hi with
  | idle hm hf => exact iff_of_true hs (by simp [SortsSortable, hf])
  | resize hm hf => exact iff_of_true hs (by simp [SortsSortable, hf])
  | help hc hm hf => exact iff_of_true hs (by simp [SortsSortable, hf])
  | main k t hk hrun =>
      refine iff_of_true ?_ (by simp [SortsSortable, fieldKey_of_mainKey hk])
      have hinfos : t.tcpFields.map (·.toFieldInfo) = s.tcpFields.map (·.toFieldInfo) := by
        rw [MainHandler.tcpFields hrun]
      exact (SortKeyValid.congr (MainHandler.sortKey hrun) hinfos).mpr hs
  | field k t hc hk hstep =>
      unfold SortsSortable
      rw [hk, Option.some.injEq]
      by_cases hsort : k = .sort
      · subst hsort
        cases hstep with
        | sort =>
            rw [toggleSortKey_valid hs]
            exact ⟨fun h _ => h, fun h => h rfl⟩
        | idle _ hh => simp at hh
        | cursor _ hh => simp at hh
      · refine iff_of_true ?_ fun h => absurd h hsort
        by_cases hleft : k = .keyLeft
        · subst hleft
          cases hstep with
          | idle => exact hs
          | cursor => exact hs
          | move sel f u hsel hf hd hne hu => exact (moveLoop_moved hu).sortKeyValid hs
        · exact (SortKeyValid.congr (hstep.sortKey hleft hsort) (hstep.infos hleft)).mpr hs

/-- **The sort key is valid throughout a run exactly if only sortable fields are sorted by.** -/
theorem sortKeyValid_iff (b : Start) (es : List Event) :
    Always step SortKeyValid es b.state ↔ Meets step (OnInput SortsSortable) es b.state := by
  refine always_iff_keys (J := fun _ => True) b es (fun _ _ _ _ => trivial)
    (fun _ _ => sortKeyValid_quiet) (fun _ _ _ => Iff.rfl) (fun _ _ _ _ _ => trivial)
    (fun _ _ _ _ => sortKeyValid_input) trivial ?_
  intro k hk
  cases hk

/-- The first row of the table is a heading, and the s key makes it the sort key. -/
theorem heading_becomes_sortKey : ¬ Always step SortKeyValid
    [.quiet, .press (key 'f') [], .quiet, .press (key 's') []] Start.quiet.state :=
  not_always_of_exec (f := fun s => (s.n.sortKey, (s.infoAt 0).bind (·.sortFunc)))
    (a := (some 0, none)) (by decide +kernel) fun t ht h => by
      obtain ⟨hk, hn⟩ := Prod.mk.inj ht
      obtain ⟨f, hf, hsome⟩ := h 0 hk
      rw [hf, Option.bind_some] at hn
      rw [hn] at hsome
      cases hsome

end Sockmon

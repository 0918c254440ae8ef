import Sockmon.Field.BareLine
import Sockmon.Run.Keys

set_option autoImplicit false

/-! # Active filters are there

Every field whose `filter_on` bit is set has a filter (`FiltersPresent`), so that applying it
has something to read, unless a bare operator is typed for a field without one: the parser
returns success then, and `field_filter_handler` sets the bit.
-/

namespace Sockmon

open Transition Reorder

/-- The filter of an active field is there. -/
def Field.FilterPresent (f : Field) : Prop := f.filterOn = true → f.filter.isSome

def FiltersPresent (s : Sys) : Prop := ∀ f ∈ s.tcpFields, f.FilterPresent

/-- No bare operator is typed into the box of a field that has no filter. -/
def NoBareOperator (s : Sys) (i : Input) : Prop :=
  fieldKey s i = some .filter → ∀ f fp, s.cursorField = some f → f.filterParse = some fp →
    f.filterOn = false → f.filter = none → ¬ BareOperator fp f.type i.typed

theorem filtersPresent_quiet {s t : Sys} (h : Quiet s t) :
    FiltersPresent t ↔ FiltersPresent s := by
  unfold FiltersPresent
  rw [h.tcpFields]

/-- Writing the field under the cursor matters to that field only. -/
theorem filtersPresent_set {s : Sys} {f f' : Field} (hs : FiltersPresent s)
    (hf : s.cursorField = some f) :
    FiltersPresent (s.setCursorField f') ↔ f'.FilterPresent := by
  obtain ⟨-, hlt, -⟩ := fieldAt_some hf
  constructor
  · intro h
    exact h f' (List.mem_set hlt f')
  · intro h g hg
    rcases List.mem_or_eq_of_mem_set hg with hg | rfl
    · exact hs g hg
    · exact h

/-- What the parser leaves in the field is a filter or no success, but for a bare operator. -/
theorem filterPresent_run {f : Field} {fp : FilterParse} {allocs : List Bool} {keys : List Key}
    {r : FpResult} (h : fp.run f allocs keys = some r) :
    Field.FilterPresent { f with filter := r.filter, filterOn := !r.err } ↔
      (f.filter = none → ¬ BareOperator fp f.type keys) := by
  unfold Field.FilterPresent
  simp only [Bool.not_eq_true']
  cases hf : f.filter with
  | some flt =>
      have hsome : r.filter.isSome := FilterParse.run_filter (by rw [hf]; rfl) h
      exact iff_of_true (fun _ => hsome) nofun
  | none =>
      rw [← FilterParse.run_bare hf h]
      constructor
      · intro hp _ hbare
        have hsome := hp hbare.1
        rw [hbare.2] at hsome
        cases hsome
      · intro hno herr
        rw [Option.isSome_iff_ne_none]
        intro hnone
        exact hno rfl ⟨herr, hnone⟩

theorem filtersPresent_input {s t : Sys} {i : Input} (hs : FiltersPresent s)
    (hi : InputStep s i t) : FiltersPresent t ↔ NoBareOperator s i := by
  cases hi with
  | idle hm hf => exact iff_of_true hs (by simp [NoBareOperator, hf])
  | resize hm hf => exact iff_of_true hs (by simp [NoBareOperator, hf])
  | help hc hm hf => exact iff_of_true hs (by simp [NoBareOperator, hf])
  | main k t hk hrun =>
      refine iff_of_true ?_ (by simp [NoBareOperator, fieldKey_of_mainKey hk])
      unfold FiltersPresent
      rw [MainHandler.tcpFields hrun]
      exact hs
  | field k t hc hk hstep =>
      -- Only the filter key has a condition to meet.
      have hother : k ≠ .filter → NoBareOperator s i := by
        intro hne hk'
        rw [hk] at hk'
        exact absurd (Option.some.inj hk') hne
      have hmem : ∀ {f}, s.cursorField = some f → f.FilterPresent := by
        intro f hf
        obtain ⟨-, -, hget⟩ := fieldAt_some hf
        exact hs f (List.mem_of_getElem? hget)
      cases hstep with
      | quit => exact iff_of_true hs (hother nofun)
      | idle _ hh => exact iff_of_true hs (hother (by rintro rfl; simp at hh))
      | cursor _ hh => exact iff_of_true hs (hother (by rintro rfl; simp at hh))
      | sort => exact iff_of_true hs (hother nofun)
      | pick f hsel hf hd => exact iff_of_true hs (hother nofun)
      | space f hf hd =>
          have hp := hmem hf
          exact iff_of_true ((filtersPresent_set hs hf).mpr hp) (hother nofun)
      | pin f hf hd =>
          have hp := hmem hf
          exact iff_of_true ((filtersPresent_set hs hf).mpr hp) (hother nofun)
      | move sel f u hsel hf hd hne hu =>
          refine iff_of_true (fun g hg => ?_) (hother nofun)
          exact hs g ((moveLoop_moved hu).perm.mem_iff.mp hg)
      | noFilter f hf hp =>
          refine iff_of_true hs fun _ f' fp hf' hp' => ?_
          rw [hf] at hf'
          rw [← Option.some.inj hf', hp] at hp'
          cases hp'
      | clearFilter f hf hp hon =>
          refine iff_of_true ((filtersPresent_set hs hf).mpr nofun) fun _ f' fp hf' _ hoff => ?_
          rw [hf] at hf'
          rw [← Option.some.inj hf', hon] at hoff
          cases hoff
      | setFilter f fp r hf hp hon hr =>
          rw [filtersPresent_set hs hf, filterPresent_run hr]
          constructor
          · intro h _ f' fp' hf' hp' _ hnone
            obtain rfl : f = f' := Option.some.inj (hf.symm.trans hf')
            obtain rfl : fp = fp' := Option.some.inj (hp.symm.trans hp')
            exact h hnone
          · intro h hnone
            exact h hk f fp hf hp hon hnone

/-- **Active filters are there throughout a run exactly if no bare operator is typed for a
field without a filter.** -/
theorem filtersPresent_iff (b : Start) (es : List Event) :
    Always step FiltersPresent es b.state ↔ Meets step (OnInput NoBareOperator) es b.state := by
  refine always_iff_keys (J := fun _ => True) b es (fun _ _ _ _ => trivial)
    (fun _ _ => filtersPresent_quiet) (fun _ _ _ => Iff.rfl) (fun _ _ _ _ _ => trivial)
    (fun _ _ _ _ => filtersPresent_input) trivial ?_
  have hoff : ∀ f ∈ tcpFields, f.filterOn = false := by decide +kernel
  intro f hf hon
  rw [hoff f hf] at hon
  cases hon

/-- `=` and the enter key, typed for the local address, switch on a filter that is not there. -/
theorem bare_operator_filters : ¬ Always step FiltersPresent
    [.quiet, .press (key 'f') [], .quiet, .press KEY_DOWN [], .quiet,
      .press (key 'f') (typing "=\n")] Start.quiet.state :=
  not_always_of_exec (f := fun s => s.tcpFields.any fun f => f.filterOn && f.filter.isNone)
    (a := true) (by decide +kernel) fun t ht h => by
      obtain ⟨f, hf, hon⟩ := List.any_eq_true.mp ht
      simp only [Bool.and_eq_true, Option.isNone_iff_eq_none] at hon
      have hsome := h f hf hon.1
      rw [hon.2] at hsome
      cases hsome

end Sockmon

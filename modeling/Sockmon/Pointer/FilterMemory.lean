import Sockmon.Lib.Simulation
import Sockmon.Pointer.Settle
import Sockmon.Run.Errors
import Sockmon.Run.Preview
import Sockmon.Run.Quit

set_option autoImplicit false

/-! # The filters in a run

In every run in which no resize fails, the program whose filters are on the heap does what the
program does whose filters are values (`filter_memory`): what it reads through the pointers of the
fields is what was entered, wherever the fields were moved; no filter is used or freed after it was
freed; and in use are the filters of the fields and their strings, until `window_exit` has freed
every filter that there ever was.
-/

namespace Sockmon

open Transition Reorder

/-! ## The table -/

def Field.isString (f : Field) : Bool := f.type = .string

/-- Where the filters of the fields are: those of the field `i` at the places `pss[i]`, all of them
different, and nothing else is in use. -/
structure FiltersAt (h : Heap Obj) (fields : List Field) (ptrs : List (Option Nat))
    (pss : List (List Nat)) : Prop where
  ptrs_length : ptrs.length = fields.length
  pss_length : pss.length = fields.length
  slots : ∀ (i : Nat) f p ps, fields[i]? = some f → ptrs[i]? = some p → pss[i]? = some ps →
    Slot h f.isString p f.filter ps
  holds : h.Holds pss.flatten
  nodup : pss.flatten.Nodup

section

variable {h : Heap Obj} {fields fields' : List Field} {ptrs ptrs' : List (Option Nat)}
  {pss pss' : List (List Nat)} {ps : List Nat} {y : Nat}

/-! ### Reading -/

theorem Slot.read {str : Bool} {p : Nat} {flt : Filter}
    (hs : Slot h str (some p) (some flt) ps) : readFilter h p = some flt := by
  unfold readFilter
  cases hs with
  | value p op arg hp => rw [hp]
  | string p q op s hp hq =>
      rw [hp]
      dsimp only
      rw [hq]

/-- **What is read** through the pointers is what the fields have. -/
theorem readFilters_eq (hp : ptrs.length = fields.length) (hps : pss.length = fields.length)
    (hs : ∀ (i : Nat) f p ps, fields[i]? = some f → ptrs[i]? = some p → pss[i]? = some ps →
      Slot h f.isString p f.filter ps) : readFilters h fields ptrs = some fields := by
  induction fields generalizing ptrs pss with
  | nil =>
      rw [List.length_eq_zero_iff.mp hp]
      rfl
  | cons f fields ih =>
      obtain ⟨p, ptrs, rfl⟩ := List.exists_cons_of_length_eq_add_one hp
      obtain ⟨ps, pss, rfl⟩ := List.exists_cons_of_length_eq_add_one hps
      have hlen : ptrs.length = fields.length := by simpa using hp
      have hlens : pss.length = fields.length := by simpa using hps
      have hrest := ih hlen hlens fun i f p ps hf hp hps => hs (i + 1) f p ps hf hp hps
      have hslot := hs 0 f p ps rfl rfl rfl
      have hsome := hslot.isSome
      cases hflt : f.filter with
      | none =>
          rw [hflt] at hsome
          cases p with
          | some p => cases hsome
          | none =>
              rw [readFilters, hrest, ← hflt]
              rfl
      | some flt =>
          rw [hflt] at hsome hslot
          cases p with
          | none => cases hsome
          | some p =>
              rw [readFilters, hslot.read, hrest, Option.bind_eq_bind, Option.bind_some, ← hflt]
              rfl

theorem FiltersAt.read (hf : FiltersAt h fields ptrs pss) :
    readFilters h fields ptrs = some fields :=
  readFilters_eq hf.ptrs_length hf.pss_length hf.slots

/-! ### One field -/

/-- The places of one field, and the others. -/
theorem flatten_perm_at (hy : pss[y]? = some ps) :
    pss.flatten.Perm (ps ++ (pss.eraseIdx y).flatten) := by
  obtain ⟨hlt, rfl⟩ := List.getElem?_eq_some_iff.mp hy
  exact (List.getElem_cons_eraseIdx_perm hlt).symm.flatten

theorem mem_flatten_eraseIdx {i q : Nat} (hi : pss[i]? = some ps) (hne : i ≠ y) (hq : q ∈ ps) :
    q ∈ (pss.eraseIdx y).flatten :=
  List.mem_flatten.mpr ⟨ps, List.mem_eraseIdx_iff_getElem?.mpr ⟨i, hne, hi⟩, hq⟩

theorem FiltersAt.at (hf : FiltersAt h fields ptrs pss) {f : Field} (hy : fields[y]? = some f) :
    ∃ p ps, ptrs[y]? = some p ∧ pss[y]? = some ps ∧ Slot h f.isString p f.filter ps ∧
      h.Holds (ps ++ (pss.eraseIdx y).flatten) ∧ (ps ++ (pss.eraseIdx y).flatten).Nodup := by
  have hlt := (List.getElem?_eq_some_iff.mp hy).1
  have hp := List.getElem?_eq_getElem (l := ptrs) (i := y) (by rw [hf.ptrs_length]; exact hlt)
  have hps := List.getElem?_eq_getElem (l := pss) (i := y) (by rw [hf.pss_length]; exact hlt)
  have hperm := flatten_perm_at hps
  exact ⟨_, _, hp, hps, hf.slots y f _ _ hy hp hps, hf.holds.of_mem fun q => hperm.mem_iff.symm,
    hperm.nodup_iff.mp hf.nodup⟩

/-- **A parser** changes the filter of its field. -/
theorem FiltersAt.set (hf : FiltersAt h fields ptrs pss) (f' : Field) {u : Mem}
    (hlt : y < fields.length)
    (hu : Settled h (pss.eraseIdx y).flatten f'.isString f'.filter u) :
    ∃ pss', FiltersAt u.heap (fields.set y f') (ptrs.set y u.filter) pss' := by
  obtain ⟨ps, hslot, hholds, hnodup, hsame⟩ := hu
  have hylt : y < pss.length := by rw [hf.pss_length]; exact hlt
  have hperm : (pss.set y ps).flatten.Perm (ps ++ (pss.eraseIdx y).flatten) := by
    have hset := flatten_perm_at (List.getElem?_set_self (a := ps) hylt)
    rwa [List.eraseIdx_set_eq] at hset
  refine ⟨pss.set y ps, ?_, ?_, fun i g p qs hg hp hqs => ?_, ?_, hperm.nodup_iff.mpr hnodup⟩
  · rw [List.length_set, List.length_set, hf.ptrs_length]
  · rw [List.length_set, List.length_set, hf.pss_length]
  · by_cases hi : y = i
    · subst hi
      rw [List.getElem?_set_self (by rw [hf.ptrs_length]; exact hlt)] at hp
      rw [List.getElem?_set_self hlt] at hg
      rw [List.getElem?_set_self hylt] at hqs
      cases hg
      cases hp
      cases hqs
      exact hslot
    · rw [List.getElem?_set_ne hi] at hg hp hqs
      refine (hf.slots i g p qs hg hp hqs).congr fun q hq => hsame q ?_
      exact mem_flatten_eraseIdx hqs (Ne.symm hi) hq
  · exact hholds.of_mem fun q => hperm.mem_iff

/-- Handlers that leave the types and the filters alone. -/
theorem FiltersAt.congr (hf : FiltersAt h fields ptrs pss)
    (hsame : fields'.map (fun f => (f.isString, f.filter)) =
      fields.map fun f => (f.isString, f.filter)) : FiltersAt h fields' ptrs pss := by
  have hlen : fields'.length = fields.length := by simpa using congrArg List.length hsame
  refine ⟨hf.ptrs_length.trans hlen.symm, hf.pss_length.trans hlen.symm,
    fun i f' p ps hf' hp hps => ?_, hf.holds, hf.nodup⟩
  have hi : (fields.map fun f => (f.isString, f.filter))[i]? = some (f'.isString, f'.filter) := by
    rw [← hsame, List.getElem?_map, hf']
    rfl
  rw [List.getElem?_map] at hi
  obtain ⟨f, hfi, heq⟩ := Option.map_eq_some_iff.mp hi
  simp only [Prod.mk.injEq] at heq
  rw [← heq.1, ← heq.2]
  exact hf.slots i f p ps hfi hp hps

/-! ### Moving -/

/-- The fields and their pointers in another order. -/
theorem FiltersAt.along (hf : FiltersAt h fields ptrs pss) {σ : Nat → Nat}
    (hfields : Along σ fields fields') (hptrs : Along σ ptrs ptrs') (hpss : Along σ pss pss')
    (hfperm : fields'.Perm fields) (hptperm : ptrs'.Perm ptrs) (hpsperm : pss'.Perm pss) :
    FiltersAt h fields' ptrs' pss' := by
  have hflat : pss'.flatten.Perm pss.flatten := hpsperm.flatten
  refine ⟨?_, ?_, fun i f p ps hi hp hps => ?_, hf.holds.of_mem fun q => hflat.mem_iff,
    hflat.nodup_iff.mpr hf.nodup⟩
  · rw [hptperm.length_eq, hfperm.length_eq, hf.ptrs_length]
  · rw [hpsperm.length_eq, hfperm.length_eq, hf.pss_length]
  · rw [hfields i] at hi
    rw [hptrs i] at hp
    rw [hpss i] at hps
    exact hf.slots (σ i) f p ps hi hp hps

end

namespace Filters

section

variable {α : Type} {l : List α}

/-- What a loop of exchanges leaves: the list reordered along `σ`. -/
def Carried (σ : Nat → Nat) (l : List α) (r : Option (List α)) : Prop :=
  ∃ l', r = some l' ∧ Along σ l l' ∧ l'.Perm l

theorem swapField_carried {a b : Nat} (ha : a < l.length) (hb : b < l.length) :
    Carried (swapAt a b) l (swapField l a b) := by
  have hga := List.getElem?_eq_getElem ha
  have hgb := List.getElem?_eq_getElem hb
  refine ⟨(l.set a l[b]).set b l[a], ?_, along_swap hga hgb, perm_swap hga hgb⟩
  unfold swapField
  rw [hga, hgb]
  rfl

/-- One exchange more. -/
theorem Carried.bind {σ τ ρ : Nat → Nat} {r : Option (List α)} {g : List α → Option (List α)}
    (h : Carried σ l r) (hg : ∀ l', l'.length = l.length → Carried τ l' (g l'))
    (hρ : ∀ i, σ (τ i) = ρ i) : Carried ρ l (r.bind g) := by
  obtain ⟨l', rfl, halong, hperm⟩ := h
  obtain ⟨l'', hl'', halong', hperm'⟩ := hg l' hperm.length_eq
  exact ⟨l'', hl'', (halong.trans halong').congr hρ, hperm'.trans hperm⟩

theorem carried_refl {σ : Nat → Nat} (hσ : ∀ i, σ i = i) : Carried σ l (some l) :=
  ⟨l, rfl, (Along.refl l).congr fun i => (hσ i).symm, List.Perm.refl l⟩

theorem moveDownLoop_carried {k a : Nat} (h : a + k < l.length) :
    Carried (moveTo a (a + k)) l (moveDownLoop k a l) := by
  induction k generalizing a l with
  | zero => exact carried_refl (moveTo_self a)
  | succ k ih =>
      refine (swapField_carried (a := a) (b := a + 1) (by omega) (by omega)).bind
        (fun l' hlen => ih (a := a + 1) (by omega)) fun i => ?_
      rw [Nat.succ_add_eq_add_succ]
      exact swapAt_moveTo_down (by omega) i

theorem moveUpLoop_carried {k b : Nat} (h : b + k < l.length) :
    Carried (moveTo (b + k) b) l (moveUpLoop k (b + k) l) := by
  induction k generalizing l with
  | zero => exact carried_refl (moveTo_self b)
  | succ k ih =>
      refine (swapField_carried (a := b + (k + 1)) (b := b + (k + 1) - 1) (by omega)
        (by omega)).bind (fun l' hlen => ih (by omega)) fun i => ?_
      exact swapAt_moveTo_up (by omega) i

theorem moveLoop_carried {sel y : Nat} (hsel : sel < l.length) (hy : y < l.length) :
    Carried (moveTo sel y) l (moveLoop sel y l) := by
  unfold moveLoop
  split_ifs with hlt
  · have hdown := moveDownLoop_carried (l := l) (k := y - sel) (a := sel) (by omega)
    rwa [show sel + (y - sel) = y by omega] at hdown
  · obtain ⟨k, rfl⟩ : ∃ k, sel = y + k := ⟨sel - y, by omega⟩
    rw [Nat.add_sub_cancel_left]
    exact moveUpLoop_carried hsel

end

/-! ## Steps -/

/-- The program whose filters are on the heap is in the state `s` of the other: until `window_exit`
every filter of `s` is there, and nothing else, and afterwards nothing is. -/
structure Mirrors (w : State) (s : Sys) : Prop where
  sys : w.sys = s
  inUse : s.n.weCalled = false → ∃ pss, FiltersAt w.heap s.tcpFields w.ptrs pss
  freed : s.n.weCalled = true → w.heap.Holds []

section

variable {w : State} {s t u : Sys} {i : Input}

theorem Mirrors.load (hr : Mirrors w s) (hclear : s.n.weCalled = false) : load w = some s := by
  obtain ⟨pss, hf⟩ := hr.inUse hclear
  unfold Filters.load
  rw [hr.sys, hf.read]
  rfl

/-! ### `window_exit` -/

/-- **The loop of `window_exit`** frees all that is in use. -/
theorem freeFilters_eq {fields : List Field} {ptrs : List (Option Nat)} {pss : List (List Nat)}
    {h : Heap Obj} (hf : FiltersAt h fields ptrs pss) :
    ∃ h', freeFilters fields ptrs h = some h' ∧ h'.Holds [] := by
  induction fields generalizing ptrs pss h with
  | nil =>
      have hholds := hf.holds
      rw [List.length_eq_zero_iff.mp hf.pss_length] at hholds
      rw [List.length_eq_zero_iff.mp hf.ptrs_length]
      exact ⟨h, rfl, hholds⟩
  | cons f fields ih =>
      obtain ⟨p, ptrs, rfl⟩ := List.exists_cons_of_length_eq_add_one hf.ptrs_length
      obtain ⟨ps, pss, rfl⟩ := List.exists_cons_of_length_eq_add_one hf.pss_length
      have hnodup : (ps ++ pss.flatten).Nodup := hf.nodup
      have hholds : h.Holds (ps ++ pss.flatten) := hf.holds
      obtain ⟨h₁, hfree, hh₁, hcell⟩ := hholds.freeAll hnodup
      obtain ⟨-, hrest, hdisjoint⟩ := List.nodup_append.mp hnodup
      have htail : FiltersAt h₁ fields ptrs pss := by
        refine ⟨by simpa using hf.ptrs_length, by simpa using hf.pss_length,
          fun i g q qs hg hq hqs => ?_, hh₁, hrest⟩
        refine (hf.slots (i + 1) g q qs hg hq hqs).congr fun x hx => hcell x fun hxp => ?_
        exact hdisjoint x hxp x
          (List.mem_flatten.mpr ⟨qs, List.mem_of_getElem? hqs, hx⟩) rfl
      have hslot := hf.slots 0 f p ps rfl rfl rfl
      obtain ⟨h', hrun, hh'⟩ := ih htail
      refine ⟨h', ?_, hh'⟩
      cases p with
      | none =>
          generalize f.filter = flt, f.isString = str at hslot
          cases hslot
          cases hfree
          exact hrun
      | some p =>
          have hsome := hslot.isSome
          have hcs : (if f.type = .string then [Stmt.freeOldS] else []) ++ [.freeOld] =
              if f.filter.isSome then
                (if f.isString then [Stmt.freeOldS] else []) ++ [.freeOld] else [] := by
            rw [← hsome]
            by_cases hstr : f.type = .string <;> simp [Field.isString, hstr]
          have hfrees := hslot.frees (u := .start h (some p)) (fun _ _ => rfl) rfl (Or.inl hcs)
          rw [show (Mem.start h (some p)).heap = h from rfl, hfree] at hfrees
          rw [freeFilters, hfrees]
          exact hrun

theorem windowExit_mirrors (hr : Mirrors w s) (hfields : t.tcpFields = s.tcpFields)
    (hset : s.n.weCalled = true → t.n.weCalled = true) :
    ∃ w', windowExit w t = some w' ∧ Mirrors w' t := by
  unfold windowExit
  rw [hr.sys]
  cases hs : s.n.weCalled with
  | true =>
      rw [Bool.not_true, Bool.and_false, if_neg Bool.false_ne_true]
      refine ⟨_, rfl, rfl, fun hclear => ?_, fun _ => hr.freed hs⟩
      rw [hset hs] at hclear
      cases hclear
  | false =>
      obtain ⟨pss, hf⟩ := hr.inUse hs
      rw [← hfields] at hf
      rw [Bool.not_false, Bool.and_true]
      cases ht : t.n.weCalled with
      | true =>
          obtain ⟨h', hrun, hh'⟩ := freeFilters_eq hf
          rw [if_pos rfl, hrun]
          refine ⟨_, rfl, rfl, fun hclear => ?_, fun _ => hh'⟩
          rw [ht] at hclear
          cases hclear
      | false =>
          rw [if_neg Bool.false_ne_true]
          refine ⟨_, rfl, rfl, fun _ => ⟨pss, hf⟩, fun hcalled => ?_⟩
          rw [ht] at hcalled
          cases hcalled

/-! ### Keys -/

/-- Only `fp_common` makes filters with strings. -/
theorem tcpFields_string : ∀ f ∈ tcpFields.map (·.toFieldInfo), f.type = .string →
    f.filterParse = none ∨ f.filterParse = some .fpCommon := by
  decide +kernel

/-- The handler of a key of the field screen has run. -/
theorem shouldStop_field {k : FieldHandler} (hk : fieldKey s i = some k)
    (h : shouldStop s i = some u) :
    s.n.curScreen = .field ∧ k.run { s with allocs := i.allocs } i.typed = some (u, []) := by
  unfold fieldKey at hk
  split_ifs at hk with hscreen
  refine ⟨hscreen, ?_⟩
  have herr : i.ch ≠ ERR := by
    rintro herr
    rw [herr] at hk
    cases hk
  have hresize : i.ch ≠ KEY_RESIZE := by
    rintro hresize
    rw [hresize] at hk
    cases hk
  unfold shouldStop Sockmon.dispatch at h
  dsimp only at h
  rw [if_neg herr, if_neg hresize, hscreen] at h
  dsimp only at h
  rw [hk] at h
  dsimp only at h
  split at h
  · rename_i hrun
    cases h
    exact hrun
  · cases h

/-- A handler that changes a setting of the field under the cursor. -/
theorem setCursorField_same {f f' : Field} (hf : s.cursorField = some f)
    (hsame : (f'.isString, f'.filter) = (f.isString, f.filter)) :
    (s.setCursorField f').tcpFields.map (fun f => (f.isString, f.filter)) =
      s.tcpFields.map fun f => (f.isString, f.filter) := by
  obtain ⟨-, hlt, hget⟩ := fieldAt_some hf
  show (s.tcpFields.set s.n.posField.y.toNat f').map _ = _
  rw [List.map_set, hsame]
  obtain ⟨-, rfl⟩ := List.getElem?_eq_some_iff.mp hget
  refine List.ext_getElem? fun i => ?_
  rw [List.getElem?_set]
  split_ifs with hi hlt'
  · rw [← hi, List.getElem?_map, List.getElem?_eq_getElem hlt]
    rfl
  · exact absurd (by rwa [List.length_map]) hlt'
  · rfl

theorem fieldFilterHandler_mirrors {pss : List (List Nat)} {keys rest : List Key}
    (hf : FiltersAt w.heap s.tcpFields w.ptrs pss) (hs : TableSound s)
    (hscreen : s.n.curScreen = .field)
    (h : Sockmon.fieldFilterHandler s keys = some (t, rest)) :
    ∃ w', fieldFilterHandler w s s.allocs keys = some w' ∧
      ∃ pss', FiltersAt w'.heap t.tcpFields w'.ptrs pss' := by
  have hstep : FieldStep s keys .filter t := fieldFilterHandler_step hscreen h
  unfold fieldFilterHandler
  cases hstep with
  | idle _ hk => simp at hk
  | cursor _ hk => simp at hk
  | noFilter f hcur hfp =>
      rw [hcur, Option.bind_eq_bind, Option.bind_some, hfp]
      exact ⟨w, rfl, pss, hf⟩
  | clearFilter f hcur hfp hon =>
      obtain ⟨fp, hfp⟩ := Option.isSome_iff_exists.mp hfp
      rw [hcur, Option.bind_eq_bind, Option.bind_some, hfp]
      dsimp only
      rw [hon, Bool.not_true, if_neg Bool.false_ne_true]
      exact ⟨w, rfl, pss, hf.congr (setCursorField_same hcur rfl)⟩
  | setFilter f fp r hcur hfp hon hr =>
      obtain ⟨-, hlt, hget⟩ := fieldAt_some hcur
      obtain ⟨p, ps, hp, hps, hslot, hholds, hnodup⟩ := hf.at hget
      have hmem : f.toFieldInfo ∈ tcpFields.map (·.toFieldInfo) :=
        hs.perm.mem_iff.mp (List.mem_map_of_mem (List.mem_of_getElem? hget))
      have hstr : fp = .fpCommon ∨ f.isString = false := by
        by_cases htype : f.type = .string
        · rcases tcpFields_string _ hmem htype with hnone | hcommon
          · rw [hnone] at hfp
            cases hfp
          · rw [hcommon] at hfp
            cases hfp
            exact Or.inl rfl
        · exact Or.inr (decide_eq_false htype)
      obtain ⟨u, hexec, hsettled⟩ := parser_settles hslot hholds hnodup rfl hstr hr
      rw [hcur, Option.bind_eq_bind, Option.bind_some, hfp]
      dsimp only
      rw [hon, Bool.not_false, if_pos rfl, hp, Option.bind_eq_bind, Option.bind_some, hexec,
        Option.bind_eq_bind, Option.bind_some]
      exact ⟨_, rfl, hf.set { f with filter := r.filter, filterOn := !r.err } hlt hsettled⟩

theorem fieldKeyLeftHandler_mirrors {pss : List (List Nat)}
    (hf : FiltersAt w.heap s.tcpFields w.ptrs pss) (hs : TableSound s)
    (h : Sockmon.fieldKeyLeftHandler s = some t) :
    ∃ w', fieldKeyLeftHandler w s = some w' ∧
      ∃ pss', FiltersAt w'.heap t.tcpFields w'.ptrs pss' := by
  unfold Sockmon.fieldKeyLeftHandler at h
  unfold fieldKeyLeftHandler
  cases hsel : s.n.selField with
  | none =>
      rw [hsel] at h
      cases h
      exact ⟨w, rfl, pss, hf⟩
  | some sel =>
      rw [hsel] at h
      obtain ⟨f, hcur, h⟩ := bind_some h
      dsimp only
      rw [hcur, Option.bind_eq_bind, Option.bind_some]
      dsimp only at h ⊢
      by_cases hd : f.drawRow.isNone = true
      · rw [if_pos hd] at h ⊢
        cases h
        exact ⟨w, rfl, pss, hf⟩
      rw [if_neg hd] at h ⊢
      by_cases hy : sel = s.n.posField.y.toNat
      · rw [if_pos hy] at h ⊢
        cases h
        exact ⟨w, rfl, pss, hf⟩
      · rw [if_neg hy] at h ⊢
        obtain ⟨v, hv, h⟩ := bind_some h
        cases h
        -- The pointers, and the places they lead to, are moved like the fields.
        have hsellt := hs.selection.lt hsel
        have hylt := (fieldAt_some hcur).2.1
        have hmoved := moveLoop_moved hv
        obtain ⟨ptrs', hptrs, hptrsalong, hptrsperm⟩ := moveLoop_carried (l := w.ptrs)
          (by rw [hf.ptrs_length]; exact hsellt) (by rw [hf.ptrs_length]; exact hylt)
        obtain ⟨pss', -, hpssalong, hpssperm⟩ := moveLoop_carried (l := pss)
          (by rw [hf.pss_length]; exact hsellt) (by rw [hf.pss_length]; exact hylt)
        rw [hptrs]
        exact ⟨_, rfl, pss', hf.along hmoved.fields hptrsalong hpssalong hmoved.perm hptrsperm
          hpssperm⟩

/-- The other keys leave the filters and their order alone. -/
theorem others_same {k : FieldHandler} (hk : fieldKey s i = some k) (hfilter : k ≠ .filter)
    (hleft : k ≠ .keyLeft) (hstep : FieldStep s i.typed k t) :
    dispatch w s i = some w ∧ t.tcpFields.map (fun f => (f.isString, f.filter)) =
      s.tcpFields.map fun f => (f.isString, f.filter) := by
  have hsame : t.tcpFields.map (fun f => (f.isString, f.filter)) =
      s.tcpFields.map fun f => (f.isString, f.filter) := by
    cases hstep with
    | quit | idle | sort | cursor | pick => rfl
    | space f hf hd => exact setCursorField_same hf rfl
    | pin f hf hd => exact setCursorField_same hf rfl
    | noFilter | setFilter | clearFilter => exact absurd rfl hfilter
    | move => exact absurd rfl hleft
  refine ⟨?_, hsame⟩
  unfold dispatch
  rw [hk]
  cases k with
  | filter => exact absurd rfl hfilter
  | keyLeft => exact absurd rfl hleft
  | _ => rfl

theorem dispatch_mirrors {pss : List (List Nat)} (hf : FiltersAt w.heap s.tcpFields w.ptrs pss)
    (hs : TableSound s) (h : shouldStop s i = some u) :
    ∃ w', dispatch w s i = some w' ∧ ∃ pss', FiltersAt w'.heap u.tcpFields w'.ptrs pss' := by
  cases hk : fieldKey s i with
  | none =>
      have hsame : u.tcpFields = s.tcpFields := by
        cases shouldStop_step h with
        | idle | resize | help => rfl
        | main k t hm hrun =>
            exact MainHandler.tcpFields (s := { s with allocs := i.allocs }) hrun
        | field k t hc hk' hstep =>
            rw [show fieldKey { s with allocs := i.allocs } i = fieldKey s i from rfl, hk] at hk'
            cases hk'
      rw [hsame]
      refine ⟨w, ?_, pss, hf⟩
      unfold dispatch
      rw [hk]
  | some k =>
      obtain ⟨hscreen, hrun⟩ := shouldStop_field hk h
      have hs' : TableSound { s with allocs := i.allocs } :=
        ⟨hs.perm, hs.selection.offScreen, hs.selection.drawRow⟩
      by_cases hfilter : k = .filter
      · subst hfilter
        unfold dispatch
        rw [hk]
        exact fieldFilterHandler_mirrors (s := { s with allocs := i.allocs }) hf hs' hscreen hrun
      by_cases hleft : k = .keyLeft
      · subst hleft
        unfold dispatch
        rw [hk]
        obtain ⟨v, hv, heq⟩ := Option.map_eq_some_iff.mp hrun
        obtain rfl : v = u := congrArg Prod.fst heq
        exact fieldKeyLeftHandler_mirrors (s := { s with allocs := i.allocs }) hf hs' hv
      · obtain ⟨hdispatch, hsame⟩ := others_same (s := { s with allocs := i.allocs }) (w := w) hk
          hfilter hleft (FieldHandler.run_step hscreen hrun)
        exact ⟨w, hdispatch, pss, hf.congr hsame⟩

/-! ### The program -/

/-- **Every step** of one program is a step of the other. -/
theorem step_mirrors (hr : Mirrors w s) (he : ErrorsSound s) (hs : TableSound s) (e : Event) :
    Option.Rel Mirrors (step w e) (Sockmon.step s e) := by
  have hsys : w.sys = s := hr.sys
  cases e with
  | body env =>
      rw [step, hsys]
      -- the body changes no filter; only a failed resize in it frees them, through `window_exit`
      by_cases hpc : s.pc = .top
      · have hclear := he.clear (Or.inl hpc)
        rw [if_pos hpc, hr.load hclear, Option.bind_eq_bind, Option.bind_some]
        cases ht : Sockmon.step s (.body env) with
        | none => exact .none
        | some t =>
            have hquiet : Quiet s t := by
              rcases step_cases ht with ⟨i, u, hi, -⟩ | ⟨-, hquiet⟩
              · cases hi
              · exact hquiet
            obtain ⟨w', hw', hr'⟩ := windowExit_mirrors hr hquiet.tcpFields fun hset => by
              rw [hclear] at hset
              cases hset
            rw [Option.bind_some, hw']
            exact .some hr'
      · have hnone : Sockmon.step s (.body env) = none := by
          rw [Sockmon.step, if_neg hpc]
        rw [if_neg hpc, hnone]
        exact .none
  | input i =>
      rw [step, hsys]
      by_cases hpc : s.pc = .wait
      · have hclear := he.clear (Or.inr hpc)
        rw [if_pos hpc, hr.load hclear, Option.bind_eq_bind, Option.bind_some]
        cases ht : Sockmon.step s (.input i) with
        | none =>
            cases dispatch w s i with
            | none => exact .none
            | some w' => exact .none
        | some t =>
            obtain ⟨-, hback, -⟩ := step_input ht
            have hclear' : t.n.weCalled = false :=
              (congrArg Backstage.weCalled hback).trans hclear
            rw [Sockmon.step, if_pos hpc] at ht
            obtain ⟨u, hu, ht⟩ := bind_some ht
            -- a key may run a parser: here the records on the heap change with the filters
            obtain ⟨pss, hf⟩ := hr.inUse hclear
            obtain ⟨w', hw', pss', hf'⟩ := dispatch_mirrors hf hs hu
            rw [hw', Option.bind_eq_bind, Option.bind_some]
            refine .some ⟨rfl, fun _ => ⟨pss', ?_⟩, fun hset => ?_⟩
            · cases ht
              exact hf'
            · rw [hclear'] at hset
              cases hset
      · have hnone : Sockmon.step s (.input i) = none := by
          rw [Sockmon.step, if_neg hpc]
        rw [if_neg hpc, hnone]
        exact .none
  | exit closedir =>
      rw [step, hsys]
      cases ht : Sockmon.step s (.exit closedir) with
      | none => exact .none
      | some t =>
          have hquiet : Quiet s t := by
            rcases step_cases ht with ⟨i, u, hi, -⟩ | ⟨-, hquiet⟩
            · cases hi
            · exact hquiet
          -- `main` ends with `window_exit`, which frees what has not been freed before
          have hset : t.n.weCalled = true := by
            obtain ⟨-, ret, u, -, rfl⟩ := step_exit ht
            rfl
          obtain ⟨w', hw', hr'⟩ := windowExit_mirrors hr hquiet.tcpFields fun _ => hset
          rw [Option.bind_eq_bind, Option.bind_some, hw']
          exact .some hr'

end

/-! ## Runs -/

/-- What the heap holds, and what was freed. -/
structure State.Tidy (w : State) : Prop where
  /-- What is read through the pointers is what was entered. -/
  read : w.sys.n.weCalled = false → load w = some w.sys
  /-- The filters and their strings are in use, each for one field, and nothing else. -/
  inUse : w.sys.n.weCalled = false →
    ∃ pss, FiltersAt w.heap w.sys.tcpFields w.ptrs pss
  /-- After `window_exit` everything was freed, and only once. -/
  freed : w.sys.n.weCalled = true → ∀ p, 0 < p → p < w.heap.next → w.heap.freed.count p = 1

theorem Mirrors.tidy {w : State} {s : Sys} (hr : Mirrors w s) : w.Tidy := by
  have hsys := hr.sys
  subst hsys
  exact ⟨hr.load, hr.inUse, fun hset p hp hlt =>
    (hr.freed hset).count_freed hp hlt List.not_mem_nil⟩

/-- What the simulation relies on. -/
structure Sound (s : Sys) : Prop where
  owners : OwnersSound s
  errors : ErrorsSound s
  table : TableSound s

theorem sound_step {s t : Sys} {e : Event} (hs : Sound s) (hsucc : ResizesSucceed s e)
    (h : Sockmon.step s e = some t) : Sound t :=
  ⟨ownersSound_step hs.owners h, errorsSound_step hs.owners hs.errors hsucc h,
    tableSound_step hs.table h⟩

end Filters

theorem tcpFields_filter : ∀ f ∈ tcpFields, f.filter = none := by decide +kernel

theorem Start.filtersAt (b : Start) :
    ∃ pss, FiltersAt b.filters.heap b.state.tcpFields b.filters.ptrs pss := by
  have hfields : b.state.tcpFields = tcpFields :=
    Quiet.tcpFields (s := Sys.boot b.size b.allocs) (Or.inl b.ui)
  have hflat : (b.state.tcpFields.map fun _ => ([] : List Nat)).flatten = [] := by
    rw [List.flatten_eq_nil_iff]
    intro ps hps
    obtain ⟨f, -, rfl⟩ := List.mem_map.mp hps
    rfl
  refine ⟨b.state.tcpFields.map fun _ => [], List.length_map _, List.length_map _,
    fun i f p ps hf hp hps => ?_, ?_, ?_⟩
  · obtain ⟨g, -, rfl⟩ := List.mem_map.mp (List.mem_of_getElem? hp)
    obtain ⟨g', -, rfl⟩ := List.mem_map.mp (List.mem_of_getElem? hps)
    rw [tcpFields_filter f (hfields ▸ List.mem_of_getElem? hf)]
    exact .null f.isString
  · rw [hflat]
    exact Heap.holds_fresh
  · rw [hflat]
    exact List.nodup_nil

/-- **The filters on the heap do not show**, in every run in which no resize of the owner table
fails: the program is in the states of the other one, and its heap is tidy throughout. -/
theorem filter_memory (b : Start) (es : List Event)
    (hsucc : Meets step ResizesSucceed es b.state) :
    (exec Filters.step es b.filters).map (·.sys) = exec step es b.state ∧
      Always Filters.step Filters.State.Tidy es b.filters := by
  have hstart : Filters.Mirrors b.filters b.state :=
    ⟨rfl, fun _ => b.filtersAt, fun hset => by
      rw [(errorsSound_start b).clear (Or.inl b.pc)] at hset
      cases hset⟩
  have hsound : Filters.Sound b.state :=
    ⟨ownersSound_start b, errorsSound_start b, tableSound_start b⟩
  have hrel : ∀ w s e, Filters.Mirrors w s → Filters.Sound s →
      Option.Rel Filters.Mirrors (Filters.step w e) (step s e) :=
    fun w s e hr hs => Filters.step_mirrors hr hs.errors hs.table e
  constructor
  · have hruns := exec_rel_of_meets hrel (fun _ _ _ => Filters.sound_step) hstart hsound hsucc
    generalize exec Filters.step es b.filters = x, exec step es b.state = y at hruns ⊢
    cases hruns with
    | none => rfl
    | some hr => exact congrArg some hr.sys
  · exact always_of_rel_meets hrel (fun _ _ _ => Filters.sound_step) (fun _ _ hr => hr.tidy)
      hstart hsound hsucc

/-- A filter is entered for the first address, and that field moved one row down. -/
def Event.filtering : List Event :=
  [.quiet, .press (key 'f') [], .quiet, .press KEY_DOWN [], .quiet,
    .press (key 'f') [key '=', key ':', key ':', key '1', key '\n'], .quiet, .press KEY_RIGHT [],
    .quiet, .press KEY_DOWN [], .quiet, .press KEY_LEFT []]

/-- The places of the filters are those that are given out, and at the exit all are freed. -/
theorem filter_memory_moved :
    (exec Filters.step Event.filtering Start.quiet.filters).map (fun w => w.ptrs.take 3) =
        some [none, none, some 1] ∧
      Always Filters.step Filters.State.Tidy Event.filtering Start.quiet.filters := by
  have hsucc : Meets step ResizesSucceed Event.filtering Start.quiet.state := by
    refine meets_of_events fun e he s => ?_
    simp only [Event.filtering, List.mem_cons, List.not_mem_nil, or_false] at he
    rcases he with rfl | rfl | rfl | rfl | rfl | rfl | rfl | rfl | rfl | rfl | rfl | rfl <;>
      first | exact resizesSucceed_bare s | trivial
  exact ⟨by decide +kernel, (filter_memory Start.quiet _ hsucc).2⟩

end Sockmon

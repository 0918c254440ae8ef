import Sockmon.Run.Keys

set_option autoImplicit false

/-! # The field table under the keys

Fields are moved by value while the sort key and the selection are pointers into the table. In
every run the table holds the fields of the original one, each with its settings until a key
acts on it; the sort key denotes one field until an s key changes it; and the selection is set
on the field screen only and denotes the field that was picked (`FieldTableKept`).
-/

namespace Sockmon

open Transition Reorder

/-- The fields of a table, in its order. -/
def Sys.infos (s : Sys) : List FieldInfo := s.tcpFields.map (·.toFieldInfo)

/-- What the sort key denotes. -/
def sortedBy (s : Sys) : Option (Option FieldInfo) := s.n.sortKey.map s.infoAt

/-- The key changes the settings of the field `φ`. -/
def ActsOnField (φ : FieldInfo) (s : Sys) (i : Input) : Prop :=
  (fieldKey s i = some .space ∨ fieldKey s i = some .filter ∨ fieldKey s i = some .pin) ∧
    s.infoAt s.n.posField.y = some φ

/-- What holds of the table in a state and in the runs from it. -/
structure FieldTableKept (s : Sys) : Prop where
  /-- No field is lost or duplicated. -/
  perm : s.infos.Perm (tcpFields.map (·.toFieldInfo))
  nodup : s.infos.Nodup
  /-- A field keeps its settings until a key acts on it. -/
  settings : ∀ f ∈ s.tcpFields, ∀ es,
    Meets step (OnInput fun u i => ¬ ActsOnField f.toFieldInfo u i) es s →
      Always step (fun t => f ∈ t.tcpFields) es s
  /-- The sort key denotes the same field until an s key changes it. -/
  sortKey : ∀ es, Meets step (OnInput fun u i => fieldKey u i ≠ some .sort) es s →
    Always step (fun t => sortedBy t = sortedBy s) es s
  /-- Nothing is picked up outside the field screen. -/
  offScreen : s.n.curScreen ≠ .field → s.n.selField = none
  /-- What is picked up is a field that can be drawn. -/
  drawRow : ∀ k, s.n.selField = some k → ∃ φ, s.infoAt k = some φ ∧ φ.drawRow.isSome
  /-- What is picked up is the field under the cursor. -/
  picked : ∀ e t k, s.n.selField = none → step s e = some t → t.n.selField = some k →
    (k : Int) = s.n.posField.y ∧ ∃ f, s.cursorField = some f ∧ t.infoAt k = some f.toFieldInfo
  /-- As long as something is picked up, it is the same field. -/
  selField : ∀ k, s.n.selField = some k → ∀ es,
    Always step (fun u => u.n.selField.isSome) es s →
      Always step (fun t => t.n.selField = some k ∧ t.infoAt k = s.infoAt k) es s

/-! ## The table -/

theorem MainHandler.infos {h : MainHandler} {s t : Sys} {keys rest : List Key}
    (hrun : h.run s keys = some (t, rest)) : t.infos = s.infos := by
  unfold Sys.infos
  rw [MainHandler.tcpFields hrun]

theorem infos_input {s t : Sys} {i : Input} (hi : InputStep s i t) : t.infos.Perm s.infos := by
  cases hi with
  | idle | resize | help => exact List.Perm.refl _
  | main k t hk hrun => exact List.Perm.of_eq (MainHandler.infos hrun)
  | field k t hc hk hstep =>
      by_cases hleft : k = .keyLeft
      · subst hleft
        cases hstep with
        | idle | cursor => exact List.Perm.refl _
        | move sel f u hsel hf hd hne hu => exact (moveLoop_moved hu).perm.map _
      · exact List.Perm.of_eq (hstep.infos hleft)

/-- A field that a key does not act on stays in the table as it is. -/
theorem mem_input {s t : Sys} {i : Input} {f : Field} (hi : InputStep s i t)
    (hf : f ∈ s.tcpFields) (hno : ¬ ActsOnField f.toFieldInfo s i) : f ∈ t.tcpFields := by
  -- Writing the field under the cursor is acting on it.
  have hset : ∀ {g g' : Field} {k : FieldHandler}, s.cursorField = some g →
      fieldKey s i = some k → (k = .space ∨ k = .filter ∨ k = .pin) →
      f ∈ (s.setCursorField g').tcpFields := by
    intro g g' k hg hk hkind
    obtain ⟨j, hj⟩ := List.getElem?_of_mem hf
    obtain ⟨-, -, hget⟩ := fieldAt_some hg
    refine List.mem_of_getElem? (i := j) ?_
    show (s.tcpFields.set s.n.posField.y.toNat g')[j]? = some f
    rw [List.getElem?_set]
    split_ifs with hy hl
    · rw [hy, hj] at hget
      refine absurd ⟨?_, ?_⟩ hno
      · rw [hk]
        simpa using hkind
      · unfold Sys.infoAt
        rw [show s.fieldAt s.n.posField.y = some g from hg, ← Option.some.inj hget]
        rfl
    · rw [hy] at hl
      exact absurd (List.getElem?_eq_some_iff.mp hj).1 hl
    · exact hj
  cases hi with
  | idle | resize | help => exact hf
  | main k t hk hrun =>
      rw [MainHandler.tcpFields hrun]
      exact hf
  | field k t hc hk hstep =>
      cases hstep with
      | quit | idle | noFilter | sort | cursor | pick => exact hf
      | space g hg hd => exact hset hg hk (by simp)
      | pin g hg hd => exact hset hg hk (by simp)
      | setFilter g fp r hg hp hon hr => exact hset hg hk (by simp)
      | clearFilter g hg hp hon => exact hset hg hk (by simp)
      | move sel g u hsel hg hd hne hu => exact (moveLoop_moved hu).perm.mem_iff.mpr hf

/-! ## The sort key -/

theorem Quiet.infos {s t : Sys} (h : Quiet s t) : t.infos = s.infos := by
  unfold Sys.infos
  rw [h.tcpFields]

theorem infoAt_congr {s t : Sys} (h : t.infos = s.infos) (k : Int) : t.infoAt k = s.infoAt k := by
  calc t.infoAt k = if 0 ≤ k then t.infos[k.toNat]? else none := infoAt_eq t k
    _ = if 0 ≤ k then s.infos[k.toNat]? else none := by rw [h]
    _ = s.infoAt k := (infoAt_eq s k).symm

theorem sortedBy_congr {s t : Sys} (hk : t.n.sortKey = s.n.sortKey) (h : t.infos = s.infos) :
    sortedBy t = sortedBy s := by
  unfold sortedBy
  rw [hk]
  congr 1
  funext k
  exact infoAt_congr h k

theorem Moved.sortedBy {σ : Nat → Nat} {s t : Sys} (h : Moved σ s t) :
    Sockmon.sortedBy t = Sockmon.sortedBy s := by
  unfold Sockmon.sortedBy
  cases hk : s.n.sortKey with
  | none => rw [h.cleared hk]; rfl
  | some k =>
      obtain ⟨k', hk', he⟩ := h.denotes k hk
      rw [hk']
      show some (t.infoAt k') = some (s.infoAt k)
      unfold Sys.infoAt
      rw [he]

theorem sortedBy_input {s t : Sys} {i : Input} (hi : InputStep s i t)
    (hno : fieldKey s i ≠ some .sort) : sortedBy t = sortedBy s := by
  cases hi with
  | idle | resize | help => rfl
  | main k t hk hrun =>
      exact sortedBy_congr (MainHandler.sortKey hrun) (MainHandler.infos hrun)
  | field k t hc hk hstep =>
      have hsort : k ≠ .sort := fun he => hno (by rw [hk, he])
      by_cases hleft : k = .keyLeft
      · subst hleft
        cases hstep with
        | idle | cursor => rfl
        | move sel f u hsel hf hd hne hu => exact (moveLoop_moved hu).sortedBy
      · exact sortedBy_congr (hstep.sortKey hleft hsort) (hstep.infos hleft)

/-! ## The selection -/

/-- What is known of the selection in a single state. -/
structure SelectionSound (s : Sys) : Prop where
  offScreen : s.n.curScreen ≠ .field → s.n.selField = none
  drawRow : ∀ k, s.n.selField = some k → ∃ φ, s.infoAt k = some φ ∧ φ.drawRow.isSome

/-- A key clears the selection, leaves it and the field it denotes alone, or picks the field
under the cursor. -/
theorem selField_input {s t : Sys} {i : Input} (hi : InputStep s i t) :
    t.n.selField = none ∨ (t.n.selField = s.n.selField ∧ t.infos = s.infos) ∨
      (s.n.selField = none ∧ t.infos = s.infos ∧ ∃ f, s.cursorField = some f ∧
        f.drawRow.isSome ∧ t.n.selField = some s.n.posField.y.toNat) := by
  cases hi with
  | idle | resize | help => exact Or.inr (Or.inl ⟨rfl, rfl⟩)
  | main k t hk hrun =>
      exact Or.inr (Or.inl ⟨MainHandler.selField hrun, MainHandler.infos hrun⟩)
  | field k t hc hk hstep =>
      cases hstep with
      | quit => exact Or.inl rfl
      | idle | cursor | noFilter => exact Or.inr (Or.inl ⟨rfl, rfl⟩)
      | sort => exact Or.inr (Or.inl ⟨(toggleSortKey_kept _ _).2.2.2.2, rfl⟩)
      | space f hf hd => exact Or.inr (Or.inl ⟨rfl, setCursorField_infos hf rfl⟩)
      | pin f hf hd => exact Or.inr (Or.inl ⟨rfl, setCursorField_infos hf rfl⟩)
      | setFilter f fp r hf hp hon hr => exact Or.inr (Or.inl ⟨rfl, setCursorField_infos hf rfl⟩)
      | clearFilter f hf hp hon => exact Or.inr (Or.inl ⟨rfl, setCursorField_infos hf rfl⟩)
      | move => exact Or.inl rfl
      | pick f hsel hf hd => exact Or.inr (Or.inr ⟨hsel, rfl, f, hf, hd, rfl⟩)

theorem curScreen_input {s t : Sys} {i : Input} (hs : SelectionSound s) (hi : InputStep s i t)
    (hscreen : t.n.curScreen ≠ .field) : t.n.selField = none := by
  cases hi with
  | idle | resize => exact hs.offScreen hscreen
  | help hc => exact hs.offScreen (by rw [hc]; decide)
  | main k t hk hrun =>
      rw [MainHandler.selField hrun]
      exact hs.offScreen (by rw [mainKey_screen hk]; decide)
  | field k t hc hk hstep =>
      -- Only quitting leaves the field screen, and it drops the selection.
      cases hstep with
      | quit => rfl
      | sort => exact absurd ((toggleSortKey_kept _ _).2.2.2.1.trans hc) hscreen
      | move => rfl
      | idle | cursor | noFilter | space | pin | setFilter | clearFilter | pick =>
          exact absurd hc hscreen

theorem selectionSound_input {s t : Sys} {i : Input} (hs : SelectionSound s)
    (hi : InputStep s i t) : SelectionSound t := by
  refine ⟨curScreen_input hs hi, fun k hk => ?_⟩
  rcases selField_input hi with h | ⟨h, hinfos⟩ | ⟨-, hinfos, f, hf, hd, h⟩
  · rw [h] at hk
    cases hk
  · rw [infoAt_congr hinfos]
    exact hs.drawRow k (h.symm.trans hk)
  · rw [infoAt_congr hinfos]
    obtain rfl : s.n.posField.y.toNat = k := Option.some.inj (h.symm.trans hk)
    exact ⟨f.toFieldInfo, infoAt_cursor hf, hd⟩

theorem selectionSound_quiet {s t : Sys} (h : Quiet s t) (hs : SelectionSound s) :
    SelectionSound t := by
  constructor
  · rw [h.curScreen, h.selField]
    exact hs.offScreen
  · rw [h.selField]
    intro k hk
    rw [infoAt_congr h.infos]
    exact hs.drawRow k hk

/-! ## Steps -/

section

variable {s t : Sys} {e : Event}

theorem infos_step (h : step s e = some t) : t.infos.Perm s.infos := by
  rcases step_cases h with ⟨i, u, rfl, hi, hq⟩ | ⟨-, hq⟩
  · calc List.Perm t.infos u.infos := List.Perm.of_eq hq.infos
      List.Perm _ ({ s with allocs := i.allocs } : Sys).infos := infos_input hi
  · rw [hq.infos]

theorem mem_step {f : Field} (hf : f ∈ s.tcpFields)
    (hno : OnInput (fun u i => ¬ ActsOnField f.toFieldInfo u i) s e) (h : step s e = some t) :
    f ∈ t.tcpFields := by
  rcases step_cases h with ⟨i, u, rfl, hi, hq⟩ | ⟨-, hq⟩
  · rw [hq.tcpFields]
    exact mem_input hi hf hno
  · rw [hq.tcpFields]
    exact hf

theorem sortedBy_step (hno : OnInput (fun u i => fieldKey u i ≠ some .sort) s e)
    (h : step s e = some t) : sortedBy t = sortedBy s := by
  rcases step_cases h with ⟨i, u, rfl, hi, hq⟩ | ⟨-, hq⟩
  · calc sortedBy t = sortedBy u := sortedBy_congr hq.sortKey hq.infos
      _ = sortedBy { s with allocs := i.allocs } := sortedBy_input hi hno
  · exact sortedBy_congr hq.sortKey hq.infos

theorem selField_step (h : step s e = some t) :
    t.n.selField = none ∨ (t.n.selField = s.n.selField ∧ t.infos = s.infos) ∨
      (s.n.selField = none ∧ t.infos = s.infos ∧ ∃ f, s.cursorField = some f ∧
        f.drawRow.isSome ∧ t.n.selField = some s.n.posField.y.toNat) := by
  rcases step_cases h with ⟨i, u, rfl, hi, hq⟩ | ⟨-, hq⟩
  · have hsel := selField_input hi
    rw [hq.selField, hq.infos]
    exact hsel
  · exact Or.inr (Or.inl ⟨hq.selField, hq.infos⟩)

end

/-! ## Runs -/

theorem selectionSound_step {s t : Sys} {e : Event} (hs : SelectionSound s)
    (h : step s e = some t) : SelectionSound t :=
  step_invariant (fun _ _ => selectionSound_quiet) (fun _ _ _ => selectionSound_input) hs h

theorem selectionSound_start (b : Start) : SelectionSound b.state :=
  selectionSound_quiet (Or.inl b.ui) ⟨fun _ => rfl, nofun⟩

/-- The part of `FieldTableKept` that speaks of one state only. -/
structure TableSound (s : Sys) : Prop where
  perm : s.infos.Perm (tcpFields.map (·.toFieldInfo))
  selection : SelectionSound s

/-- What a step does to the fields and the selection keeps this. -/
theorem tableSound_step {s t : Sys} {e : Event} (hs : TableSound s) (h : step s e = some t) :
    TableSound t where
  perm := (infos_step h).trans hs.perm
  selection := selectionSound_step hs.selection h

theorem tableSound_start (b : Start) : TableSound b.state where
  perm := by
    have hq : Quiet (Sys.boot b.size b.allocs) b.state := Or.inl b.ui
    rw [hq.infos]
    exact List.Perm.refl _
  selection := selectionSound_start b

/-- The fields of the table are all different: of two of one extension that are read from the same
place the headers differ. -/
theorem tcpFields_nodup : (tcpFields.map (·.toFieldInfo)).Nodup := by
  have hkeys : ((tcpFields.map (·.toFieldInfo)).map
      fun f => (f.extRcv, f.offset, f.header)).Nodup := by decide +kernel
  exact hkeys.of_map

theorem TableSound.kept {s : Sys} (hs : TableSound s) : FieldTableKept s where
  perm := hs.perm
  nodup := hs.perm.nodup_iff.mpr tcpFields_nodup
  settings f hf es hG := always_of_meets (fun _ _ _ hf hno h => mem_step hf hno h) hf hG
  sortKey es hG := always_of_meets (P := fun t => sortedBy t = sortedBy s)
    (fun _ _ _ he hno h => (sortedBy_step hno h).trans he) rfl hG
  offScreen := hs.selection.offScreen
  drawRow := hs.selection.drawRow
  picked e t k hnone h hk := by
    rcases selField_step h with he | ⟨he, -⟩ | ⟨-, hinfos, f, hf, -, he⟩
    · rw [he] at hk
      cases hk
    · rw [he, hnone] at hk
      cases hk
    · obtain rfl : s.n.posField.y.toNat = k := Option.some.inj (he.symm.trans hk)
      refine ⟨Int.toNat_of_nonneg (fieldAt_some hf).1, f, hf, ?_⟩
      rw [infoAt_congr hinfos]
      exact infoAt_cursor hf
  selField k hk es hsome := by
    refine always_of_always (fun u e t hu h hset => ?_) ⟨hk, rfl⟩ hsome
    rcases selField_step h with he | ⟨he, hinfos⟩ | ⟨he, -⟩
    · rw [he] at hset
      cases hset
    · exact ⟨he.trans hu.1, (infoAt_congr hinfos k).trans hu.2⟩
    · rw [hu.1] at he
      cases he

/-- **In every run** the table keeps its fields and their settings, the sort key its field, and
the selection the field that was picked. -/
theorem fieldTableKept (b : Start) (es : List Event) :
    Always step FieldTableKept es b.state := by
  have hsound : Always step TableSound es b.state :=
    always_of_invariant (fun _ _ _ => tableSound_step) (tableSound_start b)
  exact always_mono (fun _ hs => hs.kept) hsound

end Sockmon

import Sockmon.Draw.FieldRows
import Sockmon.Run.Table

set_option autoImplicit false

/-! # The field screen while a field is picked up

`draw_field_header` shows the table as it will stand once the picked field is put down at the
cursor (`preview_eq_commit`), and does so by computing, row by row, which element to show. The
keys that change a field take the element under the cursor, which while a field is picked up
and the cursor has moved is not the one shown there (`keysActOnShown_iff`).
-/

namespace Sockmon

open Transition Reorder

/-! ## The preview -/

/-- What a row shows: a field, which carries its pin and filter marks, and the mark of the sort
key with its direction. -/
structure Row where
  field : Field
  sortMark : Option Bool
  deriving DecidableEq

/-- The element at index `idx` as `draw_header` shows it. -/
def rowOf (s : Sys) (idx : Int) : Option Row :=
  (s.fieldAt idx).map fun f => ⟨f, if s.n.sortKey = some idx then some s.n.sortAscending else none⟩

/-- The row `i` as `draw_field_header` computes it. -/
def shownRow (s : Sys) (i : Nat) : Option Row := rowOf s (shownIdx s.n i)

/-- The row `i` of the table as it is stored. -/
def storedRow (s : Sys) (i : Nat) : Option Row := rowOf s i

/-- A move carries every row, marks included, to the index it is shown at. -/
theorem Moved.rowOf {σ : Nat → Nat} {s t : Sys} (h : Moved σ s t) (i : Nat) :
    Sockmon.rowOf t i = Sockmon.rowOf s (σ i : Nat) := by
  have hasc : t.n.sortAscending = s.n.sortAscending := by rw [h.frame]
  have hkey := h.sortKey i
  unfold Sockmon.rowOf
  rw [fieldAt_ofNat, fieldAt_ofNat, h.fields i, hasc]
  simp only [hkey]

/-- **The left key** puts the picked field down at the cursor; on its own row it stays picked
up. -/
theorem fieldKeyLeftHandler_eq {s : Sys} {sel : Nat} {f : Field} (hsel : s.n.selField = some sel)
    (hlt : sel < s.tcpFields.length) (hcur : s.cursorField = some f) (hd : f.drawRow.isSome) :
    ∃ u, Moved (moveTo sel s.n.posField.y.toNat) s u ∧
      fieldKeyLeftHandler s = some { u with n := { u.n with
        selField := if sel = s.n.posField.y.toNat then some sel else none } } := by
  obtain ⟨hy0, hylt, -⟩ := fieldAt_some hcur
  obtain ⟨d, hdraw⟩ := Option.isSome_iff_exists.mp hd
  unfold fieldKeyLeftHandler
  rw [hsel]
  dsimp only
  rw [hcur]
  by_cases hy : sel = s.n.posField.y.toNat
  · refine ⟨s, Moved.refl (fun i => ?_) s, ?_⟩
    · rw [← hy]; exact moveTo_self sel i
    · rw [if_pos hy, ← hsel]
      simp [hy]
  · obtain ⟨u, hu⟩ := moveLoop_isSome hlt hylt
    refine ⟨u, moveLoop_moved hu, ?_⟩
    simp [hdraw, hy, hu]

/-! ## The screen before and after -/

/-- The writes of a row are determined by what it shows. -/
theorem drawHeader_congr {n m : NmCtx} {idx idx' : Int} {f : Field} (hcols : m.cols = n.cols)
    (hasc : m.sortAscending = n.sortAscending)
    (hkey : m.sortKey = some idx' ↔ n.sortKey = some idx) (y : Int) (reverse : Bool) :
    drawHeader m y reverse idx' f = drawHeader n y reverse idx f := by
  unfold drawHeader
  simp only [hcols, hasc, hkey]

/-- States that show the same rows draw the same screen. -/
theorem fieldRowLoop_congr {s t : Sys} (hlines : t.n.lines = s.n.lines)
    (hcols : t.n.cols = s.n.cols) (hasc : t.n.sortAscending = s.n.sortAscending)
    (hpos : t.n.posField = s.n.posField)
    (hfield : ∀ i, t.fieldAt (shownIdx t.n i) = s.fieldAt (shownIdx s.n i))
    (hkey : ∀ i, t.n.sortKey = some (shownIdx t.n i) ↔ s.n.sortKey = some (shownIdx s.n i))
    (is : List Nat) (y skip : Int) : fieldRowLoop t is y skip = fieldRowLoop s is y skip := by
  induction is generalizing y skip with
  | nil => rfl
  | cons i is ih =>
      unfold fieldRowLoop
      rw [hlines]
      split
      · rfl
      split
      · exact ih y (skip - 1)
      · dsimp only
        rw [hfield i, ih (y + 1) skip, hpos]
        cases s.fieldAt (shownIdx s.n i) with
        | none => rfl
        | some f =>
            simp only [Option.bind_eq_bind, Option.bind_some]
            rw [drawHeader_congr hcols hasc (hkey i)]

theorem fieldHeaderWrites_congr {s t : Sys} (hlen : t.tcpFields.length = s.tcpFields.length)
    (hlines : t.n.lines = s.n.lines) (hcols : t.n.cols = s.n.cols)
    (hasc : t.n.sortAscending = s.n.sortAscending) (hpos : t.n.posField = s.n.posField)
    (hfield : ∀ i, t.fieldAt (shownIdx t.n i) = s.fieldAt (shownIdx s.n i))
    (hkey : ∀ i, t.n.sortKey = some (shownIdx t.n i) ↔ s.n.sortKey = some (shownIdx s.n i)) :
    fieldHeaderWrites t = fieldHeaderWrites s := by
  have hskip : fieldSkip t = fieldSkip s := by
    unfold fieldSkip Sys.nrTcpFields
    rw [hlen, hlines, hpos]
  unfold fieldHeaderWrites
  rw [hlen, hskip, hcols, fieldRowLoop_congr hlines hcols hasc hpos hfield hkey]

/-- Putting the picked field down, or leaving it on its own row, changes nothing on the screen. -/
theorem fieldHeaderWrites_put {s u : Sys} {sel : Nat} (hsel : s.n.selField = some sel)
    (hy0 : 0 ≤ s.n.posField.y) (hm : Moved (moveTo sel s.n.posField.y.toNat) s u) :
    fieldHeaderWrites { u with n := { u.n with
      selField := if sel = s.n.posField.y.toNat then some sel else none } } =
        fieldHeaderWrites s := by
  have hpos : u.n.posField = s.n.posField := by rw [hm.frame]
  have hshown : ∀ i, shownIdx { u.n with
      selField := if sel = s.n.posField.y.toNat then some sel else none } i = i := by
    intro i
    -- put where it was picked, the field stays picked and is shown at its place
    by_cases hy : sel = s.n.posField.y.toNat
    · have hy0' : 0 ≤ u.n.posField.y := by rw [hpos]; exact hy0
      have hput : ({ u.n with selField := some sel } : NmCtx).selField = some sel := rfl
      rw [if_pos hy]
      calc shownIdx { u.n with selField := some sel } i
          = (moveTo sel u.n.posField.y.toNat i : Nat) := shownIdx_picked hput hy0' i
        _ = i := by rw [hpos, ← hy, moveTo_self]
    · rw [if_neg hy]
      exact shownIdx_unpicked rfl i
  refine fieldHeaderWrites_congr hm.perm.length_eq ?_ ?_ ?_ hpos ?_ ?_
  · show u.n.lines = s.n.lines; rw [hm.frame]
  · show u.n.cols = s.n.cols; rw [hm.frame]
  · show u.n.sortAscending = s.n.sortAscending; rw [hm.frame]
  · intro i
    rw [hshown i, shownIdx_picked hsel hy0, fieldAt_ofNat, fieldAt_ofNat]
    exact hm.fields i
  · intro i
    rw [hshown i, shownIdx_picked hsel hy0]
    exact hm.sortKey i

/-- **The preview is the table after the commit.** With a field picked up and the cursor on a
field with `draw_row`, the left key has a result in which every row is stored with the field
and the marks that the screen showed for it; the picked field ends at the cursor, the fields in
between shift by one, the others stay; and the screen drawn afterwards is the one before. -/
theorem preview_eq_commit (s : Sys) (sel : Nat) (f : Field) (hsel : s.n.selField = some sel)
    (hlt : sel < s.tcpFields.length) (hcur : s.cursorField = some f) (hd : f.drawRow.isSome) :
    ∃ (t : Sys) (pos : Nat), (pos : Int) = s.n.posField.y ∧ fieldKeyLeftHandler s = some t ∧
      (∀ i, storedRow t i = shownRow s i) ∧
      t.tcpFields.length = s.tcpFields.length ∧
      t.tcpFields[pos]? = s.tcpFields[sel]? ∧
      (∀ i, sel ≤ i → i < pos → t.tcpFields[i]? = s.tcpFields[i + 1]?) ∧
      (∀ i, pos < i → i ≤ sel → t.tcpFields[i]? = s.tcpFields[i - 1]?) ∧
      (∀ i, i < min sel pos ∨ max sel pos < i → t.tcpFields[i]? = s.tcpFields[i]?) ∧
      fieldHeaderWrites t = fieldHeaderWrites s := by
  obtain ⟨hy0, hylt, -⟩ := fieldAt_some hcur
  obtain ⟨u, hm, hrun⟩ := fieldKeyLeftHandler_eq hsel hlt hcur hd
  set pos := s.n.posField.y.toNat with hposdef
  refine ⟨_, pos, Int.toNat_of_nonneg hy0, hrun, fun i => ?_, hm.perm.length_eq, ?_,
    fun i h h' => ?_, fun i h h' => ?_, fun i h => ?_, fieldHeaderWrites_put hsel hy0 hm⟩
  -- Every row, with its marks, comes from where the preview took it.
  · calc rowOf u i = rowOf s (moveTo sel pos i : Nat) := hm.rowOf i
      _ = rowOf s (shownIdx s.n i) := by rw [shownIdx_picked hsel hy0]
  · calc u.tcpFields[pos]? = s.tcpFields[moveTo sel pos pos]? := hm.fields pos
      _ = s.tcpFields[sel]? := by rw [moveTo_dst]
  · calc u.tcpFields[i]? = s.tcpFields[moveTo sel pos i]? := hm.fields i
      _ = s.tcpFields[i + 1]? := by rw [moveTo_down h h']
  · calc u.tcpFields[i]? = s.tcpFields[moveTo sel pos i]? := hm.fields i
      _ = s.tcpFields[i - 1]? := by rw [moveTo_up h h']
  · calc u.tcpFields[i]? = s.tcpFields[moveTo sel pos i]? := hm.fields i
      _ = s.tcpFields[i]? := by rw [moveTo_outside h]

/-- Moving the first address below the state column. -/
theorem preview_eq_commit_src :
    let s := Start.quiet.state
    let picked := { s with n := { s.n with selField := some 1, posField := ⟨5, 0⟩ } }
    ∃ t, fieldKeyLeftHandler picked = some t ∧ (∀ i, storedRow t i = shownRow picked i) ∧
      t.tcpFields[5]? = tcpFields[1]? := by
  obtain ⟨t, pos, hpos, hrun, hrows, -, hdst, -⟩ :=
    preview_eq_commit { Start.quiet.state with n := { Start.quiet.state.n with
      selField := some 1, posField := ⟨5, 0⟩ } } 1 (tcpFields.get ⟨5, by decide +kernel⟩) rfl
      (by decide +kernel) rfl rfl
  obtain rfl : pos = 5 := Int.ofNat.inj hpos
  exact ⟨t, hrun, hrows, hdst⟩

/-! ## The keys and the highlighted row -/

/-- What a key does to the fields and to the sort key. -/
def keyResult (h : FieldHandler) (s : Sys) (typed : List Key) :
    Option (List Field × Option Int × Bool) :=
  (h.run s typed).map fun r => (r.1.tcpFields, r.1.n.sortKey, r.1.n.sortAscending)

/-- The key acts on the field at index `k`: it does what it does with the cursor there. -/
def ActsOn (h : FieldHandler) (s : Sys) (k : Int) : Prop :=
  ∀ typed, keyResult h s typed = keyResult h (s.setPosField k) typed

/-- On the field screen, with the cursor on a row of the table, the keys that change a field
act on the one that is shown on the highlighted row. -/
def KeysActOnShown (s : Sys) : Prop :=
  s.n.curScreen = .field → ∀ y : Nat, s.n.posField.y = y → y < s.tcpFields.length →
    ∀ h ∈ [FieldHandler.space, .filter, .pin, .sort], ActsOn h s (shownIdx s.n y)

/-- The cursor of the field screen is on the row that was picked up, if there is one. -/
def CursorOnPicked (s : Sys) : Prop :=
  s.n.curScreen = .field → 0 ≤ s.n.posField.y → s.n.posField.y < s.nrTcpFields →
    ∀ sel : Nat, s.n.selField = some sel → (sel : Int) = s.n.posField.y

/-- While a field is picked up, no key moves the cursor to another row of the table. -/
def StaysOnPicked (s : Sys) (i : Input) : Prop :=
  ∀ h (sel : Nat), fieldKey s i = some h →
    (h = .keyDown ∨ h = .keyUp ∨ h = .pgdn ∨ h = .pgup) → s.n.selField = some sel →
    0 ≤ cursorAfter s h → cursorAfter s h < s.nrTcpFields → (sel : Int) = cursorAfter s h

/-- With the cursor and the picked field in the table the field screen can be drawn. -/
theorem drawFieldHeader_isSome {s : Sys} (hy0 : 0 ≤ s.n.posField.y)
    (hy : s.n.posField.y < s.nrTcpFields)
    (hsel : ∀ k, s.n.selField = some k → k < s.tcpFields.length) :
    drawFieldHeader s = some { s with n := { s.n with curScreen := .field } } := by
  have hrows := @fieldRowLoop_table s 4 (fieldSkip s)
    fun i hi => shownIdx_lt hy0 hy hsel hi
  unfold drawFieldHeader fieldHeaderWrites
  rw [hrows]
  rfl

/-- An s key on one field never does what it does on another. -/
theorem toggleSortKey_ne {n : NmCtx} {j k : Int} (h : j ≠ k) :
    ((toggleSortKey n j).sortKey, (toggleSortKey n j).sortAscending) ≠
      ((toggleSortKey n k).sortKey, (toggleSortKey n k).sortAscending) := by
  unfold toggleSortKey
  intro he
  by_cases hj : n.sortKey = some j
  · have hk : n.sortKey ≠ some k := by rw [hj]; simpa using h
    rw [if_pos hj, if_neg hk] at he
    cases ha : n.sortAscending <;> simp [ha] at he
  · rw [if_neg hj] at he
    by_cases hk : n.sortKey = some k
    · rw [if_pos hk] at he
      cases ha : n.sortAscending <;> simp [ha] at he
    · rw [if_neg hk] at he
      simp at he
      exact h he

theorem SelectionSound.lt {s : Sys} (hs : SelectionSound s) {k : Nat}
    (hk : s.n.selField = some k) : k < s.tcpFields.length := by
  obtain ⟨φ, hφ, -⟩ := hs.drawRow k hk
  unfold Sys.infoAt at hφ
  obtain ⟨f, hf, -⟩ := Option.map_eq_some_iff.mp hφ
  exact (fieldAt_some hf).2.1

/-- The s key looks at the cursor only to tell which field it is on. -/
theorem toggleSortKey_setPosField (s : Sys) (y k : Int) :
    (toggleSortKey (s.setPosField y).n k).sortKey = (toggleSortKey s.n k).sortKey ∧
      (toggleSortKey (s.setPosField y).n k).sortAscending =
        (toggleSortKey s.n k).sortAscending := by
  have hkey : (s.setPosField y).n.sortKey = s.n.sortKey := rfl
  have hasc : (s.setPosField y).n.sortAscending = s.n.sortAscending := rfl
  unfold toggleSortKey
  rw [hkey, hasc]
  split_ifs
  · exact ⟨hkey, rfl⟩
  · exact ⟨rfl, hasc⟩
  · exact ⟨rfl, rfl⟩

/-- What an s key does with the cursor on row `k`. -/
theorem keyResult_sort {s : Sys} (hs : SelectionSound s) {k : Int} (hk0 : 0 ≤ k)
    (hk : k < s.nrTcpFields) :
    keyResult .sort (s.setPosField k) [] = some (s.tcpFields,
      (toggleSortKey s.n k).sortKey, (toggleSortKey s.n k).sortAscending) := by
  set u : Sys := { s.setPosField k with n := toggleSortKey (s.setPosField k).n k } with hu
  obtain ⟨hpos, -, -, -, hsel⟩ := toggleSortKey_kept (s.setPosField k).n k
  have hy : u.n.posField.y = k := congrArg Position.y hpos
  have hpicked : u.n.selField = s.n.selField := hsel
  have hdraw : drawFieldHeader u = some { u with n := { u.n with curScreen := .field } } := by
    refine drawFieldHeader_isSome (by rw [hy]; exact hk0) (by rw [hy]; exact hk) ?_
    rw [hpicked]
    exact fun _ => hs.lt
  have hrun : FieldHandler.run .sort (s.setPosField k) [] = (drawFieldHeader u).map (·, []) := rfl
  obtain ⟨hkey, hasc⟩ := toggleSortKey_setPosField s k k
  calc keyResult .sort (s.setPosField k) []
      = some (u.tcpFields, u.n.sortKey, u.n.sortAscending) := by
        rw [keyResult, hrun, hdraw]
        rfl
    _ = some (s.tcpFields, (toggleSortKey s.n k).sortKey,
          (toggleSortKey s.n k).sortAscending) := by
        rw [← hkey, ← hasc]
        rfl

/-- The highlighted row shows the picked field. -/
theorem shownIdx_cursor {n : NmCtx} {sel y : Nat} (hsel : n.selField = some sel)
    (hy : n.posField.y = y) : shownIdx n y = sel := by
  have hyn : n.posField.y.toNat = y := by rw [hy]; rfl
  rw [shownIdx_picked hsel (by omega), hyn, moveTo_dst]

/-- **In one state** the keys act on what is shown exactly with the cursor on the picked row. -/
theorem keysActOnShown_state {s : Sys} (hs : SelectionSound s) :
    KeysActOnShown s ↔ CursorOnPicked s := by
  constructor
  · intro h hc hy0 hlt sel hsel
    obtain ⟨y, hy⟩ := Int.eq_ofNat_of_zero_le hy0
    have hylt : y < s.tcpFields.length := by
      unfold Sys.nrTcpFields at hlt
      omega
    have hsellt : (sel : Int) < s.nrTcpFields := by
      have := hs.lt hsel
      unfold Sys.nrTcpFields
      omega
    have hact : ActsOn .sort s (shownIdx s.n y) := h hc y hy hylt .sort (by simp)
    -- The s key tells the two rows apart, wherever else they agree.
    have hrun : keyResult .sort (s.setPosField s.n.posField.y) [] =
        keyResult .sort (s.setPosField sel) [] := by
      rw [← shownIdx_cursor hsel hy]
      exact hact []
    rw [keyResult_sort hs hy0 hlt, keyResult_sort hs (by omega) hsellt] at hrun
    by_contra hne
    exact toggleSortKey_ne (Ne.symm hne) (congrArg Prod.snd (Option.some.inj hrun))
  · intro h hc y hy hylt k _ typed
    have hshown : shownIdx s.n y = s.n.posField.y := by
      cases hsel : s.n.selField with
      | none => rw [shownIdx_unpicked hsel, hy]
      | some sel =>
          rw [shownIdx_cursor hsel hy]
          exact h hc (by omega) (by unfold Sys.nrTcpFields; omega) sel hsel
    rw [hshown]
    rfl

/-! ## Whole runs -/

theorem cursorOnPicked_quiet {s t : Sys} (h : Quiet s t) :
    CursorOnPicked t ↔ CursorOnPicked s := by
  unfold CursorOnPicked Sys.nrTcpFields
  rw [h.curScreen, h.posField, h.selField, h.tcpFields]

/-- **One key** keeps the cursor on the picked row exactly if it does not move it to another
row while a field is picked up. -/
theorem cursorOnPicked_input {s t : Sys} {i : Input} (hs : SelectionSound s)
    (hp : CursorOnPicked s) (hi : InputStep s i t) : CursorOnPicked t ↔ StaysOnPicked s i := by
  have hnone : fieldKey s i = none → StaysOnPicked s i := by
    intro hf h sel hk
    rw [hf] at hk
    cases hk
  -- With nothing picked up there is nothing to stay on.
  have hunpicked : t.n.selField = none → CursorOnPicked t := by
    intro ht _ _ _ sel hsel
    rw [ht] at hsel
    cases hsel
  cases hi with
  | idle hm hf => exact iff_of_true hp (hnone hf)
  | resize hm hf => exact iff_of_true hp (hnone hf)
  | help hc hm hf =>
      have hoff : s.n.selField = none := hs.offScreen (by rw [hc]; decide)
      exact iff_of_true (hunpicked hoff) (hnone hf)
  | main k t hk hrun =>
      have hoff : s.n.selField = none := hs.offScreen (by rw [mainKey_screen hk]; decide)
      have hsel : t.n.selField = none := (MainHandler.selField hrun).trans hoff
      exact iff_of_true (hunpicked hsel) (hnone (fieldKey_of_mainKey hk))
  | field k t hc hk hstep =>
      have hpos : t.n.posField.y = cursorAfter s k := by rw [hstep.posField]
      have hother : ¬(k = .keyDown ∨ k = .keyUp ∨ k = .pgdn ∨ k = .pgup) →
          StaysOnPicked s i := by
        intro hk' h sel hh hkind
        rw [hk] at hh
        exact absurd ((Option.some.inj hh).symm ▸ hkind) hk'
      have hsame : t.n.posField.y = s.n.posField.y → t.n.selField = s.n.selField →
          CursorOnPicked t := by
        intro hy hsel _ hy0 hlt sel hset
        rw [hy] at hy0 hlt ⊢
        rw [hstep.nrTcpFields] at hlt
        exact hp hc hy0 hlt sel (hsel.symm.trans hset)
      cases hstep with
      | quit => exact iff_of_true (hunpicked rfl) (hother (by simp))
      | move => exact iff_of_true (hunpicked rfl) (hother (by simp))
      | sort =>
          obtain ⟨hy, -, -, -, hsel⟩ := toggleSortKey_kept s.n s.n.posField.y
          exact iff_of_true (hsame (congrArg Position.y hy) hsel) (hother (by simp))
      | idle k hkind =>
          refine iff_of_true hp (hother ?_)
          rcases hkind with rfl | rfl | rfl | rfl <;> simp
      | space | pin | noFilter | setFilter | clearFilter =>
          exact iff_of_true (hsame rfl rfl) (hother (by simp))
      | pick f hsel hf hd =>
          refine iff_of_true ?_ (hother (by simp))
          intro _ hy0 _ sel hset
          rw [← Option.some.inj hset]
          exact Int.toNat_of_nonneg (fieldAt_some hf).1
      | cursor k hkind =>
          constructor
          · intro h k' sel hk' _ hsel hy0 hlt
            obtain rfl : k = k' := Option.some.inj (hk.symm.trans hk')
            exact h hc hy0 hlt sel hsel
          · intro h _ hy0 hlt sel hsel
            exact h k sel hk hkind hsel hy0 hlt

/-- **The keys act on what the screen shows in a run** exactly if no key moves the cursor off
the picked row; in each state, exactly if the cursor is on it. -/
theorem keysActOnShown_iff (b : Start) (es : List Event) :
    (Always step KeysActOnShown es b.state ↔
      Meets step (OnInput StaysOnPicked) es b.state) ∧
    Always step (fun s => KeysActOnShown s ↔ CursorOnPicked s) es b.state := by
  have hstart : SelectionSound b.state := selectionSound_start b
  constructor
  · rw [always_congr (fun _ _ _ => selectionSound_step) (fun _ => keysActOnShown_state) hstart]
    refine always_iff_keys (J := SelectionSound) b es (fun _ _ => selectionSound_quiet)
      (fun _ _ => cursorOnPicked_quiet) (fun _ _ _ => Iff.rfl)
      (fun _ _ _ => selectionSound_input) (fun _ _ _ => cursorOnPicked_input) ?_ ?_
    · exact ⟨fun _ => rfl, nofun⟩
    · exact nofun
  · have hsound : Always step SelectionSound es b.state :=
      always_of_invariant (fun _ _ _ => selectionSound_step) hstart
    exact always_mono (fun _ => keysActOnShown_state) hsound

/-- Pick the first address up and go down a row: the screen still highlights the first address,
and the keys act on the next field. -/
theorem keys_miss_picked : ¬ Always step KeysActOnShown
    [.quiet, .press (key 'f') [], .quiet, .press KEY_DOWN [], .quiet, .press KEY_RIGHT [], .quiet,
      .press KEY_DOWN []] Start.quiet.state := by
  have hstart : SelectionSound Start.quiet.state := selectionSound_start _
  rw [always_congr (fun _ _ _ => selectionSound_step) (fun _ => keysActOnShown_state) hstart]
  refine not_always_of_exec (f := fun s =>
    (s.n.curScreen, s.n.posField.y, s.n.selField, s.tcpFields.length))
    (a := (.field, 2, some 1, 139)) (by decide +kernel) fun t ht h => ?_
  obtain ⟨hc, hy, hsel, hlen⟩ : t.n.curScreen = .field ∧ t.n.posField.y = 2 ∧
      t.n.selField = some 1 ∧ t.tcpFields.length = 139 := by
    simpa using ht
  have hpicked := h hc (by omega) (by unfold Sys.nrTcpFields; omega) 1 hsel
  omega

end Sockmon

import Sockmon.Lib.Move
import Sockmon.Run.Frame

set_option autoImplicit false

/-! # What a key does

The handlers, case by case, without their control flow: on the main screen nothing of the field
table, the sort key and the selection changes (`MainHandler.run_ui`); on the field screen
`FieldStep` lists what each handler can do. Moving a picked field (`Moved`) reorders the table
and takes the sort key along. `step_cases` does the same for a step of the program.
-/

namespace Sockmon

open Reorder

/-! ## Moving a field -/

/-- The table and the sort key of `t` are those of `s` reordered along `σ`; everything else is
as in `s`. -/
structure Moved (σ : Nat → Nat) (s t : Sys) : Prop where
  fields : Along σ s.tcpFields t.tcpFields
  perm : t.tcpFields.Perm s.tcpFields
  sortKey : ∀ i : Nat, t.n.sortKey = some (i : Int) ↔ s.n.sortKey = some (σ i : Int)
  denotes : ∀ k, s.n.sortKey = some k → ∃ k', t.n.sortKey = some k' ∧ t.fieldAt k' = s.fieldAt k
  cleared : s.n.sortKey = none → t.n.sortKey = none
  frame : t = { s with n := { s.n with sortKey := t.n.sortKey }, tcpFields := t.tcpFields }

theorem fieldAt_ofNat (s : Sys) (i : Nat) : s.fieldAt (i : Int) = s.tcpFields[i]? := by
  simp [Sys.fieldAt]

theorem fieldAt_some {s : Sys} {y : Int} {f : Field} (h : s.fieldAt y = some f) :
    0 ≤ y ∧ y.toNat < s.tcpFields.length ∧ s.tcpFields[y.toNat]? = some f := by
  unfold Sys.fieldAt at h
  split at h
  · exact ⟨by assumption, (List.getElem?_eq_some_iff.mp h).1, h⟩
  · cases h

theorem Moved.refl {σ : Nat → Nat} (hσ : ∀ i, σ i = i) (s : Sys) : Moved σ s s where
  fields := (Along.refl _).congr fun i => (hσ i).symm
  perm := List.Perm.refl _
  sortKey i := by rw [hσ i]
  denotes k hk := ⟨k, hk, rfl⟩
  cleared h := h
  frame := rfl

theorem Moved.trans {σ τ ρ : Nat → Nat} {s t u : Sys} (h : Moved σ s t) (h' : Moved τ t u)
    (hρ : ∀ i, σ (τ i) = ρ i) : Moved ρ s u where
  fields := (h.fields.trans h'.fields).congr hρ
  perm := h'.perm.trans h.perm
  sortKey i := by rw [h'.sortKey, h.sortKey, hρ i]
  denotes k hk := by
    obtain ⟨k₁, hk₁, he₁⟩ := h.denotes k hk
    obtain ⟨k₂, hk₂, he₂⟩ := h'.denotes k₁ hk₁
    exact ⟨k₂, hk₂, he₂.trans he₁⟩
  cleared hk := h'.cleared (h.cleared hk)
  frame := by rw [h'.frame, h.frame]

theorem swapKey_eq {a b : Nat} {key : Option Int} {i : Nat} :
    swapKey a b key = some (i : Int) ↔ key = some (swapAt a b i : Int) := by
  unfold swapKey swapAt
  cases key with
  | none => simp
  | some k =>
      simp only [Option.some.injEq]
      split_ifs <;> simp only [Option.some.injEq] <;> omega

/-- **One exchange** reorders the table, and the sort key follows its field. -/
theorem swapField_moved {s t : Sys} {a b : Nat} (h : swapField s a b = some t) :
    Moved (swapAt a b) s t := by
  unfold swapField at h
  obtain ⟨fa, ha, h⟩ := bind_some h
  obtain ⟨fb, hb, h⟩ := bind_some h
  cases h
  refine ⟨along_swap ha hb, perm_swap ha hb, fun i => swapKey_eq, fun k hk => ?_, ?_, rfl⟩
  · have hfields := along_swap ha hb
    by_cases hk0 : 0 ≤ k
    · obtain ⟨i, rfl⟩ := Int.eq_ofNat_of_zero_le hk0
      refine ⟨(swapAt a b i : Nat), ?_, ?_⟩
      · show swapKey a b s.n.sortKey = _
        rw [swapKey_eq, swapAt_swapAt, hk]
      · rw [fieldAt_ofNat, fieldAt_ofNat]
        calc ((s.tcpFields.set a fb).set b fa)[swapAt a b i]?
            = s.tcpFields[swapAt a b (swapAt a b i)]? := hfields (swapAt a b i)
          _ = s.tcpFields[i]? := by rw [swapAt_swapAt]
    · -- A pointer below the table is neither of the two exchanged.
      refine ⟨k, ?_, ?_⟩
      · show swapKey a b s.n.sortKey = some k
        rw [hk]
        unfold swapKey
        simp only [Option.some.injEq]
        rw [if_neg (by omega), if_neg (by omega)]
      · unfold Sys.fieldAt
        rw [if_neg hk0, if_neg hk0]
  · intro hk
    show swapKey a b s.n.sortKey = none
    rw [hk]
    unfold swapKey
    simp

theorem swapField_isSome {s : Sys} {a b : Nat} (ha : a < s.tcpFields.length)
    (hb : b < s.tcpFields.length) : ∃ t, swapField s a b = some t := by
  unfold swapField
  rw [List.getElem?_eq_getElem ha, List.getElem?_eq_getElem hb]
  exact ⟨_, rfl⟩

theorem moveDownLoop_moved {k a : Nat} {s t : Sys} (h : moveDownLoop k a s = some t) :
    Moved (moveTo a (a + k)) s t := by
  induction k generalizing a s with
  | zero =>
      cases h
      exact Moved.refl (moveTo_self a) _
  | succ k ih =>
      obtain ⟨u, hu, h⟩ := bind_some h
      refine (swapField_moved hu).trans (ih h) fun i => ?_
      rw [Nat.succ_add_eq_add_succ]
      exact swapAt_moveTo_down (by omega) i

theorem moveUpLoop_moved {k b : Nat} {s t : Sys} (h : moveUpLoop k (b + k) s = some t) :
    Moved (moveTo (b + k) b) s t := by
  induction k generalizing s with
  | zero =>
      cases h
      exact Moved.refl (moveTo_self b) _
  | succ k ih =>
      obtain ⟨u, hu, h⟩ := bind_some h
      refine (swapField_moved hu).trans (ih h) fun i => ?_
      exact swapAt_moveTo_up (by omega) i

theorem moveDownLoop_isSome {k a : Nat} {s : Sys} (h : a + k < s.tcpFields.length) :
    ∃ t, moveDownLoop k a s = some t := by
  induction k generalizing a s with
  | zero => exact ⟨s, rfl⟩
  | succ k ih =>
      obtain ⟨u, hu⟩ := swapField_isSome (s := s) (a := a) (b := a + 1) (by omega) (by omega)
      have hlen : u.tcpFields.length = s.tcpFields.length := (swapField_moved hu).perm.length_eq
      obtain ⟨t, ht⟩ := ih (a := a + 1) (s := u) (by omega)
      exact ⟨t, by rw [moveDownLoop, hu]; exact ht⟩

theorem moveUpLoop_isSome {k b : Nat} {s : Sys} (h : b + k < s.tcpFields.length) :
    ∃ t, moveUpLoop k (b + k) s = some t := by
  induction k generalizing s with
  | zero => exact ⟨s, rfl⟩
  | succ k ih =>
      obtain ⟨u, hu⟩ :=
        swapField_isSome (s := s) (a := b + (k + 1)) (b := b + (k + 1) - 1) (by omega) (by omega)
      have hlen : u.tcpFields.length = s.tcpFields.length := (swapField_moved hu).perm.length_eq
      obtain ⟨t, ht⟩ := ih (s := u) (by omega)
      exact ⟨t, by rw [moveUpLoop, hu]; exact ht⟩

theorem moveLoop_moved {sel y : Nat} {s t : Sys} (h : moveLoop sel y s = some t) :
    Moved (moveTo sel y) s t := by
  unfold moveLoop at h
  split at h
  · have hm := moveDownLoop_moved h
    rwa [show sel + (y - sel) = y by omega] at hm
  · obtain ⟨k, rfl⟩ : ∃ k, sel = y + k := ⟨sel - y, by omega⟩
    rw [Nat.add_sub_cancel_left] at h
    exact moveUpLoop_moved h

theorem moveLoop_isSome {sel y : Nat} {s : Sys} (hs : sel < s.tcpFields.length)
    (hy : y < s.tcpFields.length) : ∃ t, moveLoop sel y s = some t := by
  unfold moveLoop
  split
  · exact moveDownLoop_isSome (by omega)
  · obtain ⟨k, rfl⟩ : ∃ k, sel = y + k := ⟨sel - y, by omega⟩
    rw [Nat.add_sub_cancel_left]
    exact moveUpLoop_isSome hs

/-! ## The handlers of the field screen -/

/-- `draw_field_header` does nothing to a state of the field screen. -/
theorem drawFieldHeader_eq {s t : Sys} (h : drawFieldHeader s = some t)
    (hs : s.n.curScreen = .field) : t = s := by
  obtain ⟨w, -, h⟩ := bind_some h
  cases h
  rw [← hs]

theorem drawFieldHeader_onField {s t : Sys} (h : drawFieldHeader s = some t) :
    t = { s with n := { s.n with curScreen := .field } } := by
  obtain ⟨w, -, h⟩ := bind_some h
  cases h; rfl

/-- Where a key leaves the cursor of the field screen. -/
def cursorAfter (s : Sys) : FieldHandler → Int
  | .keyDown => if s.nrTcpFields - 1 ≤ s.n.posField.y then s.n.posField.y else s.n.posField.y + 1
  | .keyUp => if s.n.posField.y ≤ 0 then s.n.posField.y else s.n.posField.y - 1
  | .pgdn =>
      if s.nrTcpFields - 1 ≤ s.n.posField.y then s.n.posField.y
      else min (i32 (s.n.posField.y + pageStep s.n)) (s.nrTcpFields - 1)
  | .pgup =>
      if s.n.posField.y ≤ 0 then s.n.posField.y
      else max (i32 (s.n.posField.y - pageStep s.n)) 0
  | _ => s.n.posField.y

/-- What the handlers of the field screen do: `FieldStep s keys h t` when `h`, reading `keys`,
may take `s` to `t`. -/
inductive FieldStep (s : Sys) (keys : List Key) : FieldHandler → Sys → Prop
  | quit : FieldStep s keys .quit (fieldQuitHandler s)
  /-- The guard of the handler, a heading under the cursor or no reason to move, stops it. -/
  | idle (h) : h = .space ∨ h = .pin ∨ h = .keyLeft ∨ h = .keyRight → FieldStep s keys h s
  | space (f) : s.cursorField = some f → f.drawRow.isSome →
      FieldStep s keys .space (s.setCursorField { f with enabled := !f.enabled })
  | pin (f) : s.cursorField = some f → f.drawRow.isSome →
      FieldStep s keys .pin (s.setCursorField { f with pinned := !f.pinned })
  | noFilter (f) : s.cursorField = some f → f.filterParse = none → FieldStep s keys .filter s
  | setFilter (f fp r) : s.cursorField = some f → f.filterParse = some fp → f.filterOn = false →
      fp.run f s.allocs keys = some r →
      FieldStep s keys .filter (s.setCursorField { f with filter := r.filter, filterOn := !r.err })
  | clearFilter (f) : s.cursorField = some f → f.filterParse.isSome → f.filterOn = true →
      FieldStep s keys .filter (s.setCursorField { f with filterOn := false })
  | sort : FieldStep s keys .sort { s with n := toggleSortKey s.n s.n.posField.y }
  | cursor (h) : h = .keyDown ∨ h = .keyUp ∨ h = .pgdn ∨ h = .pgup →
      FieldStep s keys h (s.setPosField (cursorAfter s h))
  | move (sel f t) : s.n.selField = some sel → s.cursorField = some f → f.drawRow.isSome →
      sel ≠ s.n.posField.y.toNat → moveLoop sel s.n.posField.y.toNat s = some t →
      FieldStep s keys .keyLeft { t with n := { t.n with selField := none } }
  | pick (f) : s.n.selField = none → s.cursorField = some f → f.drawRow.isSome →
      FieldStep s keys .keyRight { s with n := { s.n with selField := some s.n.posField.y.toNat } }

theorem toggleSortKey_kept (n : NmCtx) (f : Int) :
    (toggleSortKey n f).posField = n.posField ∧ (toggleSortKey n f).posMain = n.posMain ∧
      (toggleSortKey n f).lines = n.lines ∧ (toggleSortKey n f).curScreen = n.curScreen ∧
      (toggleSortKey n f).selField = n.selField := by
  unfold toggleSortKey
  split_ifs <;> exact ⟨rfl, rfl, rfl, rfl, rfl⟩

section

variable {s t : Sys} {keys rest : List Key}

/-- The handlers that change the field under the cursor do so unless it is a heading. -/
theorem change_step {h : FieldHandler} {g : Field → Field} (hh : h = .space ∨ h = .pin)
    (hs : s.n.curScreen = .field)
    (hchange : ∀ f, s.cursorField = some f → f.drawRow.isSome →
      FieldStep s keys h (s.setCursorField (g f)))
    (hrun : (s.cursorField.bind fun f =>
      if f.drawRow.isNone then some s else drawFieldHeader (s.setCursorField (g f))) = some t) :
    FieldStep s keys h t := by
  obtain ⟨f, hf, hrun⟩ := bind_some hrun
  split at hrun
  · cases hrun
    exact .idle h (by rcases hh with rfl | rfl <;> simp)
  · rename_i hd
    rw [drawFieldHeader_eq hrun hs]
    exact hchange f hf (by simpa [Option.isSome_iff_ne_none] using hd)

theorem fieldSpaceHandler_step (hs : s.n.curScreen = .field)
    (h : fieldSpaceHandler s = some t) : FieldStep s keys .space t :=
  change_step (Or.inl rfl) hs .space h

theorem fieldPinHandler_step (hs : s.n.curScreen = .field) (h : fieldPinHandler s = some t) :
    FieldStep s keys .pin t :=
  change_step (Or.inr rfl) hs .pin h

theorem fieldFilterHandler_step (hs : s.n.curScreen = .field)
    (h : fieldFilterHandler s keys = some (t, rest)) : FieldStep s keys .filter t := by
  obtain ⟨f, hf, h⟩ := bind_some h
  cases hp : f.filterParse with
  | none =>
      rw [hp] at h
      cases h
      exact .noFilter f hf hp
  | some fp =>
      rw [hp] at h
      cases hon : f.filterOn
      · rw [hon] at h
        obtain ⟨r, hr, h⟩ := bind_some h
        obtain ⟨u, hu, h⟩ := bind_some h
        cases h
        rw [drawFieldHeader_eq hu hs]
        exact .setFilter f fp r hf hp hon hr
      · rw [hon] at h
        obtain ⟨u, hu, h⟩ := bind_some h
        cases h
        rw [drawFieldHeader_eq hu hs]
        exact .clearFilter f hf (by simp [hp]) hon

theorem fieldSortHandler_step (hs : s.n.curScreen = .field) (h : fieldSortHandler s = some t) :
    FieldStep s keys .sort t := by
  rw [drawFieldHeader_eq h ((toggleSortKey_kept _ _).2.2.2.1.trans hs)]
  exact .sort

/-- The handlers that move the cursor draw the field screen unless a guard stops them. -/
theorem cursor_step {h : FieldHandler} {y : Int} {guard : Prop} [Decidable guard]
    (hh : h = .keyDown ∨ h = .keyUp ∨ h = .pgdn ∨ h = .pgup) (hs : s.n.curScreen = .field)
    (hy : cursorAfter s h = if guard then s.n.posField.y else y)
    (hrun : (if guard then some s else drawFieldHeader (s.setPosField y)) = some t) :
    FieldStep s keys h t := by
  have hstep : FieldStep s keys h (s.setPosField (cursorAfter s h)) := .cursor h hh
  rw [hy] at hstep
  split at hrun
  · cases hrun
    rwa [if_pos (by assumption)] at hstep
  · rw [drawFieldHeader_eq hrun hs]
    rwa [if_neg (by assumption)] at hstep

theorem fieldPgdnHandler_step (hs : s.n.curScreen = .field) (h : fieldPgdnHandler s = some t) :
    FieldStep s keys .pgdn t := by
  refine cursor_step (by simp) hs ?_ h
  unfold cursorAfter
  dsimp only
  split_ifs <;> omega

theorem fieldPgupHandler_step (hs : s.n.curScreen = .field) (h : fieldPgupHandler s = some t) :
    FieldStep s keys .pgup t := by
  refine cursor_step (by simp) hs ?_ h
  unfold cursorAfter
  dsimp only
  split_ifs <;> omega

theorem fieldKeyLeftHandler_step (h : fieldKeyLeftHandler s = some t) :
    FieldStep s keys .keyLeft t := by
  unfold fieldKeyLeftHandler at h
  cases hsel : s.n.selField with
  | none =>
      rw [hsel] at h
      cases h
      exact .idle _ (by simp)
  | some sel =>
      rw [hsel] at h
      obtain ⟨f, hf, h⟩ := bind_some h
      cases hd : f.drawRow.isNone
      · rw [hd] at h
        by_cases hy : sel = s.n.posField.y.toNat
        · simp only [Bool.false_eq_true, if_false, if_pos hy] at h
          cases h
          exact .idle _ (by simp)
        · simp only [Bool.false_eq_true, if_false, if_neg hy] at h
          obtain ⟨u, hu, h⟩ := bind_some h
          cases h
          exact .move sel f u hsel hf (by simpa using hd) hy hu
      · rw [hd] at h
        cases h
        exact .idle _ (by simp)

theorem fieldKeyRightHandler_step (h : fieldKeyRightHandler s = some t) :
    FieldStep s keys .keyRight t := by
  unfold fieldKeyRightHandler at h
  cases hsel : s.n.selField with
  | some sel =>
      rw [hsel] at h
      cases h
      exact .idle _ (by simp)
  | none =>
      rw [hsel] at h
      obtain ⟨f, hf, h⟩ := bind_some h
      cases hd : f.drawRow.isNone
      · rw [hd] at h
        cases h
        exact .pick f hsel hf (by simpa using hd)
      · rw [hd] at h
        cases h
        exact .idle _ (by simp)

/-- **Every handler of the field screen** does one of these. -/
theorem FieldHandler.run_step {h : FieldHandler} (hs : s.n.curScreen = .field)
    (hrun : h.run s keys = some (t, rest)) : FieldStep s keys h t := by
  -- All handlers but two leave the keys alone.
  have hmap : ∀ x : Option Sys, x.map (·, keys) = some (t, rest) → x = some t := by
    intro x hx
    obtain ⟨u, hu, he⟩ := Option.map_eq_some_iff.mp hx
    cases he
    exact hu
  cases h with
  | quit => cases hrun; exact .quit
  | space => exact fieldSpaceHandler_step hs (hmap _ hrun)
  | filter => exact fieldFilterHandler_step hs hrun
  | pin => exact fieldPinHandler_step hs (hmap _ hrun)
  | sort => exact fieldSortHandler_step hs (hmap _ hrun)
  | keyDown => exact cursor_step (by simp) hs rfl (hmap _ hrun)
  | keyUp => exact cursor_step (by simp) hs rfl (hmap _ hrun)
  | keyLeft => exact fieldKeyLeftHandler_step (hmap _ hrun)
  | keyRight => exact fieldKeyRightHandler_step (hmap _ hrun)
  | pgdn => exact fieldPgdnHandler_step hs (hmap _ hrun)
  | pgup => exact fieldPgupHandler_step hs (hmap _ hrun)

end

/-! ### What a key of the field screen leaves alone -/

/-- Which field `tcp_fields[k]` is: the part of it that no handler writes. -/
def Sys.infoAt (s : Sys) (k : Int) : Option FieldInfo := (s.fieldAt k).map (·.toFieldInfo)

theorem infoAt_cursor {s : Sys} {f : Field} (hf : s.cursorField = some f) :
    s.infoAt s.n.posField.y.toNat = some f.toFieldInfo := by
  unfold Sys.infoAt
  rw [Int.toNat_of_nonneg (fieldAt_some hf).1, show s.fieldAt s.n.posField.y = some f from hf]
  rfl

theorem setCursorField_infos {s : Sys} {f f' : Field} (hf : s.cursorField = some f)
    (he : f'.toFieldInfo = f.toFieldInfo) :
    (s.setCursorField f').tcpFields.map (·.toFieldInfo) = s.tcpFields.map (·.toFieldInfo) := by
  obtain ⟨-, hlt, hget⟩ := fieldAt_some hf
  show (s.tcpFields.set s.n.posField.y.toNat f').map _ = _
  rw [List.map_set, he]
  rw [List.getElem?_eq_getElem hlt] at hget
  rw [← Option.some.inj hget]
  apply List.ext_getElem?
  intro j
  rw [List.getElem?_set]
  split_ifs with hj hl
  · rw [← hj, List.getElem?_map, List.getElem?_eq_getElem hlt, Option.map_some]
  · rw [List.length_map] at hl
    exact absurd hlt hl
  · rfl

theorem infoAt_eq (s : Sys) (k : Int) :
    s.infoAt k = if 0 ≤ k then (s.tcpFields.map (·.toFieldInfo))[k.toNat]? else none := by
  unfold Sys.infoAt Sys.fieldAt
  split
  · rw [List.getElem?_map]
  · rfl

section

variable {h : FieldHandler} {s t : Sys} {keys : List Key}

/-- Every handler leaves the cursor where `cursorAfter` says. -/
theorem FieldStep.posField (hstep : FieldStep s keys h t) :
    t.n.posField = { s.n.posField with y := cursorAfter s h } := by
  cases hstep with
  | idle _ hh => rcases hh with rfl | rfl | rfl | rfl <;> rfl
  | sort => exact (toggleSortKey_kept _ _).1
  | cursor => rfl
  | move sel f u hsel hf hd hne hu =>
      show u.n.posField = _
      rw [(moveLoop_moved hu).frame]
      rfl
  | quit | space | pin | noFilter | setFilter | clearFilter | pick => rfl

theorem FieldStep.posMain (hstep : FieldStep s keys h t) : t.n.posMain = s.n.posMain := by
  cases hstep with
  | sort => exact (toggleSortKey_kept _ _).2.1
  | move sel f u hsel hf hd hne hu =>
      show u.n.posMain = _
      rw [(moveLoop_moved hu).frame]
  | quit | idle | space | pin | noFilter | setFilter | clearFilter | cursor | pick => rfl

theorem FieldStep.lines (hstep : FieldStep s keys h t) : t.n.lines = s.n.lines := by
  cases hstep with
  | sort => exact (toggleSortKey_kept _ _).2.2.1
  | move sel f u hsel hf hd hne hu =>
      show u.n.lines = _
      rw [(moveLoop_moved hu).frame]
  | quit | idle | space | pin | noFilter | setFilter | clearFilter | cursor | pick => rfl

/-- Only the left key changes which field stands where. -/
theorem FieldStep.infos (hstep : FieldStep s keys h t) (hne : h ≠ .keyLeft) :
    t.tcpFields.map (·.toFieldInfo) = s.tcpFields.map (·.toFieldInfo) := by
  cases hstep with
  | space f hf hd => exact setCursorField_infos hf rfl
  | pin f hf hd => exact setCursorField_infos hf rfl
  | setFilter f fp r hf hp hon hr => exact setCursorField_infos hf rfl
  | clearFilter f hf hp hon => exact setCursorField_infos hf rfl
  | move => exact absurd rfl hne
  | quit | idle | noFilter | sort | cursor | pick => rfl

/-- Only the left and the s key change the sort key. -/
theorem FieldStep.sortKey (hstep : FieldStep s keys h t) (hne : h ≠ .keyLeft)
    (hne' : h ≠ .sort) : t.n.sortKey = s.n.sortKey := by
  cases hstep with
  | sort => exact absurd rfl hne'
  | move => exact absurd rfl hne
  | quit | idle | noFilter | space | pin | setFilter | clearFilter | cursor | pick => rfl

theorem FieldStep.nrTcpFields (hstep : FieldStep s keys h t) : t.nrTcpFields = s.nrTcpFields := by
  unfold Sys.nrTcpFields
  congr 1
  cases hstep with
  | space | pin | setFilter | clearFilter => exact List.length_set
  | move sel f u hsel hf hd hne hu => exact (moveLoop_moved hu).perm.length_eq
  | quit | idle | noFilter | sort | cursor | pick => rfl

end

/-! ## The handlers of the main screen -/

/-- Where a key leaves the position of the connection list. -/
def posMainAfter (s : Sys) : MainHandler → Position
  | .keyDown => { s.n.posMain with y := i32 (s.n.posMain.y + 1) }
  | .keyUp =>
      { s.n.posMain with y := if s.n.posMain.y ≤ 0 then s.n.posMain.y else s.n.posMain.y - 1 }
  | .keyLeft =>
      { s.n.posMain with x := if s.n.posMain.x ≤ 0 then s.n.posMain.x else s.n.posMain.x - 1 }
  | .keyRight => { s.n.posMain with x := i32 (s.n.posMain.x + 1) }
  | .keyPgdn => { s.n.posMain with y := i32 (s.n.posMain.y + pageStep s.n) }
  | .keyPgup =>
      { s.n.posMain with
        y := if s.n.posMain.y ≤ 0 then s.n.posMain.y
          else max (i32 (s.n.posMain.y - pageStep s.n)) 0 }
  | _ => s.n.posMain

/-- **The handlers of the main screen** change the screen, the settings and the position of the
connection list, and nothing else. -/
theorem MainHandler.run_frame {h : MainHandler} {s t : Sys} {keys rest : List Key}
    (hrun : h.run s keys = some (t, rest)) :
    ∃ c d b f p, t = { s with n := { s.n with
      curScreen := c, delay := d, shouldStop := b, family := f, protocol := p
      posMain := posMainAfter s h } } := by
  cases h with
  | quit | ip | ip6 | help | tcp | udp | keyDown | keyRight | keyPgdn =>
      cases hrun
      exact ⟨_, _, _, _, _, rfl⟩
  | field =>
      obtain ⟨u, hu, he⟩ := Option.map_eq_some_iff.mp hrun
      cases he
      rw [drawFieldHeader_onField hu]
      exact ⟨_, _, _, _, _, rfl⟩
  | delay =>
      obtain ⟨⟨d, seenNl, ks⟩, hd, hrun⟩ := bind_some hrun
      cases seenNl
      · obtain ⟨ks', -, hrun⟩ := bind_some hrun
        cases hrun
        exact ⟨_, _, _, _, _, rfl⟩
      · dsimp only at hrun
        rw [if_pos rfl] at hrun
        split at hrun
        · cases hrun
          exact ⟨_, _, _, _, _, rfl⟩
        · cases hrun
          exact ⟨_, _, _, _, _, rfl⟩
  | keyUp =>
      cases hrun
      unfold mainKeyUpHandler posMainAfter
      dsimp only
      split
      · exact ⟨_, _, _, _, _, rfl⟩
      · exact ⟨_, _, _, _, _, rfl⟩
  | keyLeft =>
      cases hrun
      unfold mainKeyLeftHandler posMainAfter
      dsimp only
      split
      · exact ⟨_, _, _, _, _, rfl⟩
      · exact ⟨_, _, _, _, _, rfl⟩
  | keyPgup =>
      cases hrun
      unfold mainKeyPgupHandler posMainAfter
      dsimp only
      split
      · exact ⟨_, _, _, _, _, rfl⟩
      · rw [show ∀ a : Int, (if a < 0 then 0 else a) = max a 0 by intro a; split_ifs <;> omega]
        exact ⟨_, _, _, _, _, rfl⟩

theorem MainHandler.run_ui {h : MainHandler} {s t : Sys} {keys rest : List Key}
    (hrun : h.run s keys = some (t, rest)) :
    ∃ c d b f p, t.ui = { s.ui with
      curScreen := c, delay := d, shouldStop := b, family := f, protocol := p
      posMain := posMainAfter s h } := by
  obtain ⟨c, d, b, f, p, rfl⟩ := MainHandler.run_frame hrun
  exact ⟨c, d, b, f, p, rfl⟩

section

variable {h : MainHandler} {s t : Sys} {keys rest : List Key}

theorem MainHandler.tcpFields (hrun : h.run s keys = some (t, rest)) :
    t.tcpFields = s.tcpFields := by
  obtain ⟨c, d, b, f, p, hu⟩ := MainHandler.run_ui hrun
  exact congrArg Ui.tcpFields hu

theorem MainHandler.sortKey (hrun : h.run s keys = some (t, rest)) :
    t.n.sortKey = s.n.sortKey := by
  obtain ⟨c, d, b, f, p, hu⟩ := MainHandler.run_ui hrun
  exact congrArg Ui.sortKey hu

theorem MainHandler.selField (hrun : h.run s keys = some (t, rest)) :
    t.n.selField = s.n.selField := by
  obtain ⟨c, d, b, f, p, hu⟩ := MainHandler.run_ui hrun
  exact congrArg Ui.selField hu

theorem MainHandler.lines (hrun : h.run s keys = some (t, rest)) : t.n.lines = s.n.lines := by
  obtain ⟨c, d, b, f, p, hu⟩ := MainHandler.run_ui hrun
  exact congrArg Ui.lines hu

theorem MainHandler.posField (hrun : h.run s keys = some (t, rest)) :
    t.n.posField = s.n.posField := by
  obtain ⟨c, d, b, f, p, hu⟩ := MainHandler.run_ui hrun
  exact congrArg Ui.posField hu

theorem MainHandler.posMain (hrun : h.run s keys = some (t, rest)) :
    t.n.posMain = posMainAfter s h := by
  obtain ⟨c, d, b, f, p, hu⟩ := MainHandler.run_ui hrun
  exact congrArg Ui.posMain hu

end

/-! ## One step of the program -/

/-- The handler of the main screen that the key runs. -/
def mainKey (s : Sys) (i : Input) : Option MainHandler :=
  if s.n.curScreen = .main then mainKeyHandler.lookup i.ch else none

/-- The handler of the field screen that the key runs. -/
def fieldKey (s : Sys) (i : Input) : Option FieldHandler :=
  if s.n.curScreen = .field then fieldKeyHandler.lookup i.ch else none

theorem mainKey_screen {s : Sys} {i : Input} {h : MainHandler} (hm : mainKey s i = some h) :
    s.n.curScreen = .main := by
  unfold mainKey at hm
  split at hm
  · assumption
  · cases hm

theorem fieldKey_of_mainKey {s : Sys} {i : Input} {h : MainHandler} (hm : mainKey s i = some h) :
    fieldKey s i = none := by
  simp [fieldKey, mainKey_screen hm]

theorem mainKey_of_fieldKey {s : Sys} {i : Input} {h : FieldHandler}
    (hf : fieldKey s i = some h) : mainKey s i = none := by
  cases hm : mainKey s i with
  | none => rfl
  | some k => rw [fieldKey_of_mainKey hm] at hf; cases hf

/-- What `should_stop` does. -/
inductive InputStep (s : Sys) (i : Input) : Sys → Prop
  | idle : mainKey s i = none → fieldKey s i = none → InputStep s i s
  | resize : mainKey s i = none → fieldKey s i = none → i.ch = KEY_RESIZE →
      InputStep s i (windowResize s i.size)
  | main (h t) : mainKey s i = some h → h.run s i.typed = some (t, []) → InputStep s i t
  | field (h t) : s.n.curScreen = .field → fieldKey s i = some h → FieldStep s i.typed h t →
      InputStep s i t
  | help : s.n.curScreen = .help → mainKey s i = none → fieldKey s i = none →
      InputStep s i (helpQuitHandler s)

theorem dispatch_step {s t : Sys} {i : Input} (h : dispatch i.ch s i.typed = some (t, [])) :
    InputStep s i t := by
  unfold dispatch at h
  cases hc : s.n.curScreen with
  | main =>
      have hf : fieldKey s i = none := by simp [fieldKey, hc]
      rw [hc] at h
      dsimp only at h
      cases hl : mainKeyHandler.lookup i.ch with
      | none =>
          rw [hl] at h
          obtain rfl : s = t := congrArg Prod.fst (Option.some.inj h)
          exact .idle (by simp [mainKey, hl]) hf
      | some k =>
          rw [hl] at h
          exact .main k t (by simp [mainKey, hc, hl]) h
  | field =>
      have hm : mainKey s i = none := by simp [mainKey, hc]
      rw [hc] at h
      dsimp only at h
      cases hl : fieldKeyHandler.lookup i.ch with
      | none =>
          rw [hl] at h
          obtain rfl : s = t := congrArg Prod.fst (Option.some.inj h)
          exact .idle hm (by simp [fieldKey, hl])
      | some k =>
          rw [hl] at h
          exact .field k t hc (by simp [fieldKey, hc, hl]) (FieldHandler.run_step hc h)
  | help =>
      have hm : mainKey s i = none := by simp [mainKey, hc]
      have hf : fieldKey s i = none := by simp [fieldKey, hc]
      rw [hc] at h
      dsimp only at h
      split at h
      · obtain rfl : helpQuitHandler s = t := congrArg Prod.fst (Option.some.inj h)
        exact .help hc hm hf
      · obtain rfl : s = t := congrArg Prod.fst (Option.some.inj h)
        exact .idle hm hf

theorem shouldStop_step {s t : Sys} {i : Input} (h : shouldStop s i = some t) :
    InputStep { s with allocs := i.allocs } i t := by
  -- Neither `ERR` nor `KEY_RESIZE` has a handler.
  have hnone : i.ch = ERR ∨ i.ch = KEY_RESIZE →
      mainKey { s with allocs := i.allocs } i = none ∧
        fieldKey { s with allocs := i.allocs } i = none := by
    intro hch
    unfold mainKey fieldKey
    rcases hch with hch | hch <;> (rw [hch]; constructor <;> split_ifs <;> rfl)
  unfold shouldStop at h
  dsimp only at h
  split at h
  · obtain ⟨hm, hf⟩ := hnone (Or.inl (by assumption))
    split at h
    · cases h
      exact .idle hm hf
    · cases h
  · split at h
    · obtain ⟨hm, hf⟩ := hnone (Or.inr (by assumption))
      split at h
      · cases h
        exact .resize hm hf (by assumption)
      · cases h
    · split at h
      · rename_i hd
        cases h
        exact dispatch_step hd
      · cases h

/-- From `s` to `t` only the position in the connection list may change, and that as
`draw_connections` clamps it for some number of connections. -/
def Quiet (s t : Sys) : Prop :=
  t.ui = s.ui ∨ ∃ n : NmCtx, n.posMain = s.n.posMain ∧
    t.ui = { s.ui with posMain := ⟨clampY n, s.n.posMain.x⟩ }

section

variable {s t : Sys}

/-- Quiet steps keep all that the position in the connection list is no part of. -/
theorem Quiet.proj {α : Type} (h : Quiet s t) (g : Ui → α)
    (hg : ∀ u p, g { u with posMain := p } = g u) : g t.ui = g s.ui := by
  rcases h with h | ⟨n, -, h⟩
  · rw [h]
  · rw [h, hg]

theorem Quiet.tcpFields (h : Quiet s t) : t.tcpFields = s.tcpFields :=
  h.proj Ui.tcpFields fun _ _ => rfl

theorem Quiet.sortKey (h : Quiet s t) : t.n.sortKey = s.n.sortKey :=
  h.proj Ui.sortKey fun _ _ => rfl

theorem Quiet.selField (h : Quiet s t) : t.n.selField = s.n.selField :=
  h.proj Ui.selField fun _ _ => rfl

theorem Quiet.curScreen (h : Quiet s t) : t.n.curScreen = s.n.curScreen :=
  h.proj Ui.curScreen fun _ _ => rfl

theorem Quiet.posField (h : Quiet s t) : t.n.posField = s.n.posField :=
  h.proj Ui.posField fun _ _ => rfl

theorem Quiet.lines (h : Quiet s t) : t.n.lines = s.n.lines :=
  h.proj Ui.lines fun _ _ => rfl

end

/-- **One step of the program**, as far as the user sees and steers it, is a key or quiet. -/
theorem step_cases {s t : Sys} {e : Event} (h : step s e = some t) :
    (∃ i u, e = .input i ∧ InputStep { s with allocs := i.allocs } i u ∧ Quiet u t) ∨
    ((∀ i, e ≠ .input i) ∧ Quiet s t) := by
  cases e with
  | body env =>
      rw [step] at h
      split at h
      · exact Or.inr ⟨nofun, mainBody_ui h⟩
      · cases h
  | input i =>
      rw [step] at h
      split at h
      · obtain ⟨u, hu, h⟩ := bind_some h
        cases h
        exact Or.inl ⟨i, u, rfl, shouldStop_step hu, Or.inl rfl⟩
      · cases h
  | exit closedir =>
      rw [step] at h
      split at h
      · exact Or.inr ⟨nofun, Or.inl (mainExit_ui h)⟩
      · cases h

/-! ## Runs -/

section

open Transition

variable {J P : Sys → Prop} {G : Sys → Input → Prop}

/-- The condition `G` on the steps that are keys. -/
def OnInput (G : Sys → Input → Prop) (s : Sys) : Event → Prop
  | .input i => G s i
  | _ => True

theorem step_invariant (hJq : ∀ s t, Quiet s t → J s → J t)
    (hJ : ∀ s i t, J s → InputStep s i t → J t) {s t : Sys} {e : Event} (hs : J s)
    (h : step s e = some t) : J t := by
  rcases step_cases h with ⟨i, u, rfl, hi, hq⟩ | ⟨-, hq⟩
  · have hs' : J { s with allocs := i.allocs } := hJq s _ (Or.inl rfl) hs
    exact hJq _ _ hq (hJ _ _ _ hs' hi)
  · exact hJq _ _ hq hs

/-- **Runs and their keys**: if quiet steps do not matter to `P`, and a key keeps `P` exactly
when it meets `G`, then a run keeps `P` throughout exactly when all its keys meet `G`. -/
theorem always_iff_keys (b : Start) (es : List Event)
    (hJq : ∀ s t, Quiet s t → J s → J t) (hPq : ∀ s t, Quiet s t → (P t ↔ P s))
    (hG : ∀ (s : Sys) (i : Input) (a : List Bool), G { s with allocs := a } i ↔ G s i)
    (hJ : ∀ s i t, J s → InputStep s i t → J t)
    (hP : ∀ s i t, J s → P s → InputStep s i t → (P t ↔ G s i))
    (hJ0 : J (Sys.boot b.size b.allocs)) (hP0 : P (Sys.boot b.size b.allocs)) :
    Always step P es b.state ↔ Meets step (OnInput G) es b.state := by
  have hstart : Quiet (Sys.boot b.size b.allocs) b.state := Or.inl b.ui
  refine always_iff_meets (J := J) (fun s e t => step_invariant hJq hJ) (fun s e t hj hp h => ?_)
    (hJq _ _ hstart hJ0) ((hPq _ _ hstart).mpr hP0)
  rcases step_cases h with ⟨i, u, rfl, hi, hq⟩ | ⟨hne, hq⟩
  · have hallocs : Quiet s { s with allocs := i.allocs } := Or.inl rfl
    have hj' : J { s with allocs := i.allocs } := hJq _ _ hallocs hj
    have hp' : P { s with allocs := i.allocs } := (hPq _ _ hallocs).mpr hp
    calc P t ↔ P u := hPq u t hq
      _ ↔ G { s with allocs := i.allocs } i := hP _ i u hj' hp' hi
      _ ↔ G s i := hG s i i.allocs
  · refine iff_of_true ((hPq _ _ hq).mpr hp) ?_
    cases e with
    | input i => exact absurd rfl (hne i)
    | body | exit => trivial

end

end Sockmon

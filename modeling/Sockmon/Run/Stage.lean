import Sockmon.Run.Backstage

set_option autoImplicit false

/-! # What the keys do not look at

The handlers read and write what the user sees and steers, and nothing of the rest of the state:
with another `Backstage` behind it, a state goes through the same keys, and what is behind it stays
there (`shouldStop_behind`).
-/

namespace Sockmon

/-- The state `s` with `b` in place of what no key changes. -/
def Backstage.behind (b : Backstage) (s : Sys) : Sys :=
  { s with
    n := { s.n with
      extRcv := b.extRcv, weCalled := b.weCalled, nrConns := b.nrConns, connList := b.connList }
    owners := b.owners, procPath := b.procPath, procPathLen := b.procPathLen, err := b.err
    stderr := b.stderr }

section

variable {b : Backstage}

/-! ## Drawing the fields -/

theorem fieldRowLoop_behind (s : Sys) (is : List Nat) (y skip : Int) :
    fieldRowLoop (b.behind s) is y skip = fieldRowLoop s is y skip := by
  induction is generalizing y skip with
  | nil => rfl
  | cons i is ih =>
      unfold fieldRowLoop
      simp only [ih]
      rfl

theorem drawFieldHeader_behind (s : Sys) :
    drawFieldHeader (b.behind s) = (drawFieldHeader s).map b.behind := by
  have hwrites : fieldHeaderWrites (b.behind s) = fieldHeaderWrites s := by
    unfold fieldHeaderWrites
    have hrows : fieldRowLoop (b.behind s) (List.range (b.behind s).tcpFields.length) 4
        (fieldSkip (b.behind s)) = fieldRowLoop s (List.range s.tcpFields.length) 4 (fieldSkip s) :=
      fieldRowLoop_behind s _ 4 (fieldSkip s)
    rw [hrows]
    rfl
  unfold drawFieldHeader
  rw [hwrites]
  cases fieldHeaderWrites s <;> rfl

theorem drawn_behind {s t : Sys} (h : s = b.behind t) :
    drawFieldHeader s = (drawFieldHeader t).map b.behind := by
  rw [h, drawFieldHeader_behind]

/-! ## The handlers -/

theorem swapField_behind (s : Sys) (i j : Nat) :
    swapField (b.behind s) i j = (swapField s i j).map b.behind := by
  unfold swapField
  show (s.tcpFields[i]?).bind _ = Option.map _ ((s.tcpFields[i]?).bind _)
  cases s.tcpFields[i]? with
  | none => rfl
  | some fa =>
      show (s.tcpFields[j]?).bind _ = Option.map _ ((s.tcpFields[j]?).bind _)
      cases s.tcpFields[j]? <;> rfl

theorem moveDownLoop_behind (k f : Nat) (s : Sys) :
    moveDownLoop k f (b.behind s) = (moveDownLoop k f s).map b.behind := by
  induction k generalizing f s with
  | zero => rfl
  | succ k ih =>
      unfold moveDownLoop
      rw [swapField_behind]
      cases swapField s f (f + 1) with
      | none => rfl
      | some t => exact ih (f + 1) t

theorem moveUpLoop_behind (k f : Nat) (s : Sys) :
    moveUpLoop k f (b.behind s) = (moveUpLoop k f s).map b.behind := by
  induction k generalizing f s with
  | zero => rfl
  | succ k ih =>
      unfold moveUpLoop
      rw [swapField_behind]
      cases swapField s f (f - 1) with
      | none => rfl
      | some t => exact ih (f - 1) t

theorem moveLoop_behind (sel y : Nat) (s : Sys) :
    moveLoop sel y (b.behind s) = (moveLoop sel y s).map b.behind := by
  unfold moveLoop
  split_ifs
  · exact moveDownLoop_behind _ _ s
  · exact moveUpLoop_behind _ _ s

/-- What a handler returns, with `b` behind the state. -/
def Backstage.behindRest (b : Backstage) (r : Sys × List Key) : Sys × List Key :=
  (b.behind r.1, r.2)

/-- A handler that reads no further key. -/
theorem map_behind {x y : Option Sys} (h : x = y.map b.behind) (keys : List Key) :
    x.map (·, keys) = (y.map (·, keys)).map b.behindRest := by
  subst h
  cases y <;> rfl

theorem MainHandler.run_behind (h : MainHandler) (s : Sys) (keys : List Key) :
    h.run (b.behind s) keys = (h.run s keys).map b.behindRest := by
  cases h with
  | quit | ip | ip6 | help | tcp | udp | keyDown | keyRight | keyPgdn => rfl
  | field => exact map_behind (drawFieldHeader_behind s) keys
  | delay =>
      show mainDelayHandler (b.behind s) keys = (mainDelayHandler s keys).map b.behindRest
      unfold mainDelayHandler
      cases delayLoop keys 0 with
      | none => rfl
      | some r =>
          obtain ⟨delay, seenNl, rest⟩ := r
          cases seenNl with
          | true =>
              show (if delay < 1 ∨ 255 < delay then _ else _) =
                Option.map _ (if delay < 1 ∨ 255 < delay then _ else _)
              split_ifs <;> rfl
          | false =>
              show (drain rest).bind _ = Option.map _ ((drain rest).bind _)
              cases drain rest <;> rfl
  | keyUp =>
      show some (mainKeyUpHandler (b.behind s), keys) = some (b.behind (mainKeyUpHandler s), keys)
      unfold mainKeyUpHandler
      show some ((if s.n.posMain.y ≤ 0 then _ else _), keys) = _
      split_ifs <;> rfl
  | keyLeft =>
      show some (mainKeyLeftHandler (b.behind s), keys) =
        some (b.behind (mainKeyLeftHandler s), keys)
      unfold mainKeyLeftHandler
      show some ((if s.n.posMain.x ≤ 0 then _ else _), keys) = _
      split_ifs <;> rfl
  | keyPgup =>
      show some (mainKeyPgupHandler (b.behind s), keys) =
        some (b.behind (mainKeyPgupHandler s), keys)
      unfold mainKeyPgupHandler
      show some ((if s.n.posMain.y ≤ 0 then _ else _), keys) = _
      split_ifs <;> rfl

theorem fieldSpaceHandler_behind (s : Sys) :
    fieldSpaceHandler (b.behind s) = (fieldSpaceHandler s).map b.behind := by
  unfold fieldSpaceHandler
  show s.cursorField.bind _ = Option.map _ (s.cursorField.bind _)
  cases s.cursorField with
  | none => rfl
  | some f =>
      show (if f.drawRow.isNone = true then _ else _) =
        Option.map _ (if f.drawRow.isNone = true then _ else _)
      split_ifs
      · rfl
      · exact drawn_behind rfl

theorem fieldPinHandler_behind (s : Sys) :
    fieldPinHandler (b.behind s) = (fieldPinHandler s).map b.behind := by
  unfold fieldPinHandler
  show s.cursorField.bind _ = Option.map _ (s.cursorField.bind _)
  cases s.cursorField with
  | none => rfl
  | some f =>
      show (if f.drawRow.isNone = true then _ else _) =
        Option.map _ (if f.drawRow.isNone = true then _ else _)
      split_ifs
      · rfl
      · exact drawn_behind rfl

theorem fieldSortHandler_behind (s : Sys) :
    fieldSortHandler (b.behind s) = (fieldSortHandler s).map b.behind := by
  have hkey : { b.behind s with n := toggleSortKey (b.behind s).n s.n.posField.y } =
      b.behind { s with n := toggleSortKey s.n s.n.posField.y } := by
    unfold toggleSortKey Backstage.behind
    dsimp only
    split_ifs <;> rfl
  show drawFieldHeader { b.behind s with n := toggleSortKey (b.behind s).n s.n.posField.y } = _
  exact drawn_behind hkey

theorem setCursorField_behind (s : Sys) (f : Field) :
    (b.behind s).setCursorField f = b.behind (s.setCursorField f) := rfl

theorem fieldFilterHandler_behind (s : Sys) (keys : List Key) :
    fieldFilterHandler (b.behind s) keys = (fieldFilterHandler s keys).map b.behindRest := by
  unfold fieldFilterHandler
  show s.cursorField.bind _ = Option.map _ (s.cursorField.bind _)
  cases s.cursorField with
  | none => rfl
  | some f =>
      rw [Option.bind_some, Option.bind_some]
      cases f.filterParse with
      | none => rfl
      | some fp =>
          show (if (!f.filterOn) = true then _ else _) =
            Option.map _ (if (!f.filterOn) = true then _ else _)
          split_ifs
          · show (fp.run f s.allocs keys).bind _ = Option.map _ ((fp.run f s.allocs keys).bind _)
            cases fp.run f s.allocs keys with
            | none => rfl
            | some r =>
                dsimp only [Option.bind_some]
                rw [setCursorField_behind, drawFieldHeader_behind]
                cases drawFieldHeader (s.setCursorField { f with
                  filter := r.filter, filterOn := !r.err }) <;> rfl
          · rw [setCursorField_behind, drawFieldHeader_behind]
            cases drawFieldHeader (s.setCursorField { f with filterOn := false }) <;> rfl

theorem fieldKeyDownHandler_behind (s : Sys) :
    fieldKeyDownHandler (b.behind s) = (fieldKeyDownHandler s).map b.behind := by
  unfold fieldKeyDownHandler
  show (if s.nrTcpFields - 1 ≤ s.n.posField.y then _ else _) =
    Option.map _ (if s.nrTcpFields - 1 ≤ s.n.posField.y then _ else _)
  split_ifs
  · rfl
  · exact drawn_behind rfl

theorem fieldKeyUpHandler_behind (s : Sys) :
    fieldKeyUpHandler (b.behind s) = (fieldKeyUpHandler s).map b.behind := by
  unfold fieldKeyUpHandler
  show (if s.n.posField.y ≤ 0 then _ else _) =
    Option.map _ (if s.n.posField.y ≤ 0 then _ else _)
  split_ifs
  · rfl
  · exact drawn_behind rfl

theorem fieldPgdnHandler_behind (s : Sys) :
    fieldPgdnHandler (b.behind s) = (fieldPgdnHandler s).map b.behind := by
  unfold fieldPgdnHandler
  show (if s.nrTcpFields - 1 ≤ s.n.posField.y then _ else _) =
    Option.map _ (if s.nrTcpFields - 1 ≤ s.n.posField.y then _ else _)
  split_ifs
  · rfl
  · exact drawn_behind rfl

theorem fieldPgupHandler_behind (s : Sys) :
    fieldPgupHandler (b.behind s) = (fieldPgupHandler s).map b.behind := by
  unfold fieldPgupHandler
  show (if s.n.posField.y ≤ 0 then _ else _) =
    Option.map _ (if s.n.posField.y ≤ 0 then _ else _)
  split_ifs
  · rfl
  · exact drawn_behind rfl

theorem fieldKeyLeftHandler_behind (s : Sys) :
    fieldKeyLeftHandler (b.behind s) = (fieldKeyLeftHandler s).map b.behind := by
  unfold fieldKeyLeftHandler
  rw [show (b.behind s).n.selField = s.n.selField from rfl]
  cases s.n.selField with
  | none => rfl
  | some sel =>
      show s.cursorField.bind _ = Option.map _ (s.cursorField.bind _)
      cases s.cursorField with
      | none => rfl
      | some f =>
          dsimp only [Option.bind_some]
          rw [show (b.behind s).n.posField = s.n.posField from rfl]
          split_ifs
          · rfl
          · rfl
          · rw [moveLoop_behind]
            cases moveLoop sel s.n.posField.y.toNat s <;> rfl

theorem fieldKeyRightHandler_behind (s : Sys) :
    fieldKeyRightHandler (b.behind s) = (fieldKeyRightHandler s).map b.behind := by
  unfold fieldKeyRightHandler
  show (if s.n.selField.isSome = true then _ else _) =
    Option.map _ (if s.n.selField.isSome = true then _ else _)
  split_ifs
  · rfl
  · show s.cursorField.bind _ = Option.map _ (s.cursorField.bind _)
    cases s.cursorField with
    | none => rfl
    | some f =>
        show (if f.drawRow.isNone = true then _ else _) =
          Option.map _ (if f.drawRow.isNone = true then _ else _)
        split_ifs <;> rfl

theorem FieldHandler.run_behind (h : FieldHandler) (s : Sys) (keys : List Key) :
    h.run (b.behind s) keys = (h.run s keys).map b.behindRest := by
  cases h with
  | quit => rfl
  | space => exact map_behind (fieldSpaceHandler_behind s) keys
  | filter => exact fieldFilterHandler_behind s keys
  | pin => exact map_behind (fieldPinHandler_behind s) keys
  | sort => exact map_behind (fieldSortHandler_behind s) keys
  | keyDown => exact map_behind (fieldKeyDownHandler_behind s) keys
  | keyUp => exact map_behind (fieldKeyUpHandler_behind s) keys
  | keyLeft => exact map_behind (fieldKeyLeftHandler_behind s) keys
  | keyRight => exact map_behind (fieldKeyRightHandler_behind s) keys
  | pgdn => exact map_behind (fieldPgdnHandler_behind s) keys
  | pgup => exact map_behind (fieldPgupHandler_behind s) keys

/-- **A key** does the same whatever is backstage. -/
theorem shouldStop_behind (s : Sys) (i : Input) :
    shouldStop (b.behind s) i = (shouldStop s i).map b.behind := by
  have hdispatch : ∀ u : Sys, dispatch i.ch (b.behind u) i.typed =
      (dispatch i.ch u i.typed).map b.behindRest := by
    intro u
    unfold dispatch
    rw [show (b.behind u).n.curScreen = u.n.curScreen from rfl]
    cases u.n.curScreen with
    | main =>
        dsimp only
        cases mainKeyHandler.lookup i.ch with
        | none => rfl
        | some h => exact h.run_behind u i.typed
    | field =>
        dsimp only
        cases fieldKeyHandler.lookup i.ch with
        | none => rfl
        | some h => exact h.run_behind u i.typed
    | help =>
        dsimp only
        split_ifs <;> rfl
  unfold shouldStop
  dsimp only
  split_ifs
  · rfl
  · rfl
  · rfl
  · rfl
  · have hstart : ({ b.behind s with allocs := i.allocs } : Sys) =
        b.behind { s with allocs := i.allocs } := rfl
    rw [hstart, hdispatch]
    cases dispatch i.ch { s with allocs := i.allocs } i.typed with
    | none => rfl
    | some r =>
        obtain ⟨t, rest⟩ := r
        cases rest <;> rfl

end

end Sockmon

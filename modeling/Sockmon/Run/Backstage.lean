import Sockmon.Run.Body
import Sockmon.Run.Keys

set_option autoImplicit false

/-! # What the keys leave alone

The counterpart of `Ui`: the connections, the socket owners and the traces of errors are changed
by frames and by the exit, and by no key (`step_input`). `step_exit` says what the exit does.
-/

namespace Sockmon

/-- The part of the state that no key changes. -/
structure Backstage where
  extRcv : BitVec 32
  weCalled : Bool
  nrConns : Int
  connList : List ConnInfo
  owners : OwnerMap
  procPath : List UInt8
  procPathLen : Nat
  err : Bool
  stderr : List String

def Sys.backstage (s : Sys) : Backstage :=
  { extRcv := s.n.extRcv, weCalled := s.n.weCalled, nrConns := s.n.nrConns,
    connList := s.n.connList, owners := s.owners, procPath := s.procPath,
    procPathLen := s.procPathLen, err := s.err, stderr := s.stderr }

theorem MainHandler.backstage {h : MainHandler} {s t : Sys} {keys rest : List Key}
    (hrun : h.run s keys = some (t, rest)) : t.backstage = s.backstage := by
  obtain ⟨c, d, b, f, p, rfl⟩ := MainHandler.run_frame hrun
  rfl

theorem FieldStep.backstage {h : FieldHandler} {s t : Sys} {keys : List Key}
    (hstep : FieldStep s keys h t) : t.backstage = s.backstage := by
  cases hstep with
  | sort =>
      unfold Sys.backstage toggleSortKey
      split_ifs <;> rfl
  | move sel f u hsel hf hd hne hu =>
      show u.backstage = _
      rw [(moveLoop_moved hu).frame]
      rfl
  | quit | idle | space | pin | noFilter | setFilter | clearFilter | cursor | pick => rfl

theorem InputStep.backstage {s t : Sys} {i : Input} (h : InputStep s i t) :
    t.backstage = s.backstage := by
  cases h with
  | idle | resize | help => rfl
  | main k t hk hrun => exact MainHandler.backstage hrun
  | field k t hc hk hstep => exact hstep.backstage

/-- **A key** leaves all this as it is. -/
theorem step_input {s t : Sys} {i : Input} (h : step s (.input i) = some t) :
    s.pc = .wait ∧ t.backstage = s.backstage ∧ t.pc = if t.n.shouldStop then .out else .top := by
  rw [step] at h
  split at h
  · obtain ⟨u, hu, h⟩ := bind_some h
    cases h
    exact ⟨by assumption, (shouldStop_step hu).backstage, rfl⟩
  · cases h

/-- The state in which `proc_exit` calls `free_sk_proc_map`. -/
def exitStart (s : Sys) (closedir : Bool) : Sys :=
  if closedir then s else s.nmPerror "pric: closedir"

/-- **The exit** frees the table, the windows and the connections. -/
theorem step_exit {s t : Sys} {closedir : Bool} (h : step s (.exit closedir) = some t) :
    s.pc = .out ∧ ∃ ret u, freeSkProcMap (exitStart s closedir) false = some (ret, u) ∧
      t = { nmCtxExit { u with owners := { u.owners with skInoHb := none } }.windowExit with
        pc := .done } := by
  rw [step] at h
  split at h
  · unfold mainExit procExit at h
    obtain ⟨v, hv, h⟩ := bind_some h
    obtain ⟨⟨ret, u⟩, hu, hv⟩ := bind_some hv
    cases hv
    cases h
    exact ⟨by assumption, ret, u, hu, rfl⟩
  · cases h

end Sockmon

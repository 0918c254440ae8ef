import Sockmon.Dump.Message
import Sockmon.Field.Decode
import Sockmon.Proc.Comm
import Sockmon.Run.Display

set_option autoImplicit false

/-! # The strings of the connections

A connection has two strings, the name of a process and that of an algorithm. `get_comm` leaves a
NUL behind a name that it returns, `copy_cong` stores one in the last byte, and no other function
writes there. So in every frame of every run the strings of the connections end where they are to
end (`listed_terminated`), whatever the kernel sends and `/proc` shows.
-/

namespace Sockmon

open Transition

/-! ## The name of the process -/

/-- The name ends inside the member that it is copied to. -/
def SkOwner.Terminated (o : SkOwner) : Prop := ∃ j < TASK_COMM_LEN, o.comm.getD j 0 = 0

/-- What `get_comm` returns is the name of an owner. -/
theorem getComm_terminated {fs : ProcFs} {path path' comm : List UInt8} {p inode : Nat} {pid : Int}
    (h : getComm path fs p = some (false, comm, path')) :
    SkOwner.Terminated ⟨inode, pid, comm⟩ := by
  obtain ⟨content, -, -, hlt, rfl⟩ := getComm_name h
  refine ⟨(commName content).length, hlt, ?_⟩
  simp only [List.getD_eq_getElem?_getD]
  rw [List.getElem?_append_right (Nat.le_refl _), Nat.sub_self]
  cases TASK_COMM_LEN - (commName content).length <;> rfl

theorem procVisit_terminated {fs : ProcFs} {len : Nat} {path path' comm : List UInt8}
    {d : ProcEnt} {pid : Int} {fds : List (Option FdEnt)}
    (h : procVisit fs len path d = some (.links pid comm fds, path')) (inode : Nat) :
    SkOwner.Terminated ⟨inode, pid, comm⟩ := by
  unfold procVisit at h
  split at h
  · cases h
  · obtain ⟨path₁, -, h⟩ := bind_some h
    split at h
    · cases h
    · obtain ⟨path₂, -, h⟩ := bind_some h
      dsimp only at h
      split at h
      · cases h
      · obtain ⟨⟨ret, comm', path₃⟩, hcomm, h⟩ := bind_some h
        cases ret with
        | true => cases h
        | false =>
            cases h
            exact getComm_terminated hcomm

/-- **What a scan enters** are owners with names that end. -/
theorem scanned_terminated {fs : ProcFs} {len : Nat} {ents : List (Option ProcEnt)}
    {path : List UInt8} : ∀ o ∈ scanned fs len ents path, o.Terminated := by
  induction ents generalizing path with
  | nil =>
      intro o ho
      cases ho
  | cons d ents ih =>
      cases d with
      | none => exact ih
      | some d =>
          intro o ho
          rw [scanned] at ho
          split at ho
          · exact ih o ho
          · rename_i pid comm fds path' hvisit
            rcases List.mem_append.mp ho with ho | ho
            · obtain ⟨inode, -, rfl⟩ := List.mem_map.mp ho
              exact procVisit_terminated hvisit inode
            · exact ih o ho
          · cases ho

/-! ## A message -/

/-- The last byte of the name of the algorithm is a NUL, and one of that of the process is. -/
structure StringsEnd (ci : ConnInfo) : Prop where
  caName : ci.img (ofConnInfo.caName + (TCP_CA_NAME_MAX - 1)) = 0
  comm : ∃ j < TASK_COMM_LEN, ci.img (ofConnInfo.comm + j) = 0

theorem StringsEnd.terminated {ci : ConnInfo} (h : StringsEnd ci) : ci.Terminated :=
  ⟨⟨TCP_CA_NAME_MAX - 1, by decide, h.caName⟩, h.comm⟩

theorem diagStart_strings {owner : Option SkOwner} (howner : ∀ o ∈ owner, o.Terminated) (r : Ptr) :
    StringsEnd (diagStart owner r).1 := by
  cases owner with
  | none => exact ⟨rfl, 0, by decide, rfl⟩
  | some o =>
      obtain ⟨j, hj, hzero⟩ := howner o rfl
      refine ⟨rfl, j, hj, ?_⟩
      show (if ofConnInfo.comm ≤ ofConnInfo.comm + j ∧
        ofConnInfo.comm + j < ofConnInfo.comm + TASK_COMM_LEN then
          o.comm.getD (ofConnInfo.comm + j - ofConnInfo.comm) 0 else _) = 0
      rw [if_pos (by omega), Nat.add_sub_cancel_left]
      exact hzero

/-- Only `copy_cong` writes to a string, and it ends it. -/
theorem copyByte_strings {type : Nat} (h : type < INET_DIAG_MAX) (p : Ptr) :
    (copyByte type p (ofConnInfo.caName + (TCP_CA_NAME_MAX - 1))).getD 0 = 0 ∧
      ∀ j < TASK_COMM_LEN, copyByte type p (ofConnInfo.comm + j) = none := by
  have hmembers : ∀ type < INET_DIAG_MAX, memberOff type + memberSize type ≤ ofConnInfo.comm ∧
      (type = INET_DIAG_CONG ∨ memberOff type + memberSize type ≤ ofConnInfo.caName ∨
        ofConnInfo.caName + TCP_CA_NAME_MAX ≤ memberOff type) := by decide
  obtain ⟨hcomm, hca⟩ := hmembers type h
  constructor
  · rcases hca with rfl | hca
    · rfl
    · unfold copyByte
      rw [if_neg (by unfold TCP_CA_NAME_MAX at hca ⊢; omega)]
      rfl
  · intro j _
    unfold copyByte
    rw [if_neg (by omega)]

theorem copyAttr_strings {type : Nat} (h : type < INET_DIAG_MAX) {ci : ConnInfo}
    (hci : StringsEnd ci) (p : Ptr) : StringsEnd (copyAttr type ci p) := by
  obtain ⟨hca, hcomm⟩ := copyByte_strings h p
  obtain ⟨j, hj, hzero⟩ := hci.comm
  refine ⟨?_, j, hj, ?_⟩
  · rw [copyAttr_img h]
    dsimp only
    cases hbyte : copyByte type p (ofConnInfo.caName + (TCP_CA_NAME_MAX - 1)) with
    | none => exact hci.caName
    | some c =>
        rw [hbyte] at hca
        exact hca
  · rw [copyAttr_img h]
    dsimp only
    rw [hcomm j hj]
    exact hzero

theorem rtaLoop_strings (mem : Ptr) {ci : ConnInfo} (hci : StringsEnd ci) (n rta len : Nat)
    (ext : BitVec 32) : StringsEnd (rtaLoop mem n rta len ci ext).ci := by
  induction n generalizing rta len ci ext with
  | zero =>
      cases hok : rtaOk mem rta len with
      | false =>
          rw [rtaLoop_stop 0 hok]
          exact hci
      | true =>
          rw [rtaLoop_more hok]
          exact hci
  | succ n ih =>
      cases hok : rtaOk mem rta len with
      | false =>
          rw [rtaLoop_stop (n + 1) hok]
          exact hci
      | true =>
          by_cases htype : INET_DIAG_MAX ≤ rtaType mem rta
          · rw [rtaLoop_unsupported n hok htype]
            exact hci
          · have htype : rtaType mem rta < INET_DIAG_MAX := by omega
            rw [rtaLoop_next n hok htype]
            exact ih (copyAttr_strings htype hci _) _ _ _

/-- **A connection** of a message, whatever the message is. -/
theorem listedConn_terminated (m : Datagram × Nat) {owner : Option SkOwner}
    (howner : ∀ o ∈ owner, o.Terminated) : (listedConn m owner).Terminated := by
  have h := rtaLoop_strings m.1.mem
    (diagStart_strings howner (m.1.mem.add (m.2 + NLMSG_HDRLEN))) m.1.reach
    (m.2 + NLMSG_HDRLEN + sizeofInetDiagMsg)
    (u32sub (nlmsgLen m.1.mem m.2) (NLMSG_HDRLEN + sizeofInetDiagMsg))
    (diagStart owner (m.1.mem.add (m.2 + NLMSG_HDRLEN))).2
  exact ⟨h.terminated.caName, h.terminated.comm⟩

/-! ## Runs -/

theorem snapshot_terminated (s : Sys) (env : BodyEnv) :
    ∀ ci ∈ (snapshot s env).conns, ci.Terminated := by
  intro ci hci
  obtain ⟨m, -, rfl⟩ := List.mem_map.mp hci
  refine listedConn_terminated m fun o ho => ?_
  unfold Snapshot.owner snapshot at ho
  split_ifs at ho
  · cases ho
  · exact scanned_terminated o (List.mem_of_find?_eq_some ho)
  · cases ho

/-- **In every frame of every run** the strings of the connections end. -/
theorem listed_terminated (b : Start) (es : List Event) :
    Always step (fun s => s.pc = .top → ∀ env t, collect (frameStart s env) env = some (false, t) →
      ∀ ci ∈ t.n.connList, ci.Terminated) es b.state := by
  have hinv : Always step (fun s => OwnersSound s ∧ ConnsSound s) es b.state :=
    always_of_invariant (fun s e t hs h => ⟨ownersSound_step hs.1 h, connsSound_step hs.2 h⟩)
      ⟨ownersSound_start b, connsSound_start b⟩
  refine always_mono (fun s hs hpc env t ht ci hci => ?_) hinv
  obtain ⟨u, hu, hdump⟩ := collect_ok ht
  have hperm := (collect_extRcv hs.2 hpc hu hdump).1
  rw [conns_snapshot hs.1 hpc hu hdump] at hperm
  exact snapshot_terminated s env ci (hperm.mem_iff.mp hci)

end Sockmon

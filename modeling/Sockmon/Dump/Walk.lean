import Sockmon.System.Main

set_option autoImplicit false

/-! # The messages of a dump

`connections_dump` walks the datagrams it receives message by message and hands each message to
`diag_dump`. Which messages these are, and how the walk would end, does not depend on what
`diag_dump` does with them (`recvWalk`), so the dump is one loop over them that stops at the
first that is rejected (`recvLoop_eq`). `DiagStep` lists what `diag_dump` can do with a message,
and `dumpAll_dumped` what a loop without a rejection leaves.
-/

namespace Sockmon

/-! ## The walk -/

/-- How a walk ends, if no message is rejected: at `NLMSG_DONE`, at an error message, behind the
last message of a datagram, with `recvmsg` failing, or not at all. -/
inductive WalkEnd
  | done
  | error (d : Datagram) (nlh : Nat)
  | next
  | recvmsg
  | never

/-- The offsets of the messages of a datagram that are handed to `diag_dump`, from `nlh` on. -/
def msgWalk (d : Datagram) : Nat → Nat → Int → List Nat × WalkEnd
  | 0, _, _ => ([], .never)
  | fuel + 1, nlh, sz =>
      if !nlmsgOk d.mem nlh sz then ([], .next)
      else if nlmsgType d.mem nlh = NLMSG_DONE then ([], .done)
      else if nlmsgType d.mem nlh = NLMSG_ERROR then ([], .error d nlh)
      else
        let aligned := align4 (nlmsgLen d.mem nlh)
        let r := msgWalk d fuel (nlh + aligned) (sz - aligned)
        (nlh :: r.1, r.2)

/-- The messages of the datagrams received, each with the datagram it is in. -/
def recvWalk : List (Option Datagram) → List (Datagram × Nat) × WalkEnd
  | [] => ([], .never)
  | none :: _ => ([], .recvmsg)
  | some d :: ds =>
      let r := msgWalk d (d.sz / NLMSG_HDRLEN + 1) 0 d.sz
      match r.2 with
      | .next => (r.1.map (d, ·) ++ (recvWalk ds).1, (recvWalk ds).2)
      | how => (r.1.map (d, ·), how)

/-- Give the messages to `diag_dump`, up to the first that it rejects. -/
def dumpAll : List (Datagram × Nat) → Sys → Option (Bool × Sys)
  | [], s => some (false, s)
  | m :: ms, s => do
      let (ret, s) ← diagDump s m.1 m.2
      if ret then return (true, s) else dumpAll ms s

/-- What `connections_dump` does where the walk ends. -/
def walkEnd (s : Sys) : WalkEnd → Option (Bool × Sys)
  | .done => some (false, s)
  | .error d nlh =>
      some (true, if nlmsgLen d.mem nlh < 36 then s.nmError "NLMSG_ERROR\n"
        else s.nmPerror "NLMSG_ERROR")
  | .recvmsg => some (true, s.nmPerror "recvmsg")
  | .next => none
  | .never => none

theorem dumpAll_append (ms ms' : List (Datagram × Nat)) (s : Sys) :
    dumpAll (ms ++ ms') s = (dumpAll ms s).bind fun r =>
      if r.1 then some (true, r.2) else dumpAll ms' r.2 := by
  induction ms generalizing s with
  | nil => rfl
  | cons m ms ih =>
      rw [List.cons_append, dumpAll, dumpAll]
      cases diagDump s m.1 m.2 with
      | none => rfl
      | some r =>
          obtain ⟨ret, u⟩ := r
          cases ret with
          | true => rfl
          | false => exact ih u

/-- What `nlmsgLoop` returns for the end of a walk. -/
def msgEnd (s : Sys) (how : WalkEnd) : Option (MsgEnd × Sys) :=
  match how with
  | .next => some (.next, s)
  | how => (walkEnd s how).map fun r => (if r.1 then .err else .done, r.2)

theorem nlmsgLoop_eq (d : Datagram) (fuel nlh : Nat) (sz : Int) (s : Sys) :
    nlmsgLoop d fuel nlh sz s =
      (dumpAll ((msgWalk d fuel nlh sz).1.map (d, ·)) s).bind fun r =>
        if r.1 then some (.err, r.2) else msgEnd r.2 (msgWalk d fuel nlh sz).2 := by
  induction fuel generalizing nlh sz s with
  | zero => rfl
  | succ fuel ih =>
      rw [nlmsgLoop, msgWalk]
      split_ifs
      · rfl
      · rfl
      · simp [dumpAll, msgEnd, walkEnd, *]
      · simp [dumpAll, msgEnd, walkEnd, *]
      · rw [List.map_cons, dumpAll]
        cases diagDump s d nlh with
        | none => rfl
        | some r =>
            obtain ⟨ret, u⟩ := r
            cases ret with
            | true => rfl
            | false => exact ih _ _ u

/-- **The receive loop** is one loop over the messages. -/
theorem recvLoop_eq (ds : List (Option Datagram)) (s : Sys) :
    recvLoop ds s = (dumpAll (recvWalk ds).1 s).bind fun r =>
      if r.1 then some (true, r.2) else walkEnd r.2 (recvWalk ds).2 := by
  induction ds generalizing s with
  | nil => rfl
  | cons d ds ih =>
      cases d with
      | none => rfl
      | some d =>
          rw [recvLoop, nlmsgLoop_eq, recvWalk]
          generalize msgWalk d (d.sz / NLMSG_HDRLEN + 1) 0 d.sz = w
          obtain ⟨ms, how⟩ := w
          cases how with
          | next =>
              dsimp only
              rw [dumpAll_append]
              cases dumpAll (ms.map (d, ·)) s with
              | none => rfl
              | some r =>
                  obtain ⟨ret, u⟩ := r
                  cases ret with
                  | true => rfl
                  | false => exact ih u
          | done | error | recvmsg | never =>
              dsimp only
              cases dumpAll (ms.map (d, ·)) s with
              | none => rfl
              | some r =>
                  obtain ⟨ret, u⟩ := r
                  cases ret <;> rfl

/-! ## One message -/

/-- `idiag_inode` of the message at `nlh`. -/
def msgInode (m : Datagram × Nat) : Nat :=
  rdU32 (m.1.mem.add (m.2 + NLMSG_HDRLEN + ofInetDiagMsg.idiagInode))

/-- The owner that `diag_dump` finds. -/
def ownerOf (s : Sys) (m : Datagram × Nat) : Option (Option SkOwner) :=
  ownerLookup s.n.extReq s.owners (msgInode m)

/-- The connection that `diag_dump` makes of the message, given its owner. -/
def listedConn (m : Datagram × Nat) (owner : Option SkOwner) : ConnInfo :=
  let r := diagAttrs m.1.mem m.2 owner m.1.reach
  { r.ci with ext := r.ext }

/-- What `diag_dump` does: `DiagStep s m ret t` when it takes `s` to `t` and returns `ret`. -/
inductive DiagStep (s : Sys) (m : Datagram × Nat) : Bool → Sys → Prop
  | noMemory : s.alloc.1 = false → DiagStep s m true (s.alloc.2.nmPerror "conn_info_alloc")
  | unsupported (owner type) : s.alloc.1 = true → ownerOf s m = some owner →
      (diagAttrs m.1.mem m.2 owner m.1.reach).how = .unsupported type →
      DiagStep s m true (s.alloc.2.nmError s!"Unsupported inet_diag extension: {type}\n")
  | listed (owner key connList) : s.alloc.1 = true → ownerOf s m = some owner →
      (diagAttrs m.1.mem m.2 owner m.1.reach).how = .done → s.sortField = some key →
      addConnInfo key s.n.sortAscending (listedConn m owner) s.n.connList = some connList →
      DiagStep s m false { s.alloc.2 with n := { s.n with
        extRcv := s.n.extRcv ||| (listedConn m owner).ext
        connList
        nrConns := i32 (s.n.nrConns + 1) } }

/-- **`diag_dump`** does one of these. -/
theorem diagDump_step {s t : Sys} {m : Datagram × Nat} {ret : Bool}
    (h : diagDump s m.1 m.2 = some (ret, t)) : DiagStep s m ret t := by
  unfold diagDump at h
  dsimp only at h
  cases halloc : s.alloc.1 with
  | false =>
      rw [halloc] at h
      cases h
      exact .noMemory halloc
  | true =>
      rw [halloc] at h
      obtain ⟨owner, howner, h⟩ := bind_some h
      split at h
      · cases h
      · rename_i type hhow
        cases h
        exact .unsupported owner type halloc howner hhow
      · rename_i hhow
        obtain ⟨key, hkey, h⟩ := bind_some h
        obtain ⟨l, hl, h⟩ := bind_some h
        cases h
        exact .listed owner key l halloc howner hhow hkey hl

/-- `add_conn_info` places the connection somewhere in the list. -/
theorem insertConn_split {f : FieldInfo} {ascending : Bool} {ci : ConnInfo} {l l' : List ConnInfo}
    (h : insertConn f ascending ci l = some l') :
    ∃ l₁ l₂, l = l₁ ++ l₂ ∧ l' = l₁ ++ ci :: l₂ := by
  induction l generalizing l' with
  | nil =>
      cases h
      exact ⟨[], [], rfl, rfl⟩
  | cons pos rest ih =>
      have hhead : some (ci :: pos :: rest) = some l' →
          ∃ l₁ l₂, pos :: rest = l₁ ++ l₂ ∧ l' = l₁ ++ ci :: l₂ := by
        intro he
        cases he
        exact ⟨[], pos :: rest, rfl, rfl⟩
      have htail : (insertConn f ascending ci rest).bind (fun l => some (pos :: l)) = some l' →
          ∃ l₁ l₂, pos :: rest = l₁ ++ l₂ ∧ l' = l₁ ++ ci :: l₂ := by
        intro he
        obtain ⟨l, hl, he⟩ := bind_some he
        obtain ⟨a, b, rfl, rfl⟩ := ih hl
        cases he
        exact ⟨pos :: a, b, rfl, rfl⟩
      rw [insertConn] at h
      by_cases hkey : (!hasBit pos.ext f.extRcv) = true
      · rw [if_pos hkey] at h
        exact hhead h
      · rw [if_neg hkey] at h
        obtain ⟨g, -, h⟩ := bind_some h
        dsimp only at h
        split_ifs at h
        · exact hhead h
        · exact htail h
        · exact hhead h
        · exact htail h

theorem addConnInfo_perm {key : Option FieldInfo} {ascending : Bool} {ci : ConnInfo}
    {l l' : List ConnInfo} (h : addConnInfo key ascending ci l = some l') :
    l'.Perm (l ++ [ci]) := by
  have hsplit : ∃ l₁ l₂, l = l₁ ++ l₂ ∧ l' = l₁ ++ ci :: l₂ := by
    unfold addConnInfo at h
    split at h
    · cases h
      exact ⟨l, [], by simp, rfl⟩
    · split at h
      · cases h
        exact ⟨l, [], by simp, rfl⟩
      · exact insertConn_split h
  obtain ⟨l₁, l₂, rfl, rfl⟩ := hsplit
  rw [List.append_assoc]
  exact List.Perm.append_left l₁ (List.perm_append_singleton ci l₂).symm

/-! ## All messages -/

/-- The connection that the message becomes in a dump that starts in `s`. -/
def connOf (s : Sys) (m : Datagram × Nat) : ConnInfo := listedConn m ((ownerOf s m).getD none)

/-- From `s` to `t` the messages `ms` were added to the list, and nothing else was changed but
what counts them. -/
structure Dumped (ms : List (Datagram × Nat)) (s t : Sys) : Prop where
  owners : ∀ m ∈ ms, (ownerOf s m).isSome
  conns : t.n.connList.Perm (s.n.connList ++ ms.map (connOf s))
  extRcv : t.n.extRcv = (ms.map (connOf s)).foldl (fun ext ci => ext ||| ci.ext) s.n.extRcv
  frame : t = { s with
    n := { s.n with
      extRcv := t.n.extRcv
      connList := t.n.connList
      nrConns := t.n.nrConns }
    allocs := t.allocs }

theorem Dumped.refl (s : Sys) : Dumped [] s s := ⟨nofun, by simp, rfl, rfl⟩

theorem Dumped.cons {m : Datagram × Nat} {ms : List (Datagram × Nat)} {s t u : Sys}
    (h : Dumped [m] s t) (h' : Dumped ms t u) : Dumped (m :: ms) s u := by
  have howner : ∀ m, ownerOf t m = ownerOf s m := by
    intro m
    rw [h.frame]
    rfl
  have hconn : connOf t = connOf s := by
    funext m
    unfold connOf
    rw [howner]
  refine ⟨?_, ?_, ?_, ?_⟩
  · rw [List.forall_mem_cons]
    exact ⟨h.owners m List.mem_cons_self, fun m' hm' => by rw [← howner]; exact h'.owners m' hm'⟩
  · have hperm := h'.conns
    rw [hconn] at hperm
    refine hperm.trans ?_
    rw [List.map_cons, ← List.singleton_append, ← List.append_assoc]
    exact h.conns.append_right _
  · rw [h'.extRcv, h.extRcv, hconn]
    rfl
  · rw [h'.frame, h.frame]

theorem diagStep_dumped {s t : Sys} {m : Datagram × Nat} (h : DiagStep s m false t) :
    Dumped [m] s t := by
  cases h with
  | listed owner key connList halloc howner hhow hkey hadd =>
      have hconn : connOf s m = listedConn m owner := by
        unfold connOf
        rw [howner]
        rfl
      refine ⟨?_, ?_, ?_, rfl⟩
      · intro m' hm'
        rw [List.mem_singleton.mp hm', howner]
        rfl
      · rw [List.map_singleton, hconn]
        exact addConnInfo_perm hadd
      · rw [List.map_singleton, hconn]
        rfl

/-- **A loop without a rejection** adds every message, once. -/
theorem dumpAll_dumped {ms : List (Datagram × Nat)} {s t : Sys}
    (h : dumpAll ms s = some (false, t)) : Dumped ms s t := by
  induction ms generalizing s with
  | nil =>
      cases h
      exact Dumped.refl _
  | cons m ms ih =>
      rw [dumpAll] at h
      obtain ⟨⟨ret, u⟩, hu, h⟩ := bind_some h
      cases ret with
      | true => cases h
      | false => exact (diagStep_dumped (diagDump_step hu)).cons (ih h)

/-! ## The dump -/

/-- The state in which the receive loop of `connections_dump` starts. -/
def dumpStart (s : Sys) : Sys :=
  { s with n := { s.n with extRcv := bit INET_DIAG_NONE ||| bit INET_DIAG_ADDRESS } }

/-- The messages of a dump. -/
def DumpEnv.msgs (env : DumpEnv) : List (Datagram × Nat) := (recvWalk env.recvs).1

theorem connectionsDump_eq (s : Sys) (env : DumpEnv) : connectionsDump s env =
    if env.sendmsg (buildRequest s.n) then
      (dumpAll env.msgs (dumpStart s)).bind fun r =>
        if r.1 then some (true, r.2) else walkEnd r.2 (recvWalk env.recvs).2
    else some (true, s.nmPerror "sendmsg") := by
  unfold connectionsDump
  cases env.sendmsg (buildRequest s.n) with
  | false => rfl
  | true => exact recvLoop_eq env.recvs (dumpStart s)

/-- **A dump that succeeds** has added every message before `NLMSG_DONE`. -/
theorem connectionsDump_ok {s t : Sys} {env : DumpEnv}
    (h : connectionsDump s env = some (false, t)) :
    dumpAll env.msgs (dumpStart s) = some (false, t) ∧ (recvWalk env.recvs).2 = .done ∧
      Dumped env.msgs (dumpStart s) t := by
  rw [connectionsDump_eq] at h
  split at h
  · obtain ⟨⟨ret, u⟩, hu, h⟩ := bind_some h
    cases ret with
    | true => cases h
    | false =>
        rw [if_neg (by simp)] at h
        cases hend : (recvWalk env.recvs).2 with
        | done =>
            rw [hend] at h
            cases h
            exact ⟨hu, rfl, dumpAll_dumped hu⟩
        | error | next | recvmsg | never =>
            rw [hend] at h
            cases h
  · cases h

/-! ## What a dump keeps -/

section

variable {P : Sys → Prop}

/-- What every message keeps, rejected or not, all of them keep. -/
theorem dumpAll_invariant (hstep : ∀ u m ret v, P u → DiagStep u m ret v → P v)
    {ms : List (Datagram × Nat)} {s t : Sys} {ret : Bool} (hs : P s)
    (h : dumpAll ms s = some (ret, t)) : P t := by
  induction ms generalizing s with
  | nil =>
      cases h
      exact hs
  | cons m ms ih =>
      rw [dumpAll] at h
      obtain ⟨⟨r, u⟩, hu, h⟩ := bind_some h
      have hpu : P u := hstep s m r u hs (diagDump_step hu)
      cases r with
      | true =>
          cases h
          exact hpu
      | false => exact ih hpu h

/-- **What messages and error reports keep**, the dump keeps, however it ends. -/
theorem connectionsDump_invariant (hstep : ∀ u m ret v, P u → DiagStep u m ret v → P v)
    (herr : ∀ u msg, P u → P (u.nmError msg)) {s t : Sys} {env : DumpEnv} {ret : Bool} (hs : P s)
    (hstart : P (dumpStart s)) (h : connectionsDump s env = some (ret, t)) : P t := by
  rw [connectionsDump_eq] at h
  split at h
  · obtain ⟨⟨r, u⟩, hu, h⟩ := bind_some h
    have hpu : P u := dumpAll_invariant hstep hstart hu
    cases r with
    | true =>
        cases h
        exact hpu
    | false =>
        cases hend : (recvWalk env.recvs).2 with
        | done =>
            rw [hend] at h
            cases h
            exact hpu
        | error d nlh =>
            rw [hend] at h
            cases h
            split
            · exact herr u _ hpu
            · exact herr u _ hpu
        | recvmsg =>
            rw [hend] at h
            cases h
            exact herr u _ hpu
        | next | never =>
            rw [hend] at h
            cases h
  · cases h
    exact herr s _ hs

end

end Sockmon

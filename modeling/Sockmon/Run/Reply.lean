import Sockmon.Dump.Reply
import Sockmon.Run.Display
import Sockmon.Run.Lookup
import Sockmon.Run.SortKey

set_option autoImplicit false

/-! # What the kernel sends is what is listed

A frame whose scan succeeds, and for which there is memory, lists for each message that the
kernel answers with one connection, which says what the message says and which process has the
socket (`answer_dumped`, `answer_lists`). Nothing is lost, doubled, made up or changed on the way,
however the messages are packed.
-/

namespace Sockmon

open Transition

/-! ## A message that stands in its datagram -/

/-- `idiag_inode` -/
def DiagMsg.inode (m : DiagMsg) : Nat :=
  rdU32 fun i => m.r.getD (ofInetDiagMsg.idiagInode + i) 0

theorem Stands.inode {m : Framed} {p : Datagram × Nat} (h : Stands m p) :
    msgInode p = m.msg.inode := by
  refine rdU32_congr fun j hj => ?_
  have hlt : ofInetDiagMsg.idiagInode + j < m.msg.r.length := by
    rw [m.msg.r_length]
    unfold ofInetDiagMsg.idiagInode sizeofInetDiagMsg
    omega
  have hr := h.msg.r _ _ (List.getElem?_eq_getElem hlt)
  rw [List.getD_eq_getElem?_getD, List.getElem?_eq_getElem hlt, Option.getD_some, ← hr]
  show p.1.mem (p.2 + NLMSG_HDRLEN + ofInetDiagMsg.idiagInode + j) = _
  rw [Nat.add_assoc _ ofInetDiagMsg.idiagInode]

theorem exists_stands {ms : List Framed} {ps : List (Datagram × Nat)}
    (h : List.Forall₂ Stands ms ps) {p : Datagram × Nat} (hp : p ∈ ps) : ∃ m, Stands m p := by
  induction h with
  | nil => cases hp
  | cons hm _ ih =>
      rcases List.mem_cons.mp hp with rfl | hp
      · exact ⟨_, hm⟩
      · exact ih hp

/-- The attribute loop ends, and makes the connection of the message. -/
theorem Stands.built {m : Framed} {p : Datagram × Nat} (h : Stands m p)
    (owner : Option SkOwner) : (diagAttrs p.1.mem p.2 owner p.1.reach).how = .done ∧
      listedConn p owner = builtConn p.1.mem p.2 owner := by
  have hfits := m.msg.fits
  have hlen : nlmsgLen p.1.mem p.2 = NLMSG_HDRLEN + sizeofInetDiagMsg + attrsSize m.msg.attrs :=
    h.msg.len
  have hcount := length_le_attrsSize m.msg.attrs
  have hreach : m.msg.attrs.length ≤ p.1.reach := by
    have hge := p.1.reach_ge
    have hin := h.inside
    unfold DiagMsg.size at hin
    omega
  have hloop : ∀ n, m.msg.attrs.length ≤ n →
      (diagAttrs p.1.mem p.2 owner n).how = .done ∧
        (diagAttrs p.1.mem p.2 owner n).ci.img = (builtConn p.1.mem p.2 owner).img ∧
        (diagAttrs p.1.mem p.2 owner n).ext = (builtConn p.1.mem p.2 owner).ext := by
    intro n hn
    obtain ⟨himg, hext⟩ := builtConn_eq h.msg owner
    rw [diagAttrs_eq owner (by omega), hlen, Nat.add_sub_cancel_left]
    obtain ⟨hhow, hci, hbits⟩ := rtaLoop_attrs n
      (diagStart owner (p.1.mem.add (p.2 + NLMSG_HDRLEN))).1
      (diagStart owner (p.1.mem.add (p.2 + NLMSG_HDRLEN))).2 h.msg.attrs (by omega) hn
    refine ⟨hhow, hci.trans himg.symm, ?_⟩
    rw [hbits, hext, diagStart_ext]
  obtain ⟨hhow, himg, hext⟩ := hloop p.1.reach hreach
  exact ⟨hhow, congrArg₂ ConnInfo.mk himg hext⟩

/-! ## A dump with memory -/

section

variable {s : Sys} {key : Option FieldInfo} {ci : ConnInfo} {l : List ConnInfo}

/-- With a key that can be sorted by, there is a place for every connection. -/
theorem insertConn_isSome {f : FieldInfo} (hf : f.sortFunc.isSome) (ascending : Bool)
    (ci : ConnInfo) (l : List ConnInfo) : (insertConn f ascending ci l).isSome := by
  obtain ⟨g, hg⟩ := Option.isSome_iff_exists.mp hf
  induction l with
  | nil => rfl
  | cons pos rest ih =>
      obtain ⟨l', hl'⟩ := Option.isSome_iff_exists.mp ih
      rw [insertConn, hg, hl']
      by_cases hpos : (!hasBit pos.ext f.extRcv) = true
      · rw [if_pos hpos]
        rfl
      · rw [if_neg hpos]
        show (if _ then some (ci :: pos :: rest) else some (pos :: l')).isSome = true
        split_ifs <;> rfl

theorem addConnInfo_isSome (hkey : ∀ f, key = some f → f.sortFunc.isSome) (ascending : Bool)
    (ci : ConnInfo) (l : List ConnInfo) : (addConnInfo key ascending ci l).isSome := by
  unfold addConnInfo
  cases key with
  | none => rfl
  | some f =>
      dsimp only
      split_ifs
      · rfl
      · exact insertConn_isSome (hkey f rfl) ascending ci l

/-- **A message** whose attributes are known is listed. -/
theorem diagDump_listed {p : Datagram × Nat} {owner : Option SkOwner}
    (ha : s.allocs.headD true = true)
    (howner : ownerOf s p = some owner)
    (hhow : (diagAttrs p.1.mem p.2 owner p.1.reach).how = .done) (hkey : s.sortField = some key)
    (hsort : ∀ f, key = some f → f.sortFunc.isSome) :
    ∃ t, diagDump s p.1 p.2 = some (false, t) ∧ t.allocs = s.allocs.tail := by
  obtain ⟨l, hl⟩ := Option.isSome_iff_exists.mp
    (addConnInfo_isSome hsort s.n.sortAscending (listedConn p owner) s.n.connList)
  have hlookup : ownerLookup s.n.extReq s.owners
      (rdU32 (p.1.mem.add (p.2 + NLMSG_HDRLEN + ofInetDiagMsg.idiagInode))) = some owner := howner
  unfold listedConn at hl
  unfold diagDump Sys.alloc
  dsimp only
  rw [ha, Bool.not_true, if_neg Bool.false_ne_true, hlookup, Option.bind_eq_bind,
    Option.bind_some, hhow]
  dsimp only
  rw [show Sys.sortField { s with allocs := s.allocs.tail } = some key from hkey,
    Option.bind_eq_bind, Option.bind_some, hl]
  exact ⟨_, rfl, rfl⟩

theorem dumpAll_listed {ps : List (Datagram × Nat)}
    (ha : ∀ a ∈ s.allocs.take ps.length, a = true)
    (howners : ∀ p ∈ ps, (ownerOf s p).isSome)
    (hhow : ∀ p ∈ ps, ∀ owner, (diagAttrs p.1.mem p.2 owner p.1.reach).how = .done)
    (hkey : s.sortField = some key) (hsort : ∀ f, key = some f → f.sortFunc.isSome) :
    ∃ t, dumpAll ps s = some (false, t) := by
  induction ps generalizing s with
  | nil => exact ⟨s, rfl⟩
  | cons p ps ih =>
      obtain ⟨hp, hps⟩ := List.forall_mem_cons.mp howners
      obtain ⟨hhowp, hhows⟩ := List.forall_mem_cons.mp hhow
      obtain ⟨owner, howner⟩ := Option.isSome_iff_exists.mp hp
      have hhead : s.allocs.headD true = true := by
        cases hallocs : s.allocs with
        | nil => rfl
        | cons a as => exact ha a (by rw [hallocs]; exact List.mem_cons_self)
      obtain ⟨u, hu, hau⟩ := diagDump_listed hhead howner (hhowp owner) hkey hsort
      -- each connection takes one outcome of `calloc`, and the others are left for the rest
      have hau' : ∀ a ∈ u.allocs.take ps.length, a = true := by
        intro a hmem
        refine ha a ?_
        rw [hau] at hmem
        cases hallocs : s.allocs with
        | nil =>
            rw [hallocs] at hmem
            simp at hmem
        | cons b as =>
            rw [hallocs] at hmem
            exact List.mem_cons_of_mem b hmem
      have hframe := (diagStep_dumped (diagDump_step hu)).frame
      have howners' : ∀ p ∈ ps, (ownerOf u p).isSome := by
        rw [hframe]
        exact hps
      have hkey' : u.sortField = some key := by
        rw [hframe]
        exact hkey
      obtain ⟨t, ht⟩ := ih hau' howners' hhows hkey'
      refine ⟨t, ?_⟩
      rw [dumpAll, hu]
      exact ht

end

/-! ## The owners -/

/-- The owners that the columns ask for can be looked up. -/
def OwnersReady (s : Sys) : Prop :=
  wantsOwners s = true → s.owners.skInoHb.isSome ∧ 1 ≤ s.owners.mapHashShift

section

variable {s t u : Sys} {env : BodyEnv}

/-- After the scan every owner can be looked up. -/
theorem OwnersReady.lookup (hr : OwnersReady s) (hs : OwnersSound s) (hpc : s.pc = .top)
    (hu : buildSkProcMap (frameStart s env) env.fs = some (false, u)) (p : Datagram × Nat) :
    (ownerOf (dumpStart u) p).isSome := by
  obtain ⟨hpath, hsized, -⟩ := hs.frame hpc env
  unfold ownerOf ownerLookup
  rw [dumpStart_wants hu]
  cases hw : wantsOwners s with
  | false => rfl
  | true =>
      obtain ⟨htable, hshift⟩ := hr hw
      obtain ⟨hb, hhb⟩ := Option.isSome_iff_exists.mp htable
      rcases buildSkProcMap_scan hpath hu with ⟨hoff, -⟩ | ⟨-, hscan, -⟩
      · have hoff : wantsOwners s = false := hoff
        rw [hw] at hoff
        cases hoff
      · obtain ⟨os, -, hos, -⟩ := hscan.owners
        obtain ⟨hb', hhb', -, hsame⟩ := exec_chainStep_insert hhb hos
        have hsized' : u.owners.Sized := exec_chainStep_sized hsized hos
        obtain ⟨r, hr⟩ := hsized'.lookup_isSome (by rw [hsame]; exact hshift) hhb' (msgInode p)
        rw [if_pos rfl]
        exact Option.isSome_iff_exists.mpr ⟨r, hr⟩

/-- The sort key that a valid one points at. -/
theorem SortKeyValid.sortField (hs : SortKeyValid s) :
    ∃ key, s.sortField = some key ∧ ∀ f, key = some f → f.sortFunc.isSome := by
  cases hk : s.n.sortKey with
  | none =>
      refine ⟨none, ?_, fun f hf => absurd hf.symm (Option.some_ne_none f)⟩
      unfold Sys.sortField
      rw [hk]
  | some k =>
      obtain ⟨f, hf, hsort⟩ := hs k hk
      obtain ⟨g, hg, he⟩ := Option.map_eq_some_iff.mp hf
      refine ⟨some f, ?_, fun f' hf' => ?_⟩
      · unfold Sys.sortField
        rw [hk]
        dsimp only
        rw [hg, Option.map_some, he]
      · rw [← Option.some.inj hf']
        exact hsort

end

/-! ## Frames -/

/-- The answer `ms` is listed in `t`, each message with the owner that the scan of the frame
found first. -/
structure ListsAnswer (s : Sys) (env : BodyEnv) (ms : List Framed) (t : Sys) : Prop where
  conns : ∃ conns, Ordered s conns t.n.connList ∧ List.Forall₂
    (fun m ci => Decoded m.msg ((snapshot s env).owner m.msg.inode) ci) ms conns
  nrConns : t.n.nrConns = i32 ms.length

section

variable {s t u : Sys} {env : BodyEnv} {ms : List Framed}

/-- **A dump of an answer** succeeds. -/
theorem answer_dumped (hs : OwnersSound s) (hr : OwnersReady s) (hsort : SortKeyValid s)
    (hpc : s.pc = .top) (hu : buildSkProcMap (frameStart s env) env.fs = some (false, u))
    (hmem : ∀ a ∈ u.allocs.take ms.length, a = true)
    (hsend : env.dump.sendmsg (buildRequest u.n) = true) (hms : Carries env.dump.recvs ms) :
    ∃ t, connectionsDump u env.dump = some (false, t) := by
  obtain ⟨ps, hwalk, hps⟩ := hms.walk
  have hmsgs : env.dump.msgs = ps := congrArg Prod.fst hwalk
  obtain ⟨key, hkey, hkeysort⟩ := hsort.sortField
  have hhow : ∀ p ∈ ps, ∀ owner, (diagAttrs p.1.mem p.2 owner p.1.reach).how = .done := by
    intro p hp owner
    obtain ⟨m, hm⟩ := exists_stands hps hp
    exact (hm.built owner).1
  have hfield : (dumpStart u).sortField = some key := (dumpStart_sorts hu).1.trans hkey
  have hmem' : ∀ a ∈ (dumpStart u).allocs.take ps.length, a = true := by
    rw [← hps.length_eq]
    exact hmem
  obtain ⟨t, ht⟩ :=
    dumpAll_listed hmem' (fun p _ => hr.lookup hs hpc hu p) hhow hfield hkeysort
  refine ⟨t, ?_⟩
  rw [connectionsDump_eq, if_pos hsend, hmsgs, ht, hwalk]
  rfl

/-- **What it leaves** is the answer. -/
theorem answer_lists (hs : OwnersSound s) (hc : ConnsSound s)
    (hinfos : s.infos.Perm (tcpFields.map (·.toFieldInfo))) (hpc : s.pc = .top)
    (hu : buildSkProcMap (frameStart s env) env.fs = some (false, u))
    (hms : Carries env.dump.recvs ms) (hcov : ∀ m ∈ ms, Covered m.msg)
    (ht : connectionsDump u env.dump = some (false, t)) : ListsAnswer s env ms t := by
  obtain ⟨ps, hwalk, hps⟩ := hms.walk
  have hmsgs : env.dump.msgs = ps := congrArg Prod.fst hwalk
  have hordered := ordered hs hc hinfos hpc hu ht
  have hconns : List.Forall₂
      (fun m ci => Decoded m.msg ((snapshot s env).owner m.msg.inode) ci)
      ms (snapshot s env).conns := by
    show List.Forall₂ _ ms (env.dump.msgs.map _)
    rw [hmsgs, List.forall₂_map_right_iff]
    refine ((List.forall₂_and_left ms ps).mpr ⟨hcov, hps⟩).imp fun m p hm => ?_
    rw [hm.2.inode, (hm.2.built _).2]
    exact builtConn_decoded hm.1 hm.2.msg
  have hcollect : collect (frameStart s env) env = some (false, t) := by
    unfold collect
    rw [hu]
    exact ht
  have hstart : Counted (frameStart s env) := hc.counted.congr rfl rfl
  refine ⟨⟨_, hordered, hconns⟩, ?_⟩
  rw [(collect_counted hstart hcollect).stored, hordered.perm.length_eq, hconns.length_eq]

end

end Sockmon

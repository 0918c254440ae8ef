import Sockmon.Draw.Received
import Sockmon.Dump.Attrs
import Sockmon.Proc.Linked
import Sockmon.Run.Conns
import Sockmon.Run.ExtReq
import Sockmon.Run.Lookup

set_option autoImplicit false

/-! # The extensions received

`build_sk_proc_map` sets the bit of the owners in `n->ext_rcv`, and `connections_dump` assigns
the mask anew. What is left when drawing starts are the extensions of the connections
(`collect_extRcv`), so the columns of the owners are in a frame only if some connection has got
one: `received_iff` says when that is.
-/

namespace Sockmon

open Transition

/-- What `draw_connections` is to find in the state `t` of the frame that started in `s`. -/
structure Received (s t : Sys) : Prop where
  mask : t.n.extRcv =
    dumpExt t.n.connList ||| if wantsOwners s then bit INET_DIAG_PROC else 0
  /-- The map was built, and the columns of the owners are not left out. -/
  columns : wantsOwners s = true → ∀ f ∈ t.tcpFields, f.enabled = true →
    f.extRcv = INET_DIAG_PROC → hasBit t.n.extRcv f.extRcv = true

/-- If owners are asked for, some message is about a socket that a process links to. -/
def OwnerReported (s : Sys) (env : BodyEnv) : Prop :=
  wantsOwners s = true → ∃ m ∈ env.dump.msgs, msgInode m ≠ 0 ∧
    Linked env.fs (procPrefix s) env.fs.listing (msgInode m)

/-! ## The extensions of a connection -/

/-- No attribute has the number of an extension that the program has added. -/
theorem rtaLoop_hasBit {mem : Ptr} {n rta len : Nat} {ci : ConnInfo} {ext : BitVec 32} {k : Nat}
    (hk : INET_DIAG_MAX ≤ k) : hasBit (rtaLoop mem n rta len ci ext).ext k = hasBit ext k := by
  induction n generalizing rta len ci ext with
  | zero =>
      by_cases hok : rtaOk mem rta len = true
      · rw [rtaLoop_more hok]
      · rw [rtaLoop_stop 0 (by simpa using hok)]
  | succ n ih =>
      by_cases hok : rtaOk mem rta len = true
      · by_cases htype : INET_DIAG_MAX ≤ rtaType mem rta
        · rw [rtaLoop_unsupported n hok htype]
        · rw [rtaLoop_next n hok (by omega)]
          dsimp only
          have hne : ¬(k < 32 ∧ k = rtaType mem rta) := by omega
          rw [ih, hasBit_or, hasBit_bit, decide_eq_false hne, Bool.or_false]
      · rw [rtaLoop_stop (n + 1) (by simpa using hok)]

/-- A connection has the bit exactly if it was given an owner. -/
theorem listedConn_proc (m : Datagram × Nat) (owner : Option SkOwner) :
    hasBit (listedConn m owner).ext INET_DIAG_PROC = owner.isSome := by
  calc hasBit (listedConn m owner).ext INET_DIAG_PROC
      = hasBit (diagStart owner (m.1.mem.add (m.2 + NLMSG_HDRLEN))).2 INET_DIAG_PROC :=
        rtaLoop_hasBit (by decide)
    _ = owner.isSome := by
        cases owner with
        | none =>
            show hasBit (bit INET_DIAG_NONE ||| bit INET_DIAG_ADDRESS) INET_DIAG_PROC = false
            decide
        | some o =>
            show hasBit (bit INET_DIAG_NONE ||| bit INET_DIAG_ADDRESS ||| bit INET_DIAG_PROC)
              INET_DIAG_PROC = true
            decide

/-- The mask of a dump does not depend on the order of its connections. -/
theorem dumpExt_perm {conns conns' : List ConnInfo} (h : conns.Perm conns') :
    dumpExt conns = dumpExt conns' := by
  refine hasBit_ext fun k => ?_
  rw [hasBit_dumpExt, hasBit_dumpExt, h.any_eq]

theorem hasBit_dumpExt_proc (conns : List ConnInfo) :
    hasBit (dumpExt conns) INET_DIAG_PROC = conns.any fun ci => hasBit ci.ext INET_DIAG_PROC := by
  rw [hasBit_dumpExt, show hasBit (bit INET_DIAG_NONE ||| bit INET_DIAG_ADDRESS) INET_DIAG_PROC =
    false from by decide, Bool.false_or]

/-- Adding a bit to a mask leaves it as it is only if it has the bit. -/
theorem eq_or_bit_iff {x : BitVec 32} {k : Nat} (hk : k < 32) :
    x = x ||| bit k ↔ hasBit x k = true := by
  constructor
  · intro h
    rw [h, hasBit_or, hasBit_bit]
    simp [hk]
  · intro h
    refine hasBit_ext fun j => ?_
    rw [hasBit_or, hasBit_bit]
    by_cases hj : j < 32 ∧ j = k
    · rw [hj.2, h]
      rfl
    · rw [decide_eq_false hj, Bool.or_false]

/-! ## A frame -/

section

variable {s t u : Sys} {env : BodyEnv}

/-- **When drawing starts** the mask is that of the connections. -/
theorem collect_extRcv (hs : ConnsSound s) (hpc : s.pc = .top)
    (hu : buildSkProcMap (frameStart s env) env.fs = some (false, u))
    (ht : connectionsDump u env.dump = some (false, t)) :
    t.n.connList.Perm (env.dump.msgs.map (connOf (dumpStart u))) ∧
      t.n.extRcv = dumpExt t.n.connList := by
  obtain ⟨-, -, hdumped⟩ := connectionsDump_ok ht
  have hperm : t.n.connList.Perm (env.dump.msgs.map (connOf (dumpStart u))) := by
    have hempty : (dumpStart u).n.connList = [] := (hs.frame hpc env).empty u hu
    have hconns := hdumped.conns
    rwa [hempty, List.nil_append] at hconns
  exact ⟨hperm, hdumped.extRcv.trans (dumpExt_perm hperm).symm⟩

/-- Where owners are asked for, a message gets one if its socket is linked to. -/
theorem ownerOf_linked (hs : OwnersSound s) (hpc : s.pc = .top) (hw : wantsOwners s = true)
    (hu : buildSkProcMap (frameStart s env) env.fs = some (false, u)) {m : Datagram × Nat}
    {owner : Option SkOwner} (howner : ownerOf (dumpStart u) m = some owner) :
    owner.isSome = true ↔ msgInode m ≠ 0 ∧
      Linked env.fs (procPrefix s) env.fs.listing (msgInode m) := by
  obtain ⟨hpath, -, hempty⟩ := hs.frame hpc env
  have hreq : extIsSet (dumpStart u).n.extReq INET_DIAG_PROC = true := by
    have hn : u.n = builtCtx s.n := buildSkProcMap_n hu
    show extIsSet u.n.extReq INET_DIAG_PROC = true
    rw [hn]
    unfold builtCtx
    split <;> exact hw
  have hlookup : lookupSocketOwner u.owners (msgInode m) = some owner := by
    unfold ownerOf ownerLookup at howner
    rwa [hreq] at howner
  rcases buildSkProcMap_scan hpath hu with ⟨hoff, -⟩ | ⟨-, hscan, -, hok⟩
  · rw [show (frameStart s env).n.extReq = s.n.extReq from rfl] at hoff
    rw [wantsOwners, hoff] at hw
    cases hw
  · obtain ⟨os, -, hos, heq⟩ := hscan.owners
    obtain rfl := heq rfl
    by_cases h0 : msgInode m = 0
    · rw [h0] at hlookup
      cases hlookup
      simp [h0]
    · have hempty : (frameStart s env).owners.Empty := hempty
      have hfirst := chainStep_first hempty hos h0 hlookup
      have hlinked : (∃ o ∈ scanned env.fs s.procPathLen env.fs.listing s.procPath,
          o.skIno = msgInode m) ↔ Linked env.fs (procPrefix s) env.fs.listing (msgInode m) :=
        hs.path.scanned_linked (hok rfl)
      rw [hfirst, List.find?_isSome, and_iff_right h0, ← hlinked]
      simp only [beq_iff_eq]
      rfl

theorem received_frame (ho : OwnersSound s) (hc : ConnsSound s) (hpc : s.pc = .top)
    (h : collect (frameStart s env) env = some (false, t)) :
    Received s t ↔ OwnerReported s env := by
  obtain ⟨u, hu, ht⟩ := collect_ok h
  obtain ⟨hperm, hmask⟩ := collect_extRcv hc hpc hu ht
  obtain ⟨-, -, hdumped⟩ := connectionsDump_ok ht
  cases hw : wantsOwners s with
  | false =>
      refine iff_of_true ⟨?_, fun h => ?_⟩ fun h => ?_
      · rw [hmask, hw]
        simp
      · rw [hw] at h
        cases h
      · rw [hw] at h
        cases h
  | true =>
      -- Some message has got an owner.
      have hbit : hasBit t.n.extRcv INET_DIAG_PROC = true ↔ OwnerReported s env := by
        rw [hmask, dumpExt_perm hperm, hasBit_dumpExt_proc, List.any_map, List.any_eq_true]
        unfold OwnerReported
        rw [imp_iff_right hw]
        refine exists_congr fun m => and_congr_right fun hm => ?_
        obtain ⟨owner, howner⟩ := Option.isSome_iff_exists.mp (hdumped.owners m hm)
        rw [← ownerOf_linked ho hpc hw hu howner, Function.comp_apply, connOf, howner,
          listedConn_proc]
        rfl
      rw [← hbit]
      constructor
      · intro hr
        have hor := hr.mask
        rw [hw, ← hmask] at hor
        exact (eq_or_bit_iff (by decide)).mp hor
      · intro hset
        refine ⟨?_, fun _ f _ _ hf => by rw [hf]; exact hset⟩
        rw [hw, ← hmask]
        exact (eq_or_bit_iff (by decide)).mpr hset

end

/-! ## Runs -/

/-- **In every frame of every run** the mask has, when drawing starts, what it is to have exactly
if no owners are asked for or a message of the dump is about a socket with an owner. -/
theorem received_iff (b : Start) (es : List Event) :
    Always step (fun s => s.pc = .top → s.n.curScreen = .main → ∀ env t,
      collect (frameStart s env) env = some (false, t) →
        (Received s t ↔ OwnerReported s env)) es b.state := by
  have hinv : Always step (fun s => OwnersSound s ∧ ConnsSound s) es b.state :=
    always_of_invariant (fun s e t hs h => ⟨ownersSound_step hs.1 h, connsSound_step hs.2 h⟩)
      ⟨ownersSound_start b, connsSound_start b⟩
  exact always_mono (fun s hs hpc _ env t h => received_frame hs.1 hs.2 hpc h) hinv

/-! ## A frame without connections -/

/-- With the process column shown and no connection there, the bit is lost, and the column with
it. -/
theorem empty_dump_hides : ¬ Always step (fun s => s.pc = .top → s.n.curScreen = .main →
    ∀ env t, collect (frameStart s env) env = some (false, t) → Received s t)
    Event.showPid Start.quiet.state :=
  not_always_of_exec
    (f := fun s => (s.pc, s.n.curScreen, wantsOwners s,
      (collect (frameStart s (.bare [])) (.bare [])).map fun r =>
        [r.1, hasBit r.2.n.extRcv INET_DIAG_PROC,
          r.2.tcpFields.any fun f => f.enabled && f.extRcv == INET_DIAG_PROC]))
    (a := (.top, .main, true, some [false, false, true])) (by decide +kernel) fun s hs h => by
      simp only [Prod.mk.injEq] at hs
      obtain ⟨hpc, hmain, hw, hc⟩ := hs
      obtain ⟨⟨ret, t⟩, ht, heq⟩ := Option.map_eq_some_iff.mp hc
      simp only [List.cons.injEq, and_true] at heq
      obtain ⟨rfl, hbit, hshown⟩ := heq
      obtain ⟨f, hf, hpid⟩ := List.any_eq_true.mp hshown
      rw [Bool.and_eq_true, beq_iff_eq] at hpid
      have hset := (h hpc hmain (.bare []) t ht).columns hw f hf hpid.1 hpid.2
      rw [hpid.2, hbit] at hset
      cases hset

end Sockmon

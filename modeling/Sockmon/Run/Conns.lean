import Sockmon.Dump.Layout
import Sockmon.Lib.Pool
import Sockmon.Proc.Path
import Sockmon.Run.Backstage

set_option autoImplicit false

/-! # The connections of a run

`conn_list` is filled by the dump and drained by drawing and at the exit, and `nr_conns` counts
along. In every run the two agree, the list is empty where a dump starts, and a dump of
well-formed messages that succeeds lists each of them once (`FrameConns`). A pool that follows
the calls of `conn_info_alloc` and `conn_info_free` (`pooledStep`) shows that nothing is freed
twice and nothing is left at the end.
-/

namespace Sockmon

open Transition

/-- `n->nr_conns` is the length of `conn_list`, as an `int` holds it. -/
structure Counted (s : Sys) : Prop where
  stored : s.n.nrConns = i32 s.n.connList.length
  exact : (s.n.connList.length : Int) ≤ INT_MAX → s.n.nrConns = s.n.connList.length

/-- What holds of the connections in the frame that starts in `s`. -/
structure FrameConns (s : Sys) (env : BodyEnv) : Prop where
  empty : ∀ t, buildSkProcMap (frameStart s env) env.fs = some (false, t) → t.n.connList = []
  /-- For every message, in the state in which `diag_dump` is called for it. -/
  message : ∀ t u v ms m ms' ret, buildSkProcMap (frameStart s env) env.fs = some (false, t) →
    env.dump.msgs = ms ++ m :: ms' → dumpAll ms (dumpStart t) = some (false, u) →
      diagDump u m.1 m.2 = some (ret, v) →
        Counted v ∧ (ret = true → v.n.connList = u.n.connList)
  dump : ∀ t u ret, buildSkProcMap (frameStart s env) env.fs = some (false, t) →
    connectionsDump t env.dump = some (ret, u) → Counted u
  exact : ∀ t u ps rest, buildSkProcMap (frameStart s env) env.fs = some (false, t) →
    env.dump.recvs = ps.map (fun p => some p.datagram) ++ rest →
      (∃ m ∈ Packed.messages ps, notDone m = false) →
        connectionsDump t env.dump = some (false, u) →
          u.n.connList.Perm (((Packed.messages ps).takeWhile notDone).map (connOf t))
  draw : ∀ t u frame, collect (frameStart s env) env = some (false, t) →
    drawConnections t env.stk = some (frame, u) → Counted u ∧ u.n.connList = []

/-! ## Counting -/

theorem counted_iff {s : Sys} : Counted s ↔ s.n.nrConns = i32 s.n.connList.length := by
  constructor
  · exact Counted.stored
  · intro h
    refine ⟨h, fun hle => ?_⟩
    rw [h]
    exact i32_of_range (by omega)

theorem Counted.congr {s t : Sys} (hs : Counted s) (hl : t.n.connList = s.n.connList)
    (hn : t.n.nrConns = s.n.nrConns) : Counted t := by
  rw [counted_iff, hl, hn]
  exact hs.stored

/-- Draining the list counts down to zero. -/
theorem Counted.drained {s : Sys} (hs : Counted s) :
    i32 (s.n.nrConns - s.n.connList.length) = 0 := by
  rw [hs.stored]
  unfold i32
  omega

theorem diagStep_counted {s t : Sys} {m : Datagram × Nat} {ret : Bool} (h : DiagStep s m ret t)
    (hs : Counted s) : Counted t := by
  cases h with
  | noMemory | unsupported => exact hs.congr rfl rfl
  | listed owner key connList halloc howner hhow hkey hadd =>
      have hlen : connList.length = s.n.connList.length + 1 := by
        rw [(addConnInfo_perm hadd).length_eq, List.length_append, List.length_singleton]
      rw [counted_iff]
      show i32 (s.n.nrConns + 1) = i32 connList.length
      rw [hs.stored, hlen]
      unfold i32
      omega

/-- A message that is rejected adds nothing. -/
theorem diagStep_rejected {s t : Sys} {m : Datagram × Nat} (h : DiagStep s m true t) :
    t.n.connList = s.n.connList := by
  cases h with
  | noMemory | unsupported => rfl

theorem dumpAll_counted {ms : List (Datagram × Nat)} {s t : Sys} {ret : Bool} (hs : Counted s)
    (h : dumpAll ms s = some (ret, t)) : Counted t :=
  dumpAll_invariant (fun _ _ _ _ hu hstep => diagStep_counted hstep hu) hs h

theorem connectionsDump_counted {s t : Sys} {env : DumpEnv} {ret : Bool} (hs : Counted s)
    (h : connectionsDump s env = some (ret, t)) : Counted t :=
  connectionsDump_invariant (fun _ _ _ _ hu hstep => diagStep_counted hstep hu)
    (fun _ _ hu => hu.congr rfl rfl) hs (hs.congr rfl rfl) h

theorem buildSkProcMap_conns {s t : Sys} {fs : ProcFs} {ret : Bool}
    (h : buildSkProcMap s fs = some (ret, t)) :
    t.n.connList = s.n.connList ∧ t.n.nrConns = s.n.nrConns := by
  have hn := buildSkProcMap_n h
  cases ret with
  | true => rcases hn with hn | hn <;> (rw [hn]; exact ⟨rfl, rfl⟩)
  | false =>
      rw [if_neg (by simp)] at hn
      rw [hn]
      unfold builtCtx
      split <;> exact ⟨rfl, rfl⟩

theorem freeSkProcMap_conns {s t : Sys} {resize ret : Bool}
    (h : freeSkProcMap s resize = some (ret, t)) :
    t.n.connList = s.n.connList ∧ t.n.nrConns = s.n.nrConns := by
  rcases freeSkProcMap_reported h with hn | ⟨-, hn⟩ <;> (rw [hn]; exact ⟨rfl, rfl⟩)

theorem collect_counted {s t : Sys} {env : BodyEnv} {ret : Bool} (hs : Counted s)
    (h : collect s env = some (ret, t)) : Counted t := by
  unfold collect at h
  obtain ⟨⟨r, u⟩, hu, h⟩ := bind_some h
  obtain ⟨hl, hn⟩ := buildSkProcMap_conns hu
  have hcounted : Counted u := hs.congr hl hn
  cases r with
  | true =>
      cases h
      exact hcounted
  | false => exact connectionsDump_counted hcounted h

/-- Drawing drains the list. -/
theorem free_drained {s t : Sys} {ret : Bool} (hs : Counted s)
    (h : freeSkProcMap (beforeFree s) true = some (ret, t)) :
    Counted t ∧ t.n.connList = [] := by
  obtain ⟨hl, hn⟩ := freeSkProcMap_conns h
  have hl : t.n.connList = [] := hl
  have hn : t.n.nrConns = 0 := hn.trans hs.drained
  refine ⟨?_, hl⟩
  rw [counted_iff, hl, hn]
  rfl

/-! ## The invariant -/

/-- The list is counted, and empty but between a dump that failed and the end. -/
structure ConnsSound (s : Sys) : Prop where
  counted : Counted s
  empty : s.pc ≠ .out → s.n.connList = []

theorem connsSound_start (b : Start) : ConnsSound b.state := by
  obtain ⟨path, len, allocs, heq⟩ := b.state_eq
  have hn : b.state.n = nmCtxInit b.size := congrArg Sys.n heq
  refine ⟨?_, fun _ => ?_⟩
  · rw [counted_iff, hn]
    simp [nmCtxInit, i32]
  · rw [hn]
    rfl

/-- The exit drains the list. -/
theorem exit_drained {s t : Sys} {closedir : Bool} (hs : Counted s)
    (h : step s (.exit closedir) = some t) : Counted t ∧ t.n.connList = [] := by
  obtain ⟨-, ret, u, hu, rfl⟩ := step_exit h
  obtain ⟨hl, hn⟩ := freeSkProcMap_conns hu
  have hstart : Counted (exitStart s closedir) := by
    unfold exitStart
    split
    · exact hs
    · exact hs.congr rfl rfl
  have hu : Counted u := hstart.congr hl hn
  refine ⟨counted_iff.mpr ?_, rfl⟩
  calc i32 (u.n.nrConns - u.n.connList.length) = 0 := hu.drained
    _ = i32 (([] : List ConnInfo).length : Nat) := by simp [i32]

theorem connsSound_step {s t : Sys} {e : Event} (hs : ConnsSound s) (h : step s e = some t) :
    ConnsSound t := by
  cases e with
  | body env =>
      obtain ⟨hpc, hbody⟩ := step_body h
      cases hbody with
      | idle => exact ⟨hs.counted.congr rfl rfl, fun _ => hs.empty (by rw [hpc]; decide)⟩
      | failed u hc hu =>
          have hstart : Counted (frameStart s env) := hs.counted.congr rfl rfl
          exact ⟨(collect_counted hstart hu).congr rfl rfl, fun hne => absurd rfl hne⟩
      | drawn u ret v hc hu hrows hv =>
          have hstart : Counted (frameStart s env) := hs.counted.congr rfl rfl
          obtain ⟨hcounted, hempty⟩ := free_drained (collect_counted hstart hu) hv
          exact ⟨hcounted.congr rfl rfl, fun _ => hempty⟩
  | input i =>
      obtain ⟨hpc, hback, -⟩ := step_input h
      have hl : t.n.connList = s.n.connList := congrArg Backstage.connList hback
      have hn : t.n.nrConns = s.n.nrConns := congrArg Backstage.nrConns hback
      refine ⟨hs.counted.congr hl hn, fun _ => ?_⟩
      rw [hl]
      exact hs.empty (by rw [hpc]; decide)
  | exit closedir =>
      obtain ⟨hcounted, hempty⟩ := exit_drained hs.counted h
      exact ⟨hcounted, fun _ => hempty⟩

/-! ## A frame -/

theorem ConnsSound.frame {s : Sys} (hs : ConnsSound s) (hpc : s.pc = .top) (env : BodyEnv) :
    FrameConns s env := by
  have hstart : Counted (frameStart s env) := hs.counted.congr rfl rfl
  have hempty : s.n.connList = [] := hs.empty (by rw [hpc]; decide)
  have hbuilt : ∀ t, buildSkProcMap (frameStart s env) env.fs = some (false, t) →
      Counted t ∧ t.n.connList = [] := by
    intro t ht
    obtain ⟨hl, hn⟩ := buildSkProcMap_conns ht
    exact ⟨hstart.congr hl hn, hl.trans hempty⟩
  refine ⟨fun t ht => (hbuilt t ht).2, ?_, ?_, ?_, ?_⟩
  · intro t u v ms m ms' ret ht _ hu hv
    have hdump : Counted (dumpStart t) := (hbuilt t ht).1.congr rfl rfl
    have hstep : DiagStep u m ret v := diagDump_step hv
    refine ⟨diagStep_counted hstep (dumpAll_counted hdump hu), ?_⟩
    rintro rfl
    exact diagStep_rejected hstep
  · intro t u ret ht hu
    exact connectionsDump_counted (hbuilt t ht).1 hu
  · intro t u ps rest ht hrecvs hdone hu
    obtain ⟨-, hend, hdumped⟩ := connectionsDump_ok hu
    have hperm := hdumped.conns
    rw [DumpEnv.msgs_eq hrecvs hdone hend] at hperm
    rwa [show (dumpStart t).n.connList = [] from (hbuilt t ht).2, List.nil_append] at hperm
  · intro t u frame ht hu
    obtain ⟨-, ret, hfree⟩ := drawConnections_free hu
    exact free_drained (collect_counted hstart ht) hfree

/-! ## Allocations

The calls of `conn_info_alloc` and `conn_info_free` along a run. The pool names the objects in
the order of their allocation; what it keeps is what `conn_list` holds. -/

/-- The calls of a dump. -/
def dumpPool : List (Datagram × Nat) → Sys → Pool ConnInfo → Pool ConnInfo
  | [], _, p => p
  | m :: ms, s, p =>
      -- `conn_info_alloc` fails, and there is nothing to free.
      if !s.alloc.1 then p
      else
        match diagDump s m.1 m.2 with
        | some (false, t) => dumpPool ms t (p.keep (connOf s m))
        -- `free_ci`
        | _ => p.discard

def collectPool (s : Sys) (env : BodyEnv) (p : Pool ConnInfo) : Pool ConnInfo :=
  match buildSkProcMap s env.fs with
  | some (false, t) =>
      if env.dump.sendmsg (buildRequest t.n) then dumpPool env.dump.msgs (dumpStart t) p else p
  | _ => p

/-- The calls of an event: `draw_connections` and `nm_ctx_exit` free what the list holds. -/
def stepPool (s : Sys) (p : Pool ConnInfo) : Event → Pool ConnInfo
  | .body env =>
      if s.n.curScreen ≠ .main then p
      else
        match collect (frameStart s env) env with
        | some (false, _) => (collectPool (frameStart s env) env p).drain
        | _ => collectPool (frameStart s env) env p
  | .input _ => p
  | .exit _ => p.drain

/-- A step of the program with its pool. -/
def pooledStep (sp : Sys × Pool ConnInfo) (e : Event) : Option (Sys × Pool ConnInfo) :=
  (step sp.1 e).map (·, stepPool sp.1 sp.2 e)

/-- The pool is sound, and what is live in it is what the list holds. -/
structure Tracks (s : Sys) (p : Pool ConnInfo) : Prop where
  sound : p.Sound
  contents : p.contents.Perm s.n.connList

section

variable {s t : Sys} {p : Pool ConnInfo}

theorem Tracks.congr (hs : Tracks s p) (h : t.n.connList = s.n.connList) : Tracks t p := by
  refine ⟨hs.sound, ?_⟩
  rw [h]
  exact hs.contents

theorem Tracks.discard (hs : Tracks s p) (h : t.n.connList = s.n.connList) :
    Tracks t p.discard := by
  refine ⟨hs.sound.discard, ?_⟩
  rw [h, Pool.contents_discard]
  exact hs.contents

theorem Tracks.drain (hs : Tracks s p) (h : t.n.connList = []) : Tracks t p.drain := by
  refine ⟨hs.sound.drain, ?_⟩
  rw [h, Pool.contents_drain]

theorem dumpAll_tracks {ms : List (Datagram × Nat)} {ret : Bool} (hs : Tracks s p)
    (h : dumpAll ms s = some (ret, t)) : Tracks t (dumpPool ms s p) := by
  induction ms generalizing s p with
  | nil =>
      cases h
      exact hs
  | cons m ms ih =>
      rw [dumpAll] at h
      obtain ⟨⟨r, u⟩, hu, h⟩ := bind_some h
      have hstep := diagDump_step hu
      rw [dumpPool, hu]
      cases hstep with
      | noMemory halloc =>
          cases h
          rw [halloc]
          exact hs.congr rfl
      | unsupported owner type halloc =>
          cases h
          rw [halloc]
          exact hs.discard rfl
      | listed owner key connList halloc howner hhow hkey hadd =>
          rw [halloc]
          refine ih ⟨hs.sound.keep _, ?_⟩ h
          have hperm := (diagStep_dumped (diagDump_step hu)).conns
          rw [List.map_singleton] at hperm
          rw [Pool.contents_keep]
          exact (hs.contents.append_right _).trans hperm.symm

theorem collect_tracks {env : BodyEnv} {ret : Bool} (hs : Tracks s p)
    (h : collect s env = some (ret, t)) : Tracks t (collectPool s env p) := by
  unfold collect at h
  obtain ⟨⟨r, u⟩, hu, h⟩ := bind_some h
  have hbuilt : Tracks u p := hs.congr (buildSkProcMap_conns hu).1
  unfold collectPool
  rw [hu]
  cases r with
  | true =>
      cases h
      exact hbuilt
  | false =>
      have h : connectionsDump u env.dump = some (ret, t) := h
      have hdump : Tracks (dumpStart u) p := hbuilt.congr rfl
      rw [connectionsDump_eq] at h
      dsimp only
      split at h
      · rename_i hsend
        rw [if_pos hsend]
        obtain ⟨⟨r, v⟩, hv, h⟩ := bind_some h
        have htracks := dumpAll_tracks hdump hv
        cases r with
        | true =>
            cases h
            exact htracks
        | false =>
            -- however the answer ends, the connections are those of the walked messages
            cases hend : (recvWalk env.dump.recvs).2 with
            | done =>
                rw [hend] at h
                cases h
                exact htracks
            | error d nlh =>
                rw [hend] at h
                cases h
                split
                · exact htracks.congr rfl
                · exact htracks.congr rfl
            | recvmsg =>
                rw [hend] at h
                cases h
                exact htracks.congr rfl
            | next | never =>
                rw [hend] at h
                cases h
      · rename_i hsend
        rw [if_neg hsend]
        cases h
        exact hbuilt.congr rfl

theorem tracks_step {e : Event} (hc : ConnsSound s) (hs : Tracks s p)
    (h : step s e = some t) : Tracks t (stepPool s p e) := by
  cases e with
  | body env =>
      obtain ⟨hpc, hbody⟩ := step_body h
      unfold stepPool
      dsimp only
      cases hbody with
      | idle hscreen =>
          rw [if_pos hscreen]
          exact hs.congr rfl
      | failed u hscreen hu =>
          rw [if_neg (by simp [hscreen]), hu]
          have hstart : Tracks (frameStart s env) p := hs.congr rfl
          exact (collect_tracks hstart hu).congr rfl
      | drawn u ret v hscreen hu hrows hv =>
          rw [if_neg (by simp [hscreen]), hu]
          have hstart : Tracks (frameStart s env) p := hs.congr rfl
          have hcounted : Counted (frameStart s env) := hc.counted.congr rfl rfl
          exact (collect_tracks hstart hu).drain (free_drained (collect_counted hcounted hu) hv).2
  | input i =>
      obtain ⟨-, hback, -⟩ := step_input h
      exact hs.congr (congrArg Backstage.connList hback)
  | exit closedir => exact hs.drain (exit_drained hc.counted h).2

end

/-! ## Runs -/

/-- What the pool of a run shows at its end: nothing is freed twice, what the list holds is not
freed, and by the end of `main` every object has been freed exactly once. -/
structure FreedOnce (t : Sys) (p : Pool ConnInfo) : Prop where
  nodup : p.freed.Nodup
  live : p.contents.Perm t.n.connList ∧ ∀ o ∈ p.live, o.1 ∉ p.freed
  all : t.pc = .done → ∀ id < p.next, p.freed.count id = 1

theorem freedOnce {b : Start} {es : List Event} {t : Sys} {p : Pool ConnInfo}
    (h : exec pooledStep es (b.state, .empty) = some (t, p)) : FreedOnce t p := by
  have hinv : ConnsSound t ∧ Tracks t p := by
    refine exec_invariant (P := fun sp : Sys × Pool ConnInfo => ConnsSound sp.1 ∧ Tracks sp.1 sp.2)
      (fun sp e sp' hsp hstep => ?_) ⟨connsSound_start b, Pool.sound_empty, ?_⟩ h
    · obtain ⟨u, hu, rfl⟩ := Option.map_eq_some_iff.mp hstep
      exact ⟨connsSound_step hsp.1 hu, tracks_step hsp.1 hsp.2 hu⟩
    · rw [(connsSound_start b).empty (by rw [b.pc]; decide), Pool.contents_empty]
  obtain ⟨hconns, htracks⟩ := hinv
  refine ⟨htracks.sound.freed_nodup, ⟨htracks.contents, fun o => htracks.sound.not_freed⟩, ?_⟩
  intro hpc id hid
  have hempty : t.n.connList = [] := hconns.empty (by rw [hpc]; decide)
  refine htracks.sound.count_freed ?_ hid
  exact List.perm_nil.mp (hempty ▸ htracks.contents)

/-- **In every run** the connections are counted, each frame lists the messages of its dump once
and drains the list, and every connection is freed exactly once. -/
theorem connsCounted (b : Start) (es : List Event) :
    Always step (fun s => Counted s ∧ (s.pc = .top → ∀ env, FrameConns s env)) es b.state ∧
      ∀ t p, exec pooledStep es (b.state, .empty) = some (t, p) → FreedOnce t p := by
  refine ⟨?_, fun t p => freedOnce⟩
  have hinv : Always step ConnsSound es b.state :=
    always_of_invariant (fun _ _ _ => connsSound_step) (connsSound_start b)
  exact always_mono (fun s hs => ⟨hs.counted, hs.frame⟩) hinv

/-! ## More connections than an `int` counts -/

/-- A datagram with one message, that has no attributes. -/
def Datagram.plain : Datagram where
  sz := 88
  mem := fun i => [88, 0, 0, 0, 20].getD i 0
  reach := 22
  sz_le := by decide
  reach_ge := by decide

/-- A dump of `k` connections. -/
def DumpEnv.many (k : Nat) : DumpEnv :=
  ⟨fun _ => true, List.replicate k (some Datagram.plain) ++ [some Datagram.done]⟩

/-- A frame with `k` connections. -/
def BodyEnv.many (k : Nat) : BodyEnv :=
  { allocs := [], fs := ⟨[], fun _ => none, fun _ => none⟩, dump := .many k,
    stk := fun _ _ _ => 0 }

theorem recvWalk_many (k : Nat) :
    recvWalk (DumpEnv.many k).recvs = (List.replicate k (Datagram.plain, 0), .done) := by
  show recvWalk (List.replicate k (some Datagram.plain) ++ [some Datagram.done]) = _
  have hplain : msgWalk Datagram.plain (Datagram.plain.sz / NLMSG_HDRLEN + 1) 0
      Datagram.plain.sz = ([0], .next) := by rfl
  have hdone : msgWalk Datagram.done (Datagram.done.sz / NLMSG_HDRLEN + 1) 0
      Datagram.done.sz = ([], .done) := by rfl
  induction k with
  | zero =>
      rw [List.replicate_zero, List.nil_append, recvWalk, hdone]
      rfl
  | succ k ih =>
      rw [List.replicate_succ, List.cons_append, recvWalk, hplain, ih]
      rfl

theorem alloc_nil {s : Sys} (ha : s.allocs = []) : s.alloc = (true, s) := by
  obtain ⟨n, fields, owners, path, len, pc, err, allocs, stderr⟩ := s
  obtain rfl : allocs = [] := ha
  rfl

/-- The message is listed, wherever there is memory for it and its owner is not asked for. -/
theorem diagDump_plain {s : Sys} (ha : s.allocs = [])
    (hreq : extIsSet s.n.extReq INET_DIAG_PROC = false) (hk : s.n.sortKey = none) :
    ∃ t, diagDump s Datagram.plain 0 = some (false, t) ∧ t.allocs = [] ∧
      t.n.extReq = s.n.extReq ∧ t.n.sortKey = none := by
  have halloc : s.alloc = (true, s) := alloc_nil ha
  have howner : ∀ inode, ownerLookup s.n.extReq s.owners inode = some none := by
    intro inode
    unfold ownerLookup
    rw [hreq]
    rfl
  have hhow : (diagAttrs Datagram.plain.mem 0 none Datagram.plain.reach).how = .done := by rfl
  have hkey : s.sortField = some none := by
    unfold Sys.sortField
    rw [hk]
  unfold diagDump
  simp only [halloc, howner, hhow, hkey, Bool.not_true, Bool.false_eq_true, if_false, addConnInfo,
    Option.bind_eq_bind, Option.bind_some]
  exact ⟨_, rfl, ha, rfl, hk⟩

theorem dumpAll_many {s : Sys} (ha : s.allocs = [])
    (hreq : extIsSet s.n.extReq INET_DIAG_PROC = false) (hk : s.n.sortKey = none) (k : Nat) :
    ∃ t, dumpAll (List.replicate k (Datagram.plain, 0)) s = some (false, t) := by
  induction k generalizing s with
  | zero => exact ⟨s, rfl⟩
  | succ k ih =>
      obtain ⟨t, ht, hat, hrt, hkt⟩ := diagDump_plain ha hreq hk
      obtain ⟨u, hu⟩ := ih hat (by rw [hrt]; exact hreq) hkt
      refine ⟨u, ?_⟩
      rw [List.replicate_succ, dumpAll, ht]
      exact hu

theorem connectionsDump_many {s : Sys} (ha : s.allocs = [])
    (hreq : extIsSet s.n.extReq INET_DIAG_PROC = false) (hk : s.n.sortKey = none)
    (hl : s.n.connList = []) (k : Nat) :
    ∃ t, connectionsDump s (.many k) = some (false, t) ∧ t.n.connList.length = k := by
  have hmsgs : (DumpEnv.many k).msgs = List.replicate k (Datagram.plain, 0) :=
    congrArg Prod.fst (recvWalk_many k)
  obtain ⟨t, ht⟩ := dumpAll_many (s := dumpStart s) ha hreq hk k
  have hlen : t.n.connList.length = k := by
    rw [(dumpAll_dumped ht).conns.length_eq, List.length_append, List.length_map,
      List.length_replicate, show (dumpStart s).n.connList = [] from hl, List.length_nil,
      Nat.zero_add]
  refine ⟨t, ?_, hlen⟩
  rw [connectionsDump_eq, hmsgs, ht, recvWalk_many k]
  rfl

/-- With one connection more than `INT_MAX` the count is not the length. -/
theorem nrConns_wraps : ¬ ∀ (b : Start) (es : List Event),
    Always step (fun s => s.pc = .top → s.n.curScreen = .main → ∀ env t u,
      buildSkProcMap (frameStart s env) env.fs = some (false, t) →
        connectionsDump t env.dump = some (false, u) →
          u.n.nrConns = u.n.connList.length) es b.state := by
  intro h
  obtain ⟨u, hu, hlen⟩ :=
    connectionsDump_many (s := frameStart Start.quiet.state (.many 2147483648))
      rfl (by decide) rfl rfl 2147483648
  have hcounted : Counted u := by
    refine connectionsDump_counted (counted_iff.mpr ?_) hu
    decide
  have hexact : u.n.nrConns = u.n.connList.length :=
    h Start.quiet [] rfl rfl (.many 2147483648) _ u rfl hu
  rw [hcounted.stored, hlen] at hexact
  exact absurd hexact (by decide)

end Sockmon

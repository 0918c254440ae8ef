import Sockmon.Run.ExtReq
import Sockmon.Run.Lookup

set_option autoImplicit false

/-! # Errors

`nm_error` and `nm_perror` delete the windows and free the filters before they print, so the
loop of `main` is to be left without using these again, and with a status that tells of the
error. `Uses` lists what a step comes to use; `errorsStop_iff` says for which runs this happens
only while there is no error. What goes wrong in the others is the result of `free_sk_proc_map`,
which `draw_connections` drops.
-/

namespace Sockmon

open Transition

/-! ## What is used -/

inductive Use
  | window | key | filter | owners

/-- The states in which `sk_ino_make_map` calls `add_sk_ino`, which looks up the inode. -/
def linkCalls (pid : Int) (comm : List UInt8) : List (Option FdEnt) → Sys → List Sys
  | [], _ => []
  | none :: ents, s => linkCalls pid comm ents s
  | some d :: ents, s =>
      if !d.isLnk then linkCalls pid comm ents s
      else
        match d.link.bind socketInode with
        | none => linkCalls pid comm ents s
        | some inode =>
            s :: match addSkIno s inode pid comm with
              | some (false, t) => linkCalls pid comm ents t
              | _ => []

/-- The states in which the scan calls `add_sk_ino`. -/
def scanCalls (fs : ProcFs) : List (Option ProcEnt) → Sys → List Sys
  | [], _ => []
  | none :: ents, s => scanCalls fs ents s
  | some d :: ents, s =>
      match procVisit fs s.procPathLen s.procPath d with
      | some (.skip, procPath) => scanCalls fs ents { s with procPath }
      | some (.links pid comm fds, procPath) =>
          linkCalls pid comm fds { s with procPath } ++
            match skInoMakeMap pid comm fds { s with procPath } with
            | some (false, t) => scanCalls fs ents t
            | _ => []
      | _ => []

/-- `Uses s e use u`: the step that `e` takes from `s` comes to `use` in the state `u`. -/
inductive Uses (s : Sys) : Event → Use → Sys → Prop
  | scan (env u) : s.pc = .top → s.n.curScreen = .main → wantsOwners s = true →
      u ∈ scanCalls env.fs env.fs.listing (frameStart s env) → Uses s (.body env) .owners u
  /-- `diag_dump` has allocated a connection, and looks up its owner. -/
  | dump (env t u ms m ms') : s.pc = .top → s.n.curScreen = .main →
      buildSkProcMap (frameStart s env) env.fs = some (false, t) →
      env.dump.sendmsg (buildRequest t.n) = true → env.dump.msgs = ms ++ m :: ms' →
      dumpAll ms (dumpStart t) = some (false, u) → u.alloc.1 = true → wantsOwners u = true →
      Uses s (.body env) .owners u
  /-- The calls from `window_erase` to the loop of `draw_connections`, which draw and filter. -/
  | draw (env u use) : s.pc = .top → s.n.curScreen = .main →
      collect (frameStart s env) env = some (false, u) → use = .window ∨ use = .filter →
      Uses s (.body env) use u
  /-- The end of `draw_connections`, behind `free_sk_proc_map`, and `window_refresh`. -/
  | refresh (env u ret v) : s.pc = .top → s.n.curScreen = .main →
      collect (frameStart s env) env = some (false, u) → (rowWrites u env.stk).isSome →
      freeSkProcMap (beforeFree u) true = some (ret, v) → Uses s (.body env) .window v
  | key (i) : s.pc = .wait → Uses s (.input i) .key s
  /-- What a handler draws, reads and frees: `we_called` is never cleared, so what it is when the
  handler is done tells for all of it. -/
  | handler (i t use) : s.pc = .wait → shouldStop s i = some t → use ≠ .owners →
      Uses s (.input i) use t

/-- A step uses nothing once an error was reported. -/
def SafeUses (s : Sys) (e : Event) : Prop := ∀ use u, Uses s e use u → u.n.weCalled = false

/-- If the loop was left after an error, `main` returns, and a status other than 0. -/
def StatusKept (s : Sys) : Prop := s.pc = .out → s.n.weCalled = true →
  ∀ closedir, ∃ t, step s (.exit closedir) = some t ∧ t.err = true

/-- `free_sk_proc_map` finds a size for the sockets counted. -/
def CountFits (s : Sys) : Prop :=
  wantsOwners s = true → (s.owners.nrSockets % 4294967296).toNat ≤ 2 ^ 31

/-! ## The flag -/

section

variable {s t u : Sys}

theorem linkCalls_n {pid : Int} {comm : List UInt8} {ents : List (Option FdEnt)}
    (h : u ∈ linkCalls pid comm ents s) : u.n = s.n := by
  induction ents generalizing s with
  | nil => cases h
  | cons d ents ih =>
      cases d with
      | none => exact ih h
      | some d =>
          rw [linkCalls] at h
          split at h
          · exact ih h
          · split at h
            · exact ih h
            · rename_i inode _
              rcases List.mem_cons.mp h with rfl | h
              · rfl
              · split at h
                · rename_i t ht
                  exact (ih h).trans (addSkIno_reported ht).ok
                · cases h

theorem scanCalls_n {fs : ProcFs} {ents : List (Option ProcEnt)}
    (h : u ∈ scanCalls fs ents s) : u.n = s.n := by
  induction ents generalizing s with
  | nil => cases h
  | cons d ents ih =>
      cases d with
      | none => exact ih h
      | some d =>
          rw [scanCalls] at h
          split at h
          · rename_i path _
            exact ih (s := { s with procPath := path }) h
          · rename_i path _
            rcases List.mem_append.mp h with h | h
            · exact linkCalls_n (s := { s with procPath := path }) h
            · split at h
              · rename_i t ht
                exact (ih h).trans (skInoMakeMap_reported ht).ok
              · cases h
          · cases h

theorem buildSkProcMap_weCalled {fs : ProcFs} (h : buildSkProcMap s fs = some (false, t)) :
    t.n.weCalled = s.n.weCalled := by
  have hn : t.n = builtCtx s.n := buildSkProcMap_n h
  rw [hn]
  unfold builtCtx
  split <;> rfl

theorem dumpAll_weCalled {ms : List (Datagram × Nat)} (h : dumpAll ms s = some (false, t)) :
    t.n.weCalled = s.n.weCalled := by
  rw [(dumpAll_dumped h).frame]

/-- Where a collection succeeds no error was reported. -/
theorem collect_weCalled {env : BodyEnv} (h : collect s env = some (false, t)) :
    t.n.weCalled = s.n.weCalled := by
  obtain ⟨u, hu, ht⟩ := collect_ok h
  obtain ⟨hdump, -⟩ := connectionsDump_ok ht
  calc t.n.weCalled = (dumpStart u).n.weCalled := dumpAll_weCalled hdump
    _ = u.n.weCalled := rfl
    _ = s.n.weCalled := buildSkProcMap_weCalled hu

/-- Freeing reports an error exactly if it fails. -/
theorem FreeStep.weCalled {resize ret : Bool} (h : FreeStep s resize ret t) :
    t.n.weCalled = (s.n.weCalled || ret) := by
  cases h with
  | off | kept | resized => exact (Bool.or_false _).symm
  | failed => exact (Bool.or_true _).symm

theorem FreeStep.err {resize ret : Bool} (h : FreeStep s resize ret t) : t.err = s.err := by
  cases h with
  | off | kept | resized | failed => rfl

/-- Freeing fails exactly if it needs another table and there is no memory for it. -/
theorem FreeStep.ok_iff {ret : Bool} (h : FreeStep s true ret t) :
    ret = false ↔ ResizeSucceeds s := by
  cases h with
  | off hoff =>
      refine iff_of_true rfl fun hreq => ?_
      rw [hoff] at hreq
      cases hreq
  | kept _ hsize => exact iff_of_true rfl fun _ hne => absurd ⟨rfl, hne⟩ hsize
  | resized _ _ _ halloc => exact iff_of_true rfl fun _ _ => halloc
  | failed hreq _ hsize halloc =>
      refine iff_of_false (by decide) fun hsucc => ?_
      rw [hsucc hreq hsize] at halloc
      cases halloc

theorem collect_flag {env : BodyEnv} {ret : Bool} (hs : s.n.weCalled = true)
    (h : collect s env = some (ret, t)) : t.n.weCalled = true := by
  unfold collect at h
  obtain ⟨⟨r, u⟩, hu, h⟩ := bind_some h
  cases r with
  | true =>
      have hn : u.n = s.n ∨ u.n = { s.n with weCalled := true } := buildSkProcMap_n hu
      cases h
      rcases hn with hn | hn
      · rw [hn]
        exact hs
      · rw [hn]
  | false =>
      have hu : u.n.weCalled = true := (buildSkProcMap_weCalled hu).trans hs
      refine connectionsDump_invariant (P := fun v => v.n.weCalled = true) ?_
        (fun _ _ _ => rfl) hu hu h
      intro v m r w hv hstep
      cases hstep with
      | noMemory | unsupported => rfl
      | listed => exact hv

/-- **The flag is never cleared**, so while it is not set there has been no error. -/
theorem weCalled_step {e : Event} (hs : s.n.weCalled = true) (h : step s e = some t) :
    t.n.weCalled = true := by
  cases e with
  | body env =>
      obtain ⟨-, hbody⟩ := step_body h
      have hstart : (frameStart s env).n.weCalled = true := hs
      cases hbody with
      | idle => exact hs
      | failed u _ hu =>
          have hset : u.n.weCalled = true := collect_flag hstart hu
          exact hset
      | drawn u ret v _ hu _ hv =>
          have hset : u.n.weCalled = true := collect_flag hstart hu
          rcases freeSkProcMap_reported hv with hn | ⟨-, hn⟩
          · exact (congrArg NmCtx.weCalled hn).trans hset
          · exact congrArg NmCtx.weCalled hn
  | input i =>
      obtain ⟨-, hback, -⟩ := step_input h
      exact (congrArg Backstage.weCalled hback).trans hs
  | exit closedir =>
      obtain ⟨-, -, -, -, rfl⟩ := step_exit h
      rfl

end

/-! ## One step -/

/-- What holds as long as resizes succeed: an error ends the loop, with its status. -/
structure ErrorsSound (s : Sys) : Prop where
  clear : s.pc = .top ∨ s.pc = .wait → s.n.weCalled = false
  status : s.pc = .out → s.n.weCalled = true → s.err = true

section

variable {s t : Sys} {e : Event}

/-- The last state of a frame. -/
theorem drawn_weCalled {env : BodyEnv} {u v : Sys} {ret : Bool} (hs : OwnersSound s)
    (he : ErrorsSound s) (hpc : s.pc = .top)
    (hu : collect (frameStart s env) env = some (false, u))
    (hv : freeSkProcMap (beforeFree u) true = some (ret, v)) :
    v.n.weCalled = ret ∧ (ret = false ↔ ResizeSucceeds (beforeFree u)) := by
  obtain ⟨hpath, hsized, -⟩ := hs.frame hpc env
  have hsized : (frameStart s env).owners.Sized := hsized
  have hbefore : (beforeFree u).owners.Sized := (collect_sound hpath hsized hu).2
  have hfree : FreeStep (beforeFree u) true ret v := hbefore.freeStep hv
  refine ⟨?_, hfree.ok_iff⟩
  have hclear : (beforeFree u).n.weCalled = false :=
    (collect_weCalled hu).trans (he.clear (Or.inl hpc))
  rw [hfree.weCalled, hclear, Bool.false_or]

/-- **A step uses what it may** exactly if it does not fail to resize the table. -/
theorem safeUses_iff (hs : OwnersSound s) (he : ErrorsSound s) (h : step s e = some t) :
    SafeUses s e ↔ ResizesSucceed s e := by
  cases e with
  | body env =>
      obtain ⟨hpc, hbody⟩ := step_body h
      have hclear : s.n.weCalled = false := he.clear (Or.inl hpc)
      -- in the body only the `wrefresh` after a failed resize can meet the set flag
      constructor
      · intro hsafe hmain u hu
        cases hbody with
        | idle hother => exact absurd hmain hother
        | failed u' _ hu' =>
            rw [hu] at hu'
            cases hu'
        | drawn u' ret v _ hu' hrows hv =>
            rw [hu] at hu'
            cases hu'
            obtain ⟨hret, hok⟩ := drawn_weCalled hs he hpc hu hv
            have hunset := hsafe .window v (.refresh env u ret v hpc hmain hu hrows hv)
            exact hok.mp (hret.symm.trans hunset)
      · intro hsucc use u huse
        cases huse with
        | scan _ _ _ _ _ hu =>
            rw [scanCalls_n hu]
            exact hclear
        | dump _ t' _ ms m ms' _ _ ht' _ _ hu =>
            calc u.n.weCalled = (dumpStart t').n.weCalled := dumpAll_weCalled hu
              _ = t'.n.weCalled := rfl
              _ = (frameStart s env).n.weCalled := buildSkProcMap_weCalled ht'
              _ = false := hclear
        | draw _ _ _ _ _ hu => exact (collect_weCalled hu).trans hclear
        | refresh _ u' ret _ _ hmain hu' _ hv =>
            obtain ⟨hret, hok⟩ := drawn_weCalled hs he hpc hu' hv
            exact hret.trans (hok.mpr (hsucc hmain u' hu'))
  | input i =>
      obtain ⟨hpc, -⟩ := step_input h
      have hclear : s.n.weCalled = false := he.clear (Or.inr hpc)
      refine iff_of_true (fun use u huse => ?_) trivial
      cases huse with
      | key => exact hclear
      | handler _ _ _ _ hu =>
          have hback : u.backstage = s.backstage := (shouldStop_step hu).backstage
          exact (congrArg Backstage.weCalled hback).trans hclear
  | exit closedir =>
      refine iff_of_true (fun use u huse => ?_) trivial
      cases huse

theorem errorsSound_step (hs : OwnersSound s) (he : ErrorsSound s) (hsucc : ResizesSucceed s e)
    (h : step s e = some t) : ErrorsSound t := by
  cases e with
  | body env =>
      obtain ⟨hpc, hbody⟩ := step_body h
      cases hbody with
      | idle => exact ⟨fun _ => he.clear (Or.inl hpc), nofun⟩
      | failed =>
          refine ⟨fun hpc' => ?_, fun _ _ => rfl⟩
          rcases hpc' with hpc' | hpc' <;> cases hpc'
      | drawn u ret v hmain hu hrows hv =>
          obtain ⟨hret, hok⟩ := drawn_weCalled hs he hpc hu hv
          exact ⟨fun _ => hret.trans (hok.mpr (hsucc hmain u hu)), nofun⟩
  | input i =>
      obtain ⟨hpc, hback, -⟩ := step_input h
      have hclear : t.n.weCalled = false :=
        (congrArg Backstage.weCalled hback).trans (he.clear (Or.inr hpc))
      refine ⟨fun _ => hclear, fun _ hset => ?_⟩
      rw [hclear] at hset
      cases hset
  | exit closedir =>
      obtain ⟨-, -, -, -, rfl⟩ := step_exit h
      refine ⟨fun hpc' => ?_, nofun⟩
      rcases hpc' with hpc' | hpc' <;> cases hpc'

end

/-! ## The exit -/

section

variable {s : Sys}

theorem freeSkProcMap_fits {resize : Bool} {r : Bool × Sys} (h : freeSkProcMap s resize = some r) :
    CountFits s := by
  intro hw
  unfold freeSkProcMap at h
  rw [show extIsSet s.n.extReq INET_DIAG_PROC = true from hw] at h
  obtain ⟨i, hi, -⟩ := bind_some h
  obtain ⟨rfl, hlt⟩ := sizeLoop_some (Nat.zero_le _) hi
  exact (Nat.le_pow_clog (by decide) _).trans (Nat.pow_le_pow_right (by decide) (by omega))

theorem freeSkProcMap_isSome (hs : s.owners.Sized) (htable : s.owners.skInoHb.isSome)
    (hfits : CountFits s) (resize : Bool) : ∃ r, freeSkProcMap s resize = some r := by
  unfold freeSkProcMap
  cases hw : extIsSet s.n.extReq INET_DIAG_PROC with
  | false => exact ⟨_, rfl⟩
  | true =>
      obtain ⟨hb, hhb⟩ := Option.isSome_iff_exists.mp htable
      have hlen : hb.length = s.owners.mapHashSz := hs.length hb hhb
      have hclog : Nat.clog 2 (s.owners.nrSockets % 4294967296).toNat < 32 := by
        have hle := (Nat.clog_le_iff_le_pow (by decide)).mpr (hfits hw)
        omega
      have hsize : sizeLoop (s.owners.nrSockets % 4294967296).toNat 32 0 =
          some (Nat.clog 2 (s.owners.nrSockets % 4294967296).toNat) :=
        sizeLoop_eq (Nat.zero_le _) (by omega)
      simp only [Bool.not_true, Bool.false_eq_true, if_false, Option.bind_eq_bind, Option.bind_some,
        hsize, hhb, hlen, lt_irrefl]
      split
      · split <;> exact ⟨_, rfl⟩
      · exact ⟨_, rfl⟩

/-- **The exit** returns the status that the loop was left with, if the table can be freed. -/
theorem statusKept_iff (hs : OwnersSound s) (ht : HasTable s) (he : ErrorsSound s) :
    StatusKept s ↔ (s.pc = .out → s.n.weCalled = true → CountFits s) := by
  refine forall_congr' fun hpc => forall_congr' fun hset => ?_
  have hsized : s.owners.Sized := hs.sized (by rw [hpc]; decide)
  have htable : s.owners.skInoHb.isSome := ht (by rw [hpc]; decide)
  -- leaving has a result only where the loop over `1U << i` in `free_sk_proc_map` ends
  have hexit : ∀ {closedir t}, step s (.exit closedir) = some t →
      CountFits s ∧ t.err = true := by
    intro closedir t h
    obtain ⟨-, ret, u, hu, rfl⟩ := step_exit h
    have hfits : CountFits (exitStart s closedir) := freeSkProcMap_fits hu
    have herr : u.err = (exitStart s closedir).err := by
      have hsized' : (exitStart s closedir).owners.Sized := by
        unfold exitStart
        split <;> exact hsized
      exact (hsized'.freeStep hu).err
    have hkeep : CountFits (exitStart s closedir) = CountFits s ∧
        (exitStart s closedir).err = s.err := by
      unfold exitStart
      split <;> exact ⟨rfl, rfl⟩
    rw [hkeep.1] at hfits
    exact ⟨hfits, (herr.trans hkeep.2).trans (he.status hpc hset)⟩
  constructor
  · intro h
    obtain ⟨t, hstep, -⟩ := h true
    exact (hexit hstep).1
  · intro hfits closedir
    have hfree : ∃ r, freeSkProcMap (exitStart s closedir) false = some r := by
      unfold exitStart
      split
      · exact freeSkProcMap_isSome hsized htable hfits false
      · exact freeSkProcMap_isSome (s := s.nmPerror "pric: closedir") hsized htable hfits false
    obtain ⟨⟨ret, u⟩, hu⟩ := hfree
    have hproc : procExit s closedir =
        some { u with owners := { u.owners with skInoHb := none } } := by
      unfold exitStart at hu
      simp [procExit, hu]
    obtain ⟨t, hstep⟩ : ∃ t, step s (.exit closedir) = some t :=
      ⟨_, by rw [step, if_pos hpc, mainExit, hproc]; rfl⟩
    exact ⟨t, hstep, (hexit hstep).2⟩

end

/-! ## Runs -/

theorem errorsSound_start (b : Start) : ErrorsSound b.state := by
  obtain ⟨path, len, allocs, heq⟩ := b.state_eq
  have hn : b.state.n = nmCtxInit b.size := congrArg Sys.n heq
  refine ⟨fun _ => ?_, fun hpc => ?_⟩
  · rw [hn]
    rfl
  · rw [b.pc] at hpc
    cases hpc

/-- **In a run** nothing is used after an error, and the status tells of it, exactly if no resize
fails and what is left at the exit can be freed. -/
theorem errorsStop_iff (b : Start) (es : List Event) :
    (Meets step SafeUses es b.state ∧ Always step StatusKept es b.state) ↔
      (Meets step ResizesSucceed es b.state ∧
        Always step (fun s => s.pc = .out → s.n.weCalled = true → CountFits s) es b.state) := by
  have hstart : OwnersSound b.state ∧ ErrorsSound b.state :=
    ⟨ownersSound_start b, errorsSound_start b⟩
  have hmeets : Meets step SafeUses es b.state ↔ Meets step ResizesSucceed es b.state := by
    refine meets_congr (J := fun s => OwnersSound s ∧ ErrorsSound s) ?_ ?_ hstart
    · exact fun s e t hs hg h => ⟨ownersSound_step hs.1 h, errorsSound_step hs.1 hs.2 hg h⟩
    · exact fun s e t hs h => safeUses_iff hs.1 hs.2 h
  rw [hmeets]
  refine and_congr_right fun hsucc => ?_
  have hinv : Always step (fun s => OwnersSound s ∧ HasTable s ∧ ErrorsSound s) es b.state := by
    refine always_of_meets (fun s e t hs hg h => ?_)
      ⟨hstart.1, hasTable_start b, hstart.2⟩ hsucc
    exact ⟨ownersSound_step hs.1 h, hasTable_step hs.1 hs.2.1 hg h,
      errorsSound_step hs.1 hs.2.2 hg h⟩
  exact always_congr_of_always (fun s hs => statusKept_iff hs.1 hs.2.1 hs.2.2) hinv

/-! ## A resize that fails -/

/-- After a resize has failed, the keys that hide the process column and quit. -/
def Event.hideAndQuit : List Event :=
  Event.press (key 'f') [] :: ([key ' ', key 'q', key 'q'] : List Key).flatMap
    fun ch => [.quiet, .press ch []]

/-- In such a run a key is read from a window that is deleted, and `main` returns 0. -/
theorem failed_resize_goes_on :
    ¬ Meets step SafeUses (Event.showPid ++ Event.noMemory) Start.quiet.state ∧
      ¬ Always step StatusKept (Event.showPid ++ [.body (.bare [false])] ++ Event.hideAndQuit)
        Start.quiet.state := by
  constructor
  · intro h
    have hrun : (exec step (Event.showPid ++ [.body (.bare [false])]) Start.quiet.state).map
        (fun s => (s.pc, s.n.weCalled, (step s (.press ERR [])).isSome)) =
          some (.wait, true, true) := by decide +kernel
    obtain ⟨s, hs, hobs⟩ := Option.map_eq_some_iff.mp hrun
    simp only [Prod.mk.injEq] at hobs
    obtain ⟨hpc, hset, hstep⟩ := hobs
    obtain ⟨t, ht⟩ := Option.isSome_iff_exists.mp hstep
    rw [show Event.showPid ++ Event.noMemory =
      (Event.showPid ++ [.body (.bare [false])]) ++ .press ERR [] :: [] from rfl] at h
    have hsafe : SafeUses s (.press ERR []) := meets_reached h hs ht
    have hunset := hsafe .key s (.key _ hpc)
    rw [hset] at hunset
    cases hunset
  · exact not_always_of_exec
      (f := fun s => (s.pc, s.n.weCalled, (step s (.exit true)).map Sys.err))
      (a := (.out, true, some false)) (by decide +kernel) fun s hs h => by
        simp only [Prod.mk.injEq] at hs
        obtain ⟨hpc, hset, hexit⟩ := hs
        obtain ⟨t, ht, herr⟩ := h hpc hset true
        rw [ht, Option.map_some, herr] at hexit
        cases hexit

end Sockmon

import Sockmon.Run.Conns
import Sockmon.Run.Errors

set_option autoImplicit false

/-! # Leaving the program

From every state in which the loop of `main` can be, with whatever is shown, picked up or typed
before, the key q leads out: at most twice, with a frame in between (`quit_possible`). The program
then returns 0 and prints nothing.
-/

namespace Sockmon

open Transition

/-! ## The loop -/

/-- What the loop keeps of its condition and of the status. -/
structure LoopSound (s : Sys) : Prop where
  going : s.pc = .top ∨ s.pc = .wait → s.n.shouldStop = false
  status : s.pc = .wait → s.err = false
  /-- Only the first frame starts with the status that `main` sets before the loop. -/
  first : s.pc = .top → s.n.curScreen = .main ∨ s.err = false

theorem loopSound_start (b : Start) : LoopSound b.state := by
  have hpc : b.state.pc = .top := b.pc
  have hstop : b.state.n.shouldStop = false := congrArg Ui.shouldStop b.ui
  have hscreen : b.state.n.curScreen = .main := congrArg Ui.curScreen b.ui
  refine ⟨fun _ => hstop, fun h => ?_, fun _ => Or.inl hscreen⟩
  rw [hpc] at h
  cases h

theorem loopSound_step {s t : Sys} {e : Event} (hs : LoopSound s) (h : step s e = some t) :
    LoopSound t := by
  cases e with
  | body env =>
      obtain ⟨hpc, hbody⟩ := step_body h
      have hstop : s.n.shouldStop = false := hs.going (Or.inl hpc)
      cases hbody with
      | idle hc => exact ⟨fun _ => hstop, fun _ => (hs.first hpc).resolve_left hc, nofun⟩
      | failed =>
          refine ⟨fun h => ?_, nofun, nofun⟩
          rcases h with h | h <;> cases h
      | drawn u ret v hc hu hrows hv =>
          have hui : v.ui = (beforeFree u).ui := freeSkProcMap_ui hv
          have hstop' : v.n.shouldStop = false := by
            calc v.n.shouldStop = u.n.shouldStop := congrArg Ui.shouldStop hui
              _ = s.n.shouldStop := congrArg Ui.shouldStop ((collect_ui hu).trans rfl)
              _ = false := hstop
          exact ⟨fun _ => hstop', fun _ => rfl, nofun⟩
  | input i =>
      obtain ⟨hpc, hback, hout⟩ := step_input h
      have herr : t.err = false := (congrArg Backstage.err hback).trans (hs.status hpc)
      refine ⟨fun hgo => ?_, fun _ => herr, fun _ => Or.inr herr⟩
      rw [hout] at hgo
      by_contra hstop
      rw [if_pos (by simpa using hstop)] at hgo
      rcases hgo with hgo | hgo <;> cases hgo
  | exit closedir =>
      obtain ⟨-, ret, u, -, rfl⟩ := step_exit h
      refine ⟨fun h => ?_, nofun, nofun⟩
      rcases h with h | h <;> cases h

/-- What leaving relies on. -/
structure CanLeave (s : Sys) : Prop where
  owners : OwnersSound s
  table : HasTable s
  conns : ConnsSound s
  loop : LoopSound s

theorem canLeave_step {s t : Sys} {e : Event} (hs : CanLeave s) (hsucc : ResizesSucceed s e)
    (h : step s e = some t) : CanLeave t where
  owners := ownersSound_step hs.owners h
  table := hasTable_step hs.owners hs.table hsucc h
  conns := connsSound_step hs.conns h
  loop := loopSound_step hs.loop h

/-! ## A frame in which there is nothing -/

section

variable {s : Sys}

/-- Without processes and connections. -/
theorem collect_bare (s : Sys) : collect (frameStart s (.bare [])) (.bare []) =
    some (false, dumpStart (frameStart s (.bare []))) := by
  have hdump : ∀ u : Sys, connectionsDump u (BodyEnv.bare []).dump = some (false, dumpStart u) := by
    intro u
    have hwalk : recvWalk (BodyEnv.bare []).dump.recvs = ([], .done) := recvWalk_many 0
    have hsend : (BodyEnv.bare []).dump.sendmsg (buildRequest u.n) = true := rfl
    rw [connectionsDump_eq, if_pos hsend, DumpEnv.msgs, hwalk]
    rfl
  unfold collect buildSkProcMap
  cases extIsSet (frameStart s (.bare [])).n.extReq INET_DIAG_PROC with
  | false => exact hdump _
  | true => exact hdump _

/-- If the table is replaced, there is memory for the new one. -/
theorem resizesSucceed_bare (s : Sys) : ResizesSucceed s (.body (.bare [])) := by
  intro hmain u hu
  rw [collect_bare] at hu
  cases hu
  exact fun _ _ => rfl

/-- Without connections drawing comes down to freeing the table. -/
theorem drawConnections_empty {t : Sys} {stk : ConnInfo → FieldInfo → Ptr} {ret : Bool}
    (hl : s.n.connList = []) (h : freeSkProcMap (beforeFree s) true = some (ret, t)) :
    ∃ frame, drawConnections s stk = some (frame, t) := by
  unfold drawConnections
  unfold beforeFree at h
  dsimp only
  rw [hl] at h ⊢
  rw [h]
  exact ⟨_, rfl⟩

/-- The frame is drawn on the main screen. -/
theorem bare_drawn (hs : CanLeave s) (hpc : s.pc = .top) (hmain : s.n.curScreen = .main) :
    ∃ t, step s (.body (.bare [])) = some t ∧ t.pc = .wait ∧ t.n.curScreen = s.n.curScreen ∧
      t.stderr = s.stderr := by
  obtain ⟨-, hsized, hempty⟩ := hs.owners.frame hpc (.bare [])
  have hl : s.n.connList = [] := hs.conns.empty (by rw [hpc]; decide)
  have htable : s.owners.skInoHb.isSome := hs.table (by rw [hpc]; decide)
  let u := dumpStart (frameStart s (.bare []))
  have hsized' : (beforeFree u).owners.Sized := hsized
  have hfits : CountFits (beforeFree u) := by
    intro _
    show (s.owners.nrSockets % 4294967296).toNat ≤ 2 ^ 31
    rw [hempty.nrSockets]
    decide
  obtain ⟨⟨ret, v⟩, hv⟩ := freeSkProcMap_isSome hsized' htable hfits true
  have hui : v.ui = (beforeFree u).ui := freeSkProcMap_ui hv
  have herr : v.stderr = s.stderr := by
    cases hsized'.freeStep hv with
    | off | kept | resized => rfl
    | failed _ _ _ halloc => cases halloc
  have hdraw : ∃ frame, drawConnections u (BodyEnv.bare []).stk = some (frame, v) :=
    drawConnections_empty hl hv
  obtain ⟨frame, hframe⟩ := hdraw
  refine ⟨{ v with err := false, pc := .wait }, ?_, rfl, congrArg Ui.curScreen hui, herr⟩
  have hcollect := collect_bare s
  unfold frameStart at hcollect
  rw [step, if_pos hpc, mainBody, if_neg (by simp [hmain]), hcollect]
  show (drawConnections u _).bind _ = _
  rw [hframe]
  rfl

/-- **The frame** leaves the program where it waits for a key. -/
theorem bare_step (hs : CanLeave s) (hpc : s.pc = .top) :
    ∃ t, step s (.body (.bare [])) = some t ∧ t.pc = .wait ∧ t.n.curScreen = s.n.curScreen ∧
      t.stderr = s.stderr ∧ CanLeave t := by
  obtain ⟨t, ht, hwait, hscreen, herr⟩ : ∃ t, step s (.body (.bare [])) = some t ∧
      t.pc = .wait ∧ t.n.curScreen = s.n.curScreen ∧ t.stderr = s.stderr := by
    by_cases hmain : s.n.curScreen = .main
    · exact bare_drawn hs hpc hmain
    · refine ⟨{ s with pc := .wait }, ?_, rfl, rfl, rfl⟩
      rw [step, if_pos hpc, mainBody, if_pos hmain]
  exact ⟨t, ht, hwait, hscreen, herr, canLeave_step hs (resizesSucceed_bare s) ht⟩

/-! ## The key -/

/-- The loop was left without an error, and without an entry in the table. -/
structure LeftEmpty (s : Sys) : Prop where
  out : s.pc = .out
  status : s.err = false
  owners : s.owners.Empty

/-- **The key q**: on the main screen it ends the loop, on the others it leads to the main
screen. -/
theorem quit_step (hs : CanLeave s) (hpc : s.pc = .wait) :
    ∃ t, step s (.press (key 'q') []) = some t ∧ t.stderr = s.stderr ∧ CanLeave t ∧
      if s.n.curScreen = .main then LeftEmpty t else t.pc = .top ∧ t.n.curScreen = .main := by
  have hgoing : s.n.shouldStop = false := hs.loop.going (Or.inr hpc)
  have hleave : ∀ t, step s (.press (key 'q') []) = some t → CanLeave t :=
    fun t ht => canLeave_step hs (show ResizesSucceed s (.press (key 'q') []) from trivial) ht
  -- whatever the handler does, `should_stop` looks at its flag afterwards
  have hstep : ∀ u, dispatch (key 'q') { s with allocs := [] } [] = some (u, []) →
      step s (.press (key 'q') []) =
        some { u with pc := if u.n.shouldStop then .out else .top } := by
    intro u hu
    have hstop : shouldStop s ⟨key 'q', [], [], termSize 24 (by decide)⟩ = some u := by
      unfold shouldStop
      rw [if_neg (by decide), if_neg (by decide)]
      dsimp only
      rw [hu]
    rw [Event.press, step, if_pos hpc, hstop]
    rfl
  -- 'q' is bound on all three screens, and only the main one sets `should_stop`
  cases hscreen : s.n.curScreen with
  | main =>
      have ht := hstep (mainQuitHandler { s with allocs := [] }) (by
        unfold dispatch
        rw [hscreen]
        rfl)
      exact ⟨_, ht, rfl, hleave _ ht, rfl, hs.loop.status hpc, hs.owners.empty (Or.inr hpc)⟩
  | field =>
      have ht := hstep (fieldQuitHandler { s with allocs := [] }) (by
        unfold dispatch
        rw [hscreen]
        rfl)
      refine ⟨_, ht, rfl, hleave _ ht, ?_, rfl⟩
      show (if s.n.shouldStop then Pc.out else Pc.top) = .top
      rw [hgoing]
      rfl
  | help =>
      have ht := hstep (helpQuitHandler { s with allocs := [] }) (by
        unfold dispatch
        rw [hscreen]
        rfl)
      refine ⟨_, ht, rfl, hleave _ ht, ?_, rfl⟩
      show (if s.n.shouldStop then Pc.out else Pc.top) = .top
      rw [hgoing]
      rfl

/-- **The exit** returns 0. -/
theorem exit_step (hs : CanLeave s) (hl : LeftEmpty s) :
    ∃ t, step s (.exit true) = some t ∧ t.pc = .done ∧ t.err = false ∧ t.stderr = s.stderr := by
  have hsized : s.owners.Sized := hs.owners.sized (by rw [hl.out]; decide)
  have htable : s.owners.skInoHb.isSome := hs.table (by rw [hl.out]; decide)
  have hfits : CountFits s := by
    intro _
    rw [hl.owners.nrSockets]
    decide
  obtain ⟨⟨ret, u⟩, hu⟩ := freeSkProcMap_isSome hsized htable hfits false
  have hkept : u.err = s.err ∧ u.stderr = s.stderr := by
    cases hsized.freeStep hu with
    | off | kept => exact ⟨rfl, rfl⟩
    | resized _ hresize | failed _ hresize => cases hresize
  have hproc : procExit s true =
      some { u with owners := { u.owners with skInoHb := none } } := by
    unfold procExit
    dsimp only
    rw [if_pos rfl, hu]
    rfl
  have ht : step s (.exit true) =
      some { nmCtxExit { u with owners := { u.owners with skInoHb := none } }.windowExit with
        pc := .done } := by
    rw [step, if_pos hl.out, mainExit, hproc]
    rfl
  exact ⟨_, ht, rfl, hkept.1.trans hl.status, hkept.2⟩

end

/-! ## Leaving -/

/-- A run that ends `main` with status 0, and prints nothing. -/
def Leaves (s : Sys) (es : List Event) : Prop :=
  ∃ t, exec step es s = some t ∧ t.pc = .done ∧ t.err = false ∧ t.stderr = s.stderr

theorem leaves_cons {s t : Sys} {e : Event} {es : List Event} (h : step s e = some t)
    (herr : t.stderr = s.stderr) (ht : Leaves t es) : Leaves s (e :: es) := by
  obtain ⟨u, hu, hdone, hstatus, hprinted⟩ := ht
  exact ⟨u, exec_cons.mpr ⟨t, h, hu⟩, hdone, hstatus, hprinted.trans herr⟩

/-- The key on the main screen. -/
theorem leaves_main {s : Sys} (hs : CanLeave s) (hpc : s.pc = .wait)
    (hmain : s.n.curScreen = .main) : Leaves s [.press (key 'q') [], .exit true] := by
  obtain ⟨t, ht, herr, hleave, hout⟩ := quit_step hs hpc
  rw [if_pos hmain] at hout
  obtain ⟨u, hu, hdone, hstatus, hprinted⟩ := exit_step hleave hout
  exact leaves_cons ht herr (leaves_cons hu hprinted ⟨u, rfl, hdone, hstatus, rfl⟩)

/-- The key on any screen. -/
theorem leaves_wait {s : Sys} (hs : CanLeave s) (hpc : s.pc = .wait) :
    ∃ es, es.length ≤ 4 ∧ Leaves s es := by
  by_cases hmain : s.n.curScreen = .main
  · exact ⟨_, by decide, leaves_main hs hpc hmain⟩
  · obtain ⟨t, ht, herr, hleave, hout⟩ := quit_step hs hpc
    rw [if_neg hmain] at hout
    obtain ⟨u, hu, hwait, hscreen, herr', hleave'⟩ := bare_step hleave hout.1
    have hend := leaves_main hleave' hwait (hscreen.trans hout.2)
    exact ⟨_, by decide, leaves_cons ht herr (leaves_cons hu herr' hend)⟩

/-- From anywhere in the loop. -/
theorem CanLeave.leaves {s : Sys} (hs : CanLeave s) (hpc : s.pc = .top ∨ s.pc = .wait) :
    ∃ es, es.length ≤ 5 ∧ Leaves s es := by
  rcases hpc with hpc | hpc
  · obtain ⟨t, ht, hwait, -, herr, hleave⟩ := bare_step hs hpc
    obtain ⟨es, hlen, hend⟩ := leaves_wait hleave hwait
    refine ⟨_, ?_, leaves_cons ht herr hend⟩
    rw [List.length_cons]
    omega
  · obtain ⟨es, hlen, hend⟩ := leaves_wait hs hpc
    exact ⟨es, by omega, hend⟩

/-- **Leaving is possible throughout**: from every state of the loop of a run in which no resize
fails, at most five steps lead out of the program, with status 0 and nothing printed. -/
theorem quit_possible (b : Start) (es : List Event) (hsucc : Meets step ResizesSucceed es b.state) :
    Always step (fun s => s.pc = .top ∨ s.pc = .wait → ∃ es', es'.length ≤ 5 ∧ Leaves s es')
      es b.state := by
  have hstart : CanLeave b.state :=
    ⟨ownersSound_start b, hasTable_start b, connsSound_start b, loopSound_start b⟩
  have hinv : Always step CanLeave es b.state :=
    always_of_meets (fun s e t hs hg h => canLeave_step hs hg h) hstart hsucc
  exact always_mono (fun s hs => hs.leaves) hinv

/-- The field screen is opened in the first frame, and a field is picked up. -/
theorem quit_possible_picked : Always step
    (fun s => s.pc = .top ∨ s.pc = .wait → ∃ es', es'.length ≤ 5 ∧ Leaves s es')
    [.quiet, .press (key 'f') [], .quiet, .press KEY_DOWN [], .quiet, .press KEY_RIGHT []]
    Start.quiet.state :=
  quit_possible Start.quiet _
    fun _ _ => ⟨resizesSucceed_bare _, fun _ _ => ⟨trivial, fun _ _ =>
      ⟨resizesSucceed_bare _, fun _ _ => ⟨trivial, fun _ _ =>
        ⟨resizesSucceed_bare _, fun _ _ => ⟨trivial, trivial⟩⟩⟩⟩⟩⟩

end Sockmon

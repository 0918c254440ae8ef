import Sockmon.Program.Calls
import Sockmon.Run.Errors

set_option autoImplicit false

/-! # What the program opens it closes

However the initialisation, the scans, the dumps and the exit go, the program closes every
window, directory, file and socket that it has opened, once, and never opens one over another
(`main_closes`). What is open at any time follows from the state: the windows are, unless an
error was reported, and the functions leave everything else as they found it.
-/

namespace Sockmon

open Ledger Transition

/-! ## Windows -/

/-- The windows and the screen, until `window_exit` was called. -/
def openWindows (win : List Window) (s : Sys) : Finset Resource :=
  if s.n.weCalled then ∅ else (win.map Resource.window).toFinset ∪ {.screen}

/-- What `window_exit` closes. -/
def Resource.onScreen : Resource → Bool
  | .screen | .window _ => true
  | _ => false

section

variable {win : List Window} {s t u : Sys} {F : Finset Resource}

theorem openWindows_onScreen {r : Resource} (hr : r ∈ openWindows win s) : r.onScreen = true := by
  unfold openWindows at hr
  split_ifs at hr
  · cases hr
  · simp only [Finset.mem_union, List.mem_toFinset, List.mem_map, Finset.mem_singleton] at hr
    rcases hr with ⟨w, -, rfl⟩ | rfl
    · rfl
    · rfl

theorem notMem_openWindows {r : Resource} (hr : r.onScreen = false) : r ∉ openWindows win s := by
  intro hmem
  rw [openWindows_onScreen hmem] at hr
  cases hr

theorem errorCalls_onScreen {c : Call Resource} (hc : c ∈ errorCalls win s t) :
    c.resource.onScreen = true := by
  unfold errorCalls windowExitCalls at hc
  split_ifs at hc
  · cases hc
  · simp only [List.mem_append, List.mem_map, List.mem_singleton] at hc
    rcases hc with ⟨w, -, rfl⟩ | rfl
    · rfl
    · rfl
  · cases hc

/-- The windows are closed one after the other. -/
theorem brings_delwin (hwin : win.Nodup) : Brings (win.map fun w => .release (.window w))
    ((win.map Resource.window).toFinset ∪ {.screen}) {.screen} := by
  induction win with
  | nil => exact Brings.nil _
  | cons w win ih =>
      obtain ⟨hw, hwin⟩ := List.nodup_cons.mp hwin
      have hnot : Resource.window w ∉ (win.map Resource.window).toFinset ∪ {.screen} := by
        simpa using hw
      rw [List.map_cons, List.map_cons, List.toFinset_cons, Finset.insert_union]
      refine Brings.release (Finset.mem_insert_self _ _) ?_
      rw [Finset.erase_insert hnot]
      exact ih hwin

theorem brings_windowExit (hwin : win.Nodup) :
    Brings (windowExitCalls win s) (openWindows win s) ∅ := by
  unfold windowExitCalls openWindows
  split_ifs
  · exact Brings.nil _
  · refine (brings_delwin hwin).append (Brings.release (Finset.mem_singleton_self _) ?_)
    rw [Finset.erase_singleton]
    exact Brings.nil _

/-- **An error** closes the windows, unless one before it did. -/
theorem brings_error (hwin : win.Nodup) (hflag : s.n.weCalled = true → t.n.weCalled = true) :
    Brings (errorCalls win s t) (openWindows win s) (openWindows win t) := by
  unfold errorCalls
  by_cases ht : t.n.weCalled = true
  · have hclosed : openWindows win t = ∅ := if_pos ht
    rw [if_pos ht, hclosed]
    exact brings_windowExit hwin
  · have hs : ¬ s.n.weCalled = true := fun hs => ht (hflag hs)
    have hsame : openWindows win t = openWindows win s := by
      unfold openWindows
      rw [if_neg ht, if_neg hs]
    rw [if_neg ht, hsame]
    exact Brings.nil _

/-- Whatever else is open. -/
theorem brings_error_frame (hwin : win.Nodup)
    (hflag : s.n.weCalled = true → t.n.weCalled = true) (hF : ∀ r ∈ F, r.onScreen = false) :
    Brings (errorCalls win s t) (openWindows win s ∪ F) (openWindows win t ∪ F) := by
  refine (brings_error hwin hflag).frame fun c hc hmem => ?_
  have hon := errorCalls_onScreen hc
  rw [hF _ hmem] at hon
  cases hon

theorem openWindows_congr (h : t.n.weCalled = s.n.weCalled) :
    openWindows win t = openWindows win s := by
  unfold openWindows
  rw [h]

/-! ## The scan -/

theorem brings_getComm (file : Option (Option (List UInt8))) (A : Finset Resource)
    (hA : .comm ∉ A) : Brings (getCommCalls file) A A := by
  cases file with
  | none => exact Brings.nil A
  | some content =>
      refine Brings.acquire hA (Brings.release (Finset.mem_insert_self _ _) ?_)
      rw [Finset.erase_insert hA]
      exact Brings.nil A

theorem getCommCalls_comm {file : Option (Option (List UInt8))} {c : Call Resource}
    (hc : c ∈ getCommCalls file) : c.resource = .comm := by
  cases file with
  | none => cases hc
  | some content =>
      simp only [getCommCalls, List.mem_cons, List.not_mem_nil, or_false] at hc
      rcases hc with rfl | rfl
      · rfl
      · rfl

/-- A function that reports its failures only sets the flag. -/
theorem Reported.flag {ret : Bool} (h : Reported ret s t) (hs : s.n.weCalled = true) :
    t.n.weCalled = true := by
  rcases h with h | ⟨-, h⟩
  · rw [h]
    exact hs
  · rw [h]

/-- What is open in the loop of `main`, besides what a scan opens. -/
def openInLoop (win : List Window) (s : Sys) : Finset Resource :=
  openWindows win s ∪ {.dpProc, .sk}

theorem brings_error_loop (hwin : win.Nodup) (hflag : s.n.weCalled = true → t.n.weCalled = true) :
    Brings (errorCalls win s t) (openInLoop win s) (openInLoop win t) :=
  brings_error_frame hwin hflag (by simp [Resource.onScreen])

theorem notMem_openInLoop {r : Resource} (hr : r = .dpPid ∨ r = .comm) :
    r ∉ openInLoop win s := by
  unfold openInLoop
  rw [Finset.mem_union, not_or]
  rcases hr with rfl | rfl
  · exact ⟨notMem_openWindows rfl, by decide⟩
  · exact ⟨notMem_openWindows rfl, by decide⟩

/-- **The scan** closes every directory and file it opens, also if it fails. -/
theorem brings_procLoop (hwin : win.Nodup) {fs : ProcFs} {ents : List (Option ProcEnt)}
    {ret : Bool} (h : procLoop fs ents s = some (ret, t)) :
    Brings (procLoopCalls win fs ents s) (openInLoop win s) (openInLoop win t) := by
  induction ents generalizing s with
  | nil =>
      cases h
      exact Brings.nil _
  | cons d ents ih =>
      cases d with
      | none => exact ih h
      | some d =>
          rw [procLoop] at h
          obtain ⟨⟨visit, path⟩, hvisit, h⟩ := bind_some h
          have hpid : .dpPid ∉ openInLoop win s := notMem_openInLoop (Or.inl rfl)
          have hcomm : .comm ∉ openInLoop win s := notMem_openInLoop (Or.inr rfl)
          unfold procLoopCalls
          rw [hvisit]
          cases visit with
          | skip => exact ih h
          | fail =>
              cases h
              refine Brings.bracket hpid (fun c hc => ?_) (brings_getComm _ _ hcomm) hpid
              rw [getCommCalls_comm hc]
              decide
          | links pid comm fds =>
              obtain ⟨⟨r, u⟩, hu, h⟩ := bind_some h
              have hflag : s.n.weCalled = true → u.n.weCalled = true :=
                (skInoMakeMap_reported hu).flag
              dsimp only
              rw [hu]
              -- The directory is open while its links are read.
              refine Brings.append (Brings.bracket hpid (fun c hc => ?_)
                ((brings_getComm _ _ hcomm).append (brings_error_loop hwin hflag))
                (notMem_openInLoop (Or.inl rfl))) ?_
              · rcases List.mem_append.mp hc with hc | hc
                · rw [getCommCalls_comm hc]
                  decide
                · intro hr
                  have hon := errorCalls_onScreen hc
                  rw [hr] at hon
                  cases hon
              · cases r with
                | true =>
                    cases h
                    exact Brings.nil _
                | false => exact ih h

theorem brings_buildSkProcMap (hwin : win.Nodup) {fs : ProcFs} {ret : Bool}
    (h : buildSkProcMap s fs = some (ret, t)) :
    Brings (buildSkProcMapCalls win fs s) (openInLoop win s) (openInLoop win t) := by
  unfold buildSkProcMap at h
  unfold buildSkProcMapCalls
  cases hreq : extIsSet s.n.extReq INET_DIAG_PROC with
  | false =>
      rw [hreq] at h
      cases h
      exact Brings.nil _
  | true =>
      rw [hreq] at h
      obtain ⟨⟨r, u⟩, hu, h⟩ := bind_some h
      have hloop := brings_procLoop hwin hu
      cases r with
      | true =>
          cases h
          exact hloop
      | false =>
          cases h
          exact hloop

/-! ## The loop -/

/-- A dump keeps the flag that the scan before it has left. -/
theorem scanned_flag {env : BodyEnv} {ret r : Bool} (hu : buildSkProcMap s env.fs = some (r, u))
    (h : collect s env = some (ret, t)) (hflag : u.n.weCalled = true) : t.n.weCalled = true := by
  unfold collect at h
  rw [hu] at h
  cases r with
  | true =>
      cases h
      exact hflag
  | false =>
      refine connectionsDump_invariant (P := fun v => v.n.weCalled = true) ?_
        (fun _ _ _ => rfl) hflag hflag h
      intro v m r w hv hstep
      cases hstep with
      | noMemory | unsupported => rfl
      | listed => exact hv

/-- A frame keeps the flag that its scan has left, in the dump and in the drawing. -/
theorem scanned_body_flag {env : BodyEnv} {r : Bool} (hmain : s.n.curScreen = .main)
    (hu : buildSkProcMap (frameStart s env) env.fs = some (r, u))
    (h : step s (.body env) = some t) (hflag : u.n.weCalled = true) : t.n.weCalled = true := by
  obtain ⟨-, hbody⟩ := step_body h
  cases hbody with
  | idle hne => exact absurd hmain hne
  | failed v _ hv =>
      have hset : v.n.weCalled = true := scanned_flag hu hv hflag
      exact hset
  | drawn v ret w _ hv _ hw =>
      have hset : v.n.weCalled = true := scanned_flag hu hv hflag
      have hbefore : (beforeFree v).n.weCalled = true := hset
      exact (freeSkProcMap_reported hw).flag hbefore

/-- **An event** leaves open what it found open, but for the windows. -/
theorem brings_step (hwin : win.Nodup) {e : Event} (h : step s e = some t) :
    Brings (stepCalls win s e t) (openInLoop win s) (openInLoop win t) := by
  cases e with
  | body env =>
      by_cases hmain : s.n.curScreen = .main
      · unfold stepCalls
        dsimp only
        rw [if_neg (by simp [hmain])]
        cases hu : buildSkProcMap { s with allocs := env.allocs } env.fs with
        | none =>
            obtain ⟨-, hbody⟩ := step_body h
            have hnone : collect (frameStart s env) env = none := by
              unfold collect frameStart
              rw [hu]
              rfl
            cases hbody with
            | idle hne => exact absurd hmain hne
            | failed v _ hv =>
                rw [hnone] at hv
                cases hv
            | drawn v ret w _ hv =>
                rw [hnone] at hv
                cases hv
        | some r =>
            obtain ⟨r, u⟩ := r
            exact (brings_buildSkProcMap hwin hu).append
              (brings_error_loop hwin (scanned_body_flag hmain hu h))
      · obtain ⟨-, hbody⟩ := step_body h
        unfold stepCalls
        dsimp only
        rw [if_pos hmain]
        cases hbody with
        | idle => exact Brings.nil _
        | failed _ hc => exact absurd hc hmain
        | drawn _ _ _ hc => exact absurd hc hmain
  | input i => exact brings_error_loop hwin fun hs => weCalled_step hs h
  | exit closedir => exact brings_error_loop hwin fun hs => weCalled_step hs h

/-- **The loop**, by induction over its events. -/
theorem brings_loop (hwin : win.Nodup) {es : List Event} (h : exec step es s = some t) :
    Brings (loopCalls win es s) (openInLoop win s) (openInLoop win t) := by
  induction es generalizing s with
  | nil =>
      cases h
      exact Brings.nil _
  | cons e es ih =>
      obtain ⟨u, hu, h⟩ := exec_cons.mp h
      unfold loopCalls
      rw [hu]
      exact (brings_step hwin hu).append (ih h)

/-! ## The initialisation -/

theorem windowInit_nodup (newwin : Window → Bool) : (windowInit newwin).2.Nodup := by
  have hall : [Window.main, .summary, .interactive, .connInfo, .filter].Nodup := by decide
  refine hall.sublist ?_
  exact List.Sublist.cons_cons _ List.filter_sublist

theorem brings_newwin {ws : List Window} (hws : ws.Nodup) {A : Finset Resource}
    (hA : ∀ w ∈ ws, Resource.window w ∉ A) :
    Brings (ws.map fun w => Call.acquire (Resource.window w)) A
      ((ws.map Resource.window).toFinset ∪ A) := by
  induction ws generalizing A with
  | nil =>
      rw [List.map_nil, List.map_nil, List.toFinset_nil, Finset.empty_union]
      exact Brings.nil A
  | cons w ws ih =>
      obtain ⟨hw, hws⟩ := List.nodup_cons.mp hws
      obtain ⟨hwA, hA⟩ := List.forall_mem_cons.mp hA
      have hA' : ∀ v ∈ ws, Resource.window v ∉ insert (Resource.window w) A := by
        intro v hv hmem
        rcases Finset.mem_insert.mp hmem with he | hmem
        · cases he
          exact hw hv
        · exact hA v hv hmem
      refine Brings.acquire hwA ?_
      have hrest := ih hws hA'
      rwa [Finset.union_insert, ← Finset.insert_union, ← List.toFinset_cons] at hrest

theorem brings_windowInit (hwin : win.Nodup) (hs : s.n.weCalled = false) :
    Brings (windowInitCalls win) ∅ (openWindows win s) := by
  have hopen : openWindows win s = (win.map Resource.window).toFinset ∪ {.screen} := by
    unfold openWindows
    rw [hs, if_neg Bool.false_ne_true]
  rw [hopen]
  exact Brings.acquire (Finset.notMem_empty _) (brings_newwin hwin (by simp))

theorem getProcMountPath_flag {env : ProcInitEnv} (hs : s.n.weCalled = true) :
    (getProcMountPath s env).2.n.weCalled = true := by
  unfold getProcMountPath
  split
  · rfl
  · split
    · rfl
    · dsimp only
      split_ifs
      · rfl
      · exact hs

/-- The mount table is closed again. -/
theorem brings_getProcMountPath (hwin : win.Nodup) (env : ProcInitEnv) :
    Brings (getProcMountPathCalls win s env) (openWindows win s)
      (openWindows win (getProcMountPath s env).2) := by
  have herr := brings_error (t := (getProcMountPath s env).2) hwin getProcMountPath_flag
  unfold getProcMountPathCalls
  cases env.mounts with
  | none => exact herr
  | some mounts =>
      refine Brings.bracket (notMem_openWindows rfl) (fun c hc hr => ?_) herr
        (notMem_openWindows rfl)
      have hon := errorCalls_onScreen hc
      rw [hr] at hon
      cases hon

/-- With the directory open only the allocation of the table can fail. -/
theorem procInit_opened {env : ProcInitEnv} {ret : Bool} (h : procInit s env = some (ret, t))
    (hu : getProcMountPath s env = (false, u)) (hopen : env.opendir = true) :
    t.n.weCalled = (u.n.weCalled || ret) := by
  unfold procInit at h
  rw [hu, hopen] at h
  simp only [Bool.false_eq_true, if_false, Bool.not_true] at h
  split at h
  · cases h
  · split at h
    · obtain ⟨path, -, h⟩ := bind_some h
      split at h
      · cases h
        exact (Bool.or_true _).symm
      · cases h
        exact (Bool.or_false _).symm
    · obtain ⟨path, -, h⟩ := bind_some h
      split at h
      · cases h
        exact (Bool.or_true _).symm
      · cases h
        exact (Bool.or_false _).symm

/-- Of a `proc_init` that succeeds the directory stays open. -/
theorem brings_procInit (hwin : win.Nodup) {env : ProcInitEnv} {ret : Bool}
    (h : procInit s env = some (ret, t)) : Brings (procInitCalls win s env ret t)
      (openWindows win s) (openWindows win t ∪ if ret then ∅ else {.dpProc}) := by
  have hmount : Brings (getProcMountPathCalls win s env) (openWindows win s)
      (openWindows win (getProcMountPath s env).2) := brings_getProcMountPath hwin env
  have hopened := fun u => @procInit_opened _ _ u _ _ h
  unfold procInit at h
  unfold procInitCalls
  generalize getProcMountPath s env = r at h hmount hopened ⊢
  obtain ⟨pathRet, u⟩ := r
  refine hmount.append ?_
  cases pathRet with
  | true =>
      cases h
      rw [if_pos rfl, if_pos rfl, Finset.union_empty]
      exact Brings.nil _
  | false =>
      dsimp only at h ⊢
      rw [if_neg Bool.false_ne_true] at h ⊢
      cases hopen : env.opendir with
      | false =>
          rw [hopen] at h
          cases h
          rw [Bool.not_false, if_pos rfl, if_pos rfl, Finset.union_empty]
          exact brings_error hwin fun _ => rfl
      | true =>
          have hflag : t.n.weCalled = (u.n.weCalled || ret) := hopened u rfl hopen
          have hdir : .dpProc ∉ openWindows win u := notMem_openWindows rfl
          rw [Bool.not_true, if_neg Bool.false_ne_true]
          cases ret with
          | true =>
              rw [if_pos rfl, if_pos rfl, Finset.union_empty]
              rw [Bool.or_true] at hflag
              refine Brings.bracket hdir (fun c hc hr => ?_) (brings_error hwin fun _ => hflag)
                (notMem_openWindows rfl)
              have hon := errorCalls_onScreen hc
              rw [hr] at hon
              cases hon
          | false =>
              rw [Bool.or_false] at hflag
              rw [if_neg Bool.false_ne_true, if_neg Bool.false_ne_true, openWindows_congr hflag]
              refine Brings.acquire hdir ?_
              rw [Finset.insert_eq, Finset.union_comm]
              exact Brings.nil _

theorem brings_nlInit (hwin : win.Nodup) {socket bind ret : Bool}
    (h : nlInit s socket bind = (ret, t)) :
    Brings (nlInitCalls win s socket bind) (openWindows win s ∪ {.dpProc})
      (openWindows win t ∪ {.dpProc} ∪ if ret then ∅ else {.sk}) := by
  have herr : ∀ msg, Brings (errorCalls win s (s.nmPerror msg)) (openWindows win s ∪ {.dpProc})
      (openWindows win (s.nmPerror msg) ∪ {.dpProc}) := fun msg =>
    brings_error_frame hwin (fun _ => rfl) (by simp [Resource.onScreen])
  have hsk : ∀ v, .sk ∉ openWindows win v ∪ {Resource.dpProc} := by
    intro v
    rw [Finset.mem_union, not_or]
    exact ⟨notMem_openWindows rfl, by decide⟩
  unfold nlInitCalls
  rw [h]
  unfold nlInit at h
  cases socket with
  | false =>
      cases h
      rw [Bool.not_false, if_pos rfl, if_pos rfl, Finset.union_empty]
      exact herr "socket"
  | true =>
      rw [Bool.not_true, if_neg Bool.false_ne_true] at h ⊢
      cases bind with
      | false =>
          cases h
          rw [if_neg Bool.false_ne_true, if_pos rfl, Finset.union_empty]
          refine Brings.bracket (hsk s) (fun c hc hr => ?_) (herr "bind") (hsk _)
          have hon := errorCalls_onScreen hc
          rw [hr] at hon
          cases hon
      | true =>
          cases h
          rw [if_pos rfl, if_neg Bool.false_ne_true]
          refine Brings.acquire (hsk s) ?_
          rw [Finset.insert_eq, Finset.union_comm]
          exact Brings.nil _

/-! ## The exit -/

theorem openInLoop_eq : openInLoop win s = openWindows win s ∪ {.dpProc} ∪ {.sk} := by
  unfold openInLoop
  rw [Finset.union_assoc]
  rfl

/-- `nl_exit` -/
theorem brings_nlExit (win : List Window) (s : Sys) :
    Brings [.release .sk] (openInLoop win s) (openWindows win s ∪ {.dpProc}) := by
  have hsk : .sk ∉ openWindows win s ∪ {Resource.dpProc} := by
    rw [Finset.mem_union, not_or]
    exact ⟨notMem_openWindows rfl, by decide⟩
  rw [openInLoop_eq]
  refine Brings.release (Finset.mem_union_right _ (Finset.mem_singleton_self _)) ?_
  rw [Finset.erase_union_distrib, Finset.erase_eq_of_notMem hsk, Finset.erase_singleton,
    Finset.union_empty]
  exact Brings.nil _

theorem brings_procExit (hwin : win.Nodup) {closedir : Bool} (h : procExit s closedir = some t) :
    Brings (.release .dpProc :: errorCalls win s t) (openWindows win s ∪ {.dpProc})
      (openWindows win t) := by
  have hdir : .dpProc ∉ openWindows win s := notMem_openWindows rfl
  have hflag : s.n.weCalled = true → t.n.weCalled = true := by
    intro hs
    obtain ⟨⟨ret, u⟩, hu, h⟩ := bind_some h
    cases h
    refine (freeSkProcMap_reported hu).flag ?_
    split_ifs
    · exact hs
    · rfl
  refine Brings.release (Finset.mem_union_right _ (Finset.mem_singleton_self _)) ?_
  rw [Finset.erase_union_distrib, Finset.erase_eq_of_notMem hdir, Finset.erase_singleton,
    Finset.union_empty]
  exact brings_error hwin hflag

theorem brings_mainOut (hwin : win.Nodup) {calls : List (Call Resource)}
    (h : Brings calls ∅ (openWindows win s)) : Brings (mainOut win s calls).calls ∅ ∅ :=
  h.append (brings_windowExit hwin)

theorem brings_mainOutProcExit (hwin : win.Nodup) {calls : List (Call Resource)}
    {closedir : Bool} {o : Outcome} (h : Brings calls ∅ (openWindows win s ∪ {.dpProc}))
    (ho : mainOutProcExit win s calls closedir = some o) : Brings o.calls ∅ ∅ := by
  obtain ⟨t, ht, ho⟩ := bind_some ho
  cases ho
  exact brings_mainOut hwin (h.append (brings_procExit hwin ht))

end

theorem brings_main {env : InitEnv} {es : List Event} {closedir : Bool} {o : Outcome}
    (h : main env es closedir = some o) : Brings o.calls ∅ ∅ := by
  have hwin := windowInit_nodup env.newwin
  have hstart : Brings (windowInitCalls (windowInit env.newwin).2) ∅
      (openWindows (windowInit env.newwin).2 (Sys.boot env.size env.allocs)) :=
    brings_windowInit hwin rfl
  unfold main at h
  dsimp only at h
  -- one `goto` label for each part: what is open there is what the part before it opened
  generalize windowInit env.newwin = r at h hwin hstart
  obtain ⟨err, win⟩ := r
  cases err with
  | true =>
      cases h
      exact brings_mainOut hwin hstart
  | false =>
      rw [if_neg Bool.false_ne_true] at h
      obtain ⟨⟨err, t⟩, ht, h⟩ := bind_some h
      have hproc := hstart.append (brings_procInit hwin ht)
      cases err with
      | true =>
          cases h
          rw [if_pos rfl, Finset.union_empty] at hproc
          exact brings_mainOut hwin hproc
      | false =>
          rw [if_neg Bool.false_ne_true] at hproc
          dsimp only at h
          rw [if_neg Bool.false_ne_true] at h
          cases hnl : nlInit t env.socket env.bind with
          | mk err u =>
              have hsock := hproc.append (brings_nlInit hwin hnl)
              rw [hnl] at h
              cases err with
              | true =>
                  rw [if_pos rfl, Finset.union_empty] at hsock
                  exact brings_mainOutProcExit hwin hsock h
              | false =>
                  rw [if_neg Bool.false_ne_true] at hsock
                  dsimp only at h
                  rw [if_neg Bool.false_ne_true] at h
                  obtain ⟨v, hv, h⟩ := bind_some h
                  split at h
                  · cases h
                  -- all parts are open: the loop leaves them as they are
                  · rw [← openInLoop_eq] at hsock
                    have hloop := hsock.append (brings_loop hwin hv)
                    exact brings_mainOutProcExit hwin (hloop.append (brings_nlExit win v)) h

/-! ## The loop as a run -/

theorem procInit_err {s t : Sys} {env : ProcInitEnv} {ret : Bool}
    (h : procInit s env = some (ret, t)) : t.err = s.err := by
  have hpath : (getProcMountPath s env).2.err = s.err := by
    unfold getProcMountPath
    split
    · rfl
    · split
      · rfl
      · dsimp only
        split_ifs
        · rfl
        · rfl
  unfold procInit at h
  dsimp only at h
  split at h
  · cases h
    exact hpath
  · split at h
    · cases h
      exact hpath
    · split at h
      · cases h
      · rw [← hpath]
        split at h
        · obtain ⟨path, -, h⟩ := bind_some h
          split at h
          · cases h
            rfl
          · cases h
            rfl
        · obtain ⟨path, -, h⟩ := bind_some h
          split at h
          · cases h
            rfl
          · cases h
            rfl

theorem freeSkProcMap_err {s t : Sys} {resize ret : Bool}
    (h : freeSkProcMap s resize = some (ret, t)) : t.err = s.err := by
  unfold freeSkProcMap at h
  split at h
  · cases h
    rfl
  · obtain ⟨i, -, h⟩ := bind_some h
    obtain ⟨hb, -, h⟩ := bind_some h
    dsimp only at h
    split at h
    · cases h
    · split at h
      · split at h
        · cases h
          rfl
        · cases h
          rfl
      · cases h
        rfl

theorem procExit_err {s t : Sys} {closedir : Bool} (h : procExit s closedir = some t) :
    t.err = s.err := by
  obtain ⟨⟨ret, u⟩, hu, h⟩ := bind_some h
  cases h
  have hfree := freeSkProcMap_err hu
  split_ifs at hfree
  · exact hfree
  · exact hfree

/-- The status of a run through `out_proc_exit` is the one it came with. -/
theorem mainOutProcExit_err {win : List Window} {s : Sys} {calls : List (Call Resource)}
    {closedir : Bool} {o : Outcome} (h : mainOutProcExit win s calls closedir = some o) :
    o.err = s.err := by
  obtain ⟨t, ht, h⟩ := bind_some h
  cases h
  exact procExit_err ht

/-- **Status 0** is only returned by a run that the initialisation has led into the loop, and which
is then a run of the step function. -/
theorem main_run {env : InitEnv} {es : List Event} {closedir : Bool} {o : Outcome}
    (h : main env es closedir = some o) (hok : o.err = false) :
    ∃ b : Start, b.size = env.size ∧ b.allocs = env.allocs ∧ b.env = env.proc ∧
      exec step (es ++ [.exit closedir]) b.state = some o.state := by
  unfold main at h
  dsimp only at h
  -- every part that fails sets `err`, so the run got past each of them
  generalize windowInit env.newwin = r at h
  obtain ⟨err, win⟩ := r
  cases err with
  | true =>
      cases h
      cases hok
  | false =>
      rw [if_neg Bool.false_ne_true] at h
      obtain ⟨⟨err, t⟩, ht, h⟩ := bind_some h
      have herr : t.err = true := procInit_err ht
      cases err with
      | true =>
          cases h
          exact absurd (hok.symm.trans herr) Bool.false_ne_true
      | false =>
          dsimp only at h
          rw [if_neg Bool.false_ne_true] at h
          cases hnl : nlInit t env.socket env.bind with
          | mk err u =>
              have hu : u.err = true ∧ (err = false → u = t) := by
                unfold nlInit at hnl
                split_ifs at hnl
                · cases hnl
                  exact ⟨herr, nofun⟩
                · cases hnl
                  exact ⟨herr, nofun⟩
                · cases hnl
                  exact ⟨herr, fun _ => rfl⟩
              rw [hnl] at h
              cases err with
              | true =>
                  have hret : o.err = u.err := mainOutProcExit_err h
                  exact absurd (hok.symm.trans (hret.trans hu.1)) Bool.false_ne_true
              | false =>
                  dsimp only at h
                  rw [if_neg Bool.false_ne_true] at h
                  obtain ⟨v, hv, h⟩ := bind_some h
                  split at h
                  · cases h
                  · rename_i hout
                    have hpc : v.pc = .out := not_not.mp hout
                    refine ⟨⟨env.size, env.allocs, env.proc, t, ht⟩, rfl, rfl, rfl, ?_⟩
                    rw [hu.2 rfl] at hv
                    refine exec_append.mpr ⟨v, hv, ?_⟩
                    obtain ⟨w, hw, h⟩ := bind_some h
                    cases h
                    have hexit : step v (.exit closedir) =
                        some { nmCtxExit w.windowExit with pc := .done } := by
                      unfold step mainExit
                      dsimp only
                      rw [if_pos hpc, hw]
                      rfl
                    exact exec_cons.mpr ⟨_, hexit, rfl⟩

/-- **Every run of `main` that returns** has closed what it opened, in the order of its calls: each
call opens what is closed, or closes what is open, and at the end nothing is open. Where it returns
0 it was a run of the step function. -/
theorem main_closes (env : InitEnv) (es : List Event) (closedir : Bool) {o : Outcome}
    (h : main env es closedir = some o) :
    Brings o.calls ∅ ∅ ∧ (o.err = false → ∃ b : Start, b.size = env.size ∧ b.allocs = env.allocs ∧
      b.env = env.proc ∧ exec step (es ++ [.exit closedir]) b.state = some o.state) :=
  ⟨brings_main h, main_run h⟩

/-- One frame, and the key that leaves the program. -/
theorem main_closes_quiet :
    ∃ o, main ⟨Start.quiet.size, fun _ => true, [], Start.quiet.env, true, true⟩
        [.quiet, .press (key 'q') []] true = some o ∧ o.err = false ∧
      o.calls.length = 18 ∧ Brings o.calls ∅ ∅ := by
  have hrun : (main ⟨Start.quiet.size, fun _ => true, [], Start.quiet.env, true, true⟩
      [.quiet, .press (key 'q') []] true).map (fun o => (o.err, o.calls.length)) =
      some (false, 18) := by
    decide +kernel
  obtain ⟨o, ho, hval⟩ := Option.map_eq_some_iff.mp hrun
  exact ⟨o, ho, congrArg Prod.fst hval, congrArg Prod.snd hval, (main_closes _ _ _ ho).1⟩

end Sockmon

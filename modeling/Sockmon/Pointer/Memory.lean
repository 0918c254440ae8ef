import Sockmon.Pointer.Refine
import Sockmon.Run.Display
import Sockmon.Run.Owners

set_option autoImplicit false

/-! # The heaps in a run

The program with pointers, from its own start, runs exactly like the program with lists
(`Start.pointer_exec`), and so no place is used after it was freed, nothing is freed twice, and
what was allocated has been freed when `main` returns (`pointer_memory`).
-/

namespace Sockmon

open HeapChain Transition

/-! ## Steps -/

/-- Related states, and what the loops rely on. -/
structure Simulates (p : Pointer.State) (s : Sys) : Prop where
  refines : Refines p s
  sound : Pointer.Sound s

theorem Simulates.pc {p : Pointer.State} {s : Sys} (h : Simulates p s) : p.sys.pc = s.pc := by
  rw [h.refines.sys]
  rfl

namespace Pointer

variable {p : State} {s : Sys}

/-- **A key** leaves the heaps alone. -/
theorem shouldStop_rel (hr : Refines p s) (i : Input) :
    Option.Rel (fun u t => Refines { p with sys := u } t) (shouldStop p.sys i)
      (shouldStop s i) := by
  rw [hr.sys, shouldStop_offHeap]
  cases hstop : shouldStop s i with
  | none => exact .none
  | some t =>
      have hback := (shouldStop_step hstop).backstage
      exact .some (refines_of_eq hr (congrArg Backstage.connList hback)
        (congrArg (fun b : Backstage => b.owners.skInoHb) hback))

/-- **Every step** of one program is a step of the other. -/
theorem step_rel (h : Simulates p s) (e : Event) :
    Option.Rel Refines (step p e) (Sockmon.step s e) := by
  cases e with
  | body env =>
      rw [step, Sockmon.step, h.pc]
      split_ifs with hpc
      · exact mainBody_rel h.refines h.sound hpc env
      · exact .none
  | input i =>
      rw [step, Sockmon.step, h.pc]
      split_ifs with hpc
      · refine rel_bind (shouldStop_rel h.refines i) fun u t hr => .some ?_
        have hstop : u.n.shouldStop = t.n.shouldStop := by
          have hsys : u = t.offHeap := hr.sys
          rw [hsys]
          rfl
        refine ⟨?_, hr.conns, hr.owners⟩
        show ({ u with pc := if u.n.shouldStop then .out else .top } : Sys) = _
        rw [hstop, show u = t.offHeap from hr.sys]
        rfl
      · exact .none
  | exit closedir =>
      rw [step, Sockmon.step, h.pc]
      split_ifs with hpc
      · exact mainExit_rel h.refines h.sound hpc closedir
      · exact .none

theorem matches_step : Matches Simulates step Sockmon.step := by
  intro p s e h
  refine rel_mono (rel_and (step_rel h e) fun t ht => sound_step h.sound ht) ?_
  rintro p' t ⟨hr, hsound⟩
  exact ⟨hr, hsound⟩

/-! ## The start -/

theorem refines_boot (size : TermSize) (allocs : List Bool) :
    ∃ p, boot size allocs = some p ∧ Refines p (Sys.boot size allocs) := by
  have hcell : (((Heap.fresh : Heap (Node ConnInfo)).alloc ⟨0, 0, none⟩).cell connList).isSome :=
    rfl
  obtain ⟨h, hinit, hl, hsame⟩ := initListHead_eq hcell
  refine ⟨⟨Sys.boot size allocs, h, Heap.fresh, none⟩, ?_, rfl, ⟨[], hl, ?_⟩, Heap.holds_fresh⟩
  · unfold boot
    rw [hinit]
    rfl
  · exact hsame.holds (Heap.holds_fresh.alloc _)

/-- Finding the mount point has nothing to do with the heaps. -/
theorem getProcMountPath_offHeap (s : Sys) (env : ProcInitEnv) :
    getProcMountPath s.offHeap env =
      ((getProcMountPath s env).1, (getProcMountPath s env).2.offHeap) := by
  unfold getProcMountPath
  cases env.mounts with
  | none => rfl
  | some mounts =>
      dsimp only
      cases mounts.find? fun me => me.1 == "proc" with
      | none => rfl
      | some me =>
          have hcopy : stpncpyPath s.offHeap me.2 =
              ((stpncpyPath s me.2).1.offHeap, (stpncpyPath s me.2).2) := rfl
          dsimp only
          rw [hcopy]
          generalize stpncpyPath s me.2 = r
          obtain ⟨u, p⟩ := r
          have hpath : u.offHeap.procPath = u.procPath := rfl
          dsimp only
          rw [hpath]
          by_cases hlong : u.procPath.getD p 0 ≠ 0
          · simp only [if_pos hlong]
            rfl
          · simp only [if_neg hlong]

theorem getProcMountPath_connList (s : Sys) (env : ProcInitEnv) :
    (getProcMountPath s env).2.n.connList = s.n.connList := by
  unfold getProcMountPath
  split
  · rfl
  · split
    · rfl
    · dsimp only
      split <;> rfl

/-- A table of empty buckets, on a heap on which there is nothing. -/
theorem ownersAt_replicate {h : Heap (Cell SkOwner)} (hh : h.Holds []) (k : Nat) :
    OwnersAt h (some (List.replicate k 0)) (some (List.replicate k [])) :=
  ⟨_, bucketsAt_replicate k, by simp, by simpa using hh⟩

theorem procInit_rel (hr : Refines p s) (hnone : s.owners.skInoHb = none) (env : ProcInitEnv) :
    Option.Rel Alike (procInit p env) (Sockmon.procInit s env) := by
  have hl := getProcMountPath_connList s env
  have ho := (getProcMountPath_kept s env).1
  obtain ⟨sys, conns, owners, hb⟩ := p
  obtain ⟨rfl, hconns, howners⟩ := hr
  unfold procInit Sockmon.procInit
  rw [getProcMountPath_offHeap]
  generalize getProcMountPath s env = r at hl ho ⊢
  obtain ⟨ret, u⟩ := r
  dsimp only at hl ho ⊢
  rw [← hl] at hconns
  rw [hnone] at howners
  have hnil : owners.Holds [] := by
    cases hb with
    | none => exact howners
    | some hb => exact howners.elim
  have howners' : OwnersAt owners hb u.owners.skInoHb := by rwa [ho, hnone]
  cases ret with
  | true => exact .some ⟨rfl, rfl, hconns, howners'⟩
  | false =>
      cases env.opendir with
      | false => exact .some ⟨rfl, rfl, hconns, howners'⟩
      | true =>
          simp only [Bool.not_true, Bool.false_eq_true, if_false]
          refine rel_ite (fun _ => .none) fun _ => ?_
          refine rel_ite (fun _ => rel_bind_same fun path _ => ?_)
            fun _ => rel_bind_same fun path _ => ?_
          all_goals
            exact rel_ite (fun _ => .some ⟨rfl, rfl, hconns, howners'⟩)
              fun _ => .some ⟨rfl, rfl, hconns, ownersAt_replicate hnil _⟩

/-! ## What a frame shows -/

/-- The drawing of the frame that starts in `p`, if nothing fails before it is drawn. -/
def frameOf (p : State) (env : BodyEnv) : Option Frame := do
  let (err, p) ← collect { p with sys := { p.sys with allocs := env.allocs } } env
  if err then none
  else
    let (frame, _) ← drawConnections p env.stk
    return frame

end Pointer

theorem Simulates.frameOf_eq {p : Pointer.State} {s : Sys} (h : Simulates p s) (hpc : s.pc = .top)
    (env : BodyEnv) : Pointer.frameOf p env = frameOf s env := by
  have hstart : Refines { p with sys := { p.sys with allocs := env.allocs } }
      (frameStart s env) := by
    refine ⟨?_, h.refines.conns, h.refines.owners⟩
    rw [h.refines.sys]
    rfl
  obtain ⟨hpath, hsized, -⟩ := h.sound.owners.frame hpc env
  have hcounted : Counted (frameStart s env) := h.sound.conns.counted.congr rfl rfl
  refine eq_of_rel (rel_bind_of (Pointer.collect_rel hstart env) ?_)
  rintro ⟨err, p'⟩ ⟨err', t⟩ ht ⟨herr, hr⟩
  obtain rfl : err = err' := herr
  cases err with
  | true => exact .none
  | false =>
      have hsized' : t.owners.Sized := (collect_sound hpath hsized ht).2
      refine rel_bind (Pointer.drawConnections_rel hr hsized' (collect_counted hcounted ht) _) ?_
      rintro ⟨frame, p''⟩ ⟨frame', u⟩ ⟨hframe, -⟩
      exact .some hframe

/-! ## Runs -/

/-- **The pointer program** has a start exactly like that of the list program. -/
theorem Start.pointer (b : Start) : ∃ p₀ p, Pointer.boot b.size b.allocs = some p₀ ∧
    Pointer.procInit p₀ b.env = some (false, p) ∧ Simulates p b.state := by
  obtain ⟨p₀, hboot, hr₀⟩ := Pointer.refines_boot b.size b.allocs
  obtain ⟨⟨ret, p⟩, hinit, hret, hr⟩ := rel_right (Pointer.procInit_rel hr₀ rfl b.env) b.ok
  obtain rfl : ret = false := hret
  exact ⟨p₀, p, hboot, hinit, hr, Pointer.sound_start b⟩

/-- **The pointers do not show**: every run of the pointer program is a run of the list program,
and every run of that one of this, with related states and the same frames throughout. -/
theorem pointer_exec (b : Start) (es : List Event) :
    ∃ p₀ p, Pointer.boot b.size b.allocs = some p₀ ∧
      Pointer.procInit p₀ b.env = some (false, p) ∧
        Option.Rel (fun q s => Refines q s ∧
            ∀ env, s.pc = .top → Pointer.frameOf q env = frameOf s env)
          (exec Pointer.step es p) (exec step es b.state) := by
  obtain ⟨p₀, p, hboot, hinit, hsim⟩ := b.pointer
  exact ⟨p₀, p, hboot, hinit, rel_mono (Pointer.matches_step.exec hsim) fun q s h =>
    ⟨h.refines, fun env hpc => h.frameOf_eq hpc env⟩⟩

namespace Pointer

/-- What is in use, and what was freed. -/
structure State.Tidy (p : State) : Prop where
  /-- The list is a ring through the head, of all the nodes there are. -/
  conns : ∃ ps l, ListAt p.conns connList ps l ∧ p.conns.Holds (connList :: ps)
  /-- The owners are those of the chains, each in one of them. -/
  owners : ∃ t, OwnersAt p.owners p.hb t
  /-- Between frames there is nothing but the list head. -/
  between : p.sys.pc = .top ∨ p.sys.pc = .wait →
    p.conns.Holds [connList] ∧ p.owners.Holds []
  /-- When `main` has returned, everything was freed, and only once. -/
  returned : p.sys.pc = .done → p.hb = none ∧
    (∀ q, connList < q → q < p.conns.next → p.conns.freed.count q = 1) ∧
      ∀ q, 0 < q → q < p.owners.next → p.owners.freed.count q = 1

end Pointer

theorem Simulates.tidy {p : Pointer.State} {s : Sys} (h : Simulates p s) : p.Tidy := by
  have hempty : s.pc ≠ .out → p.conns.Holds [Pointer.connList] := by
    intro hpc
    obtain ⟨ps, hl, hh⟩ := h.refines.conns
    rw [h.sound.conns.empty hpc] at hl
    have hnil : ps = [] := List.eq_nil_of_length_eq_zero hl.length_eq
    rwa [hnil] at hh
  refine ⟨?_, ⟨_, h.refines.owners⟩, fun hpc => ?_, fun hpc => ?_⟩
  · obtain ⟨ps, hl, hh⟩ := h.refines.conns
    exact ⟨ps, _, hl, hh⟩
  · rw [h.pc] at hpc
    refine ⟨hempty ?_, Pointer.ownersAt_empty h.refines.owners (h.sound.owners.empty hpc).buckets⟩
    rcases hpc with hpc | hpc <;> rw [hpc] <;> decide
  · rw [h.pc] at hpc
    have howners := h.refines.owners
    rw [h.sound.gone hpc] at howners
    have hconns : p.conns.Holds [Pointer.connList] := hempty (by rw [hpc]; decide)
    cases hhb : p.hb with
    | some hb =>
        rw [hhb] at howners
        exact howners.elim
    | none =>
        rw [hhb] at howners
        have hnil : p.owners.Holds [] := howners
        refine ⟨rfl, fun q hq hlt => ?_, fun q hq hlt => hnil.count_freed hq hlt List.not_mem_nil⟩
        have hpos : 0 < q := Nat.lt_of_le_of_lt (Nat.zero_le _) hq
        exact hconns.count_freed hpos hlt (by simpa using Nat.ne_of_gt hq)

/-- **Memory** in every run of the pointer program, from every start that succeeds. -/
theorem pointer_memory (size : TermSize) (allocs : List Bool) (env : ProcInitEnv)
    (p₀ p : Pointer.State) (es : List Event) (hboot : Pointer.boot size allocs = some p₀)
    (hinit : Pointer.procInit p₀ env = some (false, p)) :
    Always Pointer.step Pointer.State.Tidy es p := by
  obtain ⟨p₁, hboot', hr⟩ := Pointer.refines_boot size allocs
  obtain rfl : p₀ = p₁ := Option.some.inj (hboot.symm.trans hboot')
  obtain ⟨⟨ret, s⟩, hok, hret, hr'⟩ := rel_left (Pointer.procInit_rel hr rfl env) hinit
  obtain rfl : false = ret := hret
  have hsim : Simulates p s := ⟨hr', Pointer.sound_start ⟨size, allocs, env, s, hok⟩⟩
  exact Pointer.matches_step.always (fun q t h => h.tidy) hsim

/-- Two connections, and the key that quits. -/
theorem pointer_memory_two : ∃ p₀ p t,
    Pointer.boot Start.quiet.size Start.quiet.allocs = some p₀ ∧
      Pointer.procInit p₀ Start.quiet.env = some (false, p) ∧
        exec Pointer.step [.body (.many 2), .press (key 'q') [], .exit true] p = some t ∧
          t.sys.pc = .done ∧ t.conns.freed = [2, 3] ∧ Always Pointer.step Pointer.State.Tidy
            [.body (.many 2), .press (key 'q') [], .exit true] p := by
  obtain ⟨p₀, p, hboot, hinit, hsim⟩ := Start.quiet.pointer
  have hrun : ((Pointer.boot Start.quiet.size Start.quiet.allocs).bind fun p₀ =>
      (Pointer.procInit p₀ Start.quiet.env).bind fun r =>
        (exec Pointer.step [.body (.many 2), .press (key 'q') [], .exit true] r.2).map fun t =>
          (t.sys.pc, t.conns.freed)) = some (.done, [2, 3]) := by decide +kernel
  rw [hboot, Option.bind_some, hinit, Option.bind_some] at hrun
  obtain ⟨t, ht, hobs⟩ := Option.map_eq_some_iff.mp hrun
  simp only [Prod.mk.injEq] at hobs
  exact ⟨p₀, p, t, hboot, hinit, ht, hobs.1, hobs.2, pointer_memory _ _ _ p₀ p _ hboot hinit⟩

end Sockmon

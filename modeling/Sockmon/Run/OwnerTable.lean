import Sockmon.Proc.FirstOwner
import Sockmon.Proc.Scan
import Sockmon.Run.Backstage

set_option autoImplicit false

/-! # The owner table in a run

In every run the table has the size that its shift says, if there is one, `proc_path` keeps its
prefix, and no entry outlives its frame (`OwnersSound`), whatever allocations fail.
-/

namespace Sockmon

open Transition

structure OwnersSound (s : Sys) : Prop where
  path : PathSound s
  /-- Until `proc_exit` frees it. -/
  sized : s.pc ≠ .done → s.owners.Sized
  /-- Between frames the table is empty. -/
  empty : s.pc = .top ∨ s.pc = .wait → s.owners.Empty

/-! ## What a dump leaves alone -/

/-- The table and the path are those of `s`. -/
structure SameOwners (s t : Sys) : Prop where
  owners : t.owners = s.owners
  procPath : t.procPath = s.procPath
  procPathLen : t.procPathLen = s.procPathLen

theorem diagStep_owners {s t : Sys} {m : Datagram × Nat} {ret : Bool} (h : DiagStep s m ret t) :
    SameOwners s t := by
  cases h with
  | noMemory | unsupported | listed => exact ⟨rfl, rfl, rfl⟩

theorem connectionsDump_owners {s t : Sys} {env : DumpEnv} {ret : Bool}
    (h : connectionsDump s env = some (ret, t)) : SameOwners s t := by
  have htrans : ∀ {u v : Sys}, SameOwners s u → SameOwners u v → SameOwners s v :=
    fun hu hv => ⟨hv.owners.trans hu.owners, hv.procPath.trans hu.procPath,
      hv.procPathLen.trans hu.procPathLen⟩
  exact connectionsDump_invariant (P := SameOwners s)
    (fun _ _ _ _ hu hstep => htrans hu (diagStep_owners hstep))
    (fun _ _ hu => ⟨hu.owners, hu.procPath, hu.procPathLen⟩) ⟨rfl, rfl, rfl⟩ ⟨rfl, rfl, rfl⟩ h

/-! ## A frame -/

/-- A scan, whether it succeeds or not. -/
theorem buildSkProcMap_sound {s t : Sys} {fs : ProcFs} {ret : Bool} (hpath : PathSound s)
    (hsized : s.owners.Sized) (h : buildSkProcMap s fs = some (ret, t)) :
    PathSound t ∧ t.owners.Sized := by
  rcases buildSkProcMap_scan hpath h with ⟨-, -, rfl⟩ | ⟨-, hscan, hsound, -⟩
  · exact ⟨hpath, hsized⟩
  · obtain ⟨os, -, hos, -⟩ := hscan.owners
    exact ⟨hsound, exec_chainStep_sized hsized hos⟩

theorem collect_sound {s t : Sys} {env : BodyEnv} {ret : Bool} (hpath : PathSound s)
    (hsized : s.owners.Sized) (h : collect s env = some (ret, t)) :
    PathSound t ∧ t.owners.Sized := by
  unfold collect at h
  obtain ⟨⟨r, u⟩, hu, h⟩ := bind_some h
  obtain ⟨hpath', hsized'⟩ := buildSkProcMap_sound hpath hsized hu
  cases r with
  | true =>
      cases h
      exact ⟨hpath', hsized'⟩
  | false =>
      have hsame : SameOwners u t := connectionsDump_owners h
      refine ⟨pathSound_of_eq hpath' hsame.procPath hsame.procPathLen, ?_⟩
      rw [hsame.owners]
      exact hsized'

/-- Where the owners are not asked for, nothing is entered. -/
theorem collect_off {s t : Sys} {env : BodyEnv} {ret : Bool}
    (hreq : extIsSet s.n.extReq INET_DIAG_PROC = false) (h : collect s env = some (ret, t)) :
    t.owners = s.owners := by
  unfold collect at h
  obtain ⟨⟨r, u⟩, hu, h⟩ := bind_some h
  unfold buildSkProcMap at hu
  rw [hreq] at hu
  cases hu
  exact (connectionsDump_owners h).owners

theorem FreeStep.path {s t : Sys} {resize ret : Bool} (hs : PathSound s)
    (h : FreeStep s resize ret t) : PathSound t := by
  cases h with
  | off | kept | resized | failed => exact pathSound_of_eq hs rfl rfl

/-! ## Runs -/

theorem ownersSound_start (b : Start) : OwnersSound b.state := by
  obtain ⟨path, len, allocs, heq⟩ := b.state_eq
  have howners : b.state.owners = .fresh 10 := congrArg Sys.owners heq
  refine ⟨pathSound_start b, fun _ => ?_, fun _ => ?_⟩
  · rw [howners]
    exact sized_fresh (by decide)
  · rw [howners]
    exact empty_fresh 10

/-- After drawing no entry is left. -/
theorem drawn_empty {s u v : Sys} {env : BodyEnv} {ret : Bool} (hempty : s.owners.Empty)
    (hu : collect (frameStart s env) env = some (false, u)) (hsized : u.owners.Sized)
    (hv : FreeStep (beforeFree u) true ret v) : v.owners.Empty := by
  have hsized : (beforeFree u).owners.Sized := hsized
  cases hreq : extIsSet u.n.extReq INET_DIAG_PROC with
  | true => exact (hv.sized hsized).2 hreq
  | false =>
      -- The mask is the one with which the frame started.
      have hreq' : extIsSet (frameStart s env).n.extReq INET_DIAG_PROC = false := by
        rw [← hreq]
        exact congrArg (fun ui : Ui => extIsSet ui.extReq INET_DIAG_PROC) (collect_ui hu).symm
      have howners : u.owners = (frameStart s env).owners := collect_off hreq' hu
      have hempty : (frameStart s env).owners.Empty := hempty
      rw [← howners] at hempty
      have hoff : ¬ extIsSet (beforeFree u).n.extReq INET_DIAG_PROC = true := by
        rw [show (beforeFree u).n.extReq = u.n.extReq from rfl, hreq]
        decide
      cases hv with
      | off => exact hempty
      | kept hon | resized hon | failed hon => exact absurd hon hoff

/-- What a frame starts with. -/
theorem OwnersSound.frame {s : Sys} (hs : OwnersSound s) (hpc : s.pc = .top) (env : BodyEnv) :
    PathSound (frameStart s env) ∧ s.owners.Sized ∧ s.owners.Empty :=
  ⟨pathSound_of_eq hs.path rfl rfl, hs.sized (by rw [hpc]; decide), hs.empty (Or.inl hpc)⟩

theorem ownersSound_step {s t : Sys} {e : Event} (hs : OwnersSound s) (h : step s e = some t) :
    OwnersSound t := by
  cases e with
  | body env =>
      obtain ⟨hpc, hbody⟩ := step_body h
      obtain ⟨hpath, hsized, hempty⟩ := hs.frame hpc env
      cases hbody with
      | idle => exact ⟨pathSound_of_eq hs.path rfl rfl, fun _ => hsized, fun _ => hempty⟩
      | failed u hc hu =>
          obtain ⟨hpath', hsized'⟩ := collect_sound hpath hsized hu
          exact ⟨pathSound_of_eq hpath' rfl rfl, fun _ => hsized',
            fun hpc' => by rcases hpc' with hpc' | hpc' <;> cases hpc'⟩
      | drawn u ret v hc hu hrows hv =>
          obtain ⟨hpath', hsized'⟩ := collect_sound hpath hsized hu
          have hbefore : PathSound (beforeFree u) := pathSound_of_eq hpath' rfl rfl
          have hsized'' : (beforeFree u).owners.Sized := hsized'
          have hfree : FreeStep (beforeFree u) true ret v := hsized''.freeStep hv
          -- the frame frees what it chained, so it leaves the buckets empty again
          have hempty' : v.owners.Empty := drawn_empty hempty hu hsized' hfree
          exact ⟨pathSound_of_eq (hfree.path hbefore) rfl rfl,
            fun _ => (hfree.sized hsized'').1, fun _ => hempty'⟩
  | input i =>
      obtain ⟨hpc, hback, -⟩ := step_input h
      have howners : t.owners = s.owners := congrArg Backstage.owners hback
      refine ⟨pathSound_of_eq hs.path (congrArg Backstage.procPath hback)
        (congrArg Backstage.procPathLen hback), fun _ => ?_, fun _ => ?_⟩
      · rw [howners]
        exact hs.sized (by rw [hpc]; decide)
      · rw [howners]
        exact hs.empty (Or.inr hpc)
  | exit closedir =>
      obtain ⟨hpc, ret, u, hu, rfl⟩ := step_exit h
      -- a failing `closedir` only writes its message
      have hstart : PathSound (exitStart s closedir) ∧ (exitStart s closedir).owners.Sized := by
        have hsized : s.owners.Sized := hs.sized (by rw [hpc]; decide)
        unfold exitStart
        split
        · exact ⟨hs.path, hsized⟩
        · exact ⟨pathSound_of_eq hs.path rfl rfl, hsized⟩
      have hfree := hstart.2.freeStep hu
      exact ⟨pathSound_of_eq (hfree.path hstart.1) rfl rfl, fun hne => absurd rfl hne,
        fun hpc' => by rcases hpc' with hpc' | hpc' <;> cases hpc'⟩

end Sockmon

import Sockmon.Proc.Mount
import Sockmon.Run.OwnerTable

set_option autoImplicit false

/-! # Which mount points are served

The scans of a run all write behind the part of `proc_path` that `proc_init` has left
(`procPrefix_step`). With ten digits for a process there is room for `"/comm"` and its NUL behind
240 bytes, the slash included; a longer mount point is not served, but it is not rejected either
(`served_iff`).
-/

namespace Sockmon

open Transition

/-! ## The prefix in a run -/

section

variable {s t : Sys}

theorem buildSkProcMap_keeps {fs : ProcFs} {ret : Bool} (hs : PathSound s)
    (h : buildSkProcMap s fs = some (ret, t)) : procPrefix t = procPrefix s := by
  unfold buildSkProcMap at h
  cases hreq : extIsSet s.n.extReq INET_DIAG_PROC with
  | false =>
      rw [hreq] at h
      cases h
      rfl
  | true =>
      rw [hreq] at h
      obtain ⟨⟨r, u⟩, hu, h⟩ := bind_some h
      have hpre : procPrefix u = procPrefix s := (procLoop_scan hs hu).2.2.1
      cases r with
      | true =>
          cases h
          exact hpre
      | false =>
          cases h
          exact hpre

theorem collect_keeps {env : BodyEnv} {ret : Bool} (hs : PathSound s)
    (h : collect s env = some (ret, t)) : procPrefix t = procPrefix s := by
  unfold collect at h
  obtain ⟨⟨r, u⟩, hu, h⟩ := bind_some h
  have hpre := buildSkProcMap_keeps hs hu
  cases r with
  | true =>
      cases h
      exact hpre
  | false =>
      have hsame : SameOwners u t := connectionsDump_owners h
      exact (procPrefix_of_eq hsame.procPath hsame.procPathLen).trans hpre

theorem FreeStep.keeps {resize ret : Bool} (h : FreeStep s resize ret t) :
    procPrefix t = procPrefix s := by
  cases h with
  | off | kept | resized | failed => rfl

/-- **No step** changes the part of `proc_path` that stays. -/
theorem procPrefix_step {e : Event} (hs : OwnersSound s) (h : step s e = some t) :
    procPrefix t = procPrefix s := by
  cases e with
  | body env =>
      obtain ⟨hpc, hbody⟩ := step_body h
      obtain ⟨hpath, hsized, -⟩ := hs.frame hpc env
      cases hbody with
      | idle => rfl
      | failed u hc hu =>
          have hu' : procPrefix u = procPrefix (frameStart s env) := collect_keeps hpath hu
          exact hu'
      | drawn u ret v hc hu hrows hv =>
          have hu' : procPrefix u = procPrefix (frameStart s env) := collect_keeps hpath hu
          have hsized' : (beforeFree u).owners.Sized := (collect_sound hpath hsized hu).2
          calc procPrefix v = procPrefix (beforeFree u) := (hsized'.freeStep hv).keeps
            _ = procPrefix s := hu'
  | input i =>
      obtain ⟨-, hback, -⟩ := step_input h
      exact procPrefix_of_eq (congrArg Backstage.procPath hback)
        (congrArg Backstage.procPathLen hback)
  | exit closedir =>
      obtain ⟨hpc, ret, u, hu, rfl⟩ := step_exit h
      have hsized : (exitStart s closedir).owners.Sized := by
        unfold exitStart
        split
        · exact hs.sized (by rw [hpc]; decide)
        · exact hs.sized (by rw [hpc]; decide)
      calc procPrefix u = procPrefix (exitStart s closedir) := (hsized.freeStep hu).keeps
        _ = procPrefix s := by
          unfold exitStart
          split <;> rfl

end

/-! ## A mount point -/

section

variable {m : MountPath}

/-- What `proc_init` has left. -/
theorem procPrefix_start (b : Start) (hm : b.env.Mounts m) : procPrefix b.state = m.kept := by
  have hok := b.ok
  rw [procInit_eq hm] at hok
  dsimp only at hok
  split_ifs at hok
  · cases hok
  · cases hok
  · obtain ⟨-, hstate⟩ := Prod.mk.inj (Option.some.inj hok)
    rw [← hstate]
    exact List.take_left

/-- In a run the scans find a sound path with the mount point in it. -/
theorem procPrefix_run {b : Start} {es : List Event} {s : Sys} (hm : b.env.Mounts m)
    (hrun : exec step es b.state = some s) : PathSound s ∧ procPrefix s = m.kept := by
  have hJ := exec_invariant (P := fun s => OwnersSound s ∧ procPrefix s = m.kept)
    (fun s e t hs ht => ⟨ownersSound_step hs.1 ht, (procPrefix_step hs.1 ht).trans hs.2⟩)
    ⟨ownersSound_start b, procPrefix_start b hm⟩ hrun
  exact ⟨hJ.1.path, hJ.2⟩

end

/-- In the state `s` of a run with the mount point `m`, a scan that has come to some entry finds
`path` in `proc_path`: earlier entries may have left anything behind the part that stays. -/
structure Scanning (m : MountPath) (s : Sys) (path : List UInt8) : Prop where
  run : ∃ (b : Start) (es : List Event), b.env.Mounts m ∧ exec step es b.state = some s
  length : path.length = 256
  kept : path.take s.procPathLen = procPrefix s

/-- The mount point is served: if it is accepted, no write leaves `proc_path` and the paths that
are opened are complete, and if it is too long for that, it is rejected. -/
structure Served (m : MountPath) : Prop where
  init : ∀ size allocs env, env.Mounts m → (procInit (Sys.boot size allocs) env).isSome
  inside : ∀ s path, Scanning m s path → ∀ fs d, IsProc d → d.dName.length ≤ 10 →
    (procVisit fs s.procPathLen path d).isSome
  paths : ∀ s path, Scanning m s path → ∀ fs d, IsProc d → d.dName.length ≤ 10 →
    procVisitOpens fs s.procPathLen path d = some (procPaths fs m.base d)
  rejected : 256 < m.base.length + 10 + 6 → ∀ size allocs env, env.Mounts m →
    ∃ s, getProcMountPath (Sys.boot size allocs) env = (true, s) ∧
      s.stderr = ["proc mount point path is too long.\n"]

/-- A start with the mount point `m`. -/
def Start.mounting (m : MountPath) : Start where
  size := Start.quiet.size
  allocs := []
  env := { mounts := some [("proc", m.dir)], opendir := true }
  state := { slashed Start.quiet.size [] m with
    owners := ⟨1024, 10, some (List.replicate 1024 []), 0⟩ }
  ok := procInit_eq (m := m) rfl

theorem scanning_mounting (m : MountPath) :
    Scanning m (Start.mounting m).state (Start.mounting m).state.procPath where
  run := ⟨Start.mounting m, [], rfl, rfl⟩
  length := (pathSound_start _).length
  kept := rfl

/-- What a scan finds is a sound path with the mount point in it. -/
theorem Scanning.sound {m : MountPath} {s : Sys} {path : List UInt8} (h : Scanning m s path) :
    s.procPathLen = m.kept.length ∧ path.take m.kept.length = m.kept ∧
      ∀ c ∈ m.kept, c ≠ 0 := by
  obtain ⟨b, es, hm, hrun⟩ := h.run
  obtain ⟨hsound, hpre⟩ := procPrefix_run hm hrun
  have hlen := procPrefix_length hsound
  have hkept := h.kept
  rw [hpre] at hlen hkept
  refine ⟨hlen.symm, hlen ▸ hkept, ?_⟩
  rw [← hpre]
  exact hsound.noNul

/-- A process with ten digits, whose `fd` directory can be opened. -/
theorem Served.kept {m : MountPath} (h : Served m) : m.kept.length + 10 + 6 ≤ 256 := by
  let fs : ProcFs := ⟨[], fun _ => some [], fun _ => none⟩
  let d : ProcEnt := ⟨true, List.replicate 10 49⟩
  have hd : IsProc d := ⟨rfl, fun c hc => by rw [List.eq_of_mem_replicate hc]; rfl⟩
  have hscan := scanning_mounting m
  obtain ⟨hlen, hpre, hnul⟩ := hscan.sound
  have hopens := h.paths _ _ hscan fs d hd (by decide)
  rw [hlen] at hopens
  have hfits := procVisitOpens_fits hscan.length hpre hnul hopens
  exact ((hfits rfl).2 hd).2 rfl

/-- Where there is room, all is written and opened as it should be. -/
theorem Scanning.visit {m : MountPath} {s : Sys} {path : List UInt8} (h : Scanning m s path)
    (hfits : m.kept.length + 10 + 6 ≤ 256) (fs : ProcFs) {d : ProcEnt} (hd : IsProc d)
    (hdigits : d.dName.length ≤ 10) :
    procVisitOpens fs s.procPathLen path d = some (procPaths fs m.kept d) := by
  obtain ⟨hlen, hpre, hnul⟩ := h.sound
  rw [hlen]
  refine (procVisitOpens_iff h.length hpre hnul hd).mpr fun _ => ?_
  rw [hd.digits]
  exact ⟨by omega, fun _ => ⟨by omega, fun _ => by omega⟩⟩

/-- **A mount point is served** if and only if it has at most 240 bytes, its slash included. -/
theorem served_iff (m : MountPath) : Served m ↔ m.base.length + 10 + 6 ≤ 256 := by
  constructor
  · intro h
    have hkept := h.kept
    rwa [MountPath.kept_eq (Or.inl (by omega))] at hkept
  · intro hfits
    have hkept : m.kept = m.base := MountPath.kept_eq (Or.inr (by omega))
    rw [← hkept] at hfits
    refine
      { init := fun size allocs env => procInit_isSome
        inside := fun s path hscan fs d hd hdigits => ?_
        paths := fun s path hscan fs d hd hdigits => ?_
        rejected := fun hlong => ?_ }
    · rw [← procVisitOpens_isSome, hscan.visit hfits fs hd hdigits]
      rfl
    · rw [← hkept]
      exact hscan.visit hfits fs hd hdigits
    · rw [← hkept] at hlong
      omega

/-- A mount path of 241 bytes. -/
def longMount : MountPath where
  dir := 47 :: List.replicate 240 97
  nonempty := List.cons_ne_nil _ _
  noNul := by
    intro c hc
    rcases List.mem_cons.mp hc with rfl | hc
    · decide
    · rw [List.eq_of_mem_replicate hc]
      decide

/-- There is no room for its processes, and it is accepted all the same. -/
theorem long_mount_accepted : ¬ ∀ m : MountPath, Served m := by
  intro h
  let env : ProcInitEnv := { mounts := some [("proc", longMount.dir)], opendir := true }
  have hm : env.Mounts longMount := rfl
  have hlong : 256 < longMount.base.length + 10 + 6 := by decide +kernel
  obtain ⟨s, hs, -⟩ := (h longMount).rejected hlong Start.quiet.size [] env hm
  rw [getProcMountPath_accepts hm] at hs
  cases hs

end Sockmon

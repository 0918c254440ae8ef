import Sockmon.Proc.Processes
import Sockmon.Run.Display
import Sockmon.Run.Mount
import Sockmon.Run.Scan

set_option autoImplicit false

/-! # The processes in a frame

In every run from a start with a mount point that has room for them, a frame that asks for the
owners finds for each socket the first process of `/proc` that has it open (`processes_found`).
-/

namespace Sockmon

open Transition

/-- The process that is shown for the socket: if owners are asked for, the first that has it. -/
def shownOwner (wants : Bool) (ps : List Process) (inode : Nat) : Option SkOwner :=
  if wants && inode != 0 then (ps.find? fun p => inode ∈ p.sockets).map (·.owner inode) else none

section

variable {s : Sys} {env : BodyEnv} {ps : List Process}

theorem frameScan_shows (hs : PathSound s) (hlen : (procPrefix s).length ≤ 240)
    (h : Shows env.fs (procPrefix s) env.fs.listing ps) :
    frameScan s env = ps.flatMap fun p => p.sockets.map p.owner := by
  have hscan := scanned_shows hlen hs.length (procPrefix_take hs) hs.noNul h
  rwa [procPrefix_length hs] at hscan

/-- **The owners** in the snapshot are the processes shown. -/
theorem snapshot_owner_shows (hs : PathSound s) (hlen : (procPrefix s).length ≤ 240)
    (h : Shows env.fs (procPrefix s) env.fs.listing ps) (inode : Nat) :
    (snapshot s env).owner inode = shownOwner (wantsOwners s) ps inode := by
  unfold Snapshot.owner snapshot shownOwner
  rw [frameScan_shows hs hlen h]
  cases wantsOwners s with
  | false => simp
  | true =>
      by_cases h0 : inode = 0
      · simp [h0]
      · have hwants : (true && inode != 0) = true := by simpa using h0
        rw [if_neg h0, if_pos rfl, if_pos hwants]
        exact find_owner ps inode

/-- The scan comes to its end. -/
theorem scanPossible_shows (hlen : (procPrefix s).length ≤ 240) (huse : s.owners.Usable)
    (h : Shows env.fs (procPrefix s) env.fs.listing ps) : ScanPossible s env :=
  ⟨h.scanOk hlen, fun _ _ => huse⟩

end

/-- **In every frame of every run** that asks for the owners and has a table for them, the scan
comes to its end, and the owner that is looked up for a socket is the first process that has it
open, or there is none. -/
theorem processes_found (b : Start) {m : MountPath} (hm : b.env.Mounts m)
    (hlen : m.base.length ≤ 240) (es : List Event) :
    Always step (fun s => s.pc = .top → s.n.curScreen = .main → wantsOwners s = true →
      s.owners.Usable → ∀ env ps, AllocsOk (frameStart s env) →
        Shows env.fs m.base env.fs.listing ps →
          ∃ t, buildSkProcMap (frameStart s env) env.fs = some (false, t) ∧
            ∀ inode, inode ≠ 0 → lookupSocketOwner t.owners inode =
              some ((ps.find? fun p => inode ∈ p.sockets).map (·.owner inode))) es b.state := by
  have hkept : m.kept = m.base := MountPath.kept_eq (Or.inr (by omega))
  have hstart : OwnersSound b.state ∧ procPrefix b.state = m.base :=
    ⟨ownersSound_start b, (procPrefix_start b hm).trans hkept⟩
  have hinv : Always step (fun s => OwnersSound s ∧ procPrefix s = m.base) es b.state :=
    always_of_invariant (fun s e t hs ht =>
      ⟨ownersSound_step hs.1 ht, (procPrefix_step hs.1 ht).trans hs.2⟩) hstart
  refine always_mono (fun s hs hpc hmain hw huse env ps ha hshows => ?_) hinv
  obtain ⟨hsound, hpre⟩ := hs
  rw [← hpre] at hshows hlen
  obtain ⟨hpath, hsized, -⟩ := hsound.frame hpc env
  obtain ⟨t, ht⟩ :=
    ((scanPossible_shows hlen huse hshows).complete hsound hpc hmain ha hw).returns
  refine ⟨t, ht, fun inode h0 => ?_⟩
  obtain ⟨hb, hhb⟩ := Option.isSome_iff_exists.mp huse.table
  have hasks : AsksOwners s := ⟨hpc, hmain, hw, huse.shift, hsized.shift_le⟩
  have hlookup := (hasks.lookups hsound hhb env).scan t ht inode h0
  have hscan : frameScan s env = ps.flatMap fun p => p.sockets.map p.owner :=
    frameScan_shows hsound.path hlen hshows
  rw [hlookup, hscan, find_owner]

/-- The mount point of a quiet system. -/
def MountPath.proc : MountPath where
  dir := bytes "/proc"
  nonempty := by decide +kernel
  noNul := by decide +kernel

/-- A process with one socket among its files. -/
def Process.sshd : Process where
  pid := 812
  comm := bytes "sshd"
  files := [.other (bytes "/dev/null") (by decide +kernel), .socket 4711]
  pid_lt := by decide
  comm_lt := by decide +kernel
  comm_line := by decide +kernel

/-- A frame that sees it. -/
def BodyEnv.sshd : BodyEnv :=
  { BodyEnv.bare [] with fs := procOf MountPath.proc.base [Process.sshd] }

/-- With the process column shown its socket is found, and another one is not. -/
theorem processes_found_quiet :
    ∃ s t, exec step Event.showPid Start.quiet.state = some s ∧
      buildSkProcMap (frameStart s .sshd) BodyEnv.sshd.fs = some (false, t) ∧
      lookupSocketOwner t.owners 4711 = some (some (Process.sshd.owner 4711)) ∧
      lookupSocketOwner t.owners 80 = some none := by
  have hrun : (exec step Event.showPid Start.quiet.state).map (fun s =>
      (s.pc, s.n.curScreen, wantsOwners s, s.owners.skInoHb.isSome, s.owners.mapHashShift)) =
        some (.top, .main, true, true, 10) := by decide +kernel
  obtain ⟨s, hs, hobs⟩ := Option.map_eq_some_iff.mp hrun
  simp only [Prod.mk.injEq] at hobs
  obtain ⟨hpc, hmain, hwants, htable, hshift⟩ := hobs
  have hallocs : AllocsOk (frameStart s .sshd) := by
    intro a ha
    cases ha
  obtain ⟨t, ht, hlookup⟩ := always_iff_reached.mp
    (processes_found Start.quiet (m := MountPath.proc) rfl (by decide +kernel) Event.showPid)
    Event.showPid s List.prefix_rfl hs hpc hmain hwants ⟨htable, by rw [hshift]; decide⟩ .sshd
    [Process.sshd] hallocs (shows_procOf (List.nodup_singleton _))
  refine ⟨s, t, hs, ht, ?_, ?_⟩
  · rw [hlookup 4711 (by decide)]
    rfl
  · rw [hlookup 80 (by decide)]
    rfl

end Sockmon

import Sockmon.Proc.Linked
import Sockmon.Run.ExtReq
import Sockmon.Run.Lookup

set_option autoImplicit false

/-! # The scan of a frame

A frame that asks for the owners scans `/proc` while processes come and go. A process whose `fd`
directory cannot be opened is passed over; one whose `comm` file cannot be opened or read, or
has too long a line, ends the scan and with it the program. `scanComplete_iff` says when the
scan comes to its end and has found all it is to find.
-/

namespace Sockmon

open Transition

/-- The scan of the frame that starts in `s` comes to its end, and its map has the sockets of
every process that can be read. -/
structure ScanComplete (s : Sys) (env : BodyEnv) : Prop where
  returns : ∃ t, buildSkProcMap (frameStart s env) env.fs = some (false, t)
  found : ∀ t, buildSkProcMap (frameStart s env) env.fs = some (false, t) → wantsOwners s = true →
    ∀ d fds inode, some d ∈ env.fs.listing → IsProc d →
      env.fs.openFd (fdPath (procPrefix s) d) = some fds →
        commReads (env.fs.openComm (commPath (procPrefix s) d)) = true →
          inode ∈ linkInodes fds → inode ≠ 0 →
            ∃ o, lookupSocketOwner t.owners inode = some (some o) ∧ o.skIno = inode

/-- No entry of `/proc` ends the scan, and the sockets, if there are any, have a table. -/
structure ScanPossible (s : Sys) (env : BodyEnv) : Prop where
  entries : ScanOk env.fs (procPrefix s) env.fs.listing
  table : ∀ inode, Linked env.fs (procPrefix s) env.fs.listing inode → s.owners.Usable

section

variable {s : Sys} {env : BodyEnv}

/-- A scan that comes to its end has met no entry that ends it, and has used the table. -/
theorem ScanComplete.possible (hs : OwnersSound s) (hpc : s.pc = .top)
    (hw : wantsOwners s = true) (h : ScanComplete s env) : ScanPossible s env := by
  obtain ⟨t, ht⟩ := h.returns
  obtain ⟨hpath, -⟩ := hs.frame hpc env
  rcases buildSkProcMap_scan hpath ht with ⟨hoff, -⟩ | ⟨-, hscan, -, hok⟩
  · have hoff : wantsOwners s = false := hoff
    rw [hw] at hoff
    cases hoff
  · have hok : ScanOk env.fs (procPrefix s) env.fs.listing := hok rfl
    refine ⟨hok, fun inode hlinked => ?_⟩
    obtain ⟨o, ho, -⟩ := (hs.path.scanned_linked hok).mpr hlinked
    have ho : o ∈ frameScan s env := ho
    obtain ⟨os, -, hos, heq⟩ := hscan.owners
    have hos : exec chainStep (frameScan s env) s.owners = some t.owners := by
      rw [heq rfl] at hos
      exact hos
    -- The first entry has been added to the table.
    cases hentries : frameScan s env with
    | nil =>
        rw [hentries] at ho
        cases ho
    | cons o' os' =>
        rw [hentries] at hos
        obtain ⟨m, hm, -⟩ := exec_cons.mp hos
        exact chainStep_usable hm

theorem ScanPossible.complete (hs : OwnersSound s) (hpc : s.pc = .top)
    (hmain : s.n.curScreen = .main) (ha : AllocsOk (frameStart s env))
    (hw : wantsOwners s = true) (h : ScanPossible s env) : ScanComplete s env := by
  obtain ⟨hpath, hsized, -⟩ := hs.frame hpc env
  refine ⟨buildSkProcMap_isSome hpath hsized h.table ha h.entries, ?_⟩
  intro t ht _ d fds inode hd hproc hfds _ hi h0
  have hlinked : Linked env.fs (procPrefix s) env.fs.listing inode := ⟨d, hd, hproc, fds, hfds, hi⟩
  have huse : s.owners.Usable := h.table inode hlinked
  obtain ⟨hb, hhb⟩ := Option.isSome_iff_exists.mp huse.table
  have hasks : AsksOwners s := ⟨hpc, hmain, hw, huse.shift, hsized.shift_le⟩
  obtain ⟨o, ho, hino⟩ := (hs.path.scanned_linked h.entries).mpr hlinked
  have hsome : ((frameScan s env).find? fun o => o.skIno == inode).isSome := by
    rw [List.find?_isSome]
    exact ⟨o, ho, by simpa using hino⟩
  obtain ⟨o', ho'⟩ := Option.isSome_iff_exists.mp hsome
  have hlookup := (hasks.lookups hs hhb env).scan t ht inode h0
  rw [ho'] at hlookup
  exact ⟨o', hlookup, by simpa using List.find?_some ho'⟩

/-- Where no owners are asked for nothing is scanned. -/
theorem scanComplete_off (hw : wantsOwners s = false) : ScanComplete s env := by
  have hoff : extIsSet (frameStart s env).n.extReq INET_DIAG_PROC = false := hw
  have hbuild : buildSkProcMap (frameStart s env) env.fs = some (false, frameStart s env) := by
    unfold buildSkProcMap
    rw [hoff]
    rfl
  refine ⟨⟨_, hbuild⟩, fun t _ hw' => ?_⟩
  rw [hw] at hw'
  cases hw'

end

/-- **In every frame of every run** whose allocations succeed the scan is complete exactly if no
owners are asked for or it meets nothing that ends it. -/
theorem scanComplete_iff (b : Start) (es : List Event) :
    Always step (fun s => s.pc = .top → s.n.curScreen = .main → ∀ env,
      AllocsOk (frameStart s env) →
        (ScanComplete s env ↔ (wantsOwners s = true → ScanPossible s env))) es b.state := by
  have hinv : Always step OwnersSound es b.state :=
    always_of_invariant (fun _ _ _ => ownersSound_step) (ownersSound_start b)
  refine always_mono (fun s hs hpc hmain env ha => ?_) hinv
  refine ⟨fun h hw => h.possible hs hpc hw, fun h => ?_⟩
  cases hw : wantsOwners s with
  | false => exact scanComplete_off hw
  | true => exact (h hw).complete hs hpc hmain ha hw

/-! ## A process that is gone -/

/-- A process whose `fd` directory can be opened and whose `comm` file is not there. -/
def BodyEnv.gone : BodyEnv :=
  { BodyEnv.bare [] with fs := ⟨[some ⟨true, bytes "1"⟩], fun _ => some [], fun _ => none⟩ }

/-- With the process column shown, such a process ends the scan. -/
theorem gone_ends_scan : ¬ Always step (fun s => s.pc = .top → s.n.curScreen = .main → ∀ env,
    AllocsOk (frameStart s env) → ScanComplete s env) Event.showPid Start.quiet.state :=
  not_always_of_exec
    (f := fun s => (s.pc, s.n.curScreen,
      (buildSkProcMap (frameStart s .gone) BodyEnv.gone.fs).map Prod.fst))
    (a := (.top, .main, some true)) (by decide +kernel) fun s hs h => by
      simp only [Prod.mk.injEq] at hs
      obtain ⟨hpc, hmain, hret⟩ := hs
      have hallocs : AllocsOk (frameStart s .gone) := by
        intro a ha
        cases ha
      obtain ⟨t, ht⟩ := (h hpc hmain .gone hallocs).returns
      rw [ht] at hret
      cases hret

end Sockmon

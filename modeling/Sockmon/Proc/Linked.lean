import Sockmon.Proc.FirstOwner
import Sockmon.Proc.Scan

set_option autoImplicit false

/-! # The sockets of the processes

Which sockets the processes link to is said by the contents of `/proc` alone (`Linked`). Where
no entry of the listing ends the scan, these are the sockets it finds (`scanned_linked`), and
with allocations succeeding and a table to enter them in the scan does come to its end
(`buildSkProcMap_isSome`).
-/

namespace Sockmon

open Transition

/-- A process whose `fd` directory can be opened has a link to the socket. -/
def Linked (fs : ProcFs) (pre : List UInt8) (ents : List (Option ProcEnt)) (inode : Nat) : Prop :=
  ∃ d, some d ∈ ents ∧ IsProc d ∧ ∃ fds, fs.openFd (fdPath pre d) = some fds ∧
    inode ∈ linkInodes fds

/-- A table into which every entry can be chained. -/
structure OwnerMap.Usable (m : OwnerMap) : Prop where
  table : m.skInoHb.isSome
  shift : 1 ≤ m.mapHashShift

section

variable {fs : ProcFs} {pre path : List UInt8} {ents : List (Option ProcEnt)} {inode : Nat}

theorem linked_none : Linked fs pre (none :: ents) inode ↔ Linked fs pre ents inode := by
  unfold Linked
  simp only [List.mem_cons, reduceCtorEq, false_or]

theorem linked_some {d : ProcEnt} : Linked fs pre (some d :: ents) inode ↔
    (IsProc d ∧ ∃ fds, fs.openFd (fdPath pre d) = some fds ∧ inode ∈ linkInodes fds) ∨
      Linked fs pre ents inode := by
  unfold Linked
  simp only [List.mem_cons, Option.some.injEq]
  constructor
  · rintro ⟨e, rfl | he, hlink⟩
    · exact Or.inl hlink
    · exact Or.inr ⟨e, he, hlink⟩
  · rintro (hlink | ⟨e, he, hlink⟩)
    · exact ⟨d, Or.inl rfl, hlink⟩
    · exact ⟨e, Or.inr he, hlink⟩

theorem ScanOk.tail {d : Option ProcEnt} (h : ScanOk fs pre (d :: ents)) : ScanOk fs pre ents :=
  fun e he => h e (List.mem_cons_of_mem _ he)

/-! ## What a scan finds -/

/-- **The sockets found** by a scan that no entry ends are those linked to. -/
theorem scanned_linked (hpath : path.length = 256) (hpre : path.take pre.length = pre)
    (hnul : ∀ c ∈ pre, c ≠ 0) (hok : ScanOk fs pre ents) :
    (∃ o ∈ scanned fs pre.length ents path, o.skIno = inode) ↔ Linked fs pre ents inode := by
  induction ents generalizing path with
  | nil => simp [scanned, Linked]
  | cons d ents ih =>
      cases d with
      | none =>
          rw [linked_none]
          exact ih hpath hpre hok.tail
      | some d =>
          obtain ⟨hfits, hreads⟩ := hok d List.mem_cons_self
          obtain ⟨⟨v, path'⟩, hv⟩ := procVisit_isSome hpath hpre hnul hfits
          obtain ⟨hpath', hpre', -, hstep⟩ := procVisit_step hpath hpre hnul hv
          have hrest := ih hpath' hpre' hok.tail
          rw [scanned, hv, linked_some, ← hrest]
          cases hstep with
          | other hno => exact (or_iff_right fun h => hno h.1).symm
          | closed hproc hnone =>
              refine (or_iff_right ?_).symm
              rintro ⟨-, fds, hfds, -⟩
              rw [hnone] at hfds
              cases hfds
          | odd fds hproc hfds hodd =>
              rw [hreads fds hproc hfds] at hodd
              cases hodd
          | links fds comm hproc hfds =>
              have hhere : (IsProc d ∧ ∃ fds, fs.openFd (fdPath pre d) = some fds ∧
                  inode ∈ linkInodes fds) ↔ inode ∈ linkInodes fds := by
                rw [and_iff_right hproc, hfds]
                simp
              rw [hhere]
              simp only [List.mem_append, List.mem_map, or_and_right, exists_or]
              simp

/-- The same, in a state of the scan. -/
theorem PathSound.scanned_linked {s : Sys} (hs : PathSound s)
    (hok : ScanOk fs (procPrefix s) ents) :
    (∃ o ∈ scanned fs s.procPathLen ents s.procPath, o.skIno = inode) ↔
      Linked fs (procPrefix s) ents inode := by
  rw [← Sockmon.scanned_linked hs.length (procPrefix_take hs) hs.noNul hok, procPrefix_length hs]

/-! ## Tables that can be used -/

variable {m m' : OwnerMap}

/-- A shift by the whole width of the operand has no value. -/
theorem skInoHash_shift {i : Nat} (h : skInoHash m inode = some i) : 1 ≤ m.mapHashShift := by
  unfold skInoHash at h
  dsimp only at h
  split at h
  · omega
  · cases h

/-- **An entry needs a table** of at least two buckets. -/
theorem chainStep_usable {o : SkOwner} (h : chainStep m o = some m') : m.Usable := by
  obtain ⟨hb, hhb⟩ := chainStep_table h
  refine ⟨by rw [hhb]; rfl, ?_⟩
  obtain ⟨found, hfound, h⟩ := bind_some h
  by_cases h0 : o.skIno = 0
  · have hnone : found = none := by
      unfold lookupSocketOwner at hfound
      rw [if_pos h0] at hfound
      exact (Option.some.inj hfound).symm
    rw [hnone] at h
    obtain ⟨i, hi, -⟩ := bind_some h
    exact skInoHash_shift hi
  · unfold lookupSocketOwner at hfound
    rw [if_neg h0] at hfound
    obtain ⟨hb', -, hfound⟩ := bind_some hfound
    obtain ⟨i, hi, -⟩ := bind_some hfound
    exact skInoHash_shift hi

theorem OwnerMap.Usable.exec {os : List SkOwner} (hm : m.Usable)
    (h : exec chainStep os m = some m') : m'.Usable := by
  obtain ⟨hb, hhb⟩ := Option.isSome_iff_exists.mp hm.table
  obtain ⟨hb', hhb', -, hshift⟩ := exec_chainStep_insert hhb h
  refine ⟨?_, ?_⟩
  · rw [hhb']
    rfl
  · rw [hshift]
    exact hm.shift

end

/-! ## A scan that comes to its end -/

section

variable {s : Sys}

theorem addSkIno_isSome (hs : s.owners.Sized) (hu : s.owners.Usable) (ha : AllocsOk s)
    (inode : Nat) (pid : Int) (comm : List UInt8) :
    ∃ t, addSkIno s inode pid comm = some (false, t) := by
  obtain ⟨hb, hhb⟩ := Option.isSome_iff_exists.mp hu.table
  obtain ⟨found, hfound⟩ := hs.lookup_isSome hu.shift hhb inode
  obtain ⟨m, hm⟩ := hs.chainStep_isSome hu.shift hhb ⟨inode, pid, comm⟩
  unfold chainStep at hm
  unfold addSkIno
  rw [hfound] at hm ⊢
  cases found with
  | some o => exact ⟨s, rfl⟩
  | none =>
      obtain ⟨as, -, halloc⟩ := ha.alloc
      have hm : s.owners.chain ⟨inode, pid, comm⟩ = some m := hm
      rw [halloc]
      simp [hm]

/-- All the links of a process are read. -/
theorem skInoMakeMap_isSome {ents : List (Option FdEnt)} (hs : s.owners.Sized)
    (hu : linkInodes ents ≠ [] → s.owners.Usable) (ha : AllocsOk s) (pid : Int)
    (comm : List UInt8) : ∃ t, skInoMakeMap pid comm ents s = some (false, t) := by
  induction ents generalizing s with
  | nil => exact ⟨s, rfl⟩
  | cons d ents ih =>
      cases d with
      | none => exact ih hs hu ha
      | some d =>
          rw [skInoMakeMap]
          by_cases hl : d.isLnk
          · rw [hl]
            cases hi : d.link.bind socketInode with
            | none =>
                have hskip : linkInodes (some d :: ents) = linkInodes ents := by
                  simp [linkInodes, hl, hi]
                rw [hskip] at hu
                exact ih hs hu ha
            | some inode =>
                have hu : s.owners.Usable := hu (by simp [linkInodes, hl, hi])
                obtain ⟨t, ht⟩ := addSkIno_isSome hs hu ha inode pid comm
                obtain ⟨-, -, hadd⟩ := addSkIno_added ha ht
                obtain ⟨u, hrest⟩ := ih (exec_chainStep_sized hs hadd.owners)
                  (fun _ => hu.exec hadd.owners) hadd.allocs
                exact ⟨u, by simp [ht, hrest]⟩
          · have hskip : linkInodes (some d :: ents) = linkInodes ents := by
              simp [linkInodes, hl]
            rw [hskip] at hu
            rw [Bool.not_eq_true] at hl
            rw [hl]
            exact ih hs hu ha

/-- **The loop over the listing** comes to its end if no entry ends it and the sockets, if there
are any, have a table. -/
theorem procLoop_isSome {fs : ProcFs} {ents : List (Option ProcEnt)} (hp : PathSound s)
    (hs : s.owners.Sized) (hu : ∀ inode, Linked fs (procPrefix s) ents inode → s.owners.Usable)
    (ha : AllocsOk s) (hok : ScanOk fs (procPrefix s) ents) :
    ∃ t, procLoop fs ents s = some (false, t) := by
  induction ents generalizing s with
  | nil => exact ⟨s, rfl⟩
  | cons d ents ih =>
      cases d with
      | none => exact ih hp hs (fun inode hi => hu inode (linked_none.mpr hi)) ha hok.tail
      | some d =>
          obtain ⟨hfits, hreads⟩ := hok d List.mem_cons_self
          obtain ⟨⟨v, path⟩, hv⟩ := procVisit_isSome hp.length (procPrefix_take hp) hp.noNul hfits
          rw [procPrefix_length hp] at hv
          obtain ⟨hp', hpre, -, hstep⟩ := hp.visit hv
          have hrest : ∀ inode, Linked fs (procPrefix s) ents inode → s.owners.Usable :=
            fun inode hi => hu inode (linked_some.mpr (Or.inr hi))
          rw [procLoop, hv]
          cases hstep with
          | other | closed =>
              -- nothing is chained, but the path now holds this entry's name
              exact ih (s := { s with procPath := path }) hp' hs (by rw [hpre]; exact hrest) ha
                (by rw [hpre]; exact hok.tail)
          | odd fds hproc hfds hodd =>
              rw [hreads fds hproc hfds] at hodd
              cases hodd
          | links fds comm hproc hfds =>
              -- a process without a socket chains nothing and needs no second bucket
              have hhere : linkInodes fds ≠ [] → s.owners.Usable := by
                intro hne
                obtain ⟨inode, hi⟩ := List.exists_mem_of_ne_nil _ hne
                exact hu inode (linked_some.mpr (Or.inl ⟨hproc, fds, hfds, hi⟩))
              obtain ⟨t, ht⟩ := skInoMakeMap_isSome (s := { s with procPath := path }) hs hhere ha
                (pidOf d.dName) comm
              obtain ⟨-, hpath, hadd⟩ := skInoMakeMap_added (s := { s with procPath := path }) ha ht
              have hpt : PathSound t := pathSound_of_eq hp' hpath hadd.procPathLen
              have hpret : procPrefix t = procPrefix s :=
                (procPrefix_of_eq hpath hadd.procPathLen).trans hpre
              have hst : t.owners.Sized := exec_chainStep_sized hs hadd.owners
              obtain ⟨u, hu⟩ := ih hpt hst
                (by rw [hpret]; exact fun inode hi => (hrest inode hi).exec hadd.owners) hadd.allocs
                (by rw [hpret]; exact hok.tail)
              exact ⟨u, by simp [ht, hu]⟩

theorem buildSkProcMap_isSome {fs : ProcFs} (hp : PathSound s) (hs : s.owners.Sized)
    (hu : ∀ inode, Linked fs (procPrefix s) fs.listing inode → s.owners.Usable)
    (ha : AllocsOk s) (hok : ScanOk fs (procPrefix s) fs.listing) :
    ∃ t, buildSkProcMap s fs = some (false, t) := by
  unfold buildSkProcMap
  cases extIsSet s.n.extReq INET_DIAG_PROC with
  | false => exact ⟨s, rfl⟩
  | true =>
      obtain ⟨t, ht⟩ := procLoop_isSome hp hs hu ha hok
      exact ⟨_, by rw [ht]; rfl⟩

end

end Sockmon

import Sockmon.Proc.Free

set_option autoImplicit false

/-! # The socket owner table is well formed

The table of one frame gets its size at the end of the frame before, from the number of
sockets found then. In every run of the functions of `proc.c` it stays well formed
(`ownerMap_wellFormed_iff`), unless it is resized with at most one socket in it: the sizing
loop then ends at once, the table gets one bucket, and `sk_ino_hash` shifts by 32.
-/

namespace Sockmon

open Transition Chains

/-! ## Whole runs -/

/-- The calls of the functions of `proc.c`, and another choice of the fields to be shown. -/
inductive OwnerCall
  | build (fs : ProcFs)
  | lookup (inode : BitVec 32)
  | add (inode : BitVec 32) (pid : Int) (comm : List UInt8)
  | free (resize : Bool)
  | request (extReq : BitVec 32)

def ownerStep (s : Sys) : OwnerCall → Option Sys
  | .build fs => (buildSkProcMap s fs).map (·.2)
  | .lookup inode => (lookupSocketOwner s.owners inode.toNat).map fun _ => s
  | .add inode pid comm => (addSkIno s inode.toNat pid comm).map (·.2)
  | .free resize => (freeSkProcMap s resize).map (·.2)
  | .request extReq => some { s with n := { s.n with extReq } }

/-- A table that is resized has at least two sockets in it, and one that is added to has room. -/
def CallSafe (s : Sys) : OwnerCall → Prop
  | .build fs => extIsSet s.n.extReq INET_DIAG_PROC →
      Meets chainStep Fits (scanned fs s.procPathLen fs.listing s.procPath) s.owners
  | .add inode pid comm => Fits s.owners ⟨inode.toNat, pid, comm⟩
  | .free resize => extIsSet s.n.extReq INET_DIAG_PROC → resize = true →
      2 ≤ s.owners.nrSockets
  | .lookup _ => True
  | .request _ => True

/-- A start with allocations that succeed. -/
structure OwnerStart extends Start where
  allocs_ok : ∀ a ∈ allocs, a = true

/-- What holds in any case: allocations succeed, and the count is an `int`. -/
structure Counting (s : Sys) : Prop where
  allocs : AllocsOk s
  nrSockets : s.owners.nrSockets ≤ INT_MAX

theorem nrSockets_exec {m m' : OwnerMap} {os : List SkOwner} (hm : m.nrSockets ≤ INT_MAX)
    (h : exec chainStep os m = some m') : m'.nrSockets ≤ INT_MAX := by
  refine exec_invariant (P := fun m => m.nrSockets ≤ INT_MAX) (fun m o m₁ hle hstep => ?_) hm h
  obtain ⟨found, -, hstep⟩ := bind_some hstep
  cases found with
  | some o' =>
      cases hstep
      exact hle
  | none =>
      obtain ⟨k, -, hstep⟩ := bind_some hstep
      obtain ⟨hb, -, hstep⟩ := bind_some hstep
      obtain ⟨c, -, hstep⟩ := bind_some hstep
      cases hstep
      exact (i32_range _).2

theorem freeSkProcMap_counting {s t : Sys} {resize ret : Bool} (hs : Counting s)
    (h : freeSkProcMap s resize = some (ret, t)) : Counting t := by
  unfold freeSkProcMap at h
  split at h
  · cases h
    exact hs
  · dsimp only at h
    obtain ⟨i, -, h⟩ := bind_some h
    obtain ⟨hb, -, h⟩ := bind_some h
    split at h
    · cases h
    · split at h
      · obtain ⟨as, has, halloc⟩ := hs.allocs.alloc
        rw [halloc] at h
        cases h
        exact ⟨has, (i32_range _).2⟩
      · cases h
        exact ⟨hs.allocs, (i32_range _).2⟩

theorem counting_step {s t : Sys} {c : OwnerCall} (hs : Counting s)
    (h : ownerStep s c = some t) : Counting t := by
  obtain ⟨hallocs, hmax⟩ := hs
  cases c with
  | build fs =>
      obtain ⟨⟨ret, u⟩, hu, rfl⟩ := Option.map_eq_some_iff.mp h
      rcases buildSkProcMap_added hallocs hu with ⟨-, he⟩ | ⟨-, ha, ho⟩
      · rw [show u = s from he]
        exact ⟨hallocs, hmax⟩
      · exact ⟨ha, nrSockets_exec hmax ho⟩
  | lookup inode =>
      obtain ⟨found, -, rfl⟩ := Option.map_eq_some_iff.mp h
      exact ⟨hallocs, hmax⟩
  | add inode pid comm =>
      obtain ⟨⟨ret, u⟩, hu, rfl⟩ := Option.map_eq_some_iff.mp h
      obtain ⟨-, -, hadd⟩ := addSkIno_added hallocs hu
      exact ⟨hadd.allocs, nrSockets_exec hmax hadd.owners⟩
  | free resize =>
      obtain ⟨⟨ret, u⟩, hu, rfl⟩ := Option.map_eq_some_iff.mp h
      exact freeSkProcMap_counting ⟨hallocs, hmax⟩ hu
  | request extReq =>
      cases h
      exact ⟨hallocs, hmax⟩

/-- Adding entries, in terms of well-formed tables. -/
theorem exec_wellFormed {m m' : OwnerMap} {os : List SkOwner} (hmax : m.nrSockets ≤ INT_MAX)
    (hwf : m.WellFormed) (h : exec chainStep os m = some m') :
    m'.WellFormed ↔ Meets chainStep Fits os m := by
  obtain ⟨hshape, hle⟩ := (OwnerMap.wellFormed_iff hmax).mp hwf
  rw [OwnerMap.wellFormed_iff (nrSockets_exec hmax h)]
  exact exec_chainStep hshape hle h

/-- **One call** keeps the table well formed exactly if it is safe. -/
theorem wellFormed_step {s t : Sys} {c : OwnerCall} (hs : Counting s)
    (hwf : s.owners.WellFormed) (h : ownerStep s c = some t) :
    t.owners.WellFormed ↔ CallSafe s c := by
  obtain ⟨hallocs, hmax⟩ := hs
  cases c with
  | build fs =>
      obtain ⟨⟨ret, u⟩, hu, rfl⟩ := Option.map_eq_some_iff.mp h
      unfold CallSafe
      rcases buildSkProcMap_added hallocs hu with ⟨hreq, he⟩ | ⟨hreq, -, ho⟩
      · rw [hreq, show u = s from he]
        exact iff_of_true hwf nofun
      · rw [hreq, exec_wellFormed hmax hwf ho]
        simp
  | lookup inode =>
      obtain ⟨found, -, rfl⟩ := Option.map_eq_some_iff.mp h
      exact iff_of_true hwf trivial
  | add inode pid comm =>
      obtain ⟨⟨ret, u⟩, hu, rfl⟩ := Option.map_eq_some_iff.mp h
      obtain ⟨-, -, hadd⟩ := addSkIno_added hallocs hu
      rw [exec_wellFormed hmax hwf hadd.owners]
      obtain ⟨m, hm, hmu⟩ := exec_cons.mp hadd.owners
      constructor
      · intro hmeets
        exact (hmeets m hm).1
      · intro hfits m' _
        exact ⟨hfits, trivial⟩
  | free resize =>
      obtain ⟨⟨ret, u⟩, hu, rfl⟩ := Option.map_eq_some_iff.mp h
      exact freeSkProcMap_wellFormed hallocs hmax hwf hu
  | request extReq =>
      cases h
      exact iff_of_true hwf trivial

/-! ### The start -/

theorem getProcMountPath_kept (s : Sys) (env : ProcInitEnv) :
    (getProcMountPath s env).2.owners = s.owners ∧
      (getProcMountPath s env).2.allocs = s.allocs := by
  unfold getProcMountPath
  split
  · exact ⟨rfl, rfl⟩
  · split
    · exact ⟨rfl, rfl⟩
    · dsimp only
      split <;> exact ⟨rfl, rfl⟩

/-- `proc_init` leaves an empty table of the size that `map_hash_sz` starts with. -/
theorem procInit_owners {s t : Sys} {env : ProcInitEnv} (hs : AllocsOk s)
    (h : procInit s env = some (false, t)) : AllocsOk t ∧ t.owners =
      { s.owners with skInoHb := some (List.replicate s.owners.mapHashSz []) } := by
  obtain ⟨howners, hallocs⟩ := getProcMountPath_kept s env
  have hu : AllocsOk (getProcMountPath s env).2 := by
    unfold AllocsOk
    rw [hallocs]
    exact hs
  rw [← howners]
  unfold procInit at h
  dsimp only at h
  generalize (getProcMountPath s env).2 = u at h hu ⊢
  split at h
  · cases h
  split at h
  · cases h
  split at h
  · cases h
  · have htail : ∀ a ∈ u.allocs.tail, a = true := fun a ha => hu a (List.mem_of_mem_tail ha)
    -- With or without a slash, `sk_ino_hb` is allocated.
    split at h
    · obtain ⟨path, -, h⟩ := bind_some h
      split at h
      · cases h
      · cases h
        exact ⟨htail, rfl⟩
    · obtain ⟨path, -, h⟩ := bind_some h
      split at h
      · cases h
      · cases h
        exact ⟨htail, rfl⟩

/-- The table that `proc_init` leaves is well formed. -/
theorem OwnerStart.wellFormed (b : OwnerStart) :
    Counting b.state ∧ b.state.owners.WellFormed := by
  obtain ⟨hallocs, howners⟩ := procInit_owners (s := Sys.boot b.size b.allocs) b.allocs_ok b.ok
  have htable : b.state.owners = .fresh 10 := howners
  refine ⟨⟨hallocs, ?_⟩, ?_⟩
  · rw [htable]
    decide
  · rw [htable]
    exact (wellFormed_fresh (by decide)).mpr (by decide)

/-! ### The result -/

/-- **The owner table is well formed throughout a run** exactly if no resizing call meets fewer
than two sockets, and none that adds a socket a full count. -/
theorem ownerMap_wellFormed_iff (b : OwnerStart) (cs : List OwnerCall) :
    Always ownerStep (fun s => s.owners.WellFormed) cs b.state ↔
      Meets ownerStep CallSafe cs b.state :=
  always_iff_meets (fun _ _ _ => counting_step) (fun _ _ _ => wellFormed_step)
    b.wellFormed.1 b.wellFormed.2

/-- A frame that finds no socket leaves a table of one bucket, for which `sk_ino_hash` shifts
by 32. -/
theorem empty_frame_breaks : ¬ Always ownerStep (fun s => s.owners.WellFormed)
    [.request (bit (INET_DIAG_PROC - 1)), .build ⟨[], fun _ => none, fun _ => none⟩, .free true]
    Start.quiet.state :=
  not_always_of_exec (f := fun s => s.owners.mapHashShift) (a := 0) (by decide +kernel)
    fun t ht h => by
      have hshift := (h.hash 0).1
      rw [ht] at hshift
      omega

end Sockmon

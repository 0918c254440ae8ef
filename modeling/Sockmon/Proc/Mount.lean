import Sockmon.Proc.Scan

set_option autoImplicit false

/-! # The mount point of the proc file system

`get_proc_mount_path` copies at most 255 bytes of the directory and takes the byte that
`stpncpy` points at for the sign that it was cut. But of a directory that is cut this is the last
byte of `proc_path`, which is zero from the start: every directory is accepted
(`getProcMountPath_accepts`). `proc_init` leaves the cut directory and a slash
(`procInit_eq`), and the scan writes the rest of its paths behind them.
-/

namespace Sockmon

/-- A directory of the mount table: `getmntent` gives no empty string, and a string has no NUL in
it. -/
structure MountPath where
  dir : List UInt8
  nonempty : dir ≠ []
  noNul : ∀ c ∈ dir, c ≠ 0

/-- The directory, ended by a slash. -/
def withSlash (dir : List UInt8) : List UInt8 :=
  if dir.getLast? = some 47 then dir else dir ++ [47]

/-- The complete mount path, with the slash that ends it. -/
def MountPath.base (m : MountPath) : List UInt8 := withSlash m.dir

/-- What `proc_path` has room for, with its slash. -/
def MountPath.kept (m : MountPath) : List UInt8 := withSlash (m.dir.take 255)

/-- The first entry of the mount table for a proc file system is that of `m`. -/
def ProcInitEnv.Mounts (env : ProcInitEnv) (m : MountPath) : Prop :=
  (env.mounts.bind fun mounts => mounts.find? fun me => me.1 == "proc").map (·.2) = some m.dir

/-- The state after `get_proc_mount_path`. -/
def mounted (size : TermSize) (allocs : List Bool) (m : MountPath) : Sys :=
  (stpncpyPath (Sys.boot size allocs) m.dir).1

section

variable {size : TermSize} {allocs : List Bool} {env : ProcInitEnv} {m : MountPath}

/-! ## The start -/

theorem le_withSlash_length (dir : List UInt8) : dir.length ≤ (withSlash dir).length := by
  unfold withSlash
  split_ifs
  · exact le_rfl
  · rw [List.length_append]
    omega

/-- A directory with room behind it is not cut. -/
theorem MountPath.kept_eq (h : m.kept.length < 255 ∨ m.base.length < 255) : m.kept = m.base := by
  have hkept : (m.dir.take 255).length ≤ m.kept.length := le_withSlash_length _
  have hbase : m.dir.length ≤ m.base.length := le_withSlash_length _
  have hcut : (m.dir.take 255).length = min 255 m.dir.length := List.length_take
  unfold MountPath.kept MountPath.base
  rw [List.take_of_length_le (by omega)]

/-- `proc_path` holds the directory as far as it goes, and NULs. -/
theorem mounted_procPath (size : TermSize) (allocs : List Bool) (m : MountPath) :
    (mounted size allocs m).procPath =
      m.dir.take 255 ++ List.replicate (256 - (m.dir.take 255).length) 0 := by
  have hcut := List.length_take_le 255 m.dir
  show m.dir.take 255 ++ List.replicate (255 - (m.dir.take 255).length) 0 ++
    (List.replicate 256 0).drop 255 = _
  rw [List.append_assoc, List.drop_replicate, List.replicate_append_replicate]
  congr 2
  omega

/-- **No directory is rejected**, however long it is. -/
theorem getProcMountPath_accepts (hm : env.Mounts m) :
    getProcMountPath (Sys.boot size allocs) env = (false, mounted size allocs m) := by
  unfold ProcInitEnv.Mounts at hm
  obtain ⟨me, hfind, hdir⟩ := Option.map_eq_some_iff.mp hm
  obtain ⟨mounts, hmounts, hfind⟩ := Option.bind_eq_some_iff.mp hfind
  have hcut := List.length_take_le 255 m.dir
  have hend : (mounted size allocs m).procPath.getD (m.dir.take 255).length 0 = 0 := by
    rw [mounted_procPath, List.getD_eq_getElem?_getD, List.getElem?_append_right le_rfl,
      Nat.sub_self, List.getElem?_replicate, if_pos (by omega)]
    rfl
  unfold getProcMountPath
  rw [hmounts]
  dsimp only
  rw [hfind]
  dsimp only
  rw [hdir]
  exact if_neg fun h => h hend

/-- The state when `proc_init` has ended the directory with a slash. -/
def slashed (size : TermSize) (allocs : List Bool) (m : MountPath) : Sys :=
  { mounted size allocs m with
    procPath := m.kept ++ List.replicate (256 - m.kept.length) 0
    procPathLen := m.kept.length }

theorem mounted_opened (size : TermSize) (allocs : List Bool) (m : MountPath) :
    openedPath (mounted size allocs m).procPath = m.dir.take 255 := by
  have hcut : ∀ c ∈ m.dir.take 255, (c != 0) = true := fun c hc => by
    simpa using m.noNul c (List.mem_of_mem_take hc)
  unfold openedPath
  rw [mounted_procPath, List.takeWhile_append_of_pos hcut, List.takeWhile_replicate,
    if_neg (by decide), List.append_nil]

/-- The last byte of the directory is looked at behind the end of what was copied. -/
theorem mounted_last (size : TermSize) (allocs : List Bool) (m : MountPath) :
    (mounted size allocs m).procPath.getD ((m.dir.take 255).length - 1) 0 = 47 ↔
      (m.dir.take 255).getLast? = some 47 := by
  have hne : m.dir.take 255 ≠ [] := by simpa using m.nonempty
  have hpos : 0 < (m.dir.take 255).length := List.length_pos_iff.mpr hne
  rw [mounted_procPath, List.getD_eq_getElem?_getD, List.getElem?_append_left (by omega),
    List.getLast?_eq_getElem?, List.getElem?_eq_getElem (by omega), Option.getD_some,
    Option.some_inj]

/-- The slash is written behind a directory that has none. -/
theorem mounted_slash (hlast : (m.dir.take 255).getLast? ≠ some 47) :
    pathWrite (mounted size allocs m).procPath (m.dir.take 255).length [47] =
      some (slashed size allocs m).procPath := by
  have hcut := List.length_take_le 255 m.dir
  have hkept : m.kept = m.dir.take 255 ++ [47] := if_neg hlast
  have hfits : (m.dir.take 255).length + [(47 : UInt8)].length ≤
      (mounted size allocs m).procPath.length := by
    rw [mounted_procPath, List.length_append, List.length_replicate, List.length_singleton]
    omega
  unfold pathWrite
  rw [if_pos hfits, mounted_procPath]
  show some _ = some (m.kept ++ List.replicate (256 - m.kept.length) 0)
  rw [hkept]
  generalize m.dir.take 255 = cut at *
  rw [List.take_left, List.drop_append, List.drop_replicate, List.drop_eq_nil_of_le (by omega),
    List.nil_append, List.length_append]
  congr 3
  rw [List.length_singleton]
  omega

theorem slashed_of_slash (hlast : (m.dir.take 255).getLast? = some 47) :
    slashed size allocs m =
      { mounted size allocs m with procPathLen := (m.dir.take 255).length } := by
  have hkept : m.kept = m.dir.take 255 := if_pos hlast
  unfold slashed
  rw [hkept, ← mounted_procPath]

/-- **What `proc_init` leaves** of a mounted directory. -/
theorem procInit_eq (hm : env.Mounts m) :
    procInit (Sys.boot size allocs) env =
      let s := slashed size allocs m
      if !env.opendir then some (true, (mounted size allocs m).nmPerror "proc: opendir")
      else if !s.alloc.1 then some (true, s.alloc.2.nmPerror "sk_ino_hb: calloc")
      else some (false, { s.alloc.2 with owners :=
        { s.owners with skInoHb := some (List.replicate s.owners.mapHashSz []) } }) := by
  have hne : m.dir.take 255 ≠ [] := by simpa using m.nonempty
  have hpos : (m.dir.take 255).length ≠ 0 := by simpa using hne
  unfold procInit
  rw [getProcMountPath_accepts hm]
  dsimp only
  rw [mounted_opened, if_neg (by decide), if_neg hpos]
  cases env.opendir with
  | false => rfl
  | true =>
      by_cases hlast : (m.dir.take 255).getLast? = some 47
      · -- The directory ends in a slash, and nothing is written.
        have hslash := (mounted_last size allocs m).mpr hlast
        rw [if_neg (by decide), if_pos hslash, if_pos hslash, slashed_of_slash hlast]
        rfl
      · have hslash := fun h => hlast ((mounted_last size allocs m).mp h)
        have hlen : (slashed size allocs m).procPathLen = (m.dir.take 255).length + 1 := by
          show (withSlash (m.dir.take 255)).length = _
          rw [withSlash, if_neg hlast, List.length_append, List.length_singleton]
        rw [if_neg (by decide), if_neg hslash, if_neg hslash, mounted_slash hlast, ← hlen]
        rfl

/-- In each of its ways `proc_init` stays inside `proc_path`. -/
theorem procInit_isSome (hm : env.Mounts m) : (procInit (Sys.boot size allocs) env).isSome := by
  rw [procInit_eq hm]
  dsimp only
  split_ifs <;> rfl

end

/-! ## The paths that are opened -/

/-- The paths that the body of the loop of `build_sk_proc_map` and `get_comm` open for an entry,
in the places of `procVisit`. -/
def procVisitOpens (fs : ProcFs) (len : Nat) (path : List UInt8) (d : ProcEnt) :
    Option (List (List UInt8)) :=
  if !d.isDir then some []
  else do
    let ds := pidDigits d.dName
    let path ← pathWrite path len ds
    if ds.length < d.dName.length then return []
    else
      let p2 := len + ds.length
      let path ← pathWrite path p2 (bytes "/fd" ++ [0])
      match fs.openFd (openedPath path) with
      | none => return [openedPath path]
      | some _ =>
          let comm ← pathWrite path p2 (bytes "/comm" ++ [0])
          return [openedPath path, openedPath comm]

/-- The paths that ought to be opened for a process below `pre`. -/
def procPaths (fs : ProcFs) (pre : List UInt8) (d : ProcEnt) : List (List UInt8) :=
  if (fs.openFd (fdPath pre d)).isSome then [fdPath pre d, commPath pre d] else [fdPath pre d]

section

variable {fs : ProcFs} {pre path : List UInt8} {d : ProcEnt}

theorem getComm_isSome_iff (path : List UInt8) (fs : ProcFs) (p : Nat) :
    (getComm path fs p).isSome ↔ (pathWrite path p (bytes "/comm" ++ [0])).isSome := by
  unfold getComm
  cases hw : pathWrite path p (bytes "/comm" ++ [0]) with
  | none => exact Iff.rfl
  | some path₁ =>
      simp only [Option.bind_eq_bind, Option.bind_some]
      split
      · exact Iff.rfl
      · split <;> exact Iff.rfl

/-- Both leave `proc_path` for the same entries. -/
theorem procVisitOpens_isSome (fs : ProcFs) (len : Nat) (path : List UInt8) (d : ProcEnt) :
    (procVisitOpens fs len path d).isSome = (procVisit fs len path d).isSome := by
  unfold procVisitOpens procVisit
  cases d.isDir with
  | false => rfl
  | true =>
      dsimp only
      rw [if_neg (by decide), if_neg (by decide)]
      cases pathWrite path len (pidDigits d.dName) with
      | none => rfl
      | some path₁ =>
          simp only [Option.bind_eq_bind, Option.bind_some]
          split_ifs with hrest
          · rfl
          · cases pathWrite path₁ (len + (pidDigits d.dName).length) (bytes "/fd" ++ [0]) with
            | none => rfl
            | some path₂ =>
                rw [Option.bind_some, Option.bind_some]
                cases fs.openFd (openedPath path₂) with
                | none => rfl
                | some fds =>
                    have hcomm := getComm_isSome_iff path₂ fs (len + (pidDigits d.dName).length)
                    revert hcomm
                    dsimp only
                    cases getComm path₂ fs (len + (pidDigits d.dName).length) <;>
                      cases pathWrite path₂ (len + (pidDigits d.dName).length)
                        (bytes "/comm" ++ [0]) <;> simp

/-- What is opened for a process. -/
theorem procVisitOpens_some {opened : List (List UInt8)} (hpre : path.take pre.length = pre)
    (hnul : ∀ c ∈ pre, c ≠ 0) (hproc : IsProc d)
    (h : procVisitOpens fs pre.length path d = some opened) : opened = procPaths fs pre d := by
  have hrest : ¬ (pidDigits d.dName).length < d.dName.length := (isProc_iff hproc.1).mp hproc
  unfold procVisitOpens at h
  rw [hproc.1] at h
  obtain ⟨path₁, hw₁, h⟩ := bind_some h
  rw [if_neg hrest] at h
  obtain ⟨path₂, hw₂, h⟩ := bind_some h
  rw [hproc.digits] at hw₁ hw₂ h
  obtain ⟨-, hopened, hmid, -⟩ := fdPath_written hproc hpre hnul hw₁ hw₂
  rw [hopened] at h
  unfold procPaths
  cases hfd : fs.openFd (fdPath pre d) with
  | none =>
      rw [hfd] at h
      cases h
      rfl
  | some fds =>
      rw [hfd] at h
      obtain ⟨comm, hw₃, h⟩ := bind_some h
      have hcomm : openedPath comm = commPath pre d :=
        opened_behind hmid (by rw [List.length_append]) (hproc.noNul hnul) (by decide +kernel) hw₃
      rw [hcomm] at h
      cases h
      rfl

theorem procVisitOpens_fits {opened : List (List UInt8)} (hpath : path.length = 256)
    (hpre : path.take pre.length = pre) (hnul : ∀ c ∈ pre, c ≠ 0)
    (h : procVisitOpens fs pre.length path d = some opened) : PathFits fs pre d := by
  have hsome := procVisitOpens_isSome fs pre.length path d
  rw [h] at hsome
  obtain ⟨⟨v, path'⟩, hv⟩ := Option.isSome_iff_exists.mp hsome.symm
  exact (procVisit_step hpath hpre hnul hv).2.2.1

/-- **The paths of a process** are opened in full exactly where they fit into `proc_path`. -/
theorem procVisitOpens_iff (hpath : path.length = 256) (hpre : path.take pre.length = pre)
    (hnul : ∀ c ∈ pre, c ≠ 0) (hproc : IsProc d) :
    procVisitOpens fs pre.length path d = some (procPaths fs pre d) ↔ PathFits fs pre d := by
  constructor
  · exact procVisitOpens_fits hpath hpre hnul
  · intro hfits
    have hsome := procVisitOpens_isSome fs pre.length path d
    obtain ⟨r, hr⟩ := procVisit_isSome hpath hpre hnul hfits
    rw [hr] at hsome
    obtain ⟨opened, h⟩ := Option.isSome_iff_exists.mp hsome
    rw [h, procVisitOpens_some hpre hnul hproc h]

end

end Sockmon

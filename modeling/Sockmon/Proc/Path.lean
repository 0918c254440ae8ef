import Sockmon.System.Main

set_option autoImplicit false

/-! # The path of the proc file system

`proc_path` starts with the directory `proc_init` has found, ended by a slash; the scan writes
the rest of each path behind that. The part that stays has no NUL in it and lies inside the
array (`PathSound`), so that a path written behind it is the path that is opened.
-/

namespace Sockmon

/-- `proc_path` has its 256 bytes, of which the first `proc_path_len` are no NULs. -/
structure PathSound (s : Sys) : Prop where
  length : s.procPath.length = 256
  len_le : s.procPathLen ≤ 256
  noNul : ∀ c ∈ s.procPath.take s.procPathLen, c ≠ 0

/-- The part of `proc_path` that stays. -/
def procPrefix (s : Sys) : List UInt8 := s.procPath.take s.procPathLen

section

variable {s t : Sys}

/-- The path is what it was if neither it nor the length changed. -/
theorem pathSound_of_eq (hs : PathSound s) (hpath : t.procPath = s.procPath)
    (hlen : t.procPathLen = s.procPathLen) : PathSound t := by
  refine ⟨?_, ?_, ?_⟩
  · rw [hpath]
    exact hs.length
  · rw [hlen]
    exact hs.len_le
  · rw [hpath, hlen]
    exact hs.noNul

theorem procPrefix_of_eq (hpath : t.procPath = s.procPath) (hlen : t.procPathLen = s.procPathLen) :
    procPrefix t = procPrefix s := by
  unfold procPrefix
  rw [hpath, hlen]

theorem procPrefix_length (hs : PathSound s) : (procPrefix s).length = s.procPathLen := by
  unfold procPrefix
  rw [List.length_take, hs.length]
  have := hs.len_le
  omega

theorem procPrefix_take (hs : PathSound s) :
    s.procPath.take (procPrefix s).length = procPrefix s := by
  rw [procPrefix_length hs]
  rfl

end

/-! ## Writing -/

theorem pathWrite_some {path path' bs : List UInt8} {off : Nat}
    (h : pathWrite path off bs = some path') : off + bs.length ≤ path.length ∧
      path'.length = path.length ∧ path'.take (off + bs.length) = path.take off ++ bs := by
  unfold pathWrite at h
  split at h
  · rename_i hle
    cases h
    have hoff : (path.take off).length = off := by
      rw [List.length_take]
      omega
    refine ⟨hle, ?_, ?_⟩
    · simp only [List.length_append, List.length_drop, hoff]
      omega
    · rw [List.take_append_of_le_length (by rw [List.length_append, hoff]), List.take_of_length_le]
      rw [List.length_append, hoff]
  · cases h

theorem pathWrite_fits {path bs : List UInt8} {off : Nat} (h : off + bs.length ≤ path.length) :
    ∃ path', pathWrite path off bs = some path' := by
  unfold pathWrite
  rw [if_pos h]
  exact ⟨_, rfl⟩

/-- The prefix before what is written stays. -/
theorem pathWrite_take {path path' bs : List UInt8} {off k : Nat}
    (h : pathWrite path off bs = some path') (hk : k ≤ off) : path'.take k = path.take k := by
  obtain ⟨hle, -, htake⟩ := pathWrite_some h
  calc path'.take k = (path'.take (off + bs.length)).take k := by
        rw [List.take_take, Nat.min_eq_left (by omega)]
    _ = (path.take off ++ bs).take k := by rw [htake]
    _ = (path.take off).take k := by
        rw [List.take_append_of_le_length]
        rw [List.length_take]
        omega
    _ = path.take k := by rw [List.take_take, Nat.min_eq_left hk]

/-! ## The start -/

theorem getProcMountPath_ok {s t : Sys} {env : ProcInitEnv}
    (h : getProcMountPath s env = (false, t)) : ∃ dir, t = (stpncpyPath s dir).1 := by
  unfold getProcMountPath at h
  split at h
  · cases h
  · split at h
    · cases h
    · rename_i me _
      dsimp only at h
      split at h
      · cases h
      · cases h
        exact ⟨me.2, rfl⟩

/-- What `proc_init` leaves when it succeeds: behind the directory there is a slash, and the
table is allocated. -/
theorem procInit_ok {s t : Sys} {env : ProcInitEnv} (h : procInit s env = some (false, t)) :
    ∃ dir path len allocs,
      t = { s with
        procPath := path, procPathLen := len, allocs
        owners := { s.owners with skInoHb := some (List.replicate s.owners.mapHashSz []) } } ∧
      ((path = (stpncpyPath s dir).1.procPath ∧ len = (openedPath path).length) ∨
        ∃ k, k = (openedPath (stpncpyPath s dir).1.procPath).length ∧ len = k + 1 ∧
          pathWrite (stpncpyPath s dir).1.procPath k [47] = some path) := by
  unfold procInit at h
  cases hm : getProcMountPath s env with
  | mk ret u =>
      rw [hm] at h
      cases ret with
      | true => cases h
      | false =>
          obtain ⟨dir, rfl⟩ := getProcMountPath_ok hm
          simp only [Bool.false_eq_true, if_false] at h
          split at h
          · cases h
          · split at h
            · cases h
            · split at h
              · -- The directory ends in a slash.
                obtain ⟨path, hpath, h⟩ := bind_some h
                cases hpath
                split at h
                · cases h
                · cases h
                  exact ⟨dir, _, _, _, rfl, Or.inl ⟨rfl, rfl⟩⟩
              · obtain ⟨path, hpath, h⟩ := bind_some h
                split at h
                · cases h
                · cases h
                  exact ⟨dir, _, _, _, rfl, Or.inr ⟨_, rfl, rfl, hpath⟩⟩

/-- **The start**: of the state after `window_init` only the path and the table have changed. -/
theorem Start.state_eq (b : Start) : ∃ path len allocs,
    b.state = { Sys.boot b.size b.allocs with
      procPath := path, procPathLen := len, allocs
      owners := ⟨1024, 10, some (List.replicate 1024 []), 0⟩ } := by
  obtain ⟨dir, path, len, allocs, heq, -⟩ := procInit_ok b.ok
  exact ⟨path, len, allocs, heq⟩

theorem Start.pc (b : Start) : b.state.pc = .top := by
  obtain ⟨path, len, allocs, heq⟩ := b.state_eq
  exact congrArg Sys.pc heq

theorem stpncpyPath_length {s : Sys} {dir : List UInt8} (h : s.procPath.length = 256) :
    (stpncpyPath s dir).1.procPath.length = 256 := by
  show (dir.take 255 ++ List.replicate (255 - (dir.take 255).length) 0 ++
    s.procPath.drop 255).length = 256
  simp only [List.length_append, List.length_replicate, List.length_drop, h, List.length_take]
  omega

theorem openedPath_take (path : List UInt8) :
    path.take (openedPath path).length = openedPath path :=
  List.prefix_iff_eq_take.mp (List.takeWhile_prefix _) |>.symm

theorem openedPath_ne_zero {path : List UInt8} : ∀ c ∈ openedPath path, c ≠ 0 := by
  intro c hc
  have := List.mem_takeWhile_imp hc
  simpa using this

theorem pathSound_start (b : Start) : PathSound b.state := by
  obtain ⟨dir, path, len, allocs, heq, hpath⟩ := procInit_ok b.ok
  have hboot : (Sys.boot b.size b.allocs).procPath.length = 256 := List.length_replicate
  have hlen : (stpncpyPath (Sys.boot b.size b.allocs) dir).1.procPath.length = 256 :=
    stpncpyPath_length hboot
  rw [heq]
  rcases hpath with ⟨rfl, rfl⟩ | ⟨k, rfl, rfl, hw⟩
  · refine ⟨hlen, ?_, ?_⟩
    · calc (openedPath _).length ≤ _ := (List.takeWhile_sublist _).length_le
        _ = 256 := hlen
    · show ∀ c ∈ List.take _ _, c ≠ 0
      rw [openedPath_take]
      exact openedPath_ne_zero
  · obtain ⟨hle, hlen', htake⟩ := pathWrite_some hw
    refine ⟨hlen'.trans hlen, ?_, ?_⟩
    · calc _ ≤ _ := hle
        _ = 256 := hlen
    · intro c hc
      have hc : c ∈ openedPath (stpncpyPath (Sys.boot b.size b.allocs) dir).1.procPath ++ [47] := by
        rw [← openedPath_take, ← htake]
        exact hc
      rcases List.mem_append.mp hc with hc | hc
      · exact openedPath_ne_zero c hc
      · rw [List.mem_singleton.mp hc]
        decide

end Sockmon

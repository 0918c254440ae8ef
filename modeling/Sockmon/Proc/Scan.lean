import Sockmon.Proc.Path
import Sockmon.Proc.Table

set_option autoImplicit false

/-! # The scan of the proc file system

What the scan does with one entry of the listing (`VisitStep`), in terms of the paths it opens,
and where it can do so without leaving `proc_path` (`PathFits`). A scan adds the sockets it
finds in the order of the listing, up to the failure if it fails (`ScanStep`).
-/

namespace Sockmon

open Transition

/-! ## The name of a process -/

/-- The first line of the file, up to a NUL, fits in a `comm` with its NUL. -/
def commReads (file : Option (Option (List UInt8))) : Bool :=
  match file with
  | some (some content) =>
      content != [] && (content.takeWhile fun c => c != 0 && c != 10).length < TASK_COMM_LEN
  | _ => false

theorem commLoop_ok (s comm : List UInt8) : (commLoop s comm).2 = true ↔
    comm.length + (s.takeWhile fun c => c != 0 && c != 10).length < TASK_COMM_LEN := by
  induction s generalizing comm with
  | nil => simp [commLoop]
  | cons c s ih =>
      rw [commLoop]
      split_ifs with hfull h0 h10
      · simp
        omega
      · subst h0
        simpa using hfull
      · subst h10
        simpa using hfull
      · rw [ih, List.takeWhile_cons_of_pos (by simp [h0, h10])]
        simp only [List.length_append, List.length_cons, List.length_nil]
        omega

/-- `fgets` reads the line with its newline; that ends the name like the end of the file. -/
theorem takeWhile_line (content end_ : List UInt8) (hend : end_ = [] ∨ end_ = [10]) :
    ((content.takeWhile (· != 10)) ++ end_).takeWhile (fun c => c != 0 && c != 10) =
      content.takeWhile fun c => c != 0 && c != 10 := by
  induction content with
  | nil => rcases hend with rfl | rfl <;> rfl
  | cons c content ih =>
      by_cases h10 : c = 10
      · subst h10
        rcases hend with rfl | rfl <;> rfl
      · rw [List.takeWhile_cons_of_pos (by simpa using h10), List.cons_append]
        by_cases h0 : c = 0
        · subst h0
          rfl
        · rw [List.takeWhile_cons_of_pos (by simp [h0, h10]),
            List.takeWhile_cons_of_pos (by simp [h0, h10]), ih]

/-- The name in what `fgets` has read. -/
theorem fgets32_name {content buf : List UInt8} (h : fgets32 content = some buf) :
    content ≠ [] ∧ (buf.takeWhile (· != 0)).takeWhile (fun c => c != 0 && c != 10) =
      (content.takeWhile fun c => c != 0 && c != 10).take 31 := by
  unfold fgets32 at h
  dsimp only at h
  split at h
  · cases h
  · rename_i hne
    obtain rfl := Option.some.inj h
    refine ⟨hne, ?_⟩
    have hname : ∀ l : List UInt8, (l.takeWhile (· != 0)).takeWhile (fun c => c != 0 && c != 10) =
        l.takeWhile fun c => c != 0 && c != 10 := by
      intro l
      rw [List.takeWhile_takeWhile]
      congr 1
      funext c
      rw [Bool.eq_iff_iff]
      simp only [decide_eq_true_eq, Bool.and_eq_true]
      exact ⟨fun h => h.1, fun h => ⟨h, h.1⟩⟩
    have hline : ((if (content.takeWhile (· != 10)).length < content.length then
        content.takeWhile (· != 10) ++ [10] else content.takeWhile (· != 10)).takeWhile
          fun c => c != 0 && c != 10) = content.takeWhile fun c => c != 0 && c != 10 := by
      split
      · exact takeWhile_line content [10] (Or.inr rfl)
      · have h := takeWhile_line content [] (Or.inl rfl)
        rwa [List.append_nil] at h
    rw [hname, ← List.take_takeWhile, hline]

theorem fgets32_comm {content buf : List UInt8} (h : fgets32 content = some buf) :
    content ≠ [] ∧ ((commLoop (buf.takeWhile (· != 0)) []).2 = true ↔
      (content.takeWhile fun c => c != 0 && c != 10).length < TASK_COMM_LEN) := by
  obtain ⟨hne, hname⟩ := fgets32_name h
  refine ⟨hne, ?_⟩
  rw [commLoop_ok, hname, List.length_take]
  unfold TASK_COMM_LEN
  simp only [List.length_nil]
  omega

/-! ## One entry -/

/-- The entry is the directory of a process. -/
def IsProc (d : ProcEnt) : Prop := d.isDir = true ∧ ∀ c ∈ d.dName, isdigit c.toNat = true

/-- The paths that are opened for the process, behind the part of `proc_path` that stays. -/
def fdPath (pre : List UInt8) (d : ProcEnt) : List UInt8 := pre ++ d.dName ++ bytes "/fd"

def commPath (pre : List UInt8) (d : ProcEnt) : List UInt8 := pre ++ d.dName ++ bytes "/comm"

/-- What the loop finds of an entry. -/
inductive VisitStep (fs : ProcFs) (pre : List UInt8) (d : ProcEnt) : Visit → Prop
  | other : ¬ IsProc d → VisitStep fs pre d .skip
  /-- The `fd` directory cannot be opened. -/
  | closed : IsProc d → fs.openFd (fdPath pre d) = none → VisitStep fs pre d .skip
  /-- The `comm` file cannot be opened or read, or the name in it is too long. -/
  | odd (fds) : IsProc d → fs.openFd (fdPath pre d) = some fds →
      commReads (fs.openComm (commPath pre d)) = false → VisitStep fs pre d .fail
  | links (fds comm) : IsProc d → fs.openFd (fdPath pre d) = some fds →
      commReads (fs.openComm (commPath pre d)) = true →
      VisitStep fs pre d (.links (pidOf d.dName) comm fds)

/-- The paths written for the entry lie inside `proc_path`, their NULs included. -/
def PathFits (fs : ProcFs) (pre : List UInt8) (d : ProcEnt) : Prop :=
  d.isDir = true → pre.length + (pidDigits d.dName).length ≤ 256 ∧
    (IsProc d → pre.length + d.dName.length + 4 ≤ 256 ∧
      ((fs.openFd (fdPath pre d)).isSome → pre.length + d.dName.length + 6 ≤ 256))

theorem isProc_iff {d : ProcEnt} (hdir : d.isDir = true) :
    IsProc d ↔ ¬ (pidDigits d.dName).length < d.dName.length := by
  unfold IsProc pidDigits
  rw [and_iff_right hdir, ← List.takeWhile_eq_self_iff (p := fun c : UInt8 => isdigit c.toNat)]
  have hpre := List.takeWhile_prefix (l := d.dName) (fun c : UInt8 => isdigit c.toNat)
  constructor
  · intro h
    rw [h]
    omega
  · intro h
    refine hpre.eq_of_length ?_
    have := hpre.length_le
    omega

theorem IsProc.digits {d : ProcEnt} (h : IsProc d) : pidDigits d.dName = d.dName :=
  List.takeWhile_eq_self_iff.mpr h.2

/-- A path without a NUL that is written behind a prefix without one is opened as it is. -/
theorem openedPath_eq {path pre bs : List UInt8} (h : path.take (pre.length + bs.length + 1) =
    pre ++ bs ++ [0]) (hpre : ∀ c ∈ pre, c ≠ 0) (hbs : ∀ c ∈ bs, c ≠ 0) :
    openedPath path = pre ++ bs := by
  unfold openedPath
  rw [← List.take_append_drop (pre.length + bs.length + 1) path, h, List.append_assoc,
    List.takeWhile_append_of_pos]
  · simp
  · intro c hc
    rcases List.mem_append.mp hc with hc | hc
    · simpa using hpre c hc
    · simpa using hbs c hc

section

variable {fs : ProcFs} {pre path path' : List UInt8} {d : ProcEnt}

/-- Writing behind a prefix. -/
theorem pathWrite_behind {mid bs : List UInt8} {off : Nat}
    (h : pathWrite path off bs = some path') (hmid : path.take off = mid) :
    path'.length = path.length ∧ path'.take (off + bs.length) = mid ++ bs := by
  obtain ⟨-, hlen, htake⟩ := pathWrite_some h
  rw [hmid] at htake
  exact ⟨hlen, htake⟩

/-- A string written behind a prefix without a NUL is opened with it. -/
theorem opened_behind {mid bs : List UInt8} {off : Nat} (hmid : path.take off = mid)
    (hoff : mid.length = off) (hnul : ∀ c ∈ mid, c ≠ 0) (hbs : ∀ c ∈ bs, c ≠ 0)
    (h : pathWrite path off (bs ++ [0]) = some path') : openedPath path' = mid ++ bs := by
  obtain ⟨-, htake⟩ := pathWrite_behind h hmid
  refine openedPath_eq ?_ hnul hbs
  rw [hoff]
  calc path'.take (off + bs.length + 1) = path'.take (off + (bs ++ [0]).length) := by
        rw [List.length_append, List.length_singleton, Nat.add_assoc]
    _ = mid ++ (bs ++ [0]) := htake
    _ = mid ++ bs ++ [0] := (List.append_assoc _ _ _).symm

theorem getComm_step {p : Nat} {ret : Bool} {comm mid : List UInt8}
    (hmid : path.take p = mid) (hp : mid.length = p) (hnul : ∀ c ∈ mid, c ≠ 0)
    (h : getComm path fs p = some (ret, comm, path')) :
    path'.length = path.length ∧ (∀ k ≤ p, path'.take k = path.take k) ∧
      p + 6 ≤ path.length ∧ ret = !commReads (fs.openComm (mid ++ bytes "/comm")) := by
  obtain ⟨path₁, hw, h⟩ := bind_some h
  obtain ⟨hle, hlen, -⟩ := pathWrite_some hw
  rw [opened_behind hmid hp hnul (by decide +kernel) hw] at h
  have hkeep : ∀ k ≤ p, path₁.take k = path.take k := fun k hk => pathWrite_take hw hk
  unfold commReads
  cases hfile : fs.openComm (mid ++ bytes "/comm") with
  | none =>
      rw [hfile] at h
      cases h
      exact ⟨hlen, hkeep, hle, rfl⟩
  | some file =>
      rw [hfile] at h
      dsimp only at h
      cases file with
      | none =>
          cases h
          exact ⟨hlen, hkeep, hle, rfl⟩
      | some content =>
          cases hbuf : fgets32 content with
          | none =>
              rw [Option.bind_some, hbuf] at h
              cases h
              have hempty : content = [] := by
                by_contra hne
                unfold fgets32 at hbuf
                rw [if_neg hne] at hbuf
                cases hbuf
              refine ⟨hlen, hkeep, hle, ?_⟩
              rw [hempty]
              rfl
          | some buf =>
              rw [Option.bind_some, hbuf] at h
              cases h
              obtain ⟨hne, hok⟩ := fgets32_comm hbuf
              refine ⟨hlen, hkeep, hle, ?_⟩
              rw [Bool.not_inj_iff, Bool.eq_iff_iff, hok]
              simp [hne]

theorem IsProc.noNul (h : IsProc d) (hnul : ∀ c ∈ pre, c ≠ 0) : ∀ c ∈ pre ++ d.dName, c ≠ 0 := by
  intro c hc
  rcases List.mem_append.mp hc with hc | hc
  · exact hnul c hc
  · have hdigit := h.2 c hc
    rintro rfl
    simp [isdigit] at hdigit

/-- The path of the `fd` directory, as the loop writes it. -/
theorem fdPath_written {path₁ path₂ : List UInt8} (hproc : IsProc d)
    (hpre : path.take pre.length = pre) (hnul : ∀ c ∈ pre, c ≠ 0)
    (hw₁ : pathWrite path pre.length d.dName = some path₁)
    (hw₂ : pathWrite path₁ (pre.length + d.dName.length) (bytes "/fd" ++ [0]) = some path₂) :
    path₂.length = path.length ∧ openedPath path₂ = fdPath pre d ∧
      path₂.take (pre.length + d.dName.length) = pre ++ d.dName ∧
        path₂.take pre.length = pre := by
  obtain ⟨hlen₁, htake₁⟩ := pathWrite_behind hw₁ hpre
  obtain ⟨hlen₂, htake₂⟩ := pathWrite_behind hw₂ htake₁
  have hkeep : ∀ k ≤ pre.length + d.dName.length, path₂.take k = path₁.take k :=
    fun k hk => pathWrite_take hw₂ hk
  refine ⟨hlen₂.trans hlen₁, ?_, (hkeep _ (le_refl _)).trans htake₁, ?_⟩
  · exact opened_behind htake₁ (by rw [List.length_append]) (hproc.noNul hnul)
      (by decide +kernel) hw₂
  · calc path₂.take pre.length = path₁.take pre.length := hkeep _ (by omega)
      _ = path.take pre.length := pathWrite_take hw₁ (le_refl _)
      _ = pre := hpre

/-- **One entry** is dealt with in one of the ways listed, and `proc_path` keeps its prefix. -/
theorem procVisit_step {v : Visit} (hpath : path.length = 256) (hpre : path.take pre.length = pre)
    (hnul : ∀ c ∈ pre, c ≠ 0) (h : procVisit fs pre.length path d = some (v, path')) :
    path'.length = 256 ∧ path'.take pre.length = pre ∧ PathFits fs pre d ∧
      VisitStep fs pre d v := by
  unfold procVisit at h
  by_cases hdir : d.isDir = true
  · rw [hdir] at h
    obtain ⟨path₁, hw₁, h⟩ := bind_some h
    obtain ⟨hle₁, hlen₁, -⟩ := pathWrite_some hw₁
    rw [hpath] at hle₁ hlen₁
    split at h
    · rename_i hrest
      cases h
      -- the name goes on behind its digits: no process, and nothing is opened for it
      have hno : ¬ IsProc d := fun hp => (isProc_iff hdir).mp hp hrest
      exact ⟨hlen₁, (pathWrite_take hw₁ (le_refl _)).trans hpre,
        fun _ => ⟨hle₁, fun hp => absurd hp hno⟩, .other hno⟩
    · rename_i hrest
      have hproc : IsProc d := (isProc_iff hdir).mpr hrest
      have hds := hproc.digits
      obtain ⟨path₂, hw₂, h⟩ := bind_some h
      rw [hds] at hw₁ hw₂ hle₁ h
      -- "/fd" goes behind the name, and its NUL has to fit as well
      obtain ⟨h4, -, -⟩ := pathWrite_some hw₂
      rw [hlen₁] at h4
      have h4 : pre.length + d.dName.length + 4 ≤ 256 := h4
      obtain ⟨hlen₂, hopened, hmid, hpre₂⟩ := fdPath_written hproc hpre hnul hw₁ hw₂
      rw [hpath] at hlen₂
      rw [hopened] at h
      cases hfd : fs.openFd (fdPath pre d) with
      | none =>
          rw [hfd] at h
          cases h
          refine ⟨hlen₂, hpre₂, fun _ => ⟨by rw [hds]; exact hle₁, fun _ => ⟨h4, ?_⟩⟩,
            .closed hproc hfd⟩
          rw [hfd]
          nofun
      | some fds =>
          rw [hfd] at h
          obtain ⟨⟨ret, comm, path₃⟩, hcomm, h⟩ := bind_some h
          obtain ⟨hlen₃, hkeep₃, h6, hret⟩ := getComm_step hmid (by rw [List.length_append])
            (hproc.noNul hnul) hcomm
          rw [hlen₂] at hlen₃ h6
          have hpre₃ : path₃.take pre.length = pre := (hkeep₃ _ (by omega)).trans hpre₂
          have hfits : PathFits fs pre d :=
            fun _ => ⟨by rw [hds]; exact hle₁, fun _ => ⟨h4, fun _ => h6⟩⟩
          -- `get_comm` writes over "/fd"; a name that is not read skips the links
          cases hreads : commReads (fs.openComm (pre ++ d.dName ++ bytes "/comm")) with
          | true =>
              rw [hreads] at hret
              subst hret
              cases h
              exact ⟨hlen₃, hpre₃, hfits, .links fds comm hproc hfd hreads⟩
          | false =>
              rw [hreads] at hret
              subst hret
              cases h
              exact ⟨hlen₃, hpre₃, hfits, .odd fds hproc hfd hreads⟩
  · rw [Bool.not_eq_true] at hdir
    rw [hdir] at h
    cases h
    refine ⟨hpath, hpre, fun hd => ?_, .other fun hp => ?_⟩
    · rw [hdir] at hd
      cases hd
    · rw [hp.1] at hdir
      cases hdir

theorem getComm_isSome {f : ProcFs} {p : Nat} (h : p + 6 ≤ path.length) :
    ∃ r, getComm path f p = some r := by
  have hfits : p + (bytes "/comm" ++ [0]).length ≤ path.length := h
  obtain ⟨path₁, hw⟩ := pathWrite_fits hfits
  unfold getComm
  rw [hw]
  simp only [Option.bind_eq_bind, Option.bind_some]
  split
  · exact ⟨_, rfl⟩
  · split <;> exact ⟨_, rfl⟩

/-- Where the paths fit, the entry is dealt with. -/
theorem procVisit_isSome (hpath : path.length = 256) (hpre : path.take pre.length = pre)
    (hnul : ∀ c ∈ pre, c ≠ 0) (hfits : PathFits fs pre d) :
    ∃ r, procVisit fs pre.length path d = some r := by
  unfold procVisit
  by_cases hdir : d.isDir = true
  -- the three writes to `proc_path` are the only undefined steps, in source order
  · obtain ⟨h1, hfits⟩ := hfits hdir
    rw [← hpath] at h1
    obtain ⟨path₁, hw₁⟩ := pathWrite_fits h1
    rw [hdir]
    simp only [Bool.not_true, Bool.false_eq_true, if_false, Option.bind_eq_bind, hw₁,
      Option.bind_some]
    split
    · exact ⟨_, rfl⟩
    · rename_i hrest
      have hproc : IsProc d := (isProc_iff hdir).mpr hrest
      obtain ⟨h4, h6⟩ := hfits hproc
      have hlen₁ : path₁.length = 256 := (pathWrite_some hw₁).2.1.trans hpath
      rw [hproc.digits] at hw₁ ⊢
      have h4 : pre.length + d.dName.length + (bytes "/fd" ++ [0]).length ≤ path₁.length := by
        rw [hlen₁]
        exact h4
      obtain ⟨path₂, hw₂⟩ := pathWrite_fits h4
      obtain ⟨hlen₂, hopened, -⟩ := fdPath_written hproc hpre hnul hw₁ hw₂
      rw [hpath] at hlen₂
      rw [hw₂, Option.bind_some, hopened]
      cases hfd : fs.openFd (fdPath pre d) with
      | none => exact ⟨_, rfl⟩
      | some fds =>
          have h6 : pre.length + d.dName.length + 6 ≤ path₂.length := by
            rw [hlen₂]
            exact h6 (by rw [hfd]; rfl)
          obtain ⟨⟨ret, comm, path₃⟩, hcomm⟩ := getComm_isSome (f := fs) h6
          exact ⟨_, by rw [hcomm]; rfl⟩
  · rw [Bool.not_eq_true] at hdir
    rw [hdir]
    exact ⟨_, rfl⟩

end

/-! ## The loops -/

/-- From `s` to `t` the entries `os` were added, or the first of them up to a failure. -/
structure ScanStep (os : List SkOwner) (ret : Bool) (s t : Sys) : Prop where
  owners : ∃ os', os' <+: os ∧ exec chainStep os' s.owners = some t.owners ∧
    (ret = false → os' = os)
  len : t.procPathLen = s.procPathLen

/-- The scan may go on. -/
theorem ScanStep.trans {os os' : List SkOwner} {ret : Bool} {s t u : Sys}
    (h : ScanStep os false s t) (h' : ScanStep os' ret t u) : ScanStep (os ++ os') ret s u := by
  obtain ⟨os₁, -, hos₁, heq⟩ := h.owners
  obtain rfl := heq rfl
  obtain ⟨os₂, hpre, hos₂, heq'⟩ := h'.owners
  refine ⟨⟨os₁ ++ os₂, (List.prefix_append_right_inj _).mpr hpre,
    exec_append.mpr ⟨t.owners, hos₁, hos₂⟩, fun hret => ?_⟩, h'.len.trans h.len⟩
  rw [heq' hret]

/-- The scan may stop. -/
theorem ScanStep.stop {os os' : List SkOwner} {s t : Sys} (h : ScanStep os true s t) :
    ScanStep (os ++ os') true s t := by
  obtain ⟨os₁, hpre, hos₁, -⟩ := h.owners
  exact ⟨⟨os₁, hpre.trans (List.prefix_append _ _), hos₁, nofun⟩, h.len⟩

theorem addSkIno_scan {s t : Sys} {inode : Nat} {pid : Int} {comm : List UInt8} {ret : Bool}
    (h : addSkIno s inode pid comm = some (ret, t)) :
    t.procPath = s.procPath ∧ ScanStep [⟨inode, pid, comm⟩] ret s t := by
  rcases addSkIno_cases h with ⟨rfl, m, as, hm, -, rfl⟩ | ⟨rfl, -, rfl⟩
  · exact ⟨rfl, ⟨_, List.prefix_rfl, exec_cons.mpr ⟨m, hm, rfl⟩, fun _ => rfl⟩, rfl⟩
  · exact ⟨rfl, ⟨[], List.nil_prefix, rfl, nofun⟩, rfl⟩

theorem skInoMakeMap_scan {pid : Int} {comm : List UInt8} {ents : List (Option FdEnt)}
    {s t : Sys} {ret : Bool} (h : skInoMakeMap pid comm ents s = some (ret, t)) :
    t.procPath = s.procPath ∧ ScanStep ((linkInodes ents).map (⟨·, pid, comm⟩)) ret s t := by
  refine skInoMakeMap_rule (R := fun os ret s t =>
    t.procPath = s.procPath ∧ ScanStep os ret s t) ?_ ?_ ?_ h
  · exact fun s => ⟨rfl, ⟨[], List.prefix_rfl, rfl, fun _ => rfl⟩, rfl⟩
  · intro s t u inode os ret ht hrest
    obtain ⟨hpath, hstep⟩ := addSkIno_scan ht
    exact ⟨hrest.1.trans hpath, hstep.trans hrest.2⟩
  · intro s t inode os ht
    obtain ⟨hpath, hstep⟩ := addSkIno_scan ht
    exact ⟨hpath, hstep.stop⟩

/-- No entry of the listing ends the scan. -/
def ScanOk (fs : ProcFs) (pre : List UInt8) (ents : List (Option ProcEnt)) : Prop :=
  ∀ d, some d ∈ ents → PathFits fs pre d ∧ ∀ fds, IsProc d →
    fs.openFd (fdPath pre d) = some fds → commReads (fs.openComm (commPath pre d)) = true

/-- **One entry**, in a state of the scan. -/
theorem PathSound.visit {fs : ProcFs} {d : ProcEnt} {v : Visit} {path : List UInt8} {s : Sys}
    (hs : PathSound s) (h : procVisit fs s.procPathLen s.procPath d = some (v, path)) :
    PathSound { s with procPath := path } ∧
      procPrefix { s with procPath := path } = procPrefix s ∧
      PathFits fs (procPrefix s) d ∧ VisitStep fs (procPrefix s) d v := by
  rw [← procPrefix_length hs] at h
  obtain ⟨hlen, hkeep, hfits, hstep⟩ := procVisit_step hs.length (procPrefix_take hs) hs.noNul h
  rw [procPrefix_length hs] at hkeep
  refine ⟨⟨hlen, hs.len_le, ?_⟩, hkeep, hfits, hstep⟩
  show ∀ c ∈ path.take s.procPathLen, c ≠ 0
  rw [hkeep]
  exact hs.noNul

/-- **The loop over the listing** adds the sockets it finds, and if it comes to the end no entry
was one to end it. -/
theorem procLoop_scan {fs : ProcFs} {ents : List (Option ProcEnt)} {s t : Sys} {ret : Bool}
    (hs : PathSound s) (h : procLoop fs ents s = some (ret, t)) :
    ScanStep (scanned fs s.procPathLen ents s.procPath) ret s t ∧ PathSound t ∧
      procPrefix t = procPrefix s ∧ (ret = false → ScanOk fs (procPrefix s) ents) := by
  induction ents generalizing s with
  | nil =>
      cases h
      exact ⟨⟨⟨[], List.prefix_rfl, rfl, fun _ => rfl⟩, rfl⟩, hs, rfl, fun _ d hd => by cases hd⟩
  | cons d ents ih =>
      cases d with
      | none =>
          obtain ⟨hscan, hsound, hpre, hok⟩ := ih hs h
          refine ⟨hscan, hsound, hpre, fun hret d hd => ?_⟩
          exact hok hret d (by simpa using hd)
      | some d =>
          rw [procLoop] at h
          obtain ⟨⟨visit, path⟩, hvisit, h⟩ := bind_some h
          rw [scanned, hvisit]
          -- The state in which the loop goes on has the same prefix.
          obtain ⟨hsound, hpre, hfits, hstep⟩ := hs.visit hvisit
          have hcons : ∀ {ents}, ScanOk fs (procPrefix s) ents → (∀ fds, IsProc d →
              fs.openFd (fdPath (procPrefix s) d) = some fds →
                commReads (fs.openComm (commPath (procPrefix s) d)) = true) →
              ScanOk fs (procPrefix s) (some d :: ents) := by
            intro ents hrest hd e he
            rcases List.mem_cons.mp he with he | he
            · obtain rfl := Option.some.inj he
              exact ⟨hfits, hd⟩
            · exact hrest e he
          cases visit with
          | fail =>
              cases h
              exact ⟨⟨⟨[], List.prefix_rfl, rfl, by simp⟩, rfl⟩, hsound, hpre, by simp⟩
          | skip =>
              obtain ⟨hscan, hsound', hpre', hok⟩ := ih hsound h
              refine ⟨⟨hscan.owners, hscan.len⟩, hsound', hpre'.trans hpre, fun hret => ?_⟩
              refine hcons (hpre ▸ hok hret) fun fds hproc hfd => ?_
              cases hstep with
              | other hno => exact absurd hproc hno
              | closed _ hnone =>
                  rw [hnone] at hfd
                  cases hfd
          | links pid comm fds =>
              obtain ⟨⟨r, s₁⟩, hs₁, h⟩ := bind_some h
              obtain ⟨hpath, hmap⟩ := skInoMakeMap_scan hs₁
              have hmap' : ScanStep ((linkInodes fds).map (⟨·, pid, comm⟩)) r s s₁ :=
                ⟨hmap.owners, hmap.len⟩
              have hsound₁ : PathSound s₁ := pathSound_of_eq hsound hpath hmap.len
              have hpre₁ : procPrefix s₁ = procPrefix s :=
                (procPrefix_of_eq hpath hmap.len).trans hpre
              cases r with
              | true =>
                  cases h
                  exact ⟨hmap'.stop, hsound₁, hpre₁, by simp⟩
              | false =>
                  obtain ⟨hscan, hsound', hpre', hok⟩ := ih hsound₁ h
                  rw [hpath, hmap.len] at hscan
                  refine ⟨hmap'.trans hscan, hsound', hpre'.trans hpre₁, fun hret => ?_⟩
                  refine hcons (hpre₁ ▸ hok hret) fun _ _ _ => ?_
                  cases hstep with
                  | links _ _ _ _ hreads => exact hreads

/-- **A scan**, if the owners are asked for. -/
theorem buildSkProcMap_scan {s t : Sys} {fs : ProcFs} {ret : Bool} (hs : PathSound s)
    (h : buildSkProcMap s fs = some (ret, t)) :
    (extIsSet s.n.extReq INET_DIAG_PROC = false ∧ ret = false ∧ t = s) ∨
      (extIsSet s.n.extReq INET_DIAG_PROC = true ∧
        ScanStep (scanned fs s.procPathLen fs.listing s.procPath) ret s t ∧ PathSound t ∧
          (ret = false → ScanOk fs (procPrefix s) fs.listing)) := by
  unfold buildSkProcMap at h
  cases hreq : extIsSet s.n.extReq INET_DIAG_PROC with
  | false =>
      rw [hreq] at h
      cases h
      exact Or.inl ⟨rfl, rfl, rfl⟩
  | true =>
      rw [hreq] at h
      obtain ⟨⟨r, u⟩, hu, h⟩ := bind_some h
      obtain ⟨hscan, hsound, -, hok⟩ := procLoop_scan hs hu
      cases r with
      | true =>
          cases h
          exact Or.inr ⟨rfl, hscan, hsound, hok⟩
      | false =>
          cases h
          exact Or.inr ⟨rfl, ⟨hscan.owners, hscan.len⟩,
            ⟨hsound.length, hsound.len_le, hsound.noNul⟩, hok⟩

end Sockmon

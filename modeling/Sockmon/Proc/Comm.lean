import Sockmon.Proc.Scan

set_option autoImplicit false

/-! # The name in a comm file

`get_comm` copies a line into `comm` until the line ends or `comm` is full, and then asks for a
NUL at the place where it has stopped before it asks whether that place is in `comm`. So exactly
the lines of 16 bytes and more, which it rejects, make it read behind `comm`
(`commTouched_inside`). A shorter line is copied in full, up to a NUL in it
(`getComm_name`). Both together are `commRead_iff`.
-/

namespace Sockmon

/-! ## The bytes of `comm` that are touched -/

/-- The indices of the bytes of `comm` that the copy loop of `get_comm` stores and the test
behind it reads, from index `k` on. -/
def commTouched : List UInt8 → Nat → List Nat
  -- The test for a NUL, where the loop has stopped.
  | [], k => [k]
  | c :: s, k =>
      if TASK_COMM_LEN ≤ k then [k]
      else if c = 0 then [k]
      -- The newline is stored as a NUL.
      else if c = 10 then [k, k]
      else k :: commTouched s (k + 1)

/-- The indices that `get_comm` touches, given what `fopen` finds. -/
def getCommTouched (file : Option (Option (List UInt8))) : List Nat :=
  match file.bind (·.bind fgets32) with
  | none => []
  | some buf => commTouched (buf.takeWhile (· != 0)) 0

/-- The line, up to its newline. -/
def firstLine (content : List UInt8) : List UInt8 := content.takeWhile (· != 10)

/-- The line, up to a NUL in it. -/
def commName (content : List UInt8) : List UInt8 := content.takeWhile fun c => c != 0 && c != 10

/-- What a caller of `get_comm` relies on. -/
structure CommRead (file : Option (Option (List UInt8))) : Prop where
  inside : ∀ k ∈ getCommTouched file, k < TASK_COMM_LEN
  /-- When it returns 0. -/
  exact : ∀ fs path p comm path', getComm path fs p = some (false, comm, path') →
    fs.openComm (openedPath path') = file → comm.length = TASK_COMM_LEN ∧ 0 ∈ comm ∧
      ∃ content, file = some (some content) ∧ comm.takeWhile (· != 0) = firstLine content

/-- The file has a line that `comm` can hold, if it has any. -/
def CommShort (file : Option (Option (List UInt8))) : Prop :=
  ∀ content, file = some (some content) → content ≠ [] →
    (firstLine content).length < TASK_COMM_LEN ∧ 0 ∉ firstLine content

/-- **The copy loop** stays in `comm` exactly if it ends before `comm` is full. -/
theorem commTouched_inside (s comm : List UInt8) (hlen : comm.length ≤ TASK_COMM_LEN) :
    (∀ k ∈ commTouched s comm.length, k < TASK_COMM_LEN) ↔ (commLoop s comm).2 = true := by
  induction s generalizing comm with
  | nil => simp [commTouched, commLoop]
  | cons c s ih =>
      rw [commTouched, commLoop]
      split_ifs with hfull h0 h10
      · simp
        omega
      · simp
        omega
      · simp
        omega
      · have hnext : comm.length + 1 = (comm ++ [c]).length := by
          rw [List.length_append, List.length_singleton]
        rw [hnext, List.forall_mem_cons, ih (comm ++ [c]) (by omega),
          and_iff_right (Nat.lt_of_not_le hfull)]

theorem getCommTouched_inside (file : Option (Option (List UInt8))) :
    (∀ k ∈ getCommTouched file, k < TASK_COMM_LEN) ↔
      ∀ content, file = some (some content) → content ≠ [] →
        (commName content).length < TASK_COMM_LEN := by
  unfold getCommTouched
  cases hbuf : file.bind (·.bind fgets32) with
  | none =>
      refine iff_of_true (fun k hk => by cases hk) fun content hfile hne => ?_
      subst hfile
      have hread : fgets32 content = none := hbuf
      unfold fgets32 at hread
      rw [if_neg hne] at hread
      cases hread
  | some buf =>
      obtain ⟨content?, hfile, hbuf⟩ := Option.bind_eq_some_iff.mp hbuf
      obtain ⟨content, hcontent, hbuf⟩ := Option.bind_eq_some_iff.mp hbuf
      subst hfile hcontent
      obtain ⟨hne, hok⟩ := fgets32_comm hbuf
      have hinside := commTouched_inside (buf.takeWhile (· != 0)) [] (Nat.zero_le _)
      refine hinside.trans (hok.trans ⟨fun h c hc _ => ?_, fun h => h content rfl hne⟩)
      cases hc
      exact h

/-! ## What is copied -/

theorem commLoop_name {s comm : List UInt8} (h : (commLoop s comm).2 = true) :
    (commLoop s comm).1 = comm ++ commName s := by
  induction s generalizing comm with
  | nil => simp [commLoop, commName]
  | cons c s ih =>
      rw [commLoop] at h ⊢
      unfold commName
      split_ifs at h ⊢ with hfull h0 h10
      · simp [h0]
      · simp [h10]
      · rw [ih h, List.takeWhile_cons_of_pos (by simp [h0, h10]), List.append_assoc]
        rfl

/-- **What `get_comm` returns** when it succeeds: the line up to a NUL in it, and NULs. -/
theorem getComm_name {fs : ProcFs} {path path' comm : List UInt8} {p : Nat}
    (h : getComm path fs p = some (false, comm, path')) :
    ∃ content, fs.openComm (openedPath path') = some (some content) ∧ content ≠ [] ∧
      (commName content).length < TASK_COMM_LEN ∧
      comm = commName content ++ List.replicate (TASK_COMM_LEN - (commName content).length) 0 := by
  obtain ⟨path₁, hw, h⟩ := bind_some h
  cases hfile : fs.openComm (openedPath path₁) with
  | none =>
      rw [hfile] at h
      cases h
  | some file =>
      rw [hfile] at h
      cases file with
      | none => cases h
      | some content =>
          dsimp only at h
          cases hbuf : fgets32 content with
          | none =>
              rw [Option.bind_some, hbuf] at h
              cases h
          | some buf =>
              rw [Option.bind_some, hbuf] at h
              obtain ⟨hne, hok⟩ := fgets32_comm hbuf
              obtain ⟨hret, hrest⟩ := Prod.mk.inj (Option.some.inj h)
              obtain ⟨hcomm, rfl⟩ := Prod.mk.inj hrest
              have hended : (commLoop (buf.takeWhile (· != 0)) []).2 = true := by simpa using hret
              have hshort : (commName content).length < TASK_COMM_LEN := hok.mp hended
              have hname : (commLoop (buf.takeWhile (· != 0)) []).1 = commName content := by
                rw [commLoop_name hended, List.nil_append, commName, (fgets32_name hbuf).2]
                refine List.take_of_length_le ?_
                unfold TASK_COMM_LEN at hshort
                exact Nat.le_of_lt (lt_of_lt_of_le hshort (by decide))
              refine ⟨content, hfile, hne, hshort, ?_⟩
              rw [← hcomm, hname, List.drop_replicate]

/-- A line that `comm` can hold is copied without its newline. -/
theorem commName_eq {content : List UInt8} (h : 0 ∉ firstLine content) :
    commName content = firstLine content := by
  unfold commName firstLine at *
  induction content with
  | nil => rfl
  | cons c content ih =>
      by_cases h10 : c = 10
      · subst h10
        rfl
      · rw [List.takeWhile_cons_of_pos (by simpa using h10), List.mem_cons, not_or] at h
        rw [List.takeWhile_cons_of_pos (by simp [h10, Ne.symm h.1]),
          List.takeWhile_cons_of_pos (by simpa using h10), ih h.2]

theorem commName_noNul (content : List UInt8) :
    ∀ c ∈ commName content, (c != 0) = true := by
  intro c hc
  have hname := List.mem_takeWhile_imp hc
  rw [Bool.and_eq_true] at hname
  exact hname.1

/-- The string in `comm`. -/
theorem comm_string {content : List UInt8} (k : Nat) :
    (commName content ++ List.replicate k 0).takeWhile (· != 0) = commName content := by
  rw [List.takeWhile_append_of_pos (commName_noNul content), List.takeWhile_replicate,
    if_neg (by decide), List.append_nil]

/-! ## When the caller can rely on it -/

/-- Where the name fits, `get_comm` succeeds with it. -/
theorem getComm_reads {content : List UInt8} (hne : content ≠ [])
    (hshort : (commName content).length < TASK_COMM_LEN) :
    ∃ comm path', getComm (List.replicate 256 0) ⟨[], fun _ => none, fun _ => some content⟩ 0 =
      some (false, comm, path') := by
  let fs : ProcFs := ⟨[], fun _ => none, fun _ => some content⟩
  have hroom : 0 + 6 ≤ (List.replicate 256 (0 : UInt8)).length := by
    rw [List.length_replicate]
    decide
  have hreads : commReads (some (some content)) = true := by
    unfold commReads
    rw [Bool.and_eq_true, decide_eq_true_eq]
    exact ⟨by simpa using hne, hshort⟩
  obtain ⟨⟨ret, comm, path'⟩, hcomm⟩ := getComm_isSome (f := fs) hroom
  obtain ⟨-, -, -, hret⟩ := getComm_step rfl rfl (fun c hc => by cases hc) hcomm
  have hret' : ret = !commReads (some (some content)) := hret
  rw [hreads] at hret'
  obtain rfl : ret = false := hret'
  exact ⟨comm, path', hcomm⟩

/-- **`get_comm` can be relied on** if and only if the line, if there is one, has at most 15
bytes and no NUL. -/
theorem commRead_iff (file : Option (Option (List UInt8))) : CommRead file ↔ CommShort file := by
  constructor
  · intro h content hfile hne
    have hshort := (getCommTouched_inside file).mp h.inside content hfile hne
    obtain ⟨comm, path', hcomm⟩ := getComm_reads hne hshort
    obtain ⟨-, -, content', hfile', hexact⟩ := h.exact _ _ _ _ _ hcomm hfile.symm
    obtain ⟨content'', hopen, -, -, rfl⟩ := getComm_name hcomm
    obtain rfl : content'' = content := (Option.some.inj (Option.some.inj hopen)).symm
    obtain rfl : content' = content'' := by
      rw [hfile] at hfile'
      exact (Option.some.inj (Option.some.inj hfile')).symm
    -- A line with a NUL in it is longer than the name.
    rw [comm_string] at hexact
    rw [← hexact]
    exact ⟨hshort, fun h0 => absurd (commName_noNul _ 0 h0) (by decide)⟩
  · intro h
    refine ⟨(getCommTouched_inside file).mpr fun content hfile hne => ?_, ?_⟩
    · obtain ⟨hlen, hnul⟩ := h content hfile hne
      rw [commName_eq hnul]
      exact hlen
    · intro fs path p comm path' hcomm hfile
      obtain ⟨content, hopen, hne, hshort, rfl⟩ := getComm_name hcomm
      have hcontent : file = some (some content) := hfile.symm.trans hopen
      refine ⟨?_, ?_, content, hcontent, ?_⟩
      · rw [List.length_append, List.length_replicate]
        omega
      · refine List.mem_append_right _ (List.mem_replicate.mpr ⟨by omega, rfl⟩)
      · rw [comm_string, commName_eq (h content hcontent hne).2]

/-- The name of a kernel thread fills `comm`, and the byte behind it is read. -/
theorem long_name_read : ¬ ∀ file, CommRead file := by
  intro h
  have hin : TASK_COMM_LEN ∈ getCommTouched (some (some (bytes "kworker/0:1H-kblockd\n"))) := by
    decide +kernel
  exact absurd ((h _).inside _ hin) (lt_irrefl _)

end Sockmon

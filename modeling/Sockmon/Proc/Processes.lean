import Sockmon.Field.Decode
import Sockmon.Proc.Comm
import Sockmon.Proc.Linked

set_option autoImplicit false

/-! # Processes

The kernel shows a process as a directory of `/proc` that is named by its number, with a file that
holds its name and with a link for each file it has open (`Process`). A scan reads all of this back
(`scanned_shows`): the owners it enters are the processes, in the order of the listing, with each of
their sockets.
-/

namespace Sockmon

/-! ## What the kernel shows -/

/-- A file that a process has open: a socket, or something else. -/
inductive OpenFile
  | socket (inode : UInt32)
  | other (target : List UInt8) (h : (bytes "socket:[").isPrefixOf target = false)

structure Process where
  pid : Nat
  comm : List UInt8
  files : List OpenFile
  pid_lt : pid < 2147483648
  comm_lt : comm.length < TASK_COMM_LEN
  comm_line : ∀ c ∈ comm, c ≠ 0 ∧ c ≠ 10

def OpenFile.inode : OpenFile → Option Nat
  | .socket inode => some inode.toNat
  | .other _ _ => none

/-- The target of the link to a socket. -/
def socketText (inode : Nat) : List UInt8 := bytes "socket:[" ++ (digits inode ++ [93])

def OpenFile.ent : OpenFile → FdEnt
  | .socket inode => ⟨true, some (socketText inode.toNat)⟩
  | .other target _ => ⟨true, some target⟩

namespace Process

/-- The inodes of the sockets that the process has open. -/
def sockets (p : Process) : List Nat := p.files.filterMap OpenFile.inode

/-- The directory of the process. -/
def ent (p : Process) : ProcEnt := ⟨true, digits p.pid⟩

/-- Its `fd` directory, with `.` and `..`. -/
def fds (p : Process) : List (Option FdEnt) :=
  some ⟨false, none⟩ :: some ⟨false, none⟩ :: p.files.map fun f => some f.ent

/-- What the program stores for a socket of the process. -/
def owner (p : Process) (inode : Nat) : SkOwner :=
  ⟨inode, p.pid, p.comm ++ List.replicate (TASK_COMM_LEN - p.comm.length) 0⟩

end Process

/-- `Shows fs pre ents ps`: the listing `ents` of the directory `pre` shows the processes `ps`, in
this order. Between them may stand what is no process, processes that are not to be read, and
failures of `readdir`. -/
inductive Shows (fs : ProcFs) (pre : List UInt8) : List (Option ProcEnt) → List Process → Prop
  | nil : Shows fs pre [] []
  | failed (ents ps) : Shows fs pre ents ps → Shows fs pre (none :: ents) ps
  | other (d ents ps) : ¬ IsProc d → PathFits fs pre d → Shows fs pre ents ps →
      Shows fs pre (some d :: ents) ps
  | hidden (d ents ps) : IsProc d → d.dName.length ≤ 10 → fs.openFd (fdPath pre d) = none →
      Shows fs pre ents ps → Shows fs pre (some d :: ents) ps
  | process (p ents ps) : fs.openFd (fdPath pre p.ent) = some p.fds →
      fs.openComm (commPath pre p.ent) = some (some (p.comm ++ [10])) →
      Shows fs pre ents ps → Shows fs pre (some p.ent :: ents) (p :: ps)

/-- Every list of processes can be shown. -/
def procOf (pre : List UInt8) (ps : List Process) : ProcFs where
  listing := ps.map fun p => some p.ent
  openFd path := (ps.find? fun p => path = fdPath pre p.ent).map Process.fds
  openComm path := (ps.find? fun p => path = commPath pre p.ent).map fun p => some (p.comm ++ [10])

/-! ## Numerals -/

/-- `strtol` stops behind the digits. -/
theorem strtol_digits_append {p rest : List UInt8} (hp : AllDigits p) (hne : p ≠ [])
    (hrest : ∀ c ∈ rest.head?, isdigit c.toNat = false) :
    strtol (p ++ rest) = (min (decimal p : Int) 9223372036854775807, rest) := by
  obtain ⟨c, cs, rfl⟩ := List.exists_cons_of_ne_nil hne
  have hc : isdigit c.toNat = true := hp c List.mem_cons_self
  have hrange : 48 ≤ c.toNat ∧ c.toNat ≤ 57 := by
    simp only [isdigit, Bool.and_eq_true, decide_eq_true_eq] at hc
    omega
  have hspace : (c == 32 || (9 ≤ c && c ≤ 13)) = false := by
    simp only [Bool.or_eq_false_iff, beq_eq_false_iff_ne, Bool.and_eq_false_iff,
      decide_eq_false_iff_not, UInt8.le_iff_toNat_le, ne_eq, ← UInt8.toNat_inj, UInt8.toNat_ofNat]
    omega
  have hsign : (c == 45) = false ∧ (c == 43) = false := by
    simp only [beq_eq_false_iff_ne, ne_eq, ← UInt8.toNat_inj, UInt8.toNat_ofNat]
    omega
  have htail : rest.takeWhile (fun c : UInt8 => isdigit c.toNat) = [] ∧
      rest.dropWhile (fun c : UInt8 => isdigit c.toNat) = rest := by
    cases rest with
    | nil => exact ⟨rfl, rfl⟩
    | cons d rest =>
        have hd : isdigit d.toNat = false := hrest d rfl
        rw [List.takeWhile_cons_of_neg (by simp [hd]), List.dropWhile_cons_of_neg (by simp [hd])]
        exact ⟨rfl, rfl⟩
  have htake : ((c :: cs) ++ rest).takeWhile (fun c : UInt8 => isdigit c.toNat) = c :: cs := by
    rw [List.takeWhile_append_of_pos hp, htail.1, List.append_nil]
  have hdrop : ((c :: cs) ++ rest).dropWhile (fun c : UInt8 => isdigit c.toNat) = rest := by
    rw [List.dropWhile_append_of_pos hp, htail.2]
  have hstart : ((c :: cs) ++ rest).dropWhile (fun c : UInt8 => c == 32 || (9 ≤ c && c ≤ 13)) =
      (c :: cs) ++ rest := by
    rw [List.cons_append, List.dropWhile_cons_of_neg (by simp [hspace])]
  unfold strtol
  dsimp only
  rw [hstart, List.cons_append, List.head?_cons]
  simp only [Option.some_beq_some, hsign.1, hsign.2, Bool.or_self, Bool.false_eq_true, if_false]
  rw [← List.cons_append, htake, hdrop, if_neg hne]

/-- **The link to a socket** is read back. -/
theorem socketInode_text {inode : Nat} (h : inode < 4294967296) :
    socketInode (socketText inode) = some inode := by
  have hpre : (bytes "socket:[").isPrefixOf (socketText inode) = true :=
    List.isPrefixOf_iff_prefix.mpr (List.prefix_append _ _)
  have hlen : (bytes "socket:[").length = 8 := by decide +kernel
  have hdrop : (socketText inode).drop 8 = digits inode ++ [93] := by
    unfold socketText
    rw [← hlen, List.drop_left]
  have hend : ∀ c ∈ [(93 : UInt8)].head?, isdigit c.toNat = false := by
    intro c hc
    obtain rfl : 93 = c := Option.some.inj hc
    rfl
  have hread : strtol (digits inode ++ [93]) =
      (min (decimal (digits inode) : Int) 9223372036854775807, [93]) :=
    strtol_digits_append (allDigits_digits inode) (digits_ne_nil inode) hend
  unfold socketInode
  rw [hpre, if_pos rfl, hdrop, hread, decimal_digits]
  dsimp only
  rw [List.head?_cons, if_pos rfl]
  congr 1
  omega

theorem le_decimalFrom (ds : List UInt8) (v : Nat) :
    v ≤ ds.foldl (fun v c => v * 10 + (c.toNat - 48)) v := by
  induction ds generalizing v with
  | nil => exact le_refl v
  | cons c ds ih =>
      refine le_trans ?_ (ih _)
      show v ≤ v * 10 + (c.toNat - 48)
      omega

/-- Without an overflow `pid` is the numeral. -/
theorem pidOf_from {ds : List UInt8} (hds : AllDigits ds) (v : Nat)
    (hlt : ds.foldl (fun v c => v * 10 + (c.toNat - 48)) v < 2147483648) :
    ds.foldl (fun (pid : Int) c => i32 (pid * 10 + c.toNat - 48)) (v : Int) =
      (ds.foldl (fun v c => v * 10 + (c.toNat - 48)) v : Nat) := by
  induction ds generalizing v with
  | nil => rfl
  | cons c ds ih =>
      obtain ⟨hc, hds⟩ := List.forall_mem_cons.mp hds
      have hstep : i32 ((v : Int) * 10 + c.toNat - 48) = (v * 10 + (c.toNat - 48) : Nat) := by
        have hle := le_decimalFrom ds (v * 10 + (c.toNat - 48))
        rw [List.foldl_cons] at hlt
        simp only [isdigit, Bool.and_eq_true, decide_eq_true_eq] at hc
        unfold i32
        omega
      rw [List.foldl_cons, List.foldl_cons, hstep]
      exact ih hds _ hlt

theorem pidOf_digits {pid : Nat} (h : pid < 2147483648) : pidOf (digits pid) = pid := by
  have hval : (digits pid).foldl (fun v c => v * 10 + (c.toNat - 48)) 0 = pid := decimal_digits pid
  have hpid := pidOf_from (allDigits_digits pid) 0 (by rw [hval]; exact h)
  rw [hval] at hpid
  exact hpid

/-! ## Reading it back -/

theorem Process.linkInodes_fds (p : Process) : linkInodes p.fds = p.sockets := by
  have hfile : ∀ f : OpenFile,
      (if f.ent.isLnk then f.ent.link.bind socketInode else none) = f.inode := by
    intro f
    cases f with
    | socket inode => exact socketInode_text inode.toNat_lt
    | other target h =>
        show socketInode target = none
        unfold socketInode
        rw [h]
        rfl
  unfold linkInodes Process.fds Process.sockets
  rw [List.filterMap_cons, List.filterMap_cons, List.filterMap_map]
  exact congrArg (List.filterMap · p.files) (funext hfile)

theorem Process.isProc (p : Process) : IsProc p.ent :=
  ⟨rfl, fun c hc => allDigits_digits p.pid c hc⟩

theorem Process.length_ent (p : Process) : p.ent.dName.length ≤ 10 := by
  have hlt := p.pid_lt
  exact (length_digits_le (by decide)).mpr (by omega)

/-- The name is the whole line. -/
theorem Process.commName_line (p : Process) : commName (p.comm ++ [10]) = p.comm := by
  unfold commName
  rw [List.takeWhile_append_of_pos]
  · exact List.append_nil _
  · intro c hc
    obtain ⟨h0, h10⟩ := p.comm_line c hc
    simp [h0, h10]

theorem Process.commReads_line (p : Process) :
    commReads (some (some (p.comm ++ [10]))) = true := by
  have hlt := p.comm_lt
  have hname : ((p.comm ++ [10]).takeWhile fun c => c != 0 && c != 10) = p.comm := p.commName_line
  unfold commReads
  dsimp only
  rw [hname, Bool.and_eq_true, decide_eq_true_eq]
  exact ⟨by simp, hlt⟩

theorem digits_inj {n k : Nat} (h : digits n = digits k) : n = k := by
  rw [← decimal_digits n, h, decimal_digits]

/-- Two processes have two directories. -/
theorem Process.ent_inj {p q : Process} {pre tail : List UInt8}
    (h : pre ++ p.ent.dName ++ tail = pre ++ q.ent.dName ++ tail) : p.pid = q.pid :=
  digits_inj (List.append_cancel_left (List.append_cancel_right h))

theorem shows_procOf {pre : List UInt8} {ps : List Process} (hps : (ps.map Process.pid).Nodup) :
    Shows (procOf pre ps) pre (procOf pre ps).listing ps := by
  -- Each process is found at its own path.
  have hfind : ∀ tail, ∀ p ∈ ps, ps.find? (fun q => pre ++ p.ent.dName ++ tail =
      pre ++ q.ent.dName ++ tail) = some p := by
    intro tail p hp
    have hsome : (ps.find? fun q => pre ++ p.ent.dName ++ tail =
        pre ++ q.ent.dName ++ tail).isSome := List.find?_isSome.mpr ⟨p, hp, by simp⟩
    obtain ⟨q, hq⟩ := Option.isSome_iff_exists.mp hsome
    have hsame := List.find?_some hq
    have hpid : p.pid = q.pid := Process.ent_inj (of_decide_eq_true hsame)
    rw [hq, List.inj_on_of_nodup_map hps hp (List.mem_of_find?_eq_some hq) hpid]
  have hall : ∀ qs, qs ⊆ ps → Shows (procOf pre ps) pre (qs.map fun p => some p.ent) qs := by
    intro qs hqs
    induction qs with
    | nil => exact .nil
    | cons p qs ih =>
        obtain ⟨hp, hqs⟩ := List.cons_subset.mp hqs
        refine .process p _ qs ?_ ?_ (ih hqs)
        · exact congrArg (Option.map Process.fds) (hfind (bytes "/fd") p hp)
        · exact congrArg (Option.map fun p : Process => some (p.comm ++ [10]))
            (hfind (bytes "/comm") p hp)
  exact hall ps (List.Subset.refl ps)

section

variable {fs : ProcFs} {pre path path' : List UInt8} {ents : List (Option ProcEnt)}
  {ps : List Process}

/-- `get_comm` opens the path that it has written. -/
theorem getComm_written {p : Nat} {ret : Bool} {comm : List UInt8}
    (h : getComm path fs p = some (ret, comm, path')) :
    pathWrite path p (bytes "/comm" ++ [0]) = some path' := by
  obtain ⟨path₁, hw, h⟩ := bind_some h
  rw [hw]
  cases hfile : fs.openComm (openedPath path₁) with
  | none =>
      rw [hfile] at h
      cases h
      rfl
  | some file =>
      rw [hfile] at h
      dsimp only at h
      split at h
      · cases h
        rfl
      · cases h
        rfl

/-- The name that is entered is the one in the file. -/
theorem procVisit_comm {d : ProcEnt} {pid : Int} {comm : List UInt8} {fds : List (Option FdEnt)}
    (hpath : path.length = 256) (hpre : path.take pre.length = pre) (hnul : ∀ c ∈ pre, c ≠ 0)
    (h : procVisit fs pre.length path d = some (.links pid comm fds, path')) :
    ∃ content, fs.openComm (commPath pre d) = some (some content) ∧
      comm = commName content ++ List.replicate (TASK_COMM_LEN - (commName content).length) 0 := by
  obtain ⟨-, -, -, hstep⟩ := procVisit_step hpath hpre hnul h
  cases hstep with
  | links fds comm hproc hfds hreads =>
      unfold procVisit at h
      rw [hproc.1, hproc.digits] at h
      obtain ⟨path₁, hw₁, h⟩ := bind_some h
      rw [if_neg (lt_irrefl _)] at h
      obtain ⟨path₂, hw₂, h⟩ := bind_some h
      obtain ⟨-, hopened, hmid, -⟩ := fdPath_written hproc hpre hnul hw₁ hw₂
      rw [hopened, hfds] at h
      obtain ⟨⟨ret, comm', path₃⟩, hcomm, h⟩ := bind_some h
      cases ret with
      | true => cases h
      | false =>
          cases h
          have hcommPath : openedPath path' = commPath pre d :=
            opened_behind hmid (by rw [List.length_append]) (hproc.noNul hnul) (by decide +kernel)
              (getComm_written hcomm)
          obtain ⟨content, hfile, -, -, heq⟩ := getComm_name hcomm
          rw [hcommPath] at hfile
          exact ⟨content, hfile, heq⟩

/-- No entry of the listing ends the scan. -/
theorem Shows.scanOk (hpre : pre.length ≤ 240) (h : Shows fs pre ents ps) :
    ScanOk fs pre ents := by
  induction h with
  | nil =>
      intro d hd
      cases hd
  | failed ents ps _ ih =>
      intro d hd
      rcases List.mem_cons.mp hd with hd | hd
      · cases hd
      · exact ih d hd
  | other d' ents ps hno hfits _ ih =>
      intro d hd
      rcases List.mem_cons.mp hd with hd | hd
      · cases hd
        exact ⟨hfits, fun _ hproc => absurd hproc hno⟩
      · exact ih d hd
  | hidden d' ents ps hproc hlen hnone _ ih =>
      intro d hd
      rcases List.mem_cons.mp hd with hd | hd
      · cases hd
        refine ⟨fun _ => ⟨?_, fun _ => ⟨by omega, fun hopen => ?_⟩⟩, fun fds _ hfds => ?_⟩
        · rw [hproc.digits]
          omega
        · rw [hnone] at hopen
          cases hopen
        · rw [hnone] at hfds
          cases hfds
      · exact ih d hd
  | process p ents ps hfds hcomm _ ih =>
      intro d hd
      rcases List.mem_cons.mp hd with hd | hd
      · cases hd
        -- 240 bytes leave room for the pid, "/comm" and the NUL
        have hlen := p.length_ent
        refine ⟨fun _ => ⟨?_, fun _ => ⟨by omega, fun _ => by omega⟩⟩, fun _ _ _ => ?_⟩
        · rw [p.isProc.digits]
          omega
        · rw [hcomm]
          exact p.commReads_line
      · exact ih d hd

/-- **What a scan enters** are the processes with their sockets, in the order of the listing. -/
theorem scanned_shows (hlen : pre.length ≤ 240) (hpath : path.length = 256)
    (hpre : path.take pre.length = pre) (hnul : ∀ c ∈ pre, c ≠ 0) (h : Shows fs pre ents ps) :
    scanned fs pre.length ents path = ps.flatMap fun p => p.sockets.map p.owner := by
  induction h generalizing path with
  | nil => rfl
  | failed ents ps _ ih => exact ih hpath hpre
  | other d ents ps hno hfits hrest ih =>
      obtain ⟨⟨v, path'⟩, hv⟩ := procVisit_isSome hpath hpre hnul hfits
      obtain ⟨hpath', hpre', -, hstep⟩ := procVisit_step hpath hpre hnul hv
      rw [scanned, hv]
      cases hstep with
      | other => exact ih hpath' hpre'
      | closed => exact ih hpath' hpre'
      | odd _ hproc => exact absurd hproc hno
      | links _ _ hproc => exact absurd hproc hno
  | hidden d ents ps hproc hdlen hnone hrest ih =>
      have hok := (Shows.hidden d ents ps hproc hdlen hnone hrest).scanOk hlen d List.mem_cons_self
      obtain ⟨⟨v, path'⟩, hv⟩ := procVisit_isSome hpath hpre hnul hok.1
      obtain ⟨hpath', hpre', -, hstep⟩ := procVisit_step hpath hpre hnul hv
      rw [scanned, hv]
      cases hstep with
      | other => exact ih hpath' hpre'
      | closed => exact ih hpath' hpre'
      | odd fds _ hfds =>
          rw [hnone] at hfds
          cases hfds
      | links fds _ _ hfds =>
          rw [hnone] at hfds
          cases hfds
  | process p ents ps hfds hcomm hrest ih =>
      have hok := (Shows.process p ents ps hfds hcomm hrest).scanOk hlen p.ent List.mem_cons_self
      obtain ⟨⟨v, path'⟩, hv⟩ := procVisit_isSome hpath hpre hnul hok.1
      obtain ⟨hpath', hpre', -, hstep⟩ := procVisit_step hpath hpre hnul hv
      rw [scanned, hv, List.flatMap_cons]
      cases hstep with
      | other hno => exact absurd p.isProc hno
      | closed _ hnone =>
          rw [hnone] at hfds
          cases hfds
      | odd fds _ _ hodd =>
          rw [hcomm, p.commReads_line] at hodd
          cases hodd
      | links fds comm _ hfds' =>
          obtain ⟨content, hfile, rfl⟩ := procVisit_comm hpath hpre hnul hv
          rw [hcomm] at hfile
          rw [← Option.some.inj (Option.some.inj hfile), p.commName_line]
          obtain rfl : p.fds = fds := Option.some.inj (hfds.symm.trans hfds')
          dsimp only
          rw [p.linkInodes_fds, show pidOf p.ent.dName = p.pid from pidOf_digits p.pid_lt]
          exact congrArg₂ (· ++ ·) rfl (ih hpath' hpre')

end

/-! ## The first of them -/

/-- **The owner** of a socket is the first process that has it open. -/
theorem find_owner (ps : List Process) (inode : Nat) :
    (ps.flatMap fun p => p.sockets.map p.owner).find? (fun o => o.skIno == inode) =
      (ps.find? fun p => inode ∈ p.sockets).map (·.owner inode) := by
  induction ps with
  | nil => rfl
  | cons p ps ih =>
      rw [List.flatMap_cons, List.find?_append, List.find?_map, List.find?_cons]
      by_cases hp : inode ∈ p.sockets
      · have hfind : p.sockets.find? ((fun o : SkOwner => o.skIno == inode) ∘ p.owner) =
            some inode := by
          have hsome : (p.sockets.find? ((fun o : SkOwner => o.skIno == inode) ∘ p.owner)).isSome :=
            List.find?_isSome.mpr ⟨inode, hp, by simp [Process.owner]⟩
          obtain ⟨i, hi⟩ := Option.isSome_iff_exists.mp hsome
          have hino : i = inode := by simpa [Process.owner] using List.find?_some hi
          rw [hi, hino]
        rw [hfind]
        simp [hp]
      · have hfind : p.sockets.find? ((fun o : SkOwner => o.skIno == inode) ∘ p.owner) = none := by
          rw [List.find?_eq_none]
          intro i hi hino
          have hi' : i = inode := by simpa [Process.owner] using hino
          exact hp (hi' ▸ hi)
        rw [hfind, ih]
        simp [hp]

end Sockmon

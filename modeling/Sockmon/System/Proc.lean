import Sockmon.System.State

set_option autoImplicit false

/-! # Socket owners

`proc.c`: the scan of `/proc` for the processes that own sockets, and the hash table of
owners it fills. Functions that report failure to their caller return `true` for it, as in C.
-/

namespace Sockmon

/-! ## What the scan finds -/

/-- An entry of a process's `fd` directory: whether it is a symbolic link, and what
`readlinkat` gives for it. -/
structure FdEnt where
  isLnk : Bool
  link : Option (List UInt8)
  deriving DecidableEq, Repr

/-- An entry of `/proc`. -/
structure ProcEnt where
  isDir : Bool
  dName : List UInt8
  deriving DecidableEq, Repr

/-- The contents of `/proc` during one scan. A listing has `none` where `readdir` fails with
`errno` set. `openFd` and `openComm` are what `opendir` and `fopen` find at a path: the
listing, and the contents of the file (`none` inside if it cannot be read). -/
structure ProcFs where
  listing : List (Option ProcEnt)
  openFd : List UInt8 → Option (List (Option FdEnt))
  openComm : List UInt8 → Option (Option (List UInt8))

def TASK_COMM_LEN : Nat := 16

/-! ## The owner table -/

def HASH_MULTIPLIER : Nat := 2654435761

/-- `sk_ino_hash`, without a value where the shift count is not that of a 32-bit shift. -/
def skInoHash (m : OwnerMap) (inode : Nat) : Option Nat :=
  -- A table of one bucket has the shift 0, and then this is the width of the operand.
  let count : Int := 32 - m.mapHashShift
  if 0 ≤ count ∧ count < 32 then
    some (inode * HASH_MULTIPLIER % 4294967296 / 2 ^ count.toNat)
  else none

/-- `lookup_socket_owner`: the first entry of the inode's chain that has it, if any. -/
def lookupSocketOwner (m : OwnerMap) (inode : Nat) : Option (Option SkOwner) :=
  -- Inode 0 stands for a socket without an inode, and is in no chain.
  if inode = 0 then some none
  else do
    let hb ← m.skInoHb
    let chain ← hb[← skInoHash m inode]?
    return chain.find? fun o => o.skIno == inode

/-- The end of `add_sk_ino`: chain `o` behind the others of its bucket. -/
def OwnerMap.chain (m : OwnerMap) (o : SkOwner) : Option OwnerMap := do
  let h ← skInoHash m o.skIno
  let hb ← m.skInoHb
  let chain ← hb[h]?
  return { m with
    skInoHb := some (hb.set h (chain ++ [o]))
    nrSockets := i32 (m.nrSockets + 1) }

def addSkIno (s : Sys) (inode : Nat) (pid : Int) (comm : List UInt8) : Option (Bool × Sys) := do
  let found ← lookupSocketOwner s.owners inode
  -- Of the processes that share a socket the first one found stays its owner.
  if found.isSome then return (false, s)
  let (ok, s) := s.alloc
  if !ok then return (true, s.nmPerror "add_sk: calloc")
  let owners ← s.owners.chain ⟨inode, pid, comm⟩
  return (false, { s with owners })

/-! ## The scan -/

/-- Store `bs` in `path` from index `off` on. -/
def pathWrite (path : List UInt8) (off : Nat) (bs : List UInt8) : Option (List UInt8) :=
  if off + bs.length ≤ path.length then
    some (path.take off ++ bs ++ path.drop (off + bs.length))
  else none

/-- The path a system call is given. -/
def openedPath (path : List UInt8) : List UInt8 := path.takeWhile (· != 0)

/-- `fgets(buf, 32, fp)`: up to a newline, at most 31 bytes, nothing at the end of the file. -/
def fgets32 (content : List UInt8) : Option (List UInt8) :=
  let line := content.takeWhile (· != 10)
  let line := if line.length < content.length then line ++ [10] else line
  if content = [] then none else some (line.take 31)

/-- The copy loop of `get_comm`: the bytes stored in `comm`, and whether the loop ended
before `comm` was full. -/
def commLoop : List UInt8 → List UInt8 → List UInt8 × Bool
  | [], comm => (comm, comm.length < TASK_COMM_LEN)
  | c :: s, comm =>
      if TASK_COMM_LEN ≤ comm.length then (comm, false)
      else if c = 0 then (comm, true)
      else if c = 10 then (comm, true)
      else commLoop s (comm ++ [c])

/-- `get_comm`, with `comm` zeroed by the caller; the file is opened at `path`, to which
`"/comm"` is added at `p`. -/
def getComm (path : List UInt8) (fs : ProcFs) (p : Nat) :
    Option (Bool × List UInt8 × List UInt8) := do
  let path ← pathWrite path p (bytes "/comm" ++ [0])
  let zero := List.replicate TASK_COMM_LEN 0
  match fs.openComm (openedPath path) with
  | none => return (true, zero, path)
  | some file =>
      match file.bind fgets32 with
      | none => return (true, zero, path)
      | some buf =>
          let (comm, ok) := commLoop (buf.takeWhile (· != 0)) []
          return (!ok, comm ++ zero.drop comm.length, path)

/-- The inode in the target of a link to a socket. -/
def socketInode (link : List UInt8) : Option Nat :=
  if (bytes "socket:[").isPrefixOf link then
    let (inode, endp) := strtol (link.drop 8)
    if endp.head? = some 93 then some (inode % 4294967296).toNat else none
  else none

def skInoMakeMap (pid : Int) (comm : List UInt8) : List (Option FdEnt) → Sys →
    Option (Bool × Sys)
  | [], s => some (false, s)
  -- `readdir` has set `errno`, and the loop goes on.
  | none :: ents, s => skInoMakeMap pid comm ents s
  | some d :: ents, s =>
      if !d.isLnk then skInoMakeMap pid comm ents s
      else
        match d.link.bind socketInode with
        -- `readlinkat` fails, or the link is not one to a socket.
        | none => skInoMakeMap pid comm ents s
        | some inode => do
            let (ret, s) ← addSkIno s inode pid comm
            if ret then return (true, s) else skInoMakeMap pid comm ents s

/-- The leading digits of a name, and the `pid` they stand for. -/
def pidDigits (name : List UInt8) : List UInt8 := name.takeWhile fun c => isdigit c.toNat

def pidOf (ds : List UInt8) : Int := ds.foldl (fun pid c => i32 (pid * 10 + c.toNat - 48)) 0

/-- What the loop over `/proc` does with an entry: pass over it, fail, or read the links of a
process. -/
inductive Visit
  | skip
  | fail
  | links (pid : Int) (comm : List UInt8) (fds : List (Option FdEnt))
  deriving DecidableEq, Repr

/-- The body of the loop of `build_sk_proc_map`, up to the call of `sk_ino_make_map`: it works
on `proc_path`, whose part that stays has the length `len`. -/
def procVisit (fs : ProcFs) (len : Nat) (path : List UInt8) (d : ProcEnt) :
    Option (Visit × List UInt8) :=
  if !d.isDir then some (.skip, path)
  else do
    let ds := pidDigits d.dName
    -- The digits are stored before the rest of the name is looked at.
    let path ← pathWrite path len ds
    if ds.length < d.dName.length then return (.skip, path)
    else
      let p2 := len + ds.length
      let path ← pathWrite path p2 (bytes "/fd" ++ [0])
      match fs.openFd (openedPath path) with
      -- `opendir` may fail because of permissions.
      | none => return (.skip, path)
      | some fds =>
          let (ret, comm, path) ← getComm path fs p2
          return (if ret then .fail else .links (pidOf ds) comm fds, path)

def procLoop (fs : ProcFs) : List (Option ProcEnt) → Sys → Option (Bool × Sys)
  | [], s => some (false, s)
  | none :: ents, s => procLoop fs ents s
  | some d :: ents, s => do
      let (visit, procPath) ← procVisit fs s.procPathLen s.procPath d
      let s := { s with procPath }
      match visit with
      | .skip => procLoop fs ents s
      -- One process without a readable `comm` ends the scan.
      | .fail => return (true, s)
      | .links pid comm fds =>
          let (ret, s) ← skInoMakeMap pid comm fds s
          if ret then return (true, s) else procLoop fs ents s

def buildSkProcMap (s : Sys) (fs : ProcFs) : Option (Bool × Sys) := do
  if !extIsSet s.n.extReq INET_DIAG_PROC then return (false, s)
  let (ret, s) ← procLoop fs fs.listing s
  if ret then return (true, s)
  return (false, { s with n := { s.n with extRcv := s.n.extRcv ||| bit INET_DIAG_PROC } })

/-! ## Freeing and resizing -/

/-- The sizing loop of `free_sk_proc_map`: the first `i` from the given one on with
`nr ≤ 1U << i`, for at most `fuel` values of `i`. From `i = 32` on the shift is undefined. -/
def sizeLoop (nr : Nat) : Nat → Nat → Option Nat
  | 0, _ => none
  | fuel + 1, i => if 2 ^ i < nr then sizeLoop nr fuel (i + 1) else some i

def freeSkProcMap (s : Sys) (resize : Bool) : Option (Bool × Sys) := do
  if !extIsSet s.n.extReq INET_DIAG_PROC then return (false, s)
  let m := s.owners
  -- The new size is that for the sockets of this frame, counted before they are freed.
  let i ← sizeLoop (m.nrSockets % 4294967296).toNat 32 0
  let hb ← m.skInoHb
  if hb.length < m.mapHashSz then none
  else
    let freed := ((hb.take m.mapHashSz).map List.length).sum
    let hb := (hb.take m.mapHashSz).map (fun _ => []) ++ hb.drop m.mapHashSz
    let m := { m with skInoHb := some hb, nrSockets := i32 (m.nrSockets - freed) }
    if resize && m.mapHashSz != 2 ^ i then
      let (ok, s) := s.alloc
      if !ok then
        -- The old table has been freed, and its size is kept.
        return (true, { s with owners := { m with skInoHb := none } }.nmPerror "sk_ino_hb: calloc")
      else
        let m := { m with
          skInoHb := some (List.replicate (2 ^ i) [])
          mapHashSz := 2 ^ i
          mapHashShift := i }
        return (false, { s with owners := m })
    else return (false, { s with owners := m })

/-! ## Start and end -/

/-- What `proc_init` meets: the mount table, as type and directory of each entry (`none` if it
cannot be opened), and whether the directory can be opened. -/
structure ProcInitEnv where
  mounts : Option (List (String × List UInt8))
  opendir : Bool

/-- `stpncpy(proc_path, dir, 255)` and the index it returns. -/
def stpncpyPath (s : Sys) (dir : List UInt8) : Sys × Nat :=
  let copied := dir.take 255
  ({ s with procPath := copied ++ List.replicate (255 - copied.length) 0 ++ s.procPath.drop 255 },
    copied.length)

def getProcMountPath (s : Sys) (env : ProcInitEnv) : Bool × Sys :=
  match env.mounts with
  | none => (true, s.nmError "setmntent failed\n")
  | some mounts =>
      match mounts.find? fun me => me.1 == "proc" with
      | none => (true, s.nmError "Failed to find proc mount point.\n")
      | some me =>
          let (s, p) := stpncpyPath s me.2
          -- Of a path that is cut off `p` points at the last byte of `proc_path`.
          if s.procPath.getD p 0 ≠ 0 then
            (true, s.nmError "proc mount point path is too long.\n")
          else (false, s)

def procInit (s : Sys) (env : ProcInitEnv) : Option (Bool × Sys) := do
  let (ret, s) := getProcMountPath s env
  if ret then return (true, s)
  if !env.opendir then return (true, s.nmPerror "proc: opendir")
  let len := (openedPath s.procPath).length
  -- The last character of an empty path would stand before the array.
  if len = 0 then none
  else
    let slash := s.procPath.getD (len - 1) 0 = 47
    let procPath ← if slash then some s.procPath else pathWrite s.procPath len [47]
    let s := { s with procPath, procPathLen := if slash then len else len + 1 }
    let (ok, s) := s.alloc
    if !ok then return (true, s.nmPerror "sk_ino_hb: calloc")
    return (false, { s with owners :=
      { s.owners with skInoHb := some (List.replicate s.owners.mapHashSz []) } })

/-- `proc_exit`, told whether `closedir` succeeds. -/
def procExit (s : Sys) (closedir : Bool) : Option Sys := do
  let s := if closedir then s else s.nmPerror "pric: closedir"
  let (_, s) ← freeSkProcMap s false
  return { s with owners := { s.owners with skInoHb := none } }

end Sockmon

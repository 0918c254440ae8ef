import Sockmon.Lib.HeapChain
import Sockmon.Pointer.ListHead
import Sockmon.System.Main

set_option autoImplicit false

/-! # `proc.c` with pointers

The functions that walk the chains of `sk_ino_hb`, on a heap of `struct sk_owner`. A walk has
no result if it meets a place that is not in use, or if it goes on for more cells than there are
places given out.
-/

namespace Sockmon

open HeapChain (Cell)

namespace Pointer

/-- The program's state: what no pointer leads to is in `sys`, whose list and table stay empty;
`conns` holds the connections and the head of their list, `owners` the socket owners, and `hb` is
`sk_ino_hb`, null or an array of pointers. -/
structure State where
  sys : Sys
  conns : Heap (Node ConnInfo)
  owners : Heap (Cell SkOwner)
  hb : Option (List Nat)

/-! ## Looking up and adding -/

/-- The loop of `lookup_socket_owner` from the entry `o` on. -/
def findOwner (h : Heap (Cell SkOwner)) (inode : Nat) : Nat → Nat → Option (Option SkOwner)
  | 0, _ => none
  | fuel + 1, o =>
      if o = 0 then some none
      else do
        let c ← h.cell o
        if c.val.skIno = inode then return some c.val
        else findOwner h inode fuel c.next

def lookupSocketOwner (p : State) (inode : Nat) : Option (Option SkOwner) :=
  if inode = 0 then some none
  else do
    let hb ← p.hb
    let o ← hb[← skInoHash p.sys.owners inode]?
    findOwner p.owners inode p.owners.next o

/-- `while (pos->next) pos = pos->next` -/
def lastOwner (h : Heap (Cell SkOwner)) : Nat → Nat → Option Nat
  | 0, _ => none
  | fuel + 1, pos => do
      let c ← h.cell pos
      if c.next = 0 then return pos else lastOwner h fuel c.next

/-- The end of `add_sk_ino`: chain the entry `o` at the end of the bucket `h`. -/
def chainOwner (owners : Heap (Cell SkOwner)) (hb : List Nat) (h o : Nat) :
    Option (Heap (Cell SkOwner) × List Nat) := do
  let pos ← hb[h]?
  if pos = 0 then return (owners, hb.set h o)
  else
    let pos ← lastOwner owners owners.next pos
    return (← owners.modify pos fun c => { c with next := o }, hb)

def addSkIno (p : State) (inode : Nat) (pid : Int) (comm : List UInt8) :
    Option (Bool × State) := do
  let found ← lookupSocketOwner p inode
  if found.isSome then return (false, p)
  let (ok, s) := p.sys.alloc
  if !ok then return (true, { p with sys := s.nmPerror "add_sk: calloc" })
  let o := p.owners.next
  let h ← skInoHash s.owners inode
  let (owners, hb) ← chainOwner (p.owners.alloc ⟨0, ⟨inode, pid, comm⟩⟩) (← p.hb) h o
  return (false, { p with
    sys := { s with owners := { s.owners with nrSockets := i32 (s.owners.nrSockets + 1) } }
    owners
    hb := some hb })

/-! ## The scan -/

def skInoMakeMap (pid : Int) (comm : List UInt8) : List (Option FdEnt) → State →
    Option (Bool × State)
  | [], p => some (false, p)
  | none :: ents, p => skInoMakeMap pid comm ents p
  | some d :: ents, p =>
      if !d.isLnk then skInoMakeMap pid comm ents p
      else
        match d.link.bind socketInode with
        | none => skInoMakeMap pid comm ents p
        | some inode => do
            let (ret, p) ← addSkIno p inode pid comm
            if ret then return (true, p) else skInoMakeMap pid comm ents p

def procLoop (fs : ProcFs) : List (Option ProcEnt) → State → Option (Bool × State)
  | [], p => some (false, p)
  | none :: ents, p => procLoop fs ents p
  | some d :: ents, p => do
      let (visit, procPath) ← procVisit fs p.sys.procPathLen p.sys.procPath d
      let p := { p with sys := { p.sys with procPath } }
      match visit with
      | .skip => procLoop fs ents p
      | .fail => return (true, p)
      | .links pid comm fds =>
          let (ret, p) ← skInoMakeMap pid comm fds p
          if ret then return (true, p) else procLoop fs ents p

def buildSkProcMap (p : State) (fs : ProcFs) : Option (Bool × State) := do
  if !extIsSet p.sys.n.extReq INET_DIAG_PROC then return (false, p)
  let (ret, p) ← procLoop fs fs.listing p
  if ret then return (true, p)
  return (false, { p with sys := { p.sys with n :=
    { p.sys.n with extRcv := p.sys.n.extRcv ||| bit INET_DIAG_PROC } } })

/-! ## Freeing -/

/-- The `do` loop of `free_sk_proc_map` from the entry `o` on, which counts `nr_sockets` down. -/
def freeChain : Nat → Nat → Heap (Cell SkOwner) → Int → Option (Heap (Cell SkOwner) × Int)
  | 0, _, _, _ => none
  | fuel + 1, o, h, nr => do
      let n := (← h.cell o).next
      let h ← h.free o
      let nr := i32 (nr - 1)
      if n = 0 then return (h, nr) else freeChain fuel n h nr

/-- The body of the loop over the buckets, for the chain from `o` on. -/
def freeBucket (o : Nat) (h : Heap (Cell SkOwner)) (nr : Int) :
    Option (Heap (Cell SkOwner) × Int) :=
  if o = 0 then some (h, nr) else freeChain h.next o h nr

/-- The loop over the first buckets of the array, as many as the first argument says. -/
def freeBuckets : Nat → List Nat → Heap (Cell SkOwner) → Int →
    Option (List Nat × Heap (Cell SkOwner) × Int)
  | 0, hb, h, nr => some (hb, h, nr)
  -- Behind the end of the array.
  | _ + 1, [], _, _ => none
  | k + 1, o :: hb, h, nr => do
      let (h, nr) ← freeBucket o h nr
      let (hb, h, nr) ← freeBuckets k hb h nr
      return (0 :: hb, h, nr)

def freeSkProcMap (p : State) (resize : Bool) : Option (Bool × State) := do
  if !extIsSet p.sys.n.extReq INET_DIAG_PROC then return (false, p)
  let m := p.sys.owners
  let i ← sizeLoop (m.nrSockets % 4294967296).toNat 32 0
  let (hb, owners, nrSockets) ← freeBuckets m.mapHashSz (← p.hb) p.owners m.nrSockets
  let m := { m with nrSockets }
  if resize && m.mapHashSz != 2 ^ i then
    let (ok, s) := p.sys.alloc
    if !ok then
      return (true, { p with
        sys := { s with owners := m }.nmPerror "sk_ino_hb: calloc"
        owners
        hb := none })
    else
      return (false, { p with
        sys := { s with owners := { m with mapHashSz := 2 ^ i, mapHashShift := i } }
        owners
        hb := some (List.replicate (2 ^ i) 0) })
  else return (false, { p with sys := { p.sys with owners := m }, owners, hb := some hb })

/-! ## Start and end -/

def procInit (p : State) (env : ProcInitEnv) : Option (Bool × State) := do
  let (ret, s) := getProcMountPath p.sys env
  if ret then return (true, { p with sys := s })
  if !env.opendir then return (true, { p with sys := s.nmPerror "proc: opendir" })
  let len := (openedPath s.procPath).length
  if len = 0 then none
  else
    let slash := s.procPath.getD (len - 1) 0 = 47
    let procPath ← if slash then some s.procPath else pathWrite s.procPath len [47]
    let s := { s with procPath, procPathLen := if slash then len else len + 1 }
    let (ok, s) := s.alloc
    if !ok then return (true, { p with sys := s.nmPerror "sk_ino_hb: calloc" })
    return (false, { p with sys := s, hb := some (List.replicate s.owners.mapHashSz 0) })

def procExit (p : State) (closedir : Bool) : Option State := do
  let s := if closedir then p.sys else p.sys.nmPerror "pric: closedir"
  let (_, p) ← freeSkProcMap { p with sys := s } false
  return { p with hb := none }

end Pointer

end Sockmon

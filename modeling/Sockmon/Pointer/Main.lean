import Sockmon.Pointer.Proc

set_option autoImplicit false

/-! # The list of connections and `main` with pointers

The functions that walk `n->conn_list`, on a heap of `struct conn_info`, and the program built
from them.
-/

namespace Sockmon.Pointer

/-- `&n->conn_list`, the first place given out. -/
def connList : Nat := 1

/-! ## `add_conn_info` -/

/-- The loop of `add_conn_info` from `pos` on: the entry at which it stops, or the list head. -/
def placeLoop (f : FieldInfo) (ascending : Bool) (ci : ConnInfo) (h : Heap (Node ConnInfo)) :
    Nat → Nat → Option Nat
  | 0, _ => none
  | fuel + 1, pos =>
      if pos = connList then some pos
      else do
        let e ← entryOf h pos
        if !hasBit e.ext f.extRcv then return pos
        else
          let ret := (← f.sortFunc).apply f (ci.ptr f.offset) (e.ptr f.offset)
          if (if ascending then ret < 0 else ret > 0) then return pos
          else placeLoop f ascending ci h fuel (← nextOf h pos)

/-- `add_conn_info` of the connection at `new`. -/
def addConnInfo (sortKey : Option FieldInfo) (ascending : Bool) (new : Nat)
    (h : Heap (Node ConnInfo)) : Option (Heap (Node ConnInfo)) := do
  let ci ← entryOf h new
  match sortKey with
  | none => listAddTail new connList h
  | some f =>
      if !hasBit ci.ext f.extRcv || (← listEmpty connList h) then listAddTail new connList h
      else
        let pos ← placeLoop f ascending ci h h.next (← nextOf h connList)
        listAddTail new pos h

/-! ## The dump -/

/-- The owner of the socket, if the connections are to be given their owners. -/
def ownerLookup (p : State) (inode : Nat) : Option (Option SkOwner) :=
  if extIsSet p.sys.n.extReq INET_DIAG_PROC then lookupSocketOwner p inode else some none

def diagDump (p : State) (d : Datagram) (nlh : Nat) : Option (Bool × State) := do
  let (ok, s) := p.sys.alloc
  if !ok then return (true, { p with sys := s.nmPerror "conn_info_alloc" })
  let ci := p.conns.next
  let conns := p.conns.alloc ⟨0, 0, some ConnInfo.zero⟩
  let inode := rdU32 (d.mem.add (nlh + NLMSG_HDRLEN + ofInetDiagMsg.idiagInode))
  let owner ← ownerLookup p inode
  let r := diagAttrs d.mem nlh owner d.reach
  match r.how with
  | .more => none
  | .unsupported type =>
      let s := s.nmError s!"Unsupported inet_diag extension: {type}\n"
      return (true, { p with sys := s, conns := ← conns.free ci })
  | .done =>
      let conns ← conns.modify ci fun c => { c with entry := some { r.ci with ext := r.ext } }
      let conns ← addConnInfo (← s.sortField) s.n.sortAscending ci conns
      return (false, { p with
        sys := { s with n := { s.n with
          extRcv := s.n.extRcv ||| r.ext
          nrConns := i32 (s.n.nrConns + 1) } }
        conns })

def nlmsgLoop (d : Datagram) : Nat → Nat → Int → State → Option (MsgEnd × State)
  | 0, _, _, _ => none
  | fuel + 1, nlh, sz, p =>
      if !nlmsgOk d.mem nlh sz then some (.next, p)
      else if nlmsgType d.mem nlh = NLMSG_DONE then some (.done, p)
      else if nlmsgType d.mem nlh = NLMSG_ERROR then
        if nlmsgLen d.mem nlh < 36 then
          some (.err, { p with sys := p.sys.nmError "NLMSG_ERROR\n" })
        else some (.err, { p with sys := p.sys.nmPerror "NLMSG_ERROR" })
      else do
        let (ret, p) ← diagDump p d nlh
        if ret then return (.err, p)
        else
          let aligned := align4 (nlmsgLen d.mem nlh)
          nlmsgLoop d fuel (nlh + aligned) (sz - aligned) p

def recvLoop : List (Option Datagram) → State → Option (Bool × State)
  | [], _ => none
  | none :: _, p => some (true, { p with sys := p.sys.nmPerror "recvmsg" })
  | some d :: ds, p => do
      let (how, p) ← nlmsgLoop d (d.sz / NLMSG_HDRLEN + 1) 0 d.sz p
      match how with
      | .done => return (false, p)
      | .err => return (true, p)
      | .next => recvLoop ds p

def connectionsDump (p : State) (env : DumpEnv) : Option (Bool × State) :=
  if !env.sendmsg (buildRequest p.sys.n) then
    some (true, { p with sys := p.sys.nmPerror "sendmsg" })
  else recvLoop env.recvs { p with sys := { p.sys with n :=
    { p.sys.n with extRcv := bit INET_DIAG_NONE ||| bit INET_DIAG_ADDRESS } } }

/-! ## Drawing -/

/-- What the loop of `draw_connections` keeps: the line, the connections still to skip, what it
has drawn and `n->nr_conns`. -/
structure Rows where
  y : Int
  skipY : Int
  writes : List Write
  nrConns : Int

/-- What the body of the loop of `draw_connections` draws. -/
def drawLine (s : Sys) (stk : ConnInfo → FieldInfo → Ptr) (ci : ConnInfo) (r : Rows) :
    Option Rows :=
  if 0 < r.skipY then some { r with skipY := r.skipY - 1 }
  else do
    let (rewind, writes) ← drawProtocol s (stk ci) r.y ci
    if rewind then
      let blank := nmMvwprintw s.n.cols r.y 0 (padLeft s.n.cols.toNat [])
      return { r with writes := r.writes ++ (writes ++ blank) }
    else return { r with y := r.y + 1, writes := r.writes ++ writes }

/-- The body of the loop of `draw_connections`, but for `list_del` and `conn_info_free`. -/
def drawRow (s : Sys) (stk : ConnInfo → FieldInfo → Ptr) (ci : ConnInfo) (r : Rows) :
    Option Rows := do
  let r ← drawLine s stk ci r
  return { r with nrConns := i32 (r.nrConns - 1) }

def drawConnections (p : State) (stk : ConnInfo → FieldInfo → Ptr) : Option (Frame × State) := do
  let y := clampY p.sys.n
  let s := { p.sys with n := { p.sys.n with posMain := { p.sys.n.posMain with y } } }
  let header := headerLoop s.n s.tcpFields 0 s.n.posMain.x false
  let lines := s.n.nrConns + 1
  let (conns, r) ← listForEachEntrySafe connList (drainBody (drawRow s stk))
    (p.conns, ⟨1, y, [], s.n.nrConns⟩)
  let s := { s with n := { s.n with nrConns := r.nrConns } }
  let (_, p) ← freeSkProcMap { p with sys := s, conns } true
  return (⟨lines, header ++ r.writes⟩, p)

/-! ## The program -/

def collect (p : State) (env : BodyEnv) : Option (Bool × State) := do
  let (err, p) ← buildSkProcMap p env.fs
  if err then return (true, p) else connectionsDump p env.dump

def mainBody (p : State) (env : BodyEnv) : Option State :=
  if p.sys.n.curScreen ≠ .main then some { p with sys := { p.sys with pc := .wait } }
  else do
    let (err, p) ← collect { p with sys := { p.sys with allocs := env.allocs } } env
    if err then return { p with sys := { p.sys with err := true, pc := .out } }
    else
      let (_, p) ← drawConnections p env.stk
      return { p with sys := { p.sys with err := false, pc := .wait } }

def nmCtxExit (p : State) : Option State := do
  let (conns, nrConns) ← listForEachEntrySafe connList
    (drainBody fun (_ : ConnInfo) nr => some (i32 (nr - 1))) (p.conns, p.sys.n.nrConns)
  return { p with sys := { p.sys with n := { p.sys.n with nrConns } }, conns }

def mainExit (p : State) (closedir : Bool) : Option State := do
  let p ← procExit p closedir
  let p ← nmCtxExit { p with sys := p.sys.windowExit }
  return { p with sys := { p.sys with pc := .done } }

def step (p : State) : Event → Option State
  | .body env => if p.sys.pc = .top then mainBody p env else none
  | .input i =>
      if p.sys.pc = .wait then do
        let s ← shouldStop p.sys i
        return { p with sys := { s with pc := if s.n.shouldStop then .out else .top } }
      else none
  | .exit closedir => if p.sys.pc = .out then mainExit p closedir else none

/-- The state before `proc_init`: `nm_ctx_init` has made the list of connections. -/
def boot (size : TermSize) (allocs : List Bool) : Option State := do
  let conns ← initListHead connList (Heap.fresh.alloc ⟨0, 0, none⟩)
  return { sys := Sys.boot size allocs, conns, owners := Heap.fresh, hb := none }

end Sockmon.Pointer

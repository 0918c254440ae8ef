import Sockmon.System.Proc

set_option autoImplicit false

/-! # The connection dump

`nl.c` and `add_conn_info`: a request is sent, the datagrams received are walked message by
message and each message attribute by attribute, and every message becomes a connection in
`conn_list`. The receive buffer is the memory from `buf` on (`mem`); places in it are offsets.
The lengths are compared and subtracted as the macros of the uapi headers do, so
`RTA_NEXT` wraps around in the `unsigned int` it is given.
-/

namespace Sockmon

/-! ## The request -/

def SOCK_DIAG_BY_FAMILY : Nat := 20
def NLM_F_REQUEST : Nat := 1
def NLM_F_DUMP : Nat := 768

/-- All states from `TCP_ESTABLISHED` to `TCP_CLOSING`. -/
def TCPF_ALL : Nat := ((List.range 12).drop 1 |>.map (2 ^ ·)).sum

/-- The fields of `struct nlmsghdr` and `struct inet_diag_req_v2` that are not zero. -/
structure Request where
  nlmsgLen : Nat
  nlmsgType : Nat
  nlmsgFlags : Nat
  sdiagFamily : Nat
  sdiagProtocol : Nat
  idiagExt : Nat
  idiagStates : Nat
  deriving DecidableEq, Repr

def buildRequest (n : NmCtx) : Request :=
  { nlmsgLen := 72, nlmsgType := SOCK_DIAG_BY_FAMILY, nlmsgFlags := NLM_F_REQUEST + NLM_F_DUMP,
    sdiagFamily := n.family, sdiagProtocol := n.protocol, idiagExt := n.extReq.toNat % 256,
    idiagStates := TCPF_ALL }

/-! ## Message and attribute headers -/

/-- `NLMSG_ALIGN` and `RTA_ALIGN` -/
def align4 (len : Nat) : Nat := (len + 3) / 4 * 4

def NLMSG_ERROR : Nat := 2
def NLMSG_DONE : Nat := 3

/-- `sizeof(struct nlmsghdr)`, and the offset of `NLMSG_DATA`. -/
def NLMSG_HDRLEN : Nat := 16

def nlmsgLen (mem : Ptr) (nlh : Nat) : Nat := rdU32 (mem.add nlh)
def nlmsgType (mem : Ptr) (nlh : Nat) : Nat := rdU16 (mem.add (nlh + 4))

/-- `NLMSG_OK`, for the `ssize_t` that is left. -/
def nlmsgOk (mem : Ptr) (nlh : Nat) (sz : Int) : Bool :=
  NLMSG_HDRLEN ≤ sz && NLMSG_HDRLEN ≤ nlmsgLen mem nlh && nlmsgLen mem nlh ≤ sz

/-- `sizeof(struct rtattr)`, and the distance of `RTA_DATA` from the header. -/
def RTA_HDRLEN : Nat := 4

def rtaLen (mem : Ptr) (rta : Nat) : Nat := rdU16 (mem.add rta)
def rtaType (mem : Ptr) (rta : Nat) : Nat := rdU16 (mem.add (rta + 2))

/-- `RTA_OK`, for the `unsigned int` that is left. -/
def rtaOk (mem : Ptr) (rta len : Nat) : Bool :=
  RTA_HDRLEN ≤ len && RTA_HDRLEN ≤ rtaLen mem rta && rtaLen mem rta ≤ len

/-- `a - b` in `unsigned int`. -/
def u32sub (a b : Nat) : Nat := (a + 4294967296 - b) % 4294967296

/-! ## Copying an attribute

Each `copy_*` function stores a member of the connection from the bytes at `p`, as many as the
member has. -/

/-- `*member = *(const type *)p` for the `n` bytes at offset `off`. -/
def copyTo (off n : Nat) (ci : ConnInfo) (p : Ptr) : ConnInfo := ci.write off n p

def copyVoid (ci : ConnInfo) (_ : Ptr) : ConnInfo := ci

def copyMeminfo := copyTo ofConnInfo.minfo 16
def copyInfo := copyTo ofConnInfo.info 280
def copyVegasinfo := copyTo ofConnInfo.ccInfo 16

def TCP_CA_NAME_MAX : Nat := 16

/-- `strncpy` fills what the name leaves with NULs; the last byte is always one. -/
def copyCong (ci : ConnInfo) (p : Ptr) : ConnInfo :=
  let name := cstr p TCP_CA_NAME_MAX
  (ci.write ofConnInfo.caName TCP_CA_NAME_MAX fun i => name.getD i 0).write
    (ofConnInfo.caName + (TCP_CA_NAME_MAX - 1)) 1 fun _ => 0

def copyTos := copyTo ofConnInfo.tos 1
def copyTclass := copyTo ofConnInfo.tclass 1
def copySkmeminfo := copyTo ofConnInfo.mem 36
def copyShutdown := copyTo ofConnInfo.shutdown 1
def copyDctcpinfo := copyTo ofConnInfo.ccInfo 16
def copySkv6only := copyTo ofConnInfo.ipv6only 1
def copyBbrinfo := copyTo ofConnInfo.ccInfo 20
def copyClassId := copyTo ofConnInfo.classid 4
def copyCgroupId := copyTo ofConnInfo.cgroupId 8
def copySockopt := copyTo ofConnInfo.inetSockopt 2

/-- `copy_func`, from `INET_DIAG_NONE` to `__INET_DIAG_MAX`. -/
def copyFunc : List (ConnInfo → Ptr → ConnInfo) :=
  [copyVoid, copyMeminfo, copyInfo, copyVegasinfo, copyCong, copyTos, copyTclass, copySkmeminfo,
    copyShutdown, copyDctcpinfo, copyVoid, copySkv6only, copyVoid, copyVoid, copyVoid, copyVoid,
    copyBbrinfo, copyClassId, copyVoid, copyVoid, copyVoid, copyCgroupId, copySockopt, copyVoid]

/-- `copy_func[rta_type](ci, p)`, for a type below `__INET_DIAG_MAX`. -/
def copyAttr (type : Nat) (ci : ConnInfo) (p : Ptr) : ConnInfo :=
  copyFunc.getD type copyVoid ci p

/-! ## One message -/

/-- How the attribute loop ended: `RTA_OK` failed, a type was not supported, or it was still
going on after the number of attributes it was given. -/
inductive RtaEnd
  | done
  | unsupported (type : Nat)
  | more
  deriving DecidableEq, Repr

/-- What the attribute loop leaves behind. `inspected` are the offsets at which it read an
attribute header, in order. -/
structure RtaResult where
  how : RtaEnd
  ci : ConnInfo
  ext : BitVec 32
  inspected : List Nat

/-- The attribute loop of `diag_dump` from the attribute at `rta` on, with `rtaLen = len`, for
at most the given number of attributes. -/
def rtaLoop (mem : Ptr) : Nat → Nat → Nat → ConnInfo → BitVec 32 → RtaResult
  | n, rta, len, ci, ext =>
      -- `RTA_OK` reads the header only if it finds that much left.
      let inspected := if RTA_HDRLEN ≤ len then [rta] else []
      if !rtaOk mem rta len then ⟨.done, ci, ext, inspected⟩
      else
        match n with
        | 0 => ⟨.more, ci, ext, inspected⟩
        | n + 1 =>
            let type := rtaType mem rta
            if INET_DIAG_MAX ≤ type then ⟨.unsupported type, ci, ext, inspected⟩
            else
              -- `RTA_NEXT` subtracts the aligned length, of which less may be left.
              let aligned := align4 (rtaLen mem rta)
              let r := rtaLoop mem n (rta + aligned) (u32sub len aligned)
                (copyAttr type ci (mem.add (rta + RTA_HDRLEN))) (ext ||| bit type)
              { r with inspected := inspected ++ r.inspected }

/-- The little-endian bytes of an `int`. -/
def leBytes (v : Int) : Ptr := fun i => ((v % 4294967296).toNat / 256 ^ i % 256).toUInt8

/-- The owner of the socket, if the connections are to be given their owners. -/
def ownerLookup (extReq : BitVec 32) (owners : OwnerMap) (inode : Nat) :
    Option (Option SkOwner) :=
  if extIsSet extReq INET_DIAG_PROC then lookupSocketOwner owners inode else some none

/-- The connection and the extensions before the attribute loop. -/
def diagStart (owner : Option SkOwner) (r : Ptr) : ConnInfo × BitVec 32 :=
  let ext := bit INET_DIAG_NONE ||| bit INET_DIAG_ADDRESS
  let ci := ConnInfo.zero.write ofConnInfo.r sizeofInetDiagMsg r
  match owner with
  | none => (ci, ext)
  | some o =>
      ((ci.write ofConnInfo.pid 4 (leBytes o.pid)).write ofConnInfo.comm TASK_COMM_LEN
        fun i => o.comm.getD i 0, ext ||| bit INET_DIAG_PROC)

/-- The attribute loop as `diag_dump` starts it for the message at `nlh`. -/
def diagAttrs (mem : Ptr) (nlh : Nat) (owner : Option SkOwner) (n : Nat) : RtaResult :=
  let r := nlh + NLMSG_HDRLEN
  let (ci, ext) := diagStart owner (mem.add r)
  rtaLoop mem n (r + sizeofInetDiagMsg)
    (u32sub (nlmsgLen mem nlh) (NLMSG_HDRLEN + sizeofInetDiagMsg)) ci ext

/-! ## The list of connections -/

/-- The loop of `add_conn_info` and its `list_add_tail`: place `ci` before the first entry that
lacks the key's extension or compares to the other side, at the end if there is none. -/
def insertConn (f : FieldInfo) (ascending : Bool) (ci : ConnInfo) :
    List ConnInfo → Option (List ConnInfo)
  | [] => some [ci]
  | pos :: rest =>
      if !hasBit pos.ext f.extRcv then some (ci :: pos :: rest)
      else do
        -- Where the keys are equal, `ci` goes further on in either direction.
        let ret := (← f.sortFunc).apply f (ci.ptr f.offset) (pos.ptr f.offset)
        if (if ascending then ret < 0 else ret > 0) then return ci :: pos :: rest
        else return pos :: (← insertConn f ascending ci rest)

/-- `add_conn_info`, given what `sort_key` points at. -/
def addConnInfo (sortKey : Option FieldInfo) (ascending : Bool) (ci : ConnInfo)
    (connList : List ConnInfo) : Option (List ConnInfo) :=
  match sortKey with
  | none => some (connList ++ [ci])
  | some f =>
      if !hasBit ci.ext f.extRcv || connList.isEmpty then some (connList ++ [ci])
      else insertConn f ascending ci connList

/-- What `sort_key` points at. -/
def Sys.sortField (s : Sys) : Option (Option FieldInfo) :=
  match s.n.sortKey with
  | none => some none
  | some k => (s.fieldAt k).map fun f => some f.toFieldInfo

/-! ## Messages and datagrams -/

/-- A datagram received: its size, and the memory from the receive buffer on. A loop over more
than `reach` attributes has left the mapped memory, of which the datagram is a part. -/
structure Datagram where
  sz : Nat
  mem : Ptr
  reach : Nat
  sz_le : sz ≤ 32768
  reach_ge : sz / 4 ≤ reach

/-- `diag_dump`, for the message at offset `nlh` of the datagram. -/
def diagDump (s : Sys) (d : Datagram) (nlh : Nat) : Option (Bool × Sys) := do
  let (ok, s) := s.alloc
  if !ok then return (true, s.nmPerror "conn_info_alloc")
  let inode := rdU32 (d.mem.add (nlh + NLMSG_HDRLEN + ofInetDiagMsg.idiagInode))
  let owner ← ownerLookup s.n.extReq s.owners inode
  let r := diagAttrs d.mem nlh owner d.reach
  match r.how with
  -- More attributes than there is mapped memory for.
  | .more => none
  | .unsupported type =>
      return (true, s.nmError s!"Unsupported inet_diag extension: {type}\n")
  | .done =>
      let ci := { r.ci with ext := r.ext }
      let connList ← addConnInfo (← s.sortField) s.n.sortAscending ci s.n.connList
      return (false, { s with n := { s.n with
        extRcv := s.n.extRcv ||| r.ext
        connList
        nrConns := i32 (s.n.nrConns + 1) } })

/-- How the walk over a datagram ended: at `NLMSG_DONE`, with an error, or where `NLMSG_OK`
failed. -/
inductive MsgEnd
  | done | err | next
  deriving DecidableEq, Repr

/-- The walk over a datagram from the message at `nlh` on, with `sz` bytes left. -/
def nlmsgLoop (d : Datagram) : Nat → Nat → Int → Sys → Option (MsgEnd × Sys)
  | 0, _, _, _ => none
  | fuel + 1, nlh, sz, s =>
      if !nlmsgOk d.mem nlh sz then some (.next, s)
      else if nlmsgType d.mem nlh = NLMSG_DONE then some (.done, s)
      else if nlmsgType d.mem nlh = NLMSG_ERROR then
        -- A message too short for its `struct nlmsgerr` has no error number to print.
        if nlmsgLen d.mem nlh < 36 then some (.err, s.nmError "NLMSG_ERROR\n")
        else some (.err, s.nmPerror "NLMSG_ERROR")
      else do
        let (ret, s) ← diagDump s d nlh
        if ret then return (.err, s)
        else
          let aligned := align4 (nlmsgLen d.mem nlh)
          nlmsgLoop d fuel (nlh + aligned) (sz - aligned) s

/-- The receive loop of `connections_dump`, over what the calls of `recvmsg` return (`none`
for a failure). Without a further datagram it waits for ever. -/
def recvLoop : List (Option Datagram) → Sys → Option (Bool × Sys)
  | [], _ => none
  | none :: _, s => some (true, s.nmPerror "recvmsg")
  | some d :: ds, s => do
      -- A message takes at least the bytes of its header.
      let (how, s) ← nlmsgLoop d (d.sz / NLMSG_HDRLEN + 1) 0 d.sz s
      match how with
      | .done => return (false, s)
      | .err => return (true, s)
      | .next => recvLoop ds s

/-- The kernel's side of a dump: whether it takes the request, and what it sends. -/
structure DumpEnv where
  sendmsg : Request → Bool
  recvs : List (Option Datagram)

def connectionsDump (s : Sys) (env : DumpEnv) : Option (Bool × Sys) :=
  if !env.sendmsg (buildRequest s.n) then some (true, s.nmPerror "sendmsg")
  else recvLoop env.recvs
    { s with n := { s.n with extRcv := bit INET_DIAG_NONE ||| bit INET_DIAG_ADDRESS } }

end Sockmon

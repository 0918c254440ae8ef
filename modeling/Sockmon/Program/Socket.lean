import Sockmon.Dump.Request
import Sockmon.System.Main

set_option autoImplicit false

/-! # The program on its socket

Here the kernel is a function of the bytes it is sent, what it answers waits on the socket until
`recvmsg` takes it, and there is one receive buffer for the requests and for the datagrams of all
frames. A datagram that is not taken in one frame is still there in the next.
-/

namespace Sockmon

/-- What a frame meets. -/
structure WireEnv where
  allocs : List Bool
  fs : ProcFs
  stk : ConnInfo → FieldInfo → Ptr
  /-- Whether a request is taken, and what `recvmsg` then returns, one after the other. -/
  kernel : List UInt8 → Option (List (Option (List UInt8)))
  /-- The memory behind the receive buffer, and how many attributes of it are mapped. -/
  behind : Ptr
  mapped : Nat

inductive WireEvent
  | body (env : WireEnv)
  | input (i : Input)
  | exit (closedir : Bool)

/-- The state of the program, its receive buffer, and what waits on the socket. -/
structure Wired where
  sys : Sys
  buf : Ptr
  queue : List (Option (List UInt8))

/-- The size of the receive buffer. -/
def recvBufSize : Nat := 32768

/-- The datagram that `recvmsg` stores over the buffer. What does not fit is cut off. -/
def recvmsg (env : WireEnv) (buf : Ptr) (bs : List UInt8) : Datagram × Ptr :=
  let bs := bs.take recvBufSize
  let buf : Ptr := fun i => bs.getD i (buf i)
  ({ sz := bs.length
     mem := fun i => if i < recvBufSize then buf i else env.behind (i - recvBufSize)
     reach := recvBufSize / 4 + env.mapped
     sz_le := List.length_take_le recvBufSize _
     reach_ge := by
       have hle : bs.length ≤ recvBufSize := List.length_take_le recvBufSize _
       omega }, buf)

/-- The receive loop of `connections_dump`. -/
def recvWired (env : WireEnv) :
    List (Option (List UInt8)) → Ptr → Sys → Option (Bool × Wired)
  | [], _, _ => none
  | none :: queue, buf, s => some (true, ⟨s.nmPerror "recvmsg", buf, queue⟩)
  | some bs :: queue, buf, s => do
      let (d, buf) := recvmsg env buf bs
      let (how, s) ← nlmsgLoop d (d.sz / NLMSG_HDRLEN + 1) 0 d.sz s
      match how with
      -- What follows in the datagram is never looked at, what follows on the socket stays there.
      | .done => return (false, ⟨s, buf, queue⟩)
      | .err => return (true, ⟨s, buf, queue⟩)
      | .next => recvWired env queue buf s

/-- `connections_dump` -/
def dumpWired (w : Wired) (env : WireEnv) : Option (Bool × Wired) :=
  let req := buildRequest w.sys.n
  match env.kernel (req.sent w.buf) with
  | none => some (true, ⟨w.sys.nmPerror "sendmsg", req.store w.buf, w.queue⟩)
  | some answer => recvWired env (w.queue ++ answer) (req.store w.buf)
      { w.sys with n := { w.sys.n with extRcv := bit INET_DIAG_NONE ||| bit INET_DIAG_ADDRESS } }

/-- `build_sk_proc_map(&n) || connections_dump(&n)` -/
def collectWired (w : Wired) (env : WireEnv) : Option (Bool × Wired) := do
  let (err, s) ← buildSkProcMap { w.sys with allocs := env.allocs } env.fs
  if err then return (true, { w with sys := s }) else dumpWired { w with sys := s } env

/-- The body of `main`'s loop. -/
def bodyWired (w : Wired) (env : WireEnv) : Option Wired :=
  if w.sys.n.curScreen ≠ .main then some { w with sys := { w.sys with pc := .wait } }
  else do
    let (err, w) ← collectWired w env
    if err then return { w with sys := { w.sys with err := true, pc := .out } }
    else
      let (_, s) ← drawConnections w.sys env.stk
      return { w with sys := { s with err := false, pc := .wait } }

def wiredStep (w : Wired) : WireEvent → Option Wired
  | .body env => if w.sys.pc = .top then bodyWired w env else none
  | .input i => do
      let s ← step w.sys (.input i)
      return { w with sys := s }
  | .exit closedir => do
      let s ← step w.sys (.exit closedir)
      return { w with sys := s }

/-- At the start nothing was sent, and the buffer is zero. -/
def Start.wired (b : Start) : Wired := ⟨b.state, fun _ => 0, []⟩

end Sockmon

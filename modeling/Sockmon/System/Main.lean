import Sockmon.Lib.Run
import Sockmon.System.Input

set_option autoImplicit false

/-! # The program

`main` as a step function: at the top of its loop a step runs the body, in `should_stop` a
step waits for a key, and behind the loop a step cleans up and returns. A run is a list of
such events from the state in which a successful initialisation ends.
-/

namespace Sockmon

/-- What the body of the loop meets: allocations, `/proc`, the kernel's answer, and the bytes
on the stack behind local variables. -/
structure BodyEnv where
  allocs : List Bool
  fs : ProcFs
  dump : DumpEnv
  stk : ConnInfo → FieldInfo → Ptr

inductive Event
  | body (env : BodyEnv)
  | input (i : Input)
  | exit (closedir : Bool)

/-- `build_sk_proc_map(&n) || connections_dump(&n)` -/
def collect (s : Sys) (env : BodyEnv) : Option (Bool × Sys) := do
  let (err, s) ← buildSkProcMap s env.fs
  if err then return (true, s) else connectionsDump s env.dump

/-- The body of `main`'s loop; on the other screens it does nothing. -/
def mainBody (s : Sys) (env : BodyEnv) : Option Sys :=
  -- `continue` goes to the condition of the loop.
  if s.n.curScreen ≠ .main then some { s with pc := .wait }
  else do
    let (err, s) ← collect { s with allocs := env.allocs } env
    if err then return { s with err := true, pc := .out }
    else
      let (_, s) ← drawConnections s env.stk
      return { s with err := false, pc := .wait }

/-- `nm_ctx_exit` -/
def nmCtxExit (s : Sys) : Sys :=
  { s with n := { s.n with
    connList := []
    nrConns := i32 (s.n.nrConns - s.n.connList.length) } }

/-- What `main` does behind its loop; closing the socket leaves no trace. -/
def mainExit (s : Sys) (closedir : Bool) : Option Sys := do
  let s ← procExit s closedir
  return { nmCtxExit s.windowExit with pc := .done }

def step (s : Sys) : Event → Option Sys
  | .body env => if s.pc = .top then mainBody s env else none
  | .input i =>
      if s.pc = .wait then do
        let s ← shouldStop s i
        return { s with pc := if s.n.shouldStop then .out else .top }
      else none
  | .exit closedir => if s.pc = .out then mainExit s closedir else none

/-- How `main` comes to its loop: what the initialisation meets, and the state it ends in. -/
structure Start where
  size : TermSize
  allocs : List Bool
  env : ProcInitEnv
  state : Sys
  ok : procInit (Sys.boot size allocs) env = some (false, state)

/-- The states that some run reaches. -/
def Reachable (t : Sys) : Prop :=
  ∃ (b : Start) (es : List Event), Transition.exec step es b.state = some t

/-- What holds at every start and is kept by every step holds in every reachable state. -/
theorem Reachable.invariant {J : Sys → Prop} (h0 : ∀ b : Start, J b.state)
    (hstep : ∀ s e t, J s → step s e = some t → J t) {t : Sys} (ht : Reachable t) : J t := by
  obtain ⟨b, es, hrun⟩ := ht
  exact Transition.exec_invariant hstep (h0 b) hrun

/-! ## A quiet system

A start and a frame in which nothing fails and no connection is there, and single keys. -/

/-- The size of a terminal of 80 columns. -/
def termSize (lines : Int) (h : 0 < lines ∧ lines ≤ INT_MAX) : TermSize :=
  ⟨lines, 80, h.1, by decide, h.2, by decide⟩

set_option maxRecDepth 4000 in
def Start.quiet : Start where
  size := termSize 24 (by decide)
  allocs := []
  env := { mounts := some [("proc", bytes "/proc")], opendir := true }
  state :=
    { Sys.boot (termSize 24 (by decide)) [] with
      procPath := bytes "/proc/" ++ List.replicate 250 0
      procPathLen := 6
      owners := ⟨1024, 10, some (List.replicate 1024 []), 0⟩ }
  ok := rfl

/-- A dump that consists of `NLMSG_DONE`. -/
def Datagram.done : Datagram where
  sz := 16
  mem := fun i => [16, 0, 0, 0, 3].getD i 0
  reach := 4
  sz_le := by decide
  reach_ge := by decide

def Event.quiet : Event := .body
  { allocs := [], fs := ⟨[], fun _ => none, fun _ => none⟩
    dump := ⟨fun _ => true, [some Datagram.done]⟩, stk := fun _ _ _ => 0 }

/-- The key `ch`, and the keys its handler reads. -/
def Event.press (ch : Key) (typed : List Key) : Event :=
  .input ⟨ch, typed, [], termSize 24 (by decide)⟩

/-- The terminal gets another number of lines. -/
def Event.resize (lines : Int) (h : 0 < lines ∧ lines ≤ INT_MAX) : Event :=
  .input ⟨KEY_RESIZE, [], [], termSize lines h⟩

end Sockmon

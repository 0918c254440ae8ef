import Sockmon.Lib.Ledger
import Sockmon.System.Main

set_option autoImplicit false

/-! # The whole program and the calls it makes

`main` with the initialisation that may fail at every point, and the calls by which it and the
functions it calls open and close windows, directories, files and the socket. Each resource is
named after the variable that holds its handle. A function that reports an error calls
`window_exit` at that moment, and `errorCalls` are the calls this makes.
-/

namespace Sockmon

open Ledger Transition

/-! ## Resources -/

/-- `WINDOW_MAIN` is `stdscr`. -/
inductive Window
  | main | summary | interactive | connInfo | filter
  deriving DecidableEq, Repr

/-- The terminal, from `initscr` to `endwin`; windows; the mount table; `dp_proc`, and in its
scan `dp_pid` and the `comm` file; the socket. -/
inductive Resource
  | screen
  | window (w : Window)
  | mounts
  | dpProc
  | dpPid
  | comm
  | sk
  deriving DecidableEq, Repr

/-- `window_exit`, for the windows that `n->win` has; nothing the second time. -/
def windowExitCalls (win : List Window) (s : Sys) : List (Call Resource) :=
  if s.n.weCalled then [] else win.map (fun w => .release (.window w)) ++ [.release .screen]

/-- What a function calls that leads from `s` to `t` and may report errors, of which the first
one has an effect. -/
def errorCalls (win : List Window) (s t : Sys) : List (Call Resource) :=
  if t.n.weCalled then windowExitCalls win s else []

/-! ## The initialisation -/

/-- Which calls of `newwin` succeed, and what the later functions meet. -/
structure InitEnv where
  size : TermSize
  newwin : Window → Bool
  allocs : List Bool
  proc : ProcInitEnv
  socket : Bool
  bind : Bool

/-- `window_init`: the windows there are, and whether one is missing. -/
def windowInit (newwin : Window → Bool) : Bool × List Window :=
  let win := .main :: [.summary, .interactive, .connInfo, .filter].filter newwin
  (win.length != 5, win)

def windowInitCalls (win : List Window) : List (Call Resource) :=
  .acquire .screen :: win.map fun w => .acquire (.window w)

def getProcMountPathCalls (win : List Window) (s : Sys) (env : ProcInitEnv) :
    List (Call Resource) :=
  let t := (getProcMountPath s env).2
  match env.mounts with
  | none => errorCalls win s t
  -- The errors are reported with the mount table open.
  | some _ => .acquire .mounts :: errorCalls win s t ++ [.release .mounts]

/-- `proc_init`, which leads from `s` to `t` and returns `ret`. -/
def procInitCalls (win : List Window) (s : Sys) (env : ProcInitEnv) (ret : Bool) (t : Sys) :
    List (Call Resource) :=
  let (pathRet, u) := getProcMountPath s env
  getProcMountPathCalls win s env ++
    if pathRet then []
    else if !env.opendir then errorCalls win u t
    -- Without memory for the table the directory is closed again.
    else .acquire .dpProc :: (if ret then errorCalls win u t ++ [.release .dpProc] else [])

/-- `nl_init`, told which of its calls succeed. -/
def nlInit (s : Sys) (socket bind : Bool) : Bool × Sys :=
  if !socket then (true, s.nmPerror "socket")
  else if !bind then (true, s.nmPerror "bind")
  else (false, s)

def nlInitCalls (win : List Window) (s : Sys) (socket bind : Bool) : List (Call Resource) :=
  let t := (nlInit s socket bind).2
  if !socket then errorCalls win s t
  else .acquire .sk :: (if bind then [] else errorCalls win s t ++ [.release .sk])

/-! ## A frame -/

/-- `get_comm`: a file that was opened is closed, whatever is read. -/
def getCommCalls (file : Option (Option (List UInt8))) : List (Call Resource) :=
  match file with
  | none => []
  | some _ => [.acquire .comm, .release .comm]

/-- The loop of `build_sk_proc_map`: the directory of a process stays open while its `comm` file
is read and its links are. -/
def procLoopCalls (win : List Window) (fs : ProcFs) :
    List (Option ProcEnt) → Sys → List (Call Resource)
  | [], _ => []
  | none :: ents, s => procLoopCalls win fs ents s
  | some d :: ents, s =>
      match procVisit fs s.procPathLen s.procPath d with
      | none => []
      -- No directory was opened.
      | some (.skip, procPath) => procLoopCalls win fs ents { s with procPath }
      | some (.fail, procPath) =>
          .acquire .dpPid :: getCommCalls (fs.openComm (openedPath procPath)) ++ [.release .dpPid]
      | some (.links pid comm fds, procPath) =>
          match skInoMakeMap pid comm fds { s with procPath } with
          | none => []
          | some (ret, t) =>
              .acquire .dpPid :: (getCommCalls (fs.openComm (openedPath procPath)) ++
                  errorCalls win s t) ++ [.release .dpPid] ++
                (if ret then [] else procLoopCalls win fs ents t)

def buildSkProcMapCalls (win : List Window) (fs : ProcFs) (s : Sys) : List (Call Resource) :=
  if extIsSet s.n.extReq INET_DIAG_PROC then procLoopCalls win fs fs.listing s else []

/-- What an event of the loop calls that leads from `s` to `t`. -/
def stepCalls (win : List Window) (s : Sys) (e : Event) (t : Sys) : List (Call Resource) :=
  match e with
  | .body env =>
      if s.n.curScreen ≠ .main then []
      else
        let s := { s with allocs := env.allocs }
        match buildSkProcMap s env.fs with
        | none => []
        -- The scan, and then the dump or the drawing.
        | some (_, u) => buildSkProcMapCalls win env.fs s ++ errorCalls win u t
  | _ => errorCalls win s t

def loopCalls (win : List Window) : List Event → Sys → List (Call Resource)
  | [], _ => []
  | e :: es, s =>
      match step s e with
      | none => []
      | some t => stepCalls win s e t ++ loopCalls win es t

/-! ## The program -/

/-- What `main` returns, the state it ends in, and the calls it has made. -/
structure Outcome where
  err : Bool
  state : Sys
  calls : List (Call Resource)

/-- From the label `out` on. -/
def mainOut (win : List Window) (s : Sys) (calls : List (Call Resource)) : Outcome :=
  ⟨s.err, { nmCtxExit s.windowExit with pc := .done }, calls ++ windowExitCalls win s⟩

/-- From the label `out_proc_exit` on. -/
def mainOutProcExit (win : List Window) (s : Sys) (calls : List (Call Resource))
    (closedir : Bool) : Option Outcome := do
  let t ← procExit s closedir
  return mainOut win t (calls ++ .release .dpProc :: errorCalls win s t)

/-- `main`, whose loop goes through the events `es`. -/
def main (env : InitEnv) (es : List Event) (closedir : Bool) : Option Outcome :=
  let s := Sys.boot env.size env.allocs
  let (err, win) := windowInit env.newwin
  let calls := windowInitCalls win
  if err then some (mainOut win s calls)
  else do
    let (err, t) ← procInit s env.proc
    let calls := calls ++ procInitCalls win s env.proc err t
    if err then return mainOut win t calls
    else
      let (err, u) := nlInit t env.socket env.bind
      let calls := calls ++ nlInitCalls win t env.socket env.bind
      if err then mainOutProcExit win u calls closedir
      else
        let v ← exec step es u
        -- A run that is still in the loop, or was given the exit as an event, is none.
        if v.pc ≠ .out then none
        else mainOutProcExit win v (calls ++ loopCalls win es u ++ [.release .sk]) closedir

end Sockmon

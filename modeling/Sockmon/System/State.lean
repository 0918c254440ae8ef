import Sockmon.Field.Parse
import Sockmon.Field.Table

set_option autoImplicit false

/-! # The state of the program

`struct nm_ctx` and the static variables of the source files, in one record. Pointers into
`tcp_fields` are the indices they point at: `sel_field` is only ever set to an element, while
`sort_key` is set from the cursor without looking at the element, so its index may lie outside
the table. The allocations still to come succeed except as `allocs` says.
-/

namespace Sockmon

inductive Screen
  | main | field | help
  deriving DecidableEq, Repr

structure Position where
  y : Int
  x : Int
  deriving DecidableEq, Repr

/-- The size of a terminal, as `getmaxyx` reports it. -/
structure TermSize where
  lines : Int
  cols : Int
  lines_pos : 0 < lines
  cols_pos : 0 < cols
  lines_le : lines ≤ INT_MAX
  cols_le : cols ≤ INT_MAX

def IPPROTO_TCP : Nat := 6
def IPPROTO_UDP : Nat := 17

/-- `struct nm_ctx`; `posMain` and `posField` are `pos[SCREEN_MAIN]` and `pos[SCREEN_FIELD]`. -/
structure NmCtx where
  posMain : Position
  posField : Position
  selField : Option Nat
  sortKey : Option Int
  curScreen : Screen
  lines : Int
  cols : Int
  delay : Int
  shouldStop : Bool
  weCalled : Bool
  sortAscending : Bool
  family : Nat
  protocol : Nat
  extReq : BitVec 32
  extRcv : BitVec 32
  nrConns : Int
  connList : List ConnInfo

/-- `struct sk_owner`, a member of a bucket's chain. -/
structure SkOwner where
  skIno : Nat
  pid : Int
  comm : List UInt8
  deriving DecidableEq, Repr

/-- The socket owner table of `proc.c`. -/
structure OwnerMap where
  mapHashSz : Nat
  mapHashShift : Nat
  skInoHb : Option (List (List SkOwner))
  nrSockets : Int
  deriving DecidableEq, Repr

/-- Where `main` is: at the top of its loop, in `should_stop`, behind the loop, or returned. -/
inductive Pc
  | top | wait | out | done
  deriving DecidableEq, Repr

structure Sys where
  n : NmCtx
  tcpFields : List Field
  owners : OwnerMap
  procPath : List UInt8
  procPathLen : Nat
  pc : Pc
  err : Bool
  allocs : List Bool
  stderr : List String

/-! ## Extension masks -/

/-- `ext_set`: the bit of `flag` is `flag - 1`. -/
def extSet (ext : BitVec 32) (flag : Nat) : BitVec 32 := ext ||| bit (flag - 1)

def extIsSet (ext : BitVec 32) (flag : Nat) : Bool := hasBit ext (flag - 1)

namespace Sys

/-! ## Allocation and errors -/

/-- One call of an allocator. -/
def alloc (s : Sys) : Bool × Sys := (s.allocs.headD true, { s with allocs := s.allocs.tail })

/-- `window_exit`: once, the windows and the filters are freed. -/
def windowExit (s : Sys) : Sys := { s with n := { s.n with weCalled := true } }

def nmError (s : Sys) (msg : String) : Sys :=
  { s.windowExit with stderr := s.stderr ++ [msg] }

/-- `nm_perror` writes its argument before the text of the error number. -/
def nmPerror (s : Sys) (msg : String) : Sys := s.nmError msg

/-! ## The field table -/

/-- `nr_tcp_fields` -/
def nrTcpFields (s : Sys) : Int := s.tcpFields.length

/-- `tcp_fields[y]`, which has no value outside the table. -/
def fieldAt (s : Sys) (y : Int) : Option Field :=
  if 0 ≤ y then s.tcpFields[y.toNat]? else none

/-- `tcp_fields[y] = f` -/
def setField (s : Sys) (y : Int) (f : Field) : Sys :=
  { s with tcpFields := s.tcpFields.set y.toNat f }

end Sys

/-! ## The start of `main` -/

/-- `nm_ctx_init`, after `window_init` has asked for the terminal's size. -/
def nmCtxInit (size : TermSize) : NmCtx :=
  { posMain := ⟨0, 0⟩, posField := ⟨0, 0⟩, selField := none, sortKey := none,
    curScreen := .main, lines := size.lines, cols := size.cols, delay := 30,
    shouldStop := false, weCalled := false, sortAscending := false, family := AF_INET,
    protocol := IPPROTO_TCP, extReq := 0, extRcv := 0, nrConns := 0, connList := [] }

/-- The static variables before `proc_init`. -/
def Sys.boot (size : TermSize) (allocs : List Bool) : Sys :=
  { n := nmCtxInit size, tcpFields := Sockmon.tcpFields,
    owners := { mapHashSz := 1024, mapHashShift := 10, skInoHb := none, nrSockets := 0 },
    procPath := List.replicate 256 0, procPathLen := 0, pc := .top, err := true, allocs,
    stderr := [] }

end Sockmon

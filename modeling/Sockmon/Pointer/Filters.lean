import Sockmon.Run.Install

set_option autoImplicit false

/-! # The program with its filters on the heap

Every field has a pointer to its filter, which moves with it in the table. Before a step that looks
at filters these are read from the heap; a handler that installs one executes the statements of its
parser there, and `window_exit` frees them all. A place that is not in use has no value, so a step
that would read, free or write a filter that is gone has no result.
-/

namespace Sockmon

open Transition

/-! ## The statements of the popups -/

/-- `flt->selected = v`, which is a store to the operand as well. -/
abbrev Stmt.setSelected (v : BitVec 32) : Stmt := .setAddr (.selected v)

/-- What `fp_str_common` executes behind its loop; `old` is `flt->selected` if there is a filter. -/
def fpStrCommonEndStmts (old : Option (BitVec 32)) (allocs : List Bool) (selected : BitVec 32) :
    List Stmt :=
  match old with
  | none =>
      if selected = 0 then []
      else if !allocs.getD 0 true then []
      -- `calloc` has cleared the selection, which now differs.
      else [.calloc, .setOp .other, .install, .setSelected selected]
  | some v =>
      (if selected = 0 then [] else [.setOp .other, .install]) ++
        if v = selected then [] else [.setSelected selected]

def fpStrCommonStmts (height start : Nat) (f : Field) (allocs : List Bool) (keys : List Key) :
    List Stmt :=
  match (oldSelected f).bind (popupLoop height start keys 1) with
  | some (selected, _) => fpStrCommonEndStmts (f.filter.bind Filter.selected) allocs selected
  | none => []

/-- What the function `filter_parse` points at does on the heap. -/
def FilterParse.stmts : FilterParse → Field → List Bool → List Key → List Stmt
  | .fpCommon => fpCommonStmts
  | .fpAddr => fun _ => fpAddrStmts
  | .fpState => fpStrCommonStmts (stateStr.length - 1) 1
  | .fpTimer => fpStrCommonStmts timerStr.length 0
  | .fpShutdown => fpStrCommonStmts (4 - 1) RCV_SHUTDOWN
  | .fpBool => fpStrCommonStmts 2 0
  | .fpCaState => fpStrCommonStmts caStateStr.length 0
  | .fpOptions => fpStrCommonStmts 8 0
  | .fpFastopenClientFail => fpStrCommonStmts fastopenClientFailStr.length 0
  | .fpEcnMode => fpStrCommonStmts ecnModeStr.length 0
  | .fpAccecnOptSeen => fpStrCommonStmts accecnOptSeenStr.length 0
  | .fpAccecnFailMode => fpStrCommonStmts 4 0

/-- Where it starts: `fp_str_common` has `flt = f->filter`. -/
def FilterParse.start (fp : FilterParse) (heap : Heap Obj) (filter : Option Nat) : Mem :=
  match fp with
  | .fpCommon | .fpAddr => .start heap filter
  | _ => ⟨heap, filter, filter, none⟩

/-! ## Reading -/

/-- `*p`, with the string it points to if it has one. -/
def readFilter (h : Heap Obj) (p : Nat) : Option Filter :=
  match h.cell p with
  | some (.flt op (.inl arg)) => some ⟨op, arg⟩
  | some (.flt op (.inr q)) =>
      match h.cell q with
      | some (.str s) => some ⟨op, .s s⟩
      | _ => none
  | _ => none

/-- The fields, with the filters that the pointers point to. -/
def readFilters (h : Heap Obj) : List Field → List (Option Nat) → Option (List Field)
  | [], [] => some []
  | f :: fs, none :: ptrs => do return { f with filter := none } :: (← readFilters h fs ptrs)
  | f :: fs, some p :: ptrs => do
      let flt ← readFilter h p
      return { f with filter := some flt } :: (← readFilters h fs ptrs)
  | _, _ => none

namespace Filters

/-- The program, the heap, and `tcp_fields[i].filter` for all `i`. -/
structure State where
  sys : Sys
  heap : Heap Obj
  ptrs : List (Option Nat)

/-- What the functions see: the filters are those on the heap. -/
def load (w : State) : Option Sys := do
  return { w.sys with tcpFields := ← readFilters w.heap w.sys.tcpFields w.ptrs }

/-! ## `window_exit` -/

/-- Its loop over `tcp_fields`. -/
def freeFilters : List Field → List (Option Nat) → Heap Obj → Option (Heap Obj)
  | f :: fs, some p :: ptrs, h => do
      let m ← exec Stmt.run ((if f.type = .string then [.freeOldS] else []) ++ [.freeOld])
        (.start h (some p))
      freeFilters fs ptrs m.heap
  | _ :: fs, none :: ptrs, h => freeFilters fs ptrs h
  | _, _, h => some h

/-- What a step that leads to `t` leaves of the filters: if it is the first to set `we_called`,
nothing. -/
def windowExit (w : State) (t : Sys) : Option State := do
  if t.n.weCalled && !w.sys.n.weCalled then
    return { w with sys := t, heap := ← freeFilters t.tcpFields w.ptrs w.heap }
  else return { w with sys := t }

/-! ## Keys -/

/-- `field_filter_handler` in the state `s`. -/
def fieldFilterHandler (w : State) (s : Sys) (allocs : List Bool) (keys : List Key) :
    Option State := do
  let f ← s.cursorField
  match f.filterParse with
  | none => return w
  | some filterParse =>
      if !f.filterOn then
        let y := s.n.posField.y.toNat
        let m ← exec Stmt.run (filterParse.stmts f allocs keys)
          (filterParse.start w.heap (← w.ptrs[y]?))
        return { w with heap := m.heap, ptrs := w.ptrs.set y m.filter }
      else return w

section

variable {α : Type}

/-- What `swap_field` does to a part of the fields. -/
def swapField (l : List α) (a b : Nat) : Option (List α) := do
  let fa ← l[a]?
  let fb ← l[b]?
  return (l.set a fb).set b fa

/-! The loops of `field_key_left_handler`, for such a part. -/

def moveDownLoop : Nat → Nat → List α → Option (List α)
  | 0, _, l => some l
  | k + 1, f, l => do moveDownLoop k (f + 1) (← swapField l f (f + 1))

def moveUpLoop : Nat → Nat → List α → Option (List α)
  | 0, _, l => some l
  | k + 1, f, l => do moveUpLoop k (f - 1) (← swapField l f (f - 1))

def moveLoop (sel y : Nat) (l : List α) : Option (List α) :=
  if sel < y then moveDownLoop (y - sel) sel l else moveUpLoop (sel - y) sel l

end

/-- `field_key_left_handler` in the state `s`. -/
def fieldKeyLeftHandler (w : State) (s : Sys) : Option State :=
  match s.n.selField with
  | none => some w
  | some sel => do
      let f ← s.cursorField
      let y := s.n.posField.y.toNat
      if f.drawRow.isNone then return w
      else if sel = y then return w
      else return { w with ptrs := ← moveLoop sel y w.ptrs }

/-- The other handlers leave the filters and their order alone. -/
def dispatch (w : State) (s : Sys) (i : Input) : Option State :=
  match fieldKey s i with
  | some .filter => fieldFilterHandler w s i.allocs i.typed
  | some .keyLeft => fieldKeyLeftHandler w s
  | _ => some w

/-! ## The program -/

def step (w : State) : Event → Option State
  | .body env =>
      if w.sys.pc = .top then do
        let s ← load w
        windowExit w (← Sockmon.step s (.body env))
      else none
  | .input i =>
      if w.sys.pc = .wait then do
        let s ← load w
        let w ← dispatch w s i
        return { w with sys := ← Sockmon.step s (.input i) }
      else none
  -- The exit looks at no filter.
  | .exit closedir => do windowExit w (← Sockmon.step w.sys (.exit closedir))

end Filters

/-- No field of `tcp_fields` starts with a filter. -/
def Start.filters (b : Start) : Filters.State :=
  ⟨b.state, Heap.fresh, b.state.tcpFields.map fun _ => none⟩

end Sockmon

import Sockmon.Lib.Heap
import Sockmon.Field.BareLine
import Sockmon.Run.Keys

set_option autoImplicit false

/-! # Replacing a filter

`fp_common` and `fp_addr` build the new filter next to the old one, and only then free the old
one and store the new pointer in the field. Here they are the statements they execute on the
heap. Every statement before the replacement keeps what was on the heap before (`Keeps.step`),
and the replacement keeps the new filter.
-/

namespace Sockmon

open Transition

/-! ## The heap of filters -/

/-- What is on the heap: a `struct filter`, whose union holds a value or the pointer to a string,
and such a string. -/
inductive Obj
  | flt (op : CmpOp) (arg : FilterArg ⊕ Nat)
  | str (s : List UInt8)

/-- The heap, `f->filter`, and the variables `flt` and `s` once they point to the heap. -/
structure Mem where
  heap : Heap Obj
  filter : Option Nat
  flt : Option Nat
  s : Option Nat

/-- What a parser finds. -/
def Mem.start (heap : Heap Obj) (filter : Option Nat) : Mem := ⟨heap, filter, none, none⟩

/-- Store into `*flt`. -/
def Mem.store (m : Mem) (g : CmpOp → FilterArg ⊕ Nat → Obj) : Option Mem := do
  let p ← m.flt
  match m.heap.cell p with
  | some (.flt op arg) => return { m with heap := ← m.heap.set p (g op arg) }
  | _ => none

/-- The statements that use the heap, allocations that succeed, and the assignment to
`f->filter`. -/
inductive Stmt
  | calloc
  | strdup (buf : List UInt8)
  | freeFlt
  | setOp (op : CmpOp)
  | setV (v : Nat)
  | setS
  | setAddr (arg : FilterArg)
  | freeOldS
  | freeOld
  | install

def Stmt.run (m : Mem) : Stmt → Option Mem
  | .calloc =>
      some { m with heap := m.heap.alloc (.flt .eq (.inl (.v 0))), flt := some m.heap.next }
  | .strdup buf => some { m with heap := m.heap.alloc (.str buf), s := some m.heap.next }
  | .freeFlt => do return { m with heap := ← m.heap.free (← m.flt) }
  | .setOp op => m.store fun _ arg => .flt op arg
  | .setV v => m.store fun op _ => .flt op (.inl (.v v))
  | .setS => do
      let s ← m.s
      m.store fun op _ => .flt op (.inr s)
  | .setAddr arg => m.store fun op _ => .flt op (.inl arg)
  -- `free(f->filter->s)`
  | .freeOldS => do
      match m.heap.cell (← m.filter) with
      | some (.flt _ (.inr s)) => return { m with heap := ← m.heap.free s }
      | _ => none
  -- `free(f->filter)`, which does nothing to a null pointer
  | .freeOld =>
      match m.filter with
      | none => some m
      | some p => do return { m with heap := ← m.heap.free p }
  | .install => some { m with filter := m.flt }

/-! ## The statements of the parsers -/

/-- What `fp_common` executes after the operand loop; `hasOld` is `f->filter`. -/
def fpCommonEndStmts (hasOld : Bool) (allocs : List Bool) (str : Bool) (op : CmpOp)
    (r : Operand) : List Stmt :=
  if !r.err && r.seenNl && r.seenInput then
    if !allocs.getD 0 true then []
    else if str && !allocs.getD 1 true then [.calloc, .freeFlt]
    else
      .calloc :: (if str then [Stmt.strdup r.buf] else []) ++
        [Stmt.setOp op, if str then .setS else .setV r.v] ++
        (if hasOld then (if str then [Stmt.freeOldS] else []) ++ [Stmt.freeOld] else []) ++
        [Stmt.install]
  else []

def fpCommonStmts (f : Field) (allocs : List Bool) (keys : List Key) : List Stmt :=
  match fpCommonOp keys with
  | some (.op op keys) =>
      (fpCommonOperand (f.type = .string) keys false 0 []).elim []
        (fpCommonEndStmts f.filter.isSome allocs (f.type = .string) op)
  | _ => []

/-- What `fp_addr` executes after the operand loop. It frees the old filter without asking
whether there is one. -/
def fpAddrEndStmts (allocs : List Bool) (op : CmpOp) (r : Operand) : List Stmt :=
  if !r.err && r.seenNl && r.seenInput then
    match parseAddr r.buf with
    | none => []
    | some arg =>
        if !allocs.getD 0 true then []
        else [.calloc, .setOp op, .setAddr arg, .freeOld, .install]
  else []

def fpAddrStmts (allocs : List Bool) (keys : List Key) : List Stmt :=
  match fpAddrOp keys with
  | some (.op op keys) => (fpAddrOperand keys false []).elim [] (fpAddrEndStmts allocs op)
  | _ => []

/-- The parsers of lines. -/
def lineStmts : FilterParse → Option (Field → List Bool → List Key → List Stmt)
  | .fpCommon => some fpCommonStmts
  | .fpAddr => some fun _ => fpAddrStmts
  | _ => none

/-- The filters of these own a string. -/
def ownsString (fp : FilterParse) (f : Field) : Bool := fp = .fpCommon && f.type = .string

/-! ## Filters on the heap -/

/-- At `p` there is the filter `flt`, all of it at `lo` or above. -/
def Reads (lo : Nat) (h : Heap Obj) (str : Bool) (p : Nat) (flt : Filter) : Prop :=
  lo ≤ p ∧
    if str then ∃ q s, lo ≤ q ∧ h.cell p = some (.flt flt.op (.inr q)) ∧
      h.cell q = some (.str s) ∧ flt.arg = .s s
    else h.cell p = some (.flt flt.op (.inl flt.arg))

/-- The field has the filter `flt`. -/
def Mem.Holds (m : Mem) (str : Bool) (flt : Option Filter) : Prop :=
  match flt with
  | none => m.filter = none
  | some flt => ∃ p, m.filter = some p ∧ Reads 0 m.heap str p flt

/-- The objects of the field's filter, in the order in which they are freed. -/
def Mem.owned (m : Mem) : List Nat :=
  match m.filter with
  | none => []
  | some p =>
      match m.heap.cell p with
      | some (.flt _ (.inr q)) => [q, p]
      | _ => [p]

/-- What is on the heap in `m` is there in `u`, and the field has the same filter. -/
structure Keeps (m u : Mem) : Prop where
  filter : u.filter = m.filter
  cell : ∀ p < m.heap.next, u.heap.cell p = m.heap.cell p
  next : m.heap.next ≤ u.heap.next
  sound : u.heap.Sound
  flt : ∀ p, u.flt = some p → m.heap.next ≤ p

/-- The statements that do not touch the field's filter. -/
def Stmt.isLocal : Stmt → Bool
  | .freeOldS | .freeOld | .install => false
  | _ => true

/-- The statements that build the new filter. -/
def Stmt.builds (c : Stmt) : Bool := c.isLocal && (match c with | .freeFlt => false | _ => true)

section

variable {m u u' : Mem} {c : Stmt} {str : Bool} {flt : Filter} {lo lo' p : Nat}
  {h h' : Heap Obj} {cs : List Stmt}

theorem Reads.mono (hr : Reads lo h str p flt) (hlo : lo' ≤ lo) : Reads lo' h str p flt := by
  obtain ⟨hp, hr⟩ := hr
  refine ⟨hlo.trans hp, ?_⟩
  cases str with
  | true =>
      obtain ⟨q, s, hq, hr⟩ := hr
      exact ⟨q, s, hlo.trans hq, hr⟩
  | false => exact hr

/-- A filter is still there after what changes nothing at its objects. -/
theorem Reads.congr (hr : Reads lo h str p flt) (hc : ∀ q, lo ≤ q → h'.cell q = h.cell q) :
    Reads lo h' str p flt := by
  obtain ⟨hp, hr⟩ := hr
  refine ⟨hp, ?_⟩
  cases str with
  | true =>
      obtain ⟨q, s, hq, hcell, hs, harg⟩ := hr
      exact ⟨q, s, hq, by rw [hc p hp, hcell], by rw [hc q hq, hs], harg⟩
  | false => exact (hc p hp).trans hr

theorem Reads.live (hr : Reads lo h str p flt) : ∃ a, h.cell p = some a := by
  obtain ⟨-, hr⟩ := hr
  cases str with
  | true =>
      obtain ⟨q, s, -, hcell, -⟩ := hr
      exact ⟨_, hcell⟩
  | false => exact ⟨_, hr⟩

theorem store_some {g : CmpOp → FilterArg ⊕ Nat → Obj} (hu : m.store g = some u) :
    ∃ p op arg h, m.flt = some p ∧ m.heap.cell p = some (.flt op arg) ∧
      m.heap.set p (g op arg) = some h ∧ u = { m with heap := h } := by
  obtain ⟨p, hp, hu⟩ := bind_some hu
  split at hu
  · rename_i op arg hcell
    obtain ⟨h, hset, hu⟩ := bind_some hu
    cases hu
    exact ⟨p, op, arg, h, hp, hcell, hset, rfl⟩
  · cases hu

/-! ## Before the replacement -/

theorem Keeps.refl (heap : Heap Obj) (hs : heap.Sound) (filter : Option Nat) :
    Keeps (.start heap filter) (.start heap filter) :=
  ⟨rfl, fun _ _ => rfl, le_rfl, hs, by rintro p ⟨⟩⟩

/-- An allocation, with a pointer to it in a variable or not. -/
theorem Keeps.alloc (hk : Keeps m u) (a : Obj) {v : Mem} (hh : v.heap = u.heap.alloc a)
    (hfilter : v.filter = u.filter) (hflt : v.flt = u.flt ∨ v.flt = some u.heap.next) :
    Keeps m v := by
  refine ⟨hfilter.trans hk.filter, fun p hp => ?_, ?_, ?_, fun p hp => ?_⟩
  · have hne : p ≠ u.heap.next := by
      have := hk.next
      omega
    rw [hh, Heap.alloc_cell hne, hk.cell p hp]
  · rw [hh, Heap.alloc_next]
    exact hk.next.trans (Nat.le_succ _)
  · rw [hh]
    exact hk.sound.alloc a
  · rcases hflt with hflt | hflt
    · exact hk.flt p (hflt ▸ hp)
    · rw [hflt] at hp
      cases hp
      exact hk.next

/-- A store into `*flt`. -/
theorem Keeps.store (hk : Keeps m u) {g : CmpOp → FilterArg ⊕ Nat → Obj}
    (hu : u.store g = some u') : Keeps m u' := by
  obtain ⟨p, op, arg, h, hp, hcell, hset, rfl⟩ := store_some hu
  have hlo := hk.flt p hp
  have hsound := hk.sound.set hset
  rw [Heap.set_eq hcell] at hset
  cases hset
  exact ⟨hk.filter, fun q hq => (Function.update_of_ne (by omega) _ _).trans (hk.cell q hq),
    hk.next, hsound, hk.flt⟩

/-- **A statement that does not touch the field's filter keeps all that was on the heap.** -/
theorem Keeps.step (hk : Keeps m u) (hc : c.isLocal = true) (hu : c.run u = some u') :
    Keeps m u' := by
  cases c with
  | calloc =>
      cases hu
      exact hk.alloc _ rfl rfl (Or.inr rfl)
  | strdup buf =>
      cases hu
      exact hk.alloc _ rfl rfl (Or.inl rfl)
  | freeFlt =>
      obtain ⟨p, hp, hu⟩ := bind_some hu
      obtain ⟨h, hfree, hu⟩ := bind_some hu
      cases hu
      have hlo := hk.flt p hp
      have hsound := hk.sound.free hfree
      unfold Heap.free at hfree
      split_ifs at hfree
      cases hfree
      exact ⟨hk.filter, fun q hq => (Function.update_of_ne (by omega) _ _).trans (hk.cell q hq),
        hk.next, hsound, hk.flt⟩
  | setOp op => exact hk.store hu
  | setV v => exact hk.store hu
  | setS =>
      obtain ⟨s, -, hu⟩ := bind_some hu
      exact hk.store hu
  | setAddr arg => exact hk.store hu
  | freeOldS => cases hc
  | freeOld => cases hc
  | install => cases hc

/-- So do many of them. -/
theorem keeps_always (hcs : ∀ c ∈ cs, c.isLocal = true) (hk : Keeps m u) :
    Always Stmt.run (Keeps m) cs u :=
  always_of_events (fun c hc _ _ hk hu => hk.step (hcs c hc) hu) hk

/-- What builds a filter frees nothing. -/
theorem freed_of_builds (hc : c.builds = true) (hu : c.run u = some u') :
    u'.heap.freed = u.heap.freed := by
  have hstore : ∀ g, u.store g = some u' → u'.heap.freed = u.heap.freed := by
    intro g hg
    obtain ⟨p, op, arg, h, hp, hcell, hset, rfl⟩ := store_some hg
    rw [Heap.set_eq hcell] at hset
    cases hset
    rfl
  cases c with
  | calloc => cases hu; rfl
  | strdup buf => cases hu; rfl
  | setOp op => exact hstore _ hu
  | setV v => exact hstore _ hu
  | setS =>
      obtain ⟨s, -, hu⟩ := bind_some hu
      exact hstore _ hu
  | setAddr arg => exact hstore _ hu
  | freeFlt => cases hc
  | freeOldS => cases hc
  | freeOld => cases hc
  | install => cases hc

/-! ## The new filter -/

theorem store_eq {op : CmpOp} {arg : FilterArg ⊕ Nat} {g : CmpOp → FilterArg ⊕ Nat → Obj}
    (hp : m.flt = some p) (hcell : m.heap.cell p = some (.flt op arg)) :
    m.store g = some { m with
      heap := { m.heap with cell := Function.update m.heap.cell p (some (g op arg)) } } := by
  unfold Mem.store
  rw [hp, Option.bind_eq_bind, Option.bind_some, hcell]
  dsimp only
  rw [Heap.set_eq hcell]
  rfl

theorem setS_run {q : Nat} (hs : m.s = some q) :
    Stmt.run m .setS = m.store fun op _ => .flt op (.inr q) := by
  unfold Stmt.run
  rw [hs, Option.bind_eq_bind, Option.bind_some]

/-- `fp_common` builds the filter of a string. -/
theorem built_string (heap : Heap Obj) (filter : Option Nat) (op : CmpOp) (buf : List UInt8) :
    ∃ u, exec Stmt.run [.calloc, .strdup buf, .setOp op, .setS] (.start heap filter) = some u ∧
      u.flt = some heap.next ∧ u.heap.freed = heap.freed ∧
      Reads heap.next u.heap true heap.next ⟨op, .s buf⟩ := by
  have hcalloc : (((heap.alloc (.flt .eq (.inl (.v 0)))).alloc (.str buf)).cell heap.next) =
      some (.flt .eq (.inl (.v 0))) := by
    rw [Heap.alloc_cell (by rw [Heap.alloc_next]; omega), Heap.alloc_cell_self]
  have hstr : ((heap.alloc (.flt .eq (.inl (.v 0)))).alloc (.str buf)).cell (heap.next + 1) =
      some (.str buf) := Heap.alloc_cell_self
  refine ⟨_, exec_cons.mpr ⟨_, rfl, exec_cons.mpr ⟨_, rfl, exec_cons.mpr
    ⟨_, store_eq rfl hcalloc, exec_cons.mpr
      ⟨_, (setS_run rfl).trans (store_eq rfl (Function.update_self _ _ _)), rfl⟩⟩⟩⟩,
    rfl, rfl, ?_⟩
  refine ⟨le_rfl, heap.next + 1, buf, by omega, Function.update_self _ _ _, ?_, rfl⟩
  simpa [Mem.start] using hstr

/-- The other filters are built by a store of the operator and one of the operand. -/
theorem built_value (heap : Heap Obj) (filter : Option Nat) (op : CmpOp) {arg : FilterArg}
    (hc : ∀ m : Mem, c.run m = m.store fun op _ => .flt op (.inl arg)) :
    ∃ u, exec Stmt.run [.calloc, .setOp op, c] (.start heap filter) = some u ∧
      u.flt = some heap.next ∧ u.heap.freed = heap.freed ∧
      Reads heap.next u.heap false heap.next ⟨op, arg⟩ := by
  refine ⟨_, exec_cons.mpr ⟨_, rfl, exec_cons.mpr
    ⟨_, store_eq rfl Heap.alloc_cell_self, exec_cons.mpr
      ⟨_, (hc _).trans (store_eq rfl (Function.update_self _ _ _)), rfl⟩⟩⟩, rfl, rfl, ?_⟩
  exact ⟨le_rfl, Function.update_self _ _ _⟩

/-! ## The replacement -/

/-- The new filter is complete, and nothing of it was there in `m`. -/
structure Ready (m : Mem) (str : Bool) (flt : Filter) (u : Mem) : Prop where
  sound : u.heap.Sound
  points : u.flt = some m.heap.next
  reads : Reads m.heap.next u.heap str m.heap.next flt

/-- An object that was there in `m` can be freed. -/
theorem Ready.free (hr : Ready m str flt u) {a : Obj} (ha : u.heap.cell p = some a)
    (hp : p < m.heap.next) :
    ∃ h, u.heap.free p = some h ∧ Ready m str flt { u with heap := h } ∧
      h.freed = u.heap.freed ++ [p] ∧ ∀ q, q ≠ p → h.cell q = u.heap.cell q := by
  have hother : ∀ q, q ≠ p → Function.update u.heap.cell p none q = u.heap.cell q :=
    fun q hq => Function.update_of_ne hq _ _
  refine ⟨_, Heap.free_eq ha, ⟨hr.sound.free (Heap.free_eq ha), hr.points, ?_⟩, rfl, hother⟩
  exact hr.reads.congr fun q hq => hother q (by omega)

/-- Until the new filter is complete, the old one is in place. -/
structure Replacing (m : Mem) (str : Bool) (flt : Filter) (u : Mem) : Prop where
  filter : u.filter = m.filter ∨ u.filter = some m.heap.next
  order : u.filter = m.filter ∧ u.heap.freed = m.heap.freed ∨
    Reads 0 u.heap str m.heap.next flt

theorem Ready.replacing (hr : Ready m str flt u)
    (hfilter : u.filter = m.filter ∨ u.filter = some m.heap.next) : Replacing m str flt u :=
  ⟨hfilter, Or.inr (hr.reads.mono (Nat.zero_le _))⟩

theorem freeOld_run (hp : u.filter = some p) (hfree : u.heap.free p = some h) :
    Stmt.run u .freeOld = some { u with heap := h } := by
  unfold Stmt.run
  rw [hp]
  dsimp only
  rw [hfree]
  rfl

theorem freeOldS_run {op : CmpOp} {q : Nat} (hp : u.filter = some p)
    (hcell : u.heap.cell p = some (.flt op (.inr q))) (hfree : u.heap.free q = some h) :
    Stmt.run u .freeOldS = some { u with heap := h } := by
  unfold Stmt.run
  rw [hp, Option.bind_eq_bind, Option.bind_some, hcell]
  dsimp only
  rw [hfree]
  rfl

/-- The statements free what the field has in `m`, and leave the new filter alone. -/
def Frees (m : Mem) (str : Bool) (flt : Filter) (u : Mem) (cs : List Stmt) : Prop :=
  ∃ v, (exec Stmt.run cs u = some v ∧ Always Stmt.run (Replacing m str flt) cs u) ∧
    Ready m str flt v ∧ v.filter = m.filter ∧ v.heap.freed = u.heap.freed ++ m.owned

/-- A field without a filter: `fp_common` frees nothing, and `fp_addr` frees `NULL`. -/
theorem frees_none (hnone : m.filter = none) (hk : Keeps m u) (hr : Ready m str flt u)
    (hcs : cs = [] ∨ cs = [.freeOld]) : Frees m str flt u cs := by
  have hu := hr.replacing (Or.inl hk.filter)
  have hrun : exec Stmt.run cs u = some u ∧ Always Stmt.run (Replacing m str flt) cs u := by
    rcases hcs with rfl | rfl
    · exact ⟨rfl, hu⟩
    · refine exec_always_cons hu ?_ ⟨rfl, hu⟩
      unfold Stmt.run
      rw [hk.filter, hnone]
  refine ⟨u, hrun, hr, hk.filter, ?_⟩
  unfold Mem.owned
  rw [hnone, List.append_nil]

/-- A filter with its string. The string goes first, as it is found through the filter. -/
theorem frees_string {op : CmpOp} {q : Nat} {s : List UInt8} (hm : m.heap.Sound)
    (hp : m.filter = some p) (hcell : m.heap.cell p = some (.flt op (.inr q)))
    (hs : m.heap.cell q = some (.str s)) (hk : Keeps m u) (hr : Ready m str flt u) :
    Frees m str flt u [.freeOldS, .freeOld] := by
  have hup : u.filter = some p := hk.filter.trans hp
  have hlt := hm.lt_next hcell
  have hqlt := hm.lt_next hs
  have hne : p ≠ q := by
    rintro rfl
    rw [hcell] at hs
    cases hs
  have hucell := (hk.cell p hlt).trans hcell
  obtain ⟨h1, hfree1, hr1, hfreed1, hcell1⟩ := hr.free ((hk.cell q hqlt).trans hs) hqlt
  obtain ⟨h2, hfree2, hr2, hfreed2, -⟩ := hr1.free ((hcell1 p hne).trans hucell) hlt
  have hs1 : Stmt.run u .freeOldS = some { u with heap := h1 } := freeOldS_run hup hucell hfree1
  have hs2 : Stmt.run { u with heap := h1 } .freeOld = some { u with heap := h2 } :=
    freeOld_run hup hfree2
  refine ⟨_, exec_always_cons (hr.replacing (Or.inl hk.filter)) hs1
    (exec_always_cons (hr1.replacing (Or.inl hk.filter)) hs2
      ⟨rfl, hr2.replacing (Or.inl hk.filter)⟩), hr2, hk.filter, ?_⟩
  unfold Mem.owned
  rw [hp]
  dsimp only
  rw [hcell, hfreed2, hfreed1, List.append_assoc]
  rfl

/-- A filter that owns no string. -/
theorem frees_value {op : CmpOp} {arg : FilterArg} (hm : m.heap.Sound) (hp : m.filter = some p)
    (hcell : m.heap.cell p = some (.flt op (.inl arg))) (hk : Keeps m u)
    (hr : Ready m str flt u) : Frees m str flt u [.freeOld] := by
  have hlt := hm.lt_next hcell
  obtain ⟨h1, hfree1, hr1, hfreed1, -⟩ := hr.free ((hk.cell p hlt).trans hcell) hlt
  refine ⟨_, exec_always_cons (hr.replacing (Or.inl hk.filter))
    (freeOld_run (hk.filter.trans hp) hfree1) ⟨rfl, hr1.replacing (Or.inl hk.filter)⟩,
    hr1, hk.filter, ?_⟩
  unfold Mem.owned
  rw [hp]
  dsimp only
  rw [hcell, hfreed1]

/-- The parsers free what the field has. -/
theorem frees_run {old : Option Filter} (hm : m.heap.Sound) (hold : m.Holds str old)
    (hk : Keeps m u) (hr : Ready m str flt u)
    (hcs : cs = (if old.isSome then (if str then [.freeOldS] else []) ++ [.freeOld] else []) ∨
      str = false ∧ cs = [.freeOld]) : Frees m str flt u cs := by
  cases old with
  | none => exact frees_none hold hk hr (hcs.imp id And.right)
  | some old =>
      obtain ⟨p, hp, -, hreads⟩ := hold
      cases str with
      | true =>
          obtain ⟨q, s, -, hcell, hs, -⟩ := hreads
          rcases hcs with rfl | ⟨hf, -⟩
          · exact frees_string hm hp hcell hs hk hr
          · cases hf
      | false =>
          have hcell : m.heap.cell p = some (.flt old.op (.inl old.arg)) := hreads
          rcases hcs with rfl | ⟨-, rfl⟩
          · exact frees_value hm hp hcell hk hr
          · exact frees_value hm hp hcell hk hr

/-- What a parser does with the heap: nothing, a filter allocated in vain, or a replacement. -/
inductive Effect (str : Bool) (f : Field) (r : FpResult) (start : Mem) : List Stmt → Prop
  | nothing : r.filter = f.filter → Effect str f r start []
  | undone : r.filter = f.filter → Effect str f r start [.calloc, .freeFlt]
  | replaced (flt build frees u) : r.err = false → r.filter = some flt →
      (∀ c ∈ build, c.builds = true) →
      exec Stmt.run build start = some u → u.flt = some start.heap.next →
      Reads start.heap.next u.heap str start.heap.next flt →
      (frees = (if f.filter.isSome then
          (if str then [Stmt.freeOldS] else []) ++ [Stmt.freeOld] else []) ∨
        str = false ∧ frees = [.freeOld]) →
      Effect str f r start (build ++ (frees ++ [.install]))

/-- A filter that is allocated in vain is freed. -/
theorem undone_run {heap : Heap Obj} (hs : heap.Sound) (filter : Option Nat) :
    ∃ u, exec Stmt.run [.calloc, .freeFlt] (.start heap filter) = some u ∧
      u.heap.cell = heap.cell ∧ u.filter = filter := by
  have hcalloc : (heap.alloc (.flt .eq (.inl (.v 0)))).cell heap.next =
      some (.flt .eq (.inl (.v 0))) := Heap.alloc_cell_self
  obtain ⟨h, hfree, hcell⟩ : ∃ h, (heap.alloc (.flt .eq (.inl (.v 0)))).free heap.next = some h ∧
      h.cell = Function.update (heap.alloc (.flt .eq (.inl (.v 0)))).cell heap.next none :=
    ⟨_, Heap.free_eq hcalloc, rfl⟩
  have hrun : Stmt.run ⟨heap.alloc (.flt .eq (.inl (.v 0))), filter, some heap.next, none⟩
      .freeFlt = some ⟨h, filter, some heap.next, none⟩ := by
    unfold Stmt.run
    rw [Option.bind_eq_bind, Option.bind_some, hfree]
    rfl
  refine ⟨_, exec_cons.mpr ⟨_, rfl, exec_cons.mpr ⟨_, hrun, rfl⟩⟩, ?_, rfl⟩
  show h.cell = heap.cell
  rw [hcell]
  funext p
  by_cases hp : p = heap.next
  · rw [hp, hs.fresh _ le_rfl]
    exact Function.update_self _ _ _
  · exact (Function.update_of_ne hp _ _).trans (Heap.alloc_cell hp)

/-- While the new filter is built, the old one is in place. -/
theorem replacing_of_builds (hcs : ∀ c ∈ cs, c.builds = true) (hk : Keeps m u)
    (hfreed : u.heap.freed = m.heap.freed) :
    Always Stmt.run (fun v => Keeps m v ∧ v.heap.freed = m.heap.freed) cs u := by
  refine always_of_events (fun c hc v v' hv hv' => ?_) ⟨hk, hfreed⟩
  exact ⟨hv.1.step (Bool.and_elim_left (hcs c hc)) hv',
    (freed_of_builds (hcs c hc) hv').trans hv.2⟩

/-- The field still has its filter, if nothing that was on the heap has changed. -/
theorem Mem.Holds.congr {old : Option Filter} (hold : m.Holds str old)
    (hfilter : u.filter = m.filter) (hcell : u.heap.cell = m.heap.cell) : u.Holds str old := by
  cases old with
  | none => exact hfilter.trans hold
  | some old =>
      obtain ⟨p, hp, hreads⟩ := hold
      exact ⟨p, hfilter.trans hp, hreads.congr fun q _ => congrFun hcell q⟩

/-- A new object is none that the field could point to before. -/
theorem Mem.Holds.ne_next {old : Option Filter} (hm : m.heap.Sound) (hold : m.Holds str old) :
    m.filter ≠ some m.heap.next := by
  intro hnext
  cases old with
  | none =>
      have hnone : m.filter = none := hold
      rw [hnone] at hnext
      cases hnext
  | some old =>
      obtain ⟨p, hp, hreads⟩ := hold
      obtain ⟨a, ha⟩ := hreads.live
      obtain rfl : p = m.heap.next := Option.some.inj (hp.symm.trans hnext)
      exact absurd (hm.lt_next ha) (lt_irrefl _)

/-- **A replacement** is a run in three parts: the new filter is built, what the field has is
freed, and the new filter installed. From the end of the first part on the new filter is ready. -/
theorem replaced_run {build frees : List Stmt} (hk : Keeps m m)
    (hbuild : ∀ c ∈ build, c.builds = true) (hexec : exec Stmt.run build m = some u)
    (hflt : u.flt = some m.heap.next)
    (hreads : Reads m.heap.next u.heap str m.heap.next flt)
    (hfrees : Keeps m u → Ready m str flt u → Frees m str flt u frees) :
    ∃ v, exec Stmt.run (build ++ (frees ++ [.install])) m = some v ∧
      v.filter = some m.heap.next ∧ Ready m str flt v ∧ v.heap.freed = m.heap.freed ++ m.owned ∧
      Always Stmt.run (Replacing m str flt) (build ++ (frees ++ [.install])) m := by
  have halways := replacing_of_builds hbuild hk rfl
  obtain ⟨hu, hfreed⟩ := always_iff_reached.mp halways _ u List.prefix_rfl hexec
  obtain ⟨v, hrun, hv, hvfilter, hvfreed⟩ := hfrees hu ⟨hu.sound, hflt, hreads⟩
  have hinstall : Stmt.run v .install = some { v with filter := some m.heap.next } := by
    unfold Stmt.run
    rw [hv.points]
  have hlast : Ready m str flt { v with filter := some m.heap.next } :=
    ⟨hv.sound, hv.points, hv.reads⟩
  have hlastrun : exec Stmt.run [.install] v = some { v with filter := some m.heap.next } ∧
      Always Stmt.run (Replacing m str flt) [.install] v :=
    exec_always_cons (hv.replacing (Or.inl hvfilter)) hinstall
      ⟨rfl, hlast.replacing (Or.inr rfl)⟩
  have hbuilding : Always Stmt.run (Replacing m str flt) build m :=
    always_mono (fun w hw => ⟨Or.inl hw.1.filter, Or.inl ⟨hw.1.filter, hw.2⟩⟩) halways
  have hall := exec_always_append ⟨hexec, hbuilding⟩ (exec_always_append hrun hlastrun)
  exact ⟨_, hall.1, rfl, hlast, hvfreed.trans (by rw [hfreed]), hall.2⟩

/-- **What an effect leaves behind.** Nothing goes wrong on the way, and the heap holds the filter
that the parser says the field has. Unless that is a new one, all that was on the heap is kept.
A new one is complete before the old one is freed, and that is freed once. -/
theorem Effect.run {r : FpResult} {f : Field} {heap : Heap Obj} {ptr : Option Nat}
    (hs : heap.Sound) (hold : (Mem.start heap ptr).Holds str f.filter)
    (he : Effect str f r (.start heap ptr) cs) :
    ∃ u, exec Stmt.run cs (.start heap ptr) = some u ∧ u.heap.Sound ∧ u.Holds str r.filter ∧
      (r.err = true → u.filter = ptr) ∧
      (u.filter = ptr → u.heap.cell = heap.cell ∧
        Always Stmt.run (Keeps (.start heap ptr)) cs (.start heap ptr)) ∧
      (u.filter ≠ ptr → ∃ flt, r.filter = some flt ∧
        u.heap.freed = heap.freed ++ (Mem.start heap ptr).owned ∧
        Always Stmt.run (Replacing (.start heap ptr) str flt) cs (.start heap ptr)) := by
  have hk := Keeps.refl heap hs ptr
  cases he with
  | nothing hr =>
      exact ⟨_, rfl, hs, hr ▸ hold, fun _ => rfl, fun _ => ⟨rfl, hk⟩, absurd rfl⟩
  | undone hr =>
      -- `strdup` failed, and the filter allocated before it is freed again.
      have hlocal : ∀ c ∈ [Stmt.calloc, .freeFlt], c.isLocal = true := by decide
      have halways := keeps_always hlocal hk
      obtain ⟨u, hexec, hcell, hfilter⟩ := undone_run hs ptr
      have hu : Keeps (.start heap ptr) u :=
        always_iff_reached.mp halways _ u List.prefix_rfl hexec
      exact ⟨u, hexec, hu.sound, hr ▸ hold.congr hfilter hcell, fun _ => hfilter,
        fun _ => ⟨hcell, halways⟩, fun hne => absurd hfilter hne⟩
  | replaced flt build frees u herr hr hbuild hexec hflt hreads hfrees =>
      obtain ⟨v, hrun, hfilter, hready, hfreed, halways⟩ := replaced_run hk hbuild hexec hflt
        hreads fun hu hready => frees_run hs hold hu hready hfrees
      have hnew : v.filter ≠ ptr := by
        rw [hfilter]
        exact (hold.ne_next hs).symm
      refine ⟨v, hrun, hready.sound, ?_, fun h => ?_, fun heq => absurd heq hnew, fun _ =>
        ⟨flt, hr, hfreed, halways⟩⟩
      · rw [hr]
        exact ⟨_, hfilter, hready.reads.mono (Nat.zero_le _)⟩
      · rw [herr] at h
        cases h

/-! ## The parsers -/

/-- A parser has the effect of what it does after the operand loop. -/
theorem parser_effect {f : Field} {o : Option OpResult} {operand : List Key → Option Operand}
    {finish : CmpOp → Operand → Option FpResult} {stmts : CmpOp → Operand → List Stmt}
    {r : FpResult} (hfinish : ∀ op x r, finish op x = some r → Effect str f r m (stmts op x)) :
    (o.bind fun
      | .blank keys => some ⟨f.filter.isNone, f.filter, keys⟩
      | .bad keys => (drain keys).bind fun keys => some ⟨true, f.filter, keys⟩
      | .op op keys => (operand keys).bind (finish op)) = some r →
    Effect str f r m
      (match o with
      | some (.op op keys) => (operand keys).elim [] (stmts op)
      | _ => []) := by
  intro h
  rcases parser_cases h with ⟨ks, rfl, rfl⟩ | ⟨ks, ks', rfl, rfl⟩ | ⟨op, ks, x, rfl, hx, hr⟩
  · exact .nothing rfl
  · exact .nothing rfl
  · dsimp only
    rw [hx]
    exact hfinish op x r hr

theorem fpCommonEnd_effect {f : Field} {allocs : List Bool} {op : CmpOp} {x : Operand}
    {r : FpResult} (heap : Heap Obj) (ptr : Option Nat)
    (hr : fpCommonEnd f allocs str op x = some r) :
    Effect str f r (.start heap ptr) (fpCommonEndStmts f.filter.isSome allocs str op x) := by
  unfold fpCommonEnd at hr
  unfold fpCommonEndStmts
  split_ifs at hr with hgood hcalloc hstrdup hstr hnl
  · cases hr
    rw [if_pos hgood, if_pos hcalloc]
    exact .nothing rfl
  · cases hr
    rw [if_pos hgood, if_neg hcalloc, if_pos hstrdup]
    exact .undone rfl
  · cases hr
    rw [if_pos hgood, if_neg hcalloc, if_neg hstrdup, hstr]
    obtain ⟨u, hexec, hflt, -, hreads⟩ := built_string heap ptr op x.buf
    exact .replaced ⟨op, .s x.buf⟩ [.calloc, .strdup x.buf, .setOp op, .setS] _ u rfl rfl
      (by simp [Stmt.builds, Stmt.isLocal]) hexec hflt hreads (Or.inl rfl)
  · cases hr
    rw [if_pos hgood, if_neg hcalloc, if_neg hstrdup, Bool.eq_false_of_not_eq_true hstr]
    obtain ⟨u, hexec, hflt, -, hreads⟩ := built_value heap ptr op (c := .setV x.v) fun _ => rfl
    exact .replaced ⟨op, .v x.v⟩ [.calloc, .setOp op, .setV x.v] _ u rfl rfl
      (by simp [Stmt.builds, Stmt.isLocal]) hexec hflt hreads (Or.inl rfl)
  · cases hr
    rw [if_neg hgood]
    exact .nothing rfl
  · obtain ⟨rest, -, hr⟩ := Option.map_eq_some_iff.mp hr
    cases hr
    rw [if_neg hgood]
    exact .nothing rfl

theorem fpCommon_effect {f : Field} {allocs : List Bool} {keys : List Key} {r : FpResult}
    (heap : Heap Obj) (ptr : Option Nat) (hr : fpCommon f allocs keys = some r) :
    Effect (f.type = .string) f r (.start heap ptr) (fpCommonStmts f allocs keys) :=
  parser_effect (fun _ _ _ hr => fpCommonEnd_effect heap ptr hr) hr

theorem fpAddrEnd_effect {f : Field} {allocs : List Bool} {op : CmpOp} {x : Operand}
    {r : FpResult} (heap : Heap Obj) (ptr : Option Nat)
    (hr : fpAddrEnd f allocs op x = some r) :
    Effect false f r (.start heap ptr) (fpAddrEndStmts allocs op x) := by
  unfold fpAddrEnd at hr
  unfold fpAddrEndStmts
  by_cases hgood : (!x.err && x.seenNl && x.seenInput) = true
  · rw [if_pos hgood] at hr ⊢
    cases harg : parseAddr x.buf with
    | none =>
        rw [harg] at hr
        cases hr
        exact .nothing rfl
    | some arg =>
        rw [harg] at hr
        dsimp only at hr ⊢
        split_ifs at hr ⊢ with hcalloc
        · cases hr
          exact .nothing rfl
        · cases hr
          obtain ⟨u, hexec, hflt, -, hreads⟩ :=
            built_value heap ptr op (c := .setAddr arg) fun _ => rfl
          exact .replaced ⟨op, arg⟩ [.calloc, .setOp op, .setAddr arg] [.freeOld] u rfl rfl
            (by simp [Stmt.builds, Stmt.isLocal]) hexec hflt hreads (Or.inr ⟨rfl, rfl⟩)
  · rw [if_neg hgood] at hr ⊢
    split_ifs at hr with hnl
    · cases hr
      exact .nothing rfl
    · obtain ⟨rest, -, hr⟩ := Option.map_eq_some_iff.mp hr
      cases hr
      exact .nothing rfl

theorem fpAddr_effect {f : Field} {allocs : List Bool} {keys : List Key} {r : FpResult}
    (heap : Heap Obj) (ptr : Option Nat) (hr : fpAddr f allocs keys = some r) :
    Effect false f r (.start heap ptr) (fpAddrStmts allocs keys) :=
  parser_effect (fun _ _ _ hr => fpAddrEnd_effect heap ptr hr) hr

theorem effect_err {f : Field} {r : FpResult} (he : Effect str f r m cs) (herr : r.err = true) :
    r.filter = f.filter := by
  cases he with
  | nothing hr => exact hr
  | undone hr => exact hr
  | replaced flt build frees u hok =>
      rw [herr] at hok
      cases hok

theorem setCursorField_self {s : Sys} {f : Field} (hf : s.cursorField = some f) :
    s.setCursorField f = s := by
  obtain ⟨-, hlt, hget⟩ := fieldAt_some hf
  have hself : s.tcpFields.set s.n.posField.y.toNat f = s.tcpFields := by
    rw [← (List.getElem?_eq_some_iff.mp hget).2]
    exact List.set_getElem_self _
  show { s with tcpFields := s.tcpFields.set s.n.posField.y.toNat f } = s
  rw [hself]

/-- A parser that fails leaves the field under the cursor as it was, its filter off. -/
theorem handler_err {fp : FilterParse} {f : Field} {s t : Sys} {keys rest : List Key}
    {r : FpResult} (hf : s.cursorField = some f) (hfp : f.filterParse = some fp)
    (hoff : f.filterOn = false) (hr : fp.run f s.allocs keys = some r)
    (hfilter : r.filter = f.filter) (herr : r.err = true)
    (ht : fieldFilterHandler s keys = some (t, rest)) : t.cursorField = some f := by
  unfold fieldFilterHandler at ht
  rw [hf, Option.bind_eq_bind, Option.bind_some, hfp] at ht
  dsimp only at ht
  rw [hoff, if_pos Bool.not_false, hr, Option.bind_eq_bind, Option.bind_some, hfilter, herr] at ht
  have hsame : { f with filter := f.filter, filterOn := !true } = f := by
    rw [Bool.not_true, ← hoff]
  obtain ⟨u, hu, ht⟩ := bind_some ht
  cases ht
  rw [hsame, setCursorField_self hf] at hu
  rw [drawFieldHeader_onField hu]
  exact hf

end

/-- **A filter is replaced as a whole or not at all.** The NUL that is stored behind `buf` for an
operand of exactly `bufSize` characters (`Operand.nul`, `buffers_safe_iff`) is taken to hit neither
the heap nor a variable of the parser. -/
theorem filter_replaced {fp : FilterParse} {stmts : Field → List Bool → List Key → List Stmt}
    (hfp : lineStmts fp = some stmts) (f : Field) {heap : Heap Obj} {ptr : Option Nat}
    (hs : heap.Sound) (hold : (Mem.start heap ptr).Holds (ownsString fp f) f.filter)
    {allocs : List Bool} {keys : List Key} {r : FpResult} (hr : fp.run f allocs keys = some r) :
    (∃ u, exec Stmt.run (stmts f allocs keys) (.start heap ptr) = some u ∧ u.heap.Sound ∧
      u.Holds (ownsString fp f) r.filter ∧ (r.err = true → u.filter = ptr) ∧
      (u.filter = ptr → u.heap.cell = heap.cell ∧
        Always Stmt.run (Keeps (.start heap ptr)) (stmts f allocs keys) (.start heap ptr)) ∧
      (u.filter ≠ ptr → ∃ flt, r.filter = some flt ∧
        u.heap.freed = heap.freed ++ (Mem.start heap ptr).owned ∧
        Always Stmt.run (Replacing (.start heap ptr) (ownsString fp f) flt)
          (stmts f allocs keys) (.start heap ptr))) ∧
    ∀ s t rest, s.cursorField = some f → f.filterParse = some fp → f.filterOn = false →
      s.allocs = allocs → fieldFilterHandler s keys = some (t, rest) → r.err = true →
      t.cursorField = some f := by
  have heffect : Effect (ownsString fp f) f r (.start heap ptr) (stmts f allocs keys) := by
    cases fp with
    | fpCommon =>
        cases hfp
        have hown : ownsString .fpCommon f = decide (f.type = .string) := by simp [ownsString]
        rw [hown]
        exact fpCommon_effect heap ptr hr
    | fpAddr =>
        cases hfp
        exact fpAddr_effect heap ptr hr
    | _ => cases hfp
  refine ⟨heffect.run hs hold, fun s t rest hf hparse hoff hallocs ht herr => ?_⟩
  rw [← hallocs] at hr
  exact handler_err hf hparse hoff hr (effect_err heffect herr) herr ht

/-- `=x` typed for the command name, whose filter is `=a`. -/
theorem filter_replaced_comm : ∃ u, exec Stmt.run
    (fpCommonStmts { tcpFields.getD 15 (heading "" 0) with filter := some ⟨.eq, .s [97]⟩ } []
      [key '=', key 'x', key '\n'])
    (.start ((Heap.empty.alloc (.str [97])).alloc (.flt .eq (.inr 0))) (some 1)) = some u ∧
    u.heap.Sound ∧ u.Holds true (some ⟨.eq, .s [120]⟩) := by
  have hold : (Mem.start ((Heap.empty.alloc (.str [97])).alloc (.flt .eq (.inr 0)))
      (some 1)).Holds true (some ⟨.eq, .s [97]⟩) :=
    ⟨1, rfl, Nat.zero_le _, 0, [97], Nat.zero_le _, rfl, rfl, rfl⟩
  have hrun : FilterParse.fpCommon.run
      { tcpFields.getD 15 (heading "" 0) with filter := some ⟨.eq, .s [97]⟩ } []
      [key '=', key 'x', key '\n'] = some ⟨false, some ⟨.eq, .s [120]⟩, []⟩ := by
    decide +kernel
  obtain ⟨⟨u, hexec, hsound, hholds, -⟩, -⟩ :=
    filter_replaced rfl { tcpFields.getD 15 (heading "" 0) with filter := some ⟨.eq, .s [97]⟩ }
      ((Heap.sound_empty.alloc (.str [97])).alloc (.flt .eq (.inr 0))) hold hrun
  exact ⟨u, hexec, hsound, hholds⟩

end Sockmon

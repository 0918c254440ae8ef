import Sockmon.Pointer.Filters

set_option autoImplicit false

/-! # One field and its filter

What the statements of a parser do to a heap on which the filter of the field is one of many things
in use. Whatever was typed, they have a result, and afterwards what is in use is the filter that
the parser says the field has, and the rest as it was (`parser_settles`): nothing is left behind of
a filter that was replaced or that could not be completed.
-/

namespace Sockmon

open Transition

/-! ## What a field owns -/

/-- Where the filter of a field is on the heap, and the places it takes, in the order in which they
are freed. A filter of a string (`str`) has that in a place of its own. -/
inductive Slot (h : Heap Obj) : Bool → Option Nat → Option Filter → List Nat → Prop
  | null (str) : Slot h str none none []
  | value (p op arg) : h.cell p = some (.flt op (.inl arg)) →
      Slot h false (some p) (some ⟨op, arg⟩) [p]
  | string (p q op s) : h.cell p = some (.flt op (.inr q)) → h.cell q = some (.str s) →
      Slot h true (some p) (some ⟨op, .s s⟩) [q, p]

/-- What there is after a parser: the filter `flt` at `u.filter`, and `rest`, which is in use for
other things and as it was on the heap `h`. -/
def Settled (h : Heap Obj) (rest : List Nat) (str : Bool) (flt : Option Filter) (u : Mem) : Prop :=
  ∃ ps, Slot u.heap str u.filter flt ps ∧ u.heap.Holds (ps ++ rest) ∧ (ps ++ rest).Nodup ∧
    ∀ q ∈ rest, u.heap.cell q = h.cell q

/-- The statements `cs` have a result and leave such a heap. -/
def Settles (h : Heap Obj) (rest : List Nat) (str : Bool) (m : Mem) (cs : List Stmt)
    (flt : Option Filter) : Prop :=
  ∃ u, exec Stmt.run cs m = some u ∧ Settled h rest str flt u

section

variable {h h' : Heap Obj} {str : Bool} {ptr : Option Nat} {old : Option Filter}
  {ps rest : List Nat} {m u : Mem} {cs : List Stmt}

/-- A filter is where it was if its places are unchanged. -/
theorem Slot.congr (hs : Slot h str ptr old ps) (hsame : ∀ q ∈ ps, h'.cell q = h.cell q) :
    Slot h' str ptr old ps := by
  cases hs with
  | null => exact .null str
  | value p op arg hp => exact .value p op arg ((hsame p (by simp)).trans hp)
  | string p q op s hp hq =>
      exact .string p q op s ((hsame p (by simp)).trans hp) ((hsame q (by simp)).trans hq)

theorem Slot.isSome (hs : Slot h str ptr old ps) : ptr.isSome = old.isSome := by
  cases hs <;> rfl

/-- A parser that does nothing. -/
theorem settles_nil (hs : Slot h str ptr old ps) (hh : h.Holds (ps ++ rest))
    (hnodup : (ps ++ rest).Nodup) (hheap : m.heap = h) (hfilter : m.filter = ptr) :
    Settles h rest str m [] old := by
  subst hheap hfilter
  exact ⟨m, rfl, ps, hs, hh, hnodup, fun _ _ => rfl⟩

/-! ## A new filter -/

/-- The statements that allocate. -/
def Stmt.allocates : Stmt → Bool
  | .calloc | .strdup _ => true
  | _ => false

/-- What builds a filter takes the next places, and no more. -/
theorem builds_holds {used : List Nat} (hcs : ∀ c ∈ cs, c.builds = true)
    (hu : exec Stmt.run cs m = some u) (hh : m.heap.Holds used) :
    u.heap.Holds (List.range' m.heap.next (cs.countP Stmt.allocates) ++ used) := by
  induction cs generalizing m used with
  | nil =>
      cases hu
      exact hh
  | cons c cs ih =>
      obtain ⟨v, hv, hu⟩ := exec_cons.mp hu
      have hrest : ∀ c ∈ cs, c.builds = true := fun c hc => hcs c (List.mem_cons_of_mem _ hc)
      -- An allocation takes the next place, a store none.
      have halloc : ∀ a, v.heap = m.heap.alloc a → c.allocates = true →
          u.heap.Holds (List.range' m.heap.next ((c :: cs).countP Stmt.allocates) ++ used) := by
        intro a ha hc
        have hh' : v.heap.Holds (m.heap.next :: used) := by
          rw [ha]
          exact hh.alloc a
        have hv := ih hrest hu hh'
        rw [ha, Heap.alloc_next] at hv
        rw [List.countP_cons_of_pos hc, List.range'_succ]
        refine hv.of_mem fun p => ?_
        simp only [List.cons_append, List.mem_cons, List.mem_append]
        exact or_left_comm
      have hstore : ∀ g, m.store g = some v → c.allocates = false →
          u.heap.Holds (List.range' m.heap.next ((c :: cs).countP Stmt.allocates) ++ used) := by
        intro g hg hc
        obtain ⟨p, op, arg, h, hp, hcell, hset, rfl⟩ := store_some hg
        have hnext : h.next = m.heap.next := by
          rw [Heap.set_eq hcell] at hset
          cases hset
          rfl
        have hv := ih hrest hu (hh.set hset)
        rw [show (Mem.mk h m.filter m.flt m.s).heap.next = m.heap.next from hnext] at hv
        rwa [List.countP_cons_of_neg (by rw [hc]; decide)]
      cases c with
      | calloc =>
          cases hv
          exact halloc _ rfl rfl
      | strdup buf =>
          cases hv
          exact halloc _ rfl rfl
      | setOp op => exact hstore _ hv rfl
      | setV v => exact hstore _ hv rfl
      | setS =>
          obtain ⟨s, -, hv⟩ := bind_some hv
          exact hstore _ hv rfl
      | setAddr arg => exact hstore _ hv rfl
      | freeFlt => cases hcs .freeFlt List.mem_cons_self
      | freeOldS => cases hcs .freeOldS List.mem_cons_self
      | freeOld => cases hcs .freeOld List.mem_cons_self
      | install => cases hcs .install List.mem_cons_self

/-! ## The old filter -/

/-- **The parsers free** what the field owns. -/
theorem Slot.frees (hs : Slot h str ptr old ps) (hsame : ∀ q ∈ ps, u.heap.cell q = h.cell q)
    (hfilter : u.filter = ptr)
    (hcs : cs = (if old.isSome then (if str then [.freeOldS] else []) ++ [.freeOld] else []) ∨
      str = false ∧ cs = [.freeOld]) :
    exec Stmt.run cs u = (u.heap.freeAll ps).map fun h => { u with heap := h } := by
  cases hs with
  | null =>
      rcases hcs with rfl | ⟨-, rfl⟩
      · rfl
      · -- `free(NULL)`
        have hfree : Stmt.run u .freeOld = some u := by
          unfold Stmt.run
          rw [hfilter]
        rw [exec, hfree]
        rfl
  | value p op arg hp =>
      have hcs : cs = [.freeOld] := by simpa using hcs
      have hfree := Heap.free_eq ((hsame p (by simp)).trans hp)
      rw [hcs, exec, freeOld_run hfilter hfree, Heap.freeAll_cons, hfree]
      rfl
  | string p q op s hp hq =>
      have hcs : cs = [.freeOldS, .freeOld] := by simpa using hcs
      have hne : p ≠ q := by
        rintro rfl
        rw [hp] at hq
        cases hq
      have hup := (hsame p (by simp)).trans hp
      -- The string goes first, as it is found through the filter.
      obtain ⟨h₁, hfree₁, hcell⟩ : ∃ h₁, u.heap.free q = some h₁ ∧
          h₁.cell = Function.update u.heap.cell q none :=
        ⟨_, Heap.free_eq ((hsame q (by simp)).trans hq), rfl⟩
      have hpcell : h₁.cell p = some (.flt op (.inr q)) := by
        rw [hcell, Function.update_of_ne hne, hup]
      have hfree₂ := Heap.free_eq hpcell
      have hrun₁ : Stmt.run u .freeOldS = some { u with heap := h₁ } :=
        freeOldS_run hfilter hup hfree₁
      have hrun₂ := freeOld_run (u := { u with heap := h₁ }) hfilter hfree₂
      rw [hcs, exec, hrun₁, Option.bind_some, exec, hrun₂, Option.bind_some, Heap.freeAll_cons,
        hfree₁, Option.bind_some, Heap.freeAll_cons, hfree₂]
      rfl

/-! ## A replacement -/

/-- What is in use was given out. -/
theorem holds_lt_next {used : List Nat} {p : Nat} (hh : h.Holds used) (hp : p ∈ used) :
    p < h.next := by
  obtain ⟨a, ha⟩ := hh.cell_of_mem hp
  exact hh.sound.lt_next ha

/-- The places of the new filter. -/
theorem new_slot {flt : Filter} {used : List Nat} {n : Nat} (hh : h.Holds used)
    (hu : u.heap.Holds (List.range' h.next n ++ used)) (hn : n = if str then 2 else 1)
    (hreads : Reads h.next u.heap str h.next flt) :
    ∃ ps, Slot u.heap str (some h.next) (some flt) ps ∧ ps.Nodup ∧
      ∀ q, q ∈ ps ↔ q ∈ List.range' h.next n := by
  obtain ⟨-, hreads⟩ := hreads
  subst hn
  cases str with
  | false => exact ⟨[h.next], .value h.next flt.op flt.arg hreads, by simp, by simp⟩
  | true =>
      obtain ⟨q, s, hq, hcell, hs, harg⟩ := hreads
      -- The string is at one of the two new places, and the filter at the other.
      have hmem : q ∈ List.range' h.next 2 ++ used := (hu.live q).mp (by rw [hs]; rfl)
      have hlt : q < h.next + 2 := by
        rcases List.mem_append.mp hmem with hmem | hmem
        · exact (List.mem_range'_1.mp hmem).2
        · exact absurd (holds_lt_next hh hmem) (Nat.not_lt.mpr hq)
      have hne : q ≠ h.next := by
        rintro rfl
        rw [hcell] at hs
        cases hs
      obtain rfl : q = h.next + 1 := by omega
      have hflt : flt = ⟨flt.op, .s s⟩ := by rw [← harg]
      rw [hflt]
      refine ⟨[h.next + 1, h.next], .string _ _ _ _ hcell hs, by simp, fun p => ?_⟩
      simp only [List.mem_cons, List.not_mem_nil, or_false, if_true, List.mem_range'_1]
      omega

/-- **A replacement**: the new filter is built, what the field owns is freed, and the new filter
installed. -/
theorem settles_replaced {flt : Filter} {frees : List Stmt} (build : List Stmt)
    (hs : Slot h str ptr old ps) (hh : h.Holds (ps ++ rest)) (hnodup : (ps ++ rest).Nodup)
    (hbuild : ∀ c ∈ build, c.builds = true) (hexec : exec Stmt.run build (.start h ptr) = some u)
    (hflt : u.flt = some h.next) (hreads : Reads h.next u.heap str h.next flt)
    (hcount : build.countP Stmt.allocates = if str then 2 else 1)
    (hfrees : frees = (if old.isSome then
        (if str then [.freeOldS] else []) ++ [.freeOld] else []) ∨
      str = false ∧ frees = [.freeOld]) :
    Settles h rest str (.start h ptr) (build ++ (frees ++ [.install])) (some flt) := by
  have hlocal : ∀ c ∈ build, c.isLocal = true := fun c hc => Bool.and_elim_left (hbuild c hc)
  have hk : Keeps (.start h ptr) u :=
    always_iff_reached.mp (keeps_always hlocal (Keeps.refl h hh.sound ptr)) _ u
      List.prefix_rfl hexec
  have hold : ∀ q ∈ ps ++ rest, q < h.next := fun q hq => holds_lt_next hh hq
  have hu := builds_holds hbuild hexec hh
  obtain ⟨new, hnew, hnewnodup, hmem⟩ := new_slot hh hu hcount hreads
  have hnewlt : ∀ q ∈ new, h.next ≤ q := fun q hq => (List.mem_range'_1.mp ((hmem q).mp hq)).1
  -- What is new is none of what there was.
  have hall : (ps ++ (new ++ rest)).Nodup := by
    obtain ⟨hps, hrest, hdisjoint⟩ := List.nodup_append.mp hnodup
    refine List.nodup_append.mpr ⟨hps, List.nodup_append.mpr ⟨hnewnodup, hrest, ?_⟩, ?_⟩
    · rintro a ha _ hb rfl
      exact absurd (hold a (List.mem_append_right _ hb)) (Nat.not_lt.mpr (hnewlt a ha))
    · rintro a ha _ hb rfl
      rcases List.mem_append.mp hb with hb | hb
      · exact absurd (hold a (List.mem_append_left _ ha)) (Nat.not_lt.mpr (hnewlt a hb))
      · exact hdisjoint a ha a hb rfl
  have hholds : u.heap.Holds (ps ++ (new ++ rest)) := by
    refine hu.of_mem fun q => ?_
    simp only [List.mem_append, hmem]
    exact or_left_comm
  obtain ⟨h', hfree, hh', hcell⟩ := hholds.freeAll hall
  have hrun : exec Stmt.run frees u = some { u with heap := h' } := by
    rw [hs.frees (fun q hq => hk.cell q (hold q (List.mem_append_left _ hq))) hk.filter hfrees,
      hfree]
    rfl
  obtain ⟨-, hnodup', hdisjoint⟩ := List.nodup_append.mp hall
  have hnotmem : ∀ q ∈ new ++ rest, q ∉ ps := fun q hq hp => hdisjoint q hp q hq rfl
  refine ⟨{ u with heap := h', filter := some h.next }, ?_, new, ?_, hh', hnodup', fun q hq => ?_⟩
  · refine exec_append.mpr ⟨u, hexec, exec_append.mpr ⟨_, hrun, ?_⟩⟩
    unfold exec Stmt.run
    dsimp only
    rw [hflt]
    rfl
  · exact hnew.congr fun q hq => hcell q (hnotmem q (List.mem_append_left _ hq))
  · have hq' : q ∈ ps ++ rest := List.mem_append_right _ hq
    rw [hcell q (hnotmem q (List.mem_append_right _ hq))]
    exact hk.cell q (hold q hq')

/-- A filter that is allocated in vain is freed. -/
theorem settles_undone (hs : Slot h str ptr old ps) (hh : h.Holds (ps ++ rest))
    (hnodup : (ps ++ rest).Nodup) :
    Settles h rest str (.start h ptr) [.calloc, .freeFlt] old := by
  have hcalloc : (h.alloc (.flt .eq (.inl (.v 0)))).cell h.next =
      some (.flt .eq (.inl (.v 0))) := Heap.alloc_cell_self
  have hfree := Heap.free_eq hcalloc
  have hnot := hh.next_notMem
  have hmem : ∀ q, q ∈ ps ++ rest ↔ q ∈ h.next :: (ps ++ rest) ∧ q ≠ h.next := by
    intro q
    rw [List.mem_cons]
    constructor
    · intro hq
      refine ⟨Or.inr hq, ?_⟩
      rintro rfl
      exact hnot hq
    · rintro ⟨rfl | hq, hne⟩
      · exact absurd rfl hne
      · exact hq
  have hh' := (hh.alloc (.flt .eq (.inl (.v 0)))).free hfree hmem
  have hcell : ∀ q ∈ ps ++ rest, Function.update
      (h.alloc (.flt .eq (.inl (.v 0)))).cell h.next none q = h.cell q := by
    intro q hq
    have hne : q ≠ h.next := by
      rintro rfl
      exact hnot hq
    rw [Function.update_of_ne hne, Heap.alloc_cell hne]
  refine ⟨⟨_, ptr, some h.next, none⟩, ?_, ps, hs.congr fun q hq => ?_, hh', hnodup,
    fun q hq => ?_⟩
  · show exec Stmt.run [.freeFlt]
      ⟨h.alloc (.flt .eq (.inl (.v 0))), ptr, some h.next, none⟩ = _
    unfold exec Stmt.run
    dsimp only
    rw [Option.bind_eq_bind, Option.bind_some, hfree]
    rfl
  · exact hcell q (List.mem_append_left _ hq)
  · exact hcell q (List.mem_append_right _ hq)

/-! ## A filter changed in place -/

/-- `flt` points to a filter at `p` that has no string, and nothing else in use has changed. -/
structure InPlace (h : Heap Obj) (rest : List Nat) (p : Nat) (op : CmpOp) (arg : FilterArg)
    (u : Mem) : Prop where
  flt : u.flt = some p
  cell : u.heap.cell p = some (.flt op (.inl arg))
  holds : u.heap.Holds (p :: rest)
  nodup : (p :: rest).Nodup
  same : ∀ q ∈ rest, u.heap.cell q = h.cell q

/-- A store through `flt`. -/
theorem InPlace.store {p : Nat} {op : CmpOp} {arg : FilterArg}
    {g : CmpOp → FilterArg ⊕ Nat → Obj} (hu : InPlace h rest p op arg u) (c : Stmt) (op' : CmpOp)
    (arg' : FilterArg) (hc : Stmt.run u c = u.store g)
    (hg : g op (.inl arg) = .flt op' (.inl arg')) :
    ∃ u', Stmt.run u c = some u' ∧ InPlace h rest p op' arg' u' ∧ u'.filter = u.filter := by
  have hset := Heap.set_eq (a := g op (.inl arg)) hu.cell
  refine ⟨_, hc.trans (store_eq hu.flt hu.cell), ⟨hu.flt, ?_, hu.holds.set hset, hu.nodup, ?_⟩, rfl⟩
  · rw [← hg]
    exact Function.update_self _ _ _
  · intro q hq
    have hne : q ≠ p := by
      rintro rfl
      exact (List.nodup_cons.mp hu.nodup).1 hq
    exact (Function.update_of_ne hne _ _).trans (hu.same q hq)

/-- `flt->selected = selected`, unless that is what it is. -/
theorem InPlace.select {p : Nat} {op : CmpOp} {v selected : BitVec 32}
    (hu : InPlace h rest p op (.selected v) u) (hfilter : u.filter = some p) :
    Settles h rest false u (if v = selected then [] else [.setSelected selected])
      (some ⟨op, .selected selected⟩) := by
  have hsettled : ∀ w, InPlace h rest p op (.selected selected) w → w.filter = some p →
      Settled h rest false (some ⟨op, .selected selected⟩) w := by
    intro w hw hfilter
    refine ⟨[p], ?_, hw.holds, hw.nodup, hw.same⟩
    rw [hfilter]
    exact .value p op _ hw.cell
  split_ifs with hv
  · subst hv
    exact ⟨u, rfl, hsettled u hu hfilter⟩
  · obtain ⟨w, hrun, hw, hwfilter⟩ :=
      hu.store (.setSelected selected) op (.selected selected) rfl rfl
    exact ⟨w, exec_cons.mpr ⟨w, hrun, rfl⟩, hsettled w hw (hwfilter.trans hfilter)⟩

/-- Statements in front of others. -/
theorem settles_append {cs' : List Stmt} {flt : Option Filter} (hcs : exec Stmt.run cs m = some u)
    (hu : Settles h rest str u cs' flt) : Settles h rest str m (cs ++ cs') flt := by
  obtain ⟨v, hv, hsettled⟩ := hu
  exact ⟨v, exec_append.mpr ⟨u, hcs, hv⟩, hsettled⟩

/-- A popup changes the filter that it finds. -/
theorem settles_changed {p : Nat} {op : CmpOp} {v : BitVec 32} (allocs : List Bool)
    (selected : BitVec 32) (hp : h.cell p = some (.flt op (.inl (.selected v))))
    (hh : h.Holds (p :: rest)) (hnodup : (p :: rest).Nodup) :
    Settles h rest false ⟨h, some p, some p, none⟩ (fpStrCommonEndStmts (some v) allocs selected)
      (some ⟨if selected = 0 then op else .other, .selected selected⟩) := by
  have hu : InPlace h rest p op (.selected v) ⟨h, some p, some p, none⟩ :=
    ⟨rfl, hp, hh, hnodup, fun _ _ => rfl⟩
  unfold fpStrCommonEndStmts
  dsimp only
  by_cases hzero : selected = 0
  · rw [if_pos hzero, if_pos hzero, List.nil_append]
    exact hu.select rfl
  · rw [if_neg hzero, if_neg hzero]
    obtain ⟨w, hrun, hw, hfilter⟩ :=
      hu.store (.setOp .other) .other (.selected v) rfl rfl
    -- `f->filter = flt`, which it was.
    have hinstall : Stmt.run w .install = some { w with filter := some p } := by
      unfold Stmt.run
      rw [hw.flt]
    refine settles_append (exec_cons.mpr ⟨w, hrun, exec_cons.mpr ⟨_, hinstall, rfl⟩⟩) ?_
    exact InPlace.select (u := { w with filter := some p })
      ⟨hw.flt, hw.cell, hw.holds, hw.nodup, hw.same⟩ rfl

/-- A popup makes a filter for a field that has none. -/
theorem settles_made {selected : BitVec 32} (hh : h.Holds rest) (hnodup : rest.Nodup) :
    Settles h rest false ⟨h, none, none, none⟩
      [.calloc, .setOp .other, .install, .setSelected selected]
      (some ⟨.other, .selected selected⟩) := by
  have hcalloc : Stmt.run ⟨h, none, none, none⟩ .calloc =
      some ⟨h.alloc (.flt .eq (.inl (.v 0))), none, some h.next, none⟩ := rfl
  have hu : InPlace h rest h.next .eq (.v 0)
      ⟨h.alloc (.flt .eq (.inl (.v 0))), none, some h.next, none⟩ := by
    refine ⟨rfl, Heap.alloc_cell_self, hh.alloc _, List.nodup_cons.mpr ⟨hh.next_notMem, hnodup⟩,
      fun q hq => Heap.alloc_cell ?_⟩
    rintro rfl
    exact hh.next_notMem hq
  obtain ⟨w, hrun, hw, -⟩ := hu.store (.setOp .other) .other (.v 0) rfl rfl
  have hinstall : Stmt.run w .install = some { w with filter := some h.next } := by
    unfold Stmt.run
    rw [hw.flt]
  have hw' : InPlace h rest h.next .other (.v 0) { w with filter := some h.next } :=
    ⟨hw.flt, hw.cell, hw.holds, hw.nodup, hw.same⟩
  obtain ⟨x, hstore, hx, hfilter⟩ :=
    hw'.store (.setSelected selected) .other (.selected selected) rfl rfl
  refine ⟨x, exec_cons.mpr ⟨_, hcalloc, exec_cons.mpr ⟨w, hrun, exec_cons.mpr ⟨_, hinstall,
    exec_cons.mpr ⟨x, hstore, rfl⟩⟩⟩⟩, [h.next], ?_, hx.holds, hx.nodup, hx.same⟩
  rw [hfilter]
  exact .value h.next .other _ hx.cell

/-! ## The parsers -/

section

variable {f : Field} {allocs : List Bool} {keys : List Key} {r : FpResult}
  (hs : Slot h str ptr f.filter ps) (hh : h.Holds (ps ++ rest)) (hnodup : (ps ++ rest).Nodup)
include hs hh hnodup

/-- A parser of lines does what it does behind the operand loop. -/
theorem line_settles {o : Option OpResult} {operand : List Key → Option Operand}
    {finish : CmpOp → Operand → Option FpResult} {stmts : CmpOp → Operand → List Stmt}
    (hfinish : ∀ op x r, finish op x = some r →
      Settles h rest str (.start h ptr) (stmts op x) r.filter) :
    (o.bind fun
      | .blank keys => some ⟨f.filter.isNone, f.filter, keys⟩
      | .bad keys => (drain keys).bind fun keys => some ⟨true, f.filter, keys⟩
      | .op op keys => (operand keys).bind (finish op)) = some r →
    Settles h rest str (.start h ptr)
      (match o with
      | some (.op op keys) => (operand keys).elim [] (stmts op)
      | _ => []) r.filter := by
  intro hr
  have hnil := settles_nil (m := .start h ptr) hs hh hnodup rfl rfl
  rcases parser_cases hr with ⟨ks, rfl, rfl⟩ | ⟨ks, ks', rfl, rfl⟩ | ⟨op, ks, x, rfl, hx, hr⟩
  · exact hnil
  · exact hnil
  · dsimp only
    rw [hx]
    exact hfinish op x r hr

theorem fpCommonEnd_settles {op : CmpOp} {x : Operand}
    (hr : fpCommonEnd f allocs str op x = some r) :
    Settles h rest str (.start h ptr) (fpCommonEndStmts f.filter.isSome allocs str op x)
      r.filter := by
  have hnil := settles_nil (m := .start h ptr) hs hh hnodup rfl rfl
  unfold fpCommonEnd at hr
  unfold fpCommonEndStmts
  split_ifs at hr with hgood hcalloc hstrdup hstr hnl
  · cases hr
    rw [if_pos hgood, if_pos hcalloc]
    exact hnil
  · cases hr
    rw [if_pos hgood, if_neg hcalloc, if_pos hstrdup]
    exact settles_undone hs hh hnodup
  · cases hr
    rw [if_pos hgood, if_neg hcalloc, if_neg hstrdup]
    subst hstr
    obtain ⟨u, hexec, hflt, -, hreads⟩ := built_string h ptr op x.buf
    exact settles_replaced [.calloc, .strdup x.buf, .setOp op, .setS] hs hh hnodup
      (by simp [Stmt.builds, Stmt.isLocal]) hexec hflt hreads rfl (Or.inl rfl)
  · cases hr
    rw [if_pos hgood, if_neg hcalloc, if_neg hstrdup]
    obtain rfl := Bool.eq_false_of_not_eq_true hstr
    obtain ⟨u, hexec, hflt, -, hreads⟩ := built_value h ptr op (c := .setV x.v) fun _ => rfl
    exact settles_replaced [.calloc, .setOp op, .setV x.v] hs hh hnodup
      (by simp [Stmt.builds, Stmt.isLocal]) hexec hflt hreads rfl (Or.inl rfl)
  · cases hr
    rw [if_neg hgood]
    exact hnil
  · obtain ⟨keys, -, hr⟩ := Option.map_eq_some_iff.mp hr
    cases hr
    rw [if_neg hgood]
    exact hnil

theorem fpAddrEnd_settles {op : CmpOp} {x : Operand} (hstr : str = false)
    (hr : fpAddrEnd f allocs op x = some r) :
    Settles h rest str (.start h ptr) (fpAddrEndStmts allocs op x) r.filter := by
  have hnil := settles_nil (m := .start h ptr) hs hh hnodup rfl rfl
  subst hstr
  unfold fpAddrEnd at hr
  unfold fpAddrEndStmts
  by_cases hgood : (!x.err && x.seenNl && x.seenInput) = true
  · rw [if_pos hgood] at hr ⊢
    cases harg : parseAddr x.buf with
    | none =>
        rw [harg] at hr
        cases hr
        exact hnil
    | some arg =>
        rw [harg] at hr
        dsimp only at hr ⊢
        split_ifs at hr ⊢ with hcalloc
        · cases hr
          exact hnil
        · cases hr
          obtain ⟨u, hexec, hflt, -, hreads⟩ :=
            built_value h ptr op (c := .setAddr arg) fun _ => rfl
          exact settles_replaced [.calloc, .setOp op, .setAddr arg] hs hh hnodup
            (by simp [Stmt.builds, Stmt.isLocal]) hexec hflt hreads rfl (Or.inr ⟨rfl, rfl⟩)
  · rw [if_neg hgood] at hr ⊢
    split_ifs at hr with hnl
    · cases hr
      exact hnil
    · obtain ⟨keys, -, hr⟩ := Option.map_eq_some_iff.mp hr
      cases hr
      exact hnil

/-- The popups. A filter that one of them finds was made in one, so it has no string. -/
theorem popup_settles {height start : Nat} (hstr : str = false)
    (hr : fpStrCommon height start f allocs keys = some r) :
    Settles h rest str ⟨h, ptr, ptr, none⟩ (fpStrCommonStmts height start f allocs keys)
      r.filter := by
  have hnil := settles_nil (m := ⟨h, ptr, ptr, none⟩) hs hh hnodup rfl rfl
  subst hstr
  obtain ⟨old, hold, hr⟩ := bind_some hr
  obtain ⟨⟨selected, rest'⟩, hloop, hr⟩ := bind_some hr
  unfold fpStrCommonStmts
  rw [hold, Option.bind_some, hloop]
  dsimp only at hr ⊢
  unfold oldSelected at hold
  cases hf : f.filter with
  | none =>
      rw [hf] at hs hr hnil
      cases hs
      rw [Option.bind_none]
      -- no filter before: one is allocated, unless nothing is selected
      unfold fpStrCommonEndStmts
      dsimp only
      by_cases hzero : selected = 0
      · rw [if_neg (not_not.mpr hzero)] at hr
        cases hr
        rw [if_pos hzero]
        exact hnil
      · rw [if_pos hzero] at hr
        rw [if_neg hzero]
        by_cases hcalloc : (!allocs.getD 0 true) = true
        · rw [if_pos (by rw [hcalloc]; rfl)] at hr
          cases hr
          rw [if_pos hcalloc]
          exact hnil
        · rw [if_neg (by rw [Bool.eq_false_of_not_eq_true hcalloc]; decide)] at hr
          cases hr
          rw [if_neg hcalloc]
          exact settles_made hh hnodup
  | some flt =>
      rw [hf] at hs hr hold
      -- the filter that is there keeps its record, and only its selection changes
      obtain ⟨op, arg⟩ := flt
      have harg : arg = .selected old := by
        cases arg <;> cases hold
        rfl
      subst harg
      cases hs with
      | value p _ _ hp =>
          have hchanged := settles_changed allocs selected hp hh hnodup
          by_cases hzero : selected = 0
          · rw [if_neg (not_not.mpr hzero)] at hr
            cases hr
            rw [if_pos hzero] at hchanged
            exact hchanged
          · rw [if_pos hzero, if_neg (by simp)] at hr
            cases hr
            rw [if_neg hzero] at hchanged
            exact hchanged

/-- **Every parser**, whatever it reads: what it does has a result on the heap, and leaves what it
says and nothing else. Strings are filters of `fp_common` only. -/
theorem parser_settles {fp : FilterParse} (hstr : str = (f.type = .string : Bool))
    (hfp : fp = .fpCommon ∨ str = false) (hr : fp.run f allocs keys = some r) :
    Settles h rest str (fp.start h ptr) (fp.stmts f allocs keys) r.filter := by
  cases fp with
  | fpCommon =>
      subst hstr
      exact line_settles hs hh hnodup (fun _ _ _ hr => fpCommonEnd_settles hs hh hnodup hr) hr
  | fpAddr =>
      have hstr := hfp.resolve_left (by decide)
      exact line_settles hs hh hnodup (fun _ _ _ hr => fpAddrEnd_settles hs hh hnodup hstr hr) hr
  | _ => exact popup_settles hs hh hnodup (hfp.resolve_left (by decide)) hr

end

end

end Sockmon

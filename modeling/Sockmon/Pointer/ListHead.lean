import Sockmon.Lib.Heap
import Sockmon.Lib.Ring
import Sockmon.Lib.Simulation

set_option autoImplicit false

/-! # `list.h`

The list of the kernel, on a heap. A node is a `struct list_head` and the structure whose first
member it is, so `container_of` is the identity; a list head stands for itself. A place that is
not in use cannot be read or written, which has no result, and 0 is the null pointer.
-/

namespace Sockmon

/-- A `struct list_head`, and the structure around it. -/
structure Node (α : Type) where
  next : Nat
  prev : Nat
  entry : Option α

section

variable {α : Type}

/-- `p->next` -/
def nextOf (h : Heap (Node α)) (p : Nat) : Option Nat := (h.cell p).map Node.next

/-- `p->prev` -/
def prevOf (h : Heap (Node α)) (p : Nat) : Option Nat := (h.cell p).map Node.prev

/-- The structure around `p`, which a list head has not. -/
def entryOf (h : Heap (Node α)) (p : Nat) : Option α := (h.cell p).bind Node.entry

/-- `p->next = q` -/
def setNext (p q : Nat) (h : Heap (Node α)) : Option (Heap (Node α)) :=
  h.modify p fun c => { c with next := q }

/-- `p->prev = q` -/
def setPrev (p q : Nat) (h : Heap (Node α)) : Option (Heap (Node α)) :=
  h.modify p fun c => { c with prev := q }

/-! ## The functions -/

def initListHead (list : Nat) (h : Heap (Node α)) : Option (Heap (Node α)) := do
  let h ← setNext list list h
  setPrev list list h

/-- `__list_add` -/
def listAdd (new prev next : Nat) (h : Heap (Node α)) : Option (Heap (Node α)) := do
  let h ← setPrev next new h
  let h ← setNext new next h
  let h ← setPrev new prev h
  setNext prev new h

def listAddTail (new head : Nat) (h : Heap (Node α)) : Option (Heap (Node α)) := do
  listAdd new (← prevOf h head) head h

/-- `__list_del` -/
def listDelBetween (prev next : Nat) (h : Heap (Node α)) : Option (Heap (Node α)) := do
  let h ← setPrev next prev h
  setNext prev next h

/-- `list_del`; the links of `entry` itself are left as they are. -/
def listDel (entry : Nat) (h : Heap (Node α)) : Option (Heap (Node α)) := do
  listDelBetween (← prevOf h entry) (← nextOf h entry) h

def listEmpty (head : Nat) (h : Heap (Node α)) : Option Bool := do
  return (← nextOf h head) == head

/-- The loop of `list_for_each_entry_safe` from `pos` on, `n` being the entry behind it. The body
works on the heap and some other state. -/
def forEachSafe {σ : Type} (head : Nat)
    (body : Nat → Heap (Node α) × σ → Option (Heap (Node α) × σ)) :
    Nat → Nat → Nat → Heap (Node α) × σ → Option (Heap (Node α) × σ)
  | 0, _, _, _ => none
  | fuel + 1, pos, n, m =>
      if pos = head then some m
      else do
        let m ← body pos m
        -- `pos` may be gone, and its links with it.
        forEachSafe head body fuel n (← nextOf m.1 n) m

/-- `list_for_each_entry_safe`, for at most as many entries as there are places given out. -/
def listForEachEntrySafe {σ : Type} (head : Nat)
    (body : Nat → Heap (Node α) × σ → Option (Heap (Node α) × σ)) (m : Heap (Node α) × σ) :
    Option (Heap (Node α) × σ) := do
  let pos ← nextOf m.1 head
  forEachSafe head body m.1.next pos (← nextOf m.1 pos) m

/-! ## What the stores change -/

/-- The links of all nodes. -/
def links (h : Heap (Node α)) : Links Nat := ⟨nextOf h, prevOf h⟩

/-- `h'` differs from `h` in links only. -/
structure SameEntries (h h' : Heap (Node α)) : Prop where
  next : h'.next = h.next
  freed : h'.freed = h.freed
  entries : ∀ p, (h'.cell p).map Node.entry = (h.cell p).map Node.entry

theorem SameEntries.refl (h : Heap (Node α)) : SameEntries h h := ⟨rfl, rfl, fun _ => rfl⟩

theorem SameEntries.trans {h h' h'' : Heap (Node α)} (h₁ : SameEntries h h')
    (h₂ : SameEntries h' h'') : SameEntries h h'' :=
  ⟨h₂.next.trans h₁.next, h₂.freed.trans h₁.freed,
    fun p => (h₂.entries p).trans (h₁.entries p)⟩

theorem SameEntries.isSome {h h' : Heap (Node α)} (hs : SameEntries h h') (p : Nat) :
    (h'.cell p).isSome = (h.cell p).isSome := by
  have hp := congrArg Option.isSome (hs.entries p)
  rwa [Option.isSome_map, Option.isSome_map] at hp

theorem SameEntries.entryOf {h h' : Heap (Node α)} (hs : SameEntries h h') (p : Nat) :
    entryOf h' p = entryOf h p := by
  have hp := hs.entries p
  unfold Sockmon.entryOf
  cases hc' : h'.cell p with
  | none =>
      rw [hc', Option.map_none, eq_comm, Option.map_eq_none_iff] at hp
      rw [hp]
  | some c' =>
      rw [hc', Option.map_some] at hp
      obtain ⟨c, hc, hcc⟩ := Option.map_eq_some_iff.mp hp.symm
      rw [hc, Option.bind_some, Option.bind_some, hcc]

theorem SameEntries.none_iff {h h' : Heap (Node α)} (hs : SameEntries h h') (p : Nat) :
    h'.cell p = none ↔ h.cell p = none := by
  rw [← Option.not_isSome_iff_eq_none, ← Option.not_isSome_iff_eq_none, hs.isSome]

/-- The same places are in use. -/
theorem SameEntries.holds {h h' : Heap (Node α)} {used : List Nat} (hs : SameEntries h h')
    (hh : h.Holds used) : h'.Holds used where
  sound := by
    refine ⟨fun p hp => ?_, fun p hp => ?_, hs.freed ▸ hh.sound.once⟩
    · rw [hs.next] at hp
      exact (hs.none_iff p).mpr (hh.sound.fresh p hp)
    · rw [hs.freed] at hp
      obtain ⟨hcell, hlt⟩ := hh.sound.gone p hp
      exact ⟨(hs.none_iff p).mpr hcell, hs.next ▸ hlt⟩
  null := ⟨hs.next ▸ hh.null.1, (hs.none_iff 0).mpr hh.null.2⟩
  live p := by rw [hs.isSome, hh.live]
  all p hp hlt := by
    rw [hs.next] at hlt
    rw [hs.freed]
    exact hh.all p hp hlt

variable {h h' : Heap (Node α)} {p q : Nat}

theorem setNext_eq (q : Nat) (hp : (h.cell p).isSome) : ∃ h', setNext p q h = some h' ∧
    links h' = { links h with next := Function.update (links h).next p (some q) } ∧
      SameEntries h h' := by
  obtain ⟨c, hc⟩ := Option.isSome_iff_exists.mp hp
  refine ⟨_, Heap.modify_eq hc _, ?_, rfl, rfl, fun r => ?_⟩
  · unfold links
    congr 1
    · funext r
      by_cases hr : r = p <;> simp [nextOf, hr]
    · funext r
      by_cases hr : r = p <;> simp [prevOf, hr, hc]
  · by_cases hr : r = p <;> simp [hr, hc]

theorem setPrev_eq (q : Nat) (hp : (h.cell p).isSome) : ∃ h', setPrev p q h = some h' ∧
    links h' = { links h with prev := Function.update (links h).prev p (some q) } ∧
      SameEntries h h' := by
  obtain ⟨c, hc⟩ := Option.isSome_iff_exists.mp hp
  refine ⟨_, Heap.modify_eq hc _, ?_, rfl, rfl, fun r => ?_⟩
  · unfold links
    congr 1
    · funext r
      by_cases hr : r = p <;> simp [nextOf, hr, hc]
    · funext r
      by_cases hr : r = p <;> simp [prevOf, hr]
  · by_cases hr : r = p <;> simp [hr, hc]

/-- **`__list_add`** splices. -/
theorem listAdd_eq {new prev next : Nat} (hnew : (h.cell new).isSome)
    (hprev : (h.cell prev).isSome) (hnext : (h.cell next).isSome) :
    ∃ h', listAdd new prev next h = some h' ∧ links h' = (links h).splice prev new next ∧
      SameEntries h h' := by
  obtain ⟨h₁, he₁, hl₁, hs₁⟩ := setPrev_eq new hnext
  obtain ⟨h₂, he₂, hl₂, hs₂⟩ := setNext_eq next (h := h₁) (p := new) (by rwa [hs₁.isSome])
  have hs₂' := hs₁.trans hs₂
  obtain ⟨h₃, he₃, hl₃, hs₃⟩ := setPrev_eq prev (h := h₂) (p := new) (by rwa [hs₂'.isSome])
  have hs₃' := hs₂'.trans hs₃
  obtain ⟨h₄, he₄, hl₄, hs₄⟩ := setNext_eq new (h := h₃) (p := prev) (by rwa [hs₃'.isSome])
  refine ⟨h₄, ?_, ?_, hs₃'.trans hs₄⟩
  · unfold listAdd
    simp only [he₁, he₂, he₃, he₄, Option.bind_eq_bind, Option.bind_some]
  · rw [hl₄, hl₃, hl₂, hl₁]
    rfl

/-- **`__list_del`** bridges. -/
theorem listDelBetween_eq {prev next : Nat} (hprev : (h.cell prev).isSome)
    (hnext : (h.cell next).isSome) :
    ∃ h', listDelBetween prev next h = some h' ∧ links h' = (links h).bridge prev next ∧
      SameEntries h h' := by
  obtain ⟨h₁, he₁, hl₁, hs₁⟩ := setPrev_eq prev hnext
  obtain ⟨h₂, he₂, hl₂, hs₂⟩ := setNext_eq next (h := h₁) (p := prev) (by rwa [hs₁.isSome])
  refine ⟨h₂, ?_, ?_, hs₁.trans hs₂⟩
  · unfold listDelBetween
    simp only [he₁, he₂, Option.bind_eq_bind, Option.bind_some]
  · rw [hl₂, hl₁]
    rfl

/-! ## The list at a head -/

/-- The list with the head `head` has the nodes `ps`, and around them the structures `xs`. -/
structure ListAt (h : Heap (Node α)) (head : Nat) (ps : List Nat) (xs : List α) : Prop where
  ring : (links h).Ring head ps
  entries : ps.map (entryOf h) = xs.map some

variable {head : Nat} {ps qs : List Nat} {xs ys : List α} {x : α}

theorem ListAt.length_eq (hl : ListAt h head ps xs) : ps.length = xs.length := by
  have hlen := congrArg List.length hl.entries
  rwa [List.length_map, List.length_map] at hlen

/-- All nodes are in use. -/
theorem ListAt.isSome (hl : ListAt h head ps xs) (hp : p ∈ head :: ps) : (h.cell p).isSome := by
  have hnext : ∃ q, nextOf h p = some q := by
    rcases List.mem_cons.mp hp with rfl | hp
    · exact ⟨_, hl.ring.next_head⟩
    · obtain ⟨l, r, rfl⟩ := List.append_of_mem hp
      exact ⟨_, hl.ring.next_eq⟩
  obtain ⟨q, hq⟩ := hnext
  obtain ⟨c, hc, -⟩ := Option.map_eq_some_iff.mp hq
  rw [hc]
  rfl

theorem ListAt.nextOf_eq (hl : ListAt h head ps xs) (hp : p ∈ head :: ps) :
    ∃ q, nextOf h p = some q := by
  obtain ⟨c, hc⟩ := Option.isSome_iff_exists.mp (hl.isSome hp)
  exact ⟨c.next, congrArg (Option.map Node.next) hc⟩

/-- A list depends on its own nodes. -/
theorem ListAt.congr (hl : ListAt h head ps xs) (hcell : ∀ p ∈ head :: ps, h'.cell p = h.cell p) :
    ListAt h' head ps xs := by
  refine ⟨hl.ring.congr fun p hp => ?_, ?_⟩
  · show nextOf h' p = nextOf h p ∧ prevOf h' p = prevOf h p
    unfold nextOf prevOf
    rw [hcell p hp]
    exact ⟨rfl, rfl⟩
  · rw [← hl.entries]
    refine List.map_congr_left fun p hp => ?_
    unfold entryOf
    rw [hcell p (List.mem_cons_of_mem head hp)]

/-- An empty list after `INIT_LIST_HEAD`. -/
theorem initListHead_eq (hp : (h.cell head).isSome) :
    ∃ h', initListHead head h = some h' ∧ ListAt h' head ([] : List Nat) [] ∧
      SameEntries h h' := by
  obtain ⟨h₁, he₁, hl₁, hs₁⟩ := setNext_eq head hp
  obtain ⟨h₂, he₂, hl₂, hs₂⟩ := setPrev_eq head (h := h₁) (p := head) (by rwa [hs₁.isSome])
  refine ⟨h₂, ?_, ⟨Links.ring_nil ?_ ?_, rfl⟩, hs₁.trans hs₂⟩
  · unfold initListHead
    simp only [he₁, he₂, Option.bind_eq_bind, Option.bind_some]
  · rw [hl₂, hl₁]
    exact Function.update_self _ _ _
  · rw [hl₂]
    exact Function.update_self _ _ _

/-- **`list_add_tail`** before the first of the nodes `qs`. -/
theorem ListAt.listAddTail {new : Nat} (hl : ListAt h head (ps ++ qs) (xs ++ ys))
    (hlen : ps.length = xs.length) (hnew : new ∉ head :: (ps ++ qs))
    (hx : entryOf h new = some x) :
    ∃ h', listAddTail new (qs.headD head) h = some h' ∧
      ListAt h' head (ps ++ new :: qs) (xs ++ x :: ys) ∧ SameEntries h h' := by
  have hprev : prevOf h (qs.headD head) = some (ps.getLastD head) := hl.ring.gap.2
  have hlive : (h.cell new).isSome := by
    obtain ⟨c, hc, -⟩ := Option.bind_eq_some_iff.mp hx
    rw [hc]
    rfl
  have hlast : (h.cell (ps.getLastD head)).isSome :=
    hl.isSome (List.cons_subset_cons head (List.subset_append_left ps qs) List.getLastD_mem_cons)
  have hfirst : (h.cell (qs.headD head)).isSome :=
    hl.isSome (List.cons_subset_cons head (List.subset_append_right ps qs) Links.headD_mem)
  obtain ⟨h', he, hlinks, hs⟩ := listAdd_eq hlive hlast hfirst
  refine ⟨h', ?_, ⟨?_, ?_⟩, hs⟩
  · unfold Sockmon.listAddTail
    rw [hprev]
    exact he
  · rw [hlinks]
    exact hl.ring.splice hnew
  · have hsplit := List.append_inj (by simpa using hl.entries) (by simpa using hlen)
    rw [show entryOf h' = entryOf h from funext hs.entryOf, List.map_append, List.map_cons,
      List.map_append, List.map_cons, hx, hsplit.1, hsplit.2]

/-- **`list_del`** -/
theorem ListAt.listDel (hl : ListAt h head (ps ++ p :: qs) (xs ++ x :: ys))
    (hlen : ps.length = xs.length) :
    ∃ h', listDel p h = some h' ∧ ListAt h' head (ps ++ qs) (xs ++ ys) ∧ SameEntries h h' := by
  have hlast : (h.cell (ps.getLastD head)).isSome :=
    hl.isSome (List.cons_subset_cons head (List.subset_append_left ps _) List.getLastD_mem_cons)
  have hfirst : (h.cell (qs.headD head)).isSome := by
    refine hl.isSome (List.cons_subset_cons head ?_ Links.headD_mem)
    exact fun q hq => List.mem_append_right ps (List.mem_cons_of_mem p hq)
  obtain ⟨h', he, hlinks, hs⟩ := listDelBetween_eq hlast hfirst
  refine ⟨h', ?_, ⟨?_, ?_⟩, hs⟩
  · have hprev : prevOf h p = some (ps.getLastD head) := hl.ring.prev_eq
    have hnext : nextOf h p = some (qs.headD head) := hl.ring.next_eq
    unfold Sockmon.listDel
    rw [hprev, hnext]
    exact he
  · rw [hlinks]
    exact hl.ring.bridge
  · have hsplit := List.append_inj (by simpa using hl.entries) (by simpa using hlen)
    rw [show entryOf h' = entryOf h from funext hs.entryOf, List.map_append, List.map_append,
      hsplit.1, (List.cons.inj hsplit.2).2]

/-! ## Draining -/

/-- The body of a loop that visits an entry, takes it out of the list and frees it. -/
def drainBody {σ : Type} (visit : α → σ → Option σ) (pos : Nat) (m : Heap (Node α) × σ) :
    Option (Heap (Node α) × σ) := do
  let s ← visit (← entryOf m.1 pos) m.2
  let h ← Sockmon.listDel pos m.1
  return (← h.free pos, s)

/-- The list is empty, and its head is all there is. -/
structure Drained (h h' : Heap (Node α)) (head : Nat) (ps : List Nat) : Prop where
  list : ListAt h' head ([] : List Nat) []
  holds : h'.Holds [head]
  freed : h'.freed = h.freed ++ ps
  next : h'.next = h.next

/-- One round of the loop. -/
theorem drainBody_eq {σ : Type} {visit : α → σ → Option σ} {s : σ}
    (hl : ListAt h head (p :: ps) (x :: xs)) (hh : h.Holds (head :: p :: ps)) :
    ∃ h', drainBody visit p (h, s) = (visit x s).map (h', ·) ∧ ListAt h' head ps xs ∧
      h'.Holds (head :: ps) ∧ h'.freed = h.freed ++ [p] ∧ h'.next = h.next := by
  have hfront : ListAt h head ([] ++ p :: ps) ([] ++ x :: xs) := hl
  obtain ⟨h₁, he₁, hl₁, hs₁⟩ := hfront.listDel rfl
  have hx : entryOf h p = some x := (List.cons.inj hl.entries).1
  have hp : p ∉ head :: ps := by
    obtain ⟨hhead, hrest⟩ := List.nodup_cons.mp hl.ring.nodup
    rw [List.mem_cons, not_or]
    refine ⟨?_, (List.nodup_cons.mp hrest).1⟩
    rintro rfl
    exact hhead List.mem_cons_self
  have hh₁ : h₁.Holds (head :: p :: ps) := hs₁.holds hh
  obtain ⟨c, hc⟩ := hh₁.cell_of_mem (List.mem_cons_of_mem head List.mem_cons_self)
  refine ⟨_, ?_, hl₁.congr fun q hq => ?_, hh₁.free (Heap.free_eq hc) fun q => ?_, ?_, hs₁.next⟩
  · unfold drainBody
    simp only [hx, he₁, Heap.free_eq hc, Option.bind_eq_bind, Option.bind_some]
    cases visit x s <;> rfl
  · refine Function.update_of_ne ?_ _ _
    rintro rfl
    exact hp hq
  · have hperm : (head :: p :: ps).Perm (p :: head :: ps) := List.Perm.swap p head ps
    rw [hperm.mem_iff]
    constructor
    · intro hq
      refine ⟨List.mem_cons_of_mem p hq, ?_⟩
      rintro rfl
      exact hp hq
    · rintro ⟨hq, hne⟩
      exact (List.mem_cons.mp hq).resolve_left hne
  · show h₁.freed ++ [p] = _
    rw [hs₁.freed]

/-- **Draining** visits the entries in their order, each once, and frees them. -/
theorem forEachSafe_drain {σ : Type} {visit : α → σ → Option σ} {fuel n : Nat} {s : σ}
    (hl : ListAt h head ps xs) (hh : h.Holds (head :: ps)) (hfuel : ps.length < fuel)
    (hn : nextOf h (ps.headD head) = some n) :
    Option.Rel (fun m t => m.2 = t ∧ Drained h m.1 head ps)
      (forEachSafe head (drainBody visit) fuel (ps.headD head) n (h, s))
      (xs.foldlM (fun s x => visit x s) s) := by
  induction ps generalizing h xs fuel n s with
  | nil =>
      obtain rfl : xs = [] := List.eq_nil_of_length_eq_zero hl.length_eq.symm
      obtain ⟨fuel, rfl⟩ : ∃ k, fuel = k + 1 := ⟨fuel - 1, by omega⟩
      rw [List.headD_nil, forEachSafe, if_pos rfl]
      exact .some ⟨rfl, hl, hh, (List.append_nil _).symm, rfl⟩
  | cons p ps ih =>
      obtain ⟨x, xs, rfl⟩ : ∃ x xs', xs = x :: xs' :=
        List.exists_cons_of_length_eq_add_one hl.length_eq.symm
      obtain ⟨fuel, rfl⟩ : ∃ k, fuel = k + 1 := ⟨fuel - 1, by simp at hfuel; omega⟩
      have hring : (links h).Ring head ([] ++ p :: ps) := hl.ring
      have hpn : ps.headD head = n := Option.some.inj (hring.next_eq.symm.trans hn)
      have hp : p ≠ head := by
        rintro rfl
        exact (List.nodup_cons.mp hl.ring.nodup).1 List.mem_cons_self
      have hround := @drainBody_eq _ _ _ _ _ _ _ _ visit s hl hh
      obtain ⟨h', hbody, hl', hh', hfreed, hnext⟩ := hround
      rw [List.headD_cons, forEachSafe, if_neg hp, List.foldlM_cons, hbody]
      cases hv : visit x s with
      | none => exact .none
      | some s' =>
          -- The saved successor is still in the list, or the head.
          obtain ⟨n', hn'⟩ := hl'.nextOf_eq Links.headD_mem
          show Option.Rel _ ((nextOf h' n).bind _) _
          rw [← hpn, hn']
          refine Transition.rel_mono (ih hl' hh' (by simpa using hfuel) hn') ?_
          rintro m t ⟨hm, hd⟩
          refine ⟨hm, hd.list, hd.holds, ?_, hd.next.trans hnext⟩
          rw [hd.freed, hfreed, List.append_assoc]
          rfl

/-- The loop as its macro starts it. -/
theorem listForEachEntrySafe_drain {σ : Type} {visit : α → σ → Option σ} {s : σ}
    (hl : ListAt h head ps xs) (hh : h.Holds (head :: ps)) :
    Option.Rel (fun m t => m.2 = t ∧ Drained h m.1 head ps)
      (listForEachEntrySafe head (drainBody visit) (h, s))
      (xs.foldlM (fun s x => visit x s) s) := by
  obtain ⟨n, hn⟩ := hl.nextOf_eq Links.headD_mem
  have hlen := hh.length_lt hl.ring.nodup (List.Subset.refl _)
  have hhead : nextOf h head = some (ps.headD head) := hl.ring.next_head
  unfold listForEachEntrySafe
  simp only [hhead, hn, Option.bind_eq_bind, Option.bind_some]
  exact forEachSafe_drain hl hh (by simp only [List.length_cons] at hlen; omega) hn

end

end Sockmon

import Mathlib.Logic.Function.Basic
import Mathlib.Tactic

set_option autoImplicit false

/-! # A heap

Objects are allocated one behind the other and freed in any order. A store through a pointer that
points at no object has no result, and neither has freeing one, so a computation with a result
frees nothing twice (`Sound.free`). The log of what was freed tells what was freed once.
-/

/-- The objects at their places, the first place never used, and the places freed. -/
structure Heap (α : Type*) where
  cell : Nat → Option α
  next : Nat
  freed : List Nat

namespace Heap

variable {α : Type*}

/-- Allocate an object at `h.next`. -/
def alloc (h : Heap α) (a : α) : Heap α :=
  { h with cell := Function.update h.cell h.next (some a), next := h.next + 1 }

/-- Store an object where there is one. -/
def set (h : Heap α) (p : Nat) (a : α) : Option (Heap α) :=
  if (h.cell p).isSome then some { h with cell := Function.update h.cell p (some a) } else none

/-- Free the object at `p`. -/
def free (h : Heap α) (p : Nat) : Option (Heap α) :=
  if (h.cell p).isSome then
    some { h with cell := Function.update h.cell p none, freed := h.freed ++ [p] }
  else none

/-- Nothing was ever allocated. -/
def empty : Heap α := ⟨fun _ => none, 0, []⟩

/-- There is nothing above the first place never used, and nothing that was freed is there, or
was freed twice. -/
structure Sound (h : Heap α) : Prop where
  fresh : ∀ p, h.next ≤ p → h.cell p = none
  gone : ∀ p ∈ h.freed, h.cell p = none ∧ p < h.next
  once : h.freed.Nodup

section

variable {h h' : Heap α} {p q : Nat} {a b : α}

@[simp] theorem alloc_next : (h.alloc a).next = h.next + 1 := rfl

@[simp] theorem alloc_cell_self : (h.alloc a).cell h.next = some a := Function.update_self _ _ _

theorem alloc_cell (hp : p ≠ h.next) : (h.alloc a).cell p = h.cell p :=
  Function.update_of_ne hp _ _

theorem Sound.lt_next (hs : h.Sound) (hp : h.cell p = some a) : p < h.next := by
  by_contra hge
  rw [hs.fresh p (by omega)] at hp
  cases hp

/-- What a store does. -/
theorem set_eq (hp : h.cell p = some b) :
    h.set p a = some { h with cell := Function.update h.cell p (some a) } :=
  if_pos (by rw [hp]; rfl)

/-- What freeing an object does. -/
theorem free_eq (hp : h.cell p = some b) :
    h.free p = some { h with cell := Function.update h.cell p none, freed := h.freed ++ [p] } :=
  if_pos (by rw [hp]; rfl)

theorem sound_empty : (empty : Heap α).Sound :=
  ⟨fun _ _ => rfl, by simp [empty], List.nodup_nil⟩

theorem Sound.alloc (hs : h.Sound) (a : α) : (h.alloc a).Sound where
  fresh p hp := by
    rw [alloc_next] at hp
    rw [alloc_cell (by omega)]
    exact hs.fresh p (by omega)
  gone p hp := by
    obtain ⟨hcell, hlt⟩ := hs.gone p hp
    rw [alloc_cell (by omega), alloc_next]
    exact ⟨hcell, by omega⟩
  once := hs.once

theorem Sound.set (hs : h.Sound) (hset : h.set p a = some h') : h'.Sound := by
  unfold Heap.set at hset
  split_ifs at hset with hlive
  cases hset
  obtain ⟨b, hb⟩ := Option.isSome_iff_exists.mp hlive
  have hlt := hs.lt_next hb
  refine ⟨fun q hq => ?_, fun q hq => ?_, hs.once⟩
  · exact (Function.update_of_ne (by simp only at hq; omega) _ _).trans (hs.fresh q hq)
  · obtain ⟨hcell, hqlt⟩ := hs.gone q hq
    refine ⟨?_, hqlt⟩
    refine (Function.update_of_ne ?_ _ _).trans hcell
    rintro rfl
    rw [hcell] at hb
    cases hb

/-- **Nothing is freed twice.** -/
theorem Sound.free (hs : h.Sound) (hfree : h.free p = some h') : h'.Sound := by
  unfold Heap.free at hfree
  split_ifs at hfree with hlive
  cases hfree
  obtain ⟨b, hb⟩ := Option.isSome_iff_exists.mp hlive
  have hlt := hs.lt_next hb
  have hnew : p ∉ h.freed := by
    intro hmem
    rw [(hs.gone p hmem).1] at hb
    cases hb
  refine ⟨fun q hq => ?_, fun q hq => ?_, ?_⟩
  · exact (Function.update_of_ne (by simp only at hq; omega) _ _).trans (hs.fresh q hq)
  · simp only [List.mem_append, List.mem_singleton] at hq
    by_cases hqp : q = p
    · rw [hqp]
      exact ⟨Function.update_self _ _ _, hlt⟩
    · obtain ⟨hcell, hqlt⟩ := hs.gone q (hq.resolve_right hqp)
      exact ⟨(Function.update_of_ne hqp _ _).trans hcell, hqlt⟩
  · exact List.nodup_append.mpr ⟨hs.once, List.nodup_singleton p, by
      rintro a ha b hb rfl
      rw [List.mem_singleton.mp hb] at ha
      exact hnew ha⟩

/-! ## Changing an object in place -/

/-- Change the object at `p`. -/
def modify (h : Heap α) (p : Nat) (f : α → α) : Option (Heap α) :=
  (h.cell p).bind fun a => h.set p (f a)

theorem modify_eq (hp : h.cell p = some a) (f : α → α) :
    h.modify p f = some { h with cell := Function.update h.cell p (some (f a)) } := by
  unfold modify
  rw [hp, Option.bind_some, set_eq hp]

theorem modify_none (hp : h.cell p = none) (f : α → α) : h.modify p f = none := by
  unfold modify
  rw [hp, Option.bind_none]

theorem Sound.modify {f : α → α} (hs : h.Sound) (hmod : h.modify p f = some h') : h'.Sound := by
  obtain ⟨a, -, hset⟩ := Option.bind_eq_some_iff.mp hmod
  exact hs.set hset

/-! ## What is in use

The place 0 is the null pointer. -/

/-- Nothing was ever allocated, and nothing will be at 0. -/
def fresh : Heap α := ⟨fun _ => none, 1, []⟩

/-- The objects are at the places `used`, and every other place given out was freed. -/
structure Holds (h : Heap α) (used : List Nat) : Prop where
  sound : h.Sound
  null : 0 < h.next ∧ h.cell 0 = none
  live : ∀ p, (h.cell p).isSome ↔ p ∈ used
  all : ∀ p, 0 < p → p < h.next → p ∈ used ∨ p ∈ h.freed

variable {used used' : List Nat}

theorem holds_fresh : (fresh : Heap α).Holds [] where
  sound := ⟨fun _ _ => rfl, by simp [fresh], List.nodup_nil⟩
  null := ⟨Nat.one_pos, rfl⟩
  live p := by simp [fresh]
  all p hp hlt := absurd hlt (by simp only [fresh]; omega)

theorem Holds.of_mem (hh : h.Holds used) (hmem : ∀ p, p ∈ used' ↔ p ∈ used) : h.Holds used' where
  sound := hh.sound
  null := hh.null
  live p := (hh.live p).trans (hmem p).symm
  all p hp hlt := (hh.all p hp hlt).imp_left (hmem p).mpr

theorem Holds.cell_of_mem (hh : h.Holds used) (hp : p ∈ used) : ∃ a, h.cell p = some a :=
  Option.isSome_iff_exists.mp ((hh.live p).mpr hp)

theorem Holds.next_notMem (hh : h.Holds used) : h.next ∉ used := by
  rw [← hh.live, hh.sound.fresh h.next (le_refl _)]
  exact Bool.false_ne_true

theorem Holds.pos_of_mem (hh : h.Holds used) (hp : p ∈ used) : p ≠ 0 := by
  rintro rfl
  obtain ⟨a, ha⟩ := hh.cell_of_mem hp
  rw [hh.null.2] at ha
  cases ha

/-- Different places in use are fewer than the places given out. -/
theorem Holds.length_lt {ps : List Nat} (hh : h.Holds used) (hnodup : ps.Nodup)
    (hps : ps ⊆ used) : ps.length < h.next := by
  have hsub : ps ⊆ (List.range h.next).tail := by
    intro p hp
    obtain ⟨a, ha⟩ := hh.cell_of_mem (hps hp)
    have hlt := hh.sound.lt_next ha
    have hpos := hh.pos_of_mem (hps hp)
    have hnext := hh.null.1
    rw [show h.next = h.next - 1 + 1 by omega, List.range_succ_eq_map, List.tail_cons,
      List.mem_map]
    exact ⟨p - 1, List.mem_range.mpr (by omega), by omega⟩
  have hlen := (List.subperm_of_subset hnodup hsub).length_le
  rw [List.length_tail, List.length_range] at hlen
  have hnext := hh.null.1
  omega

theorem Holds.alloc (hh : h.Holds used) (a : α) : (h.alloc a).Holds (h.next :: used) where
  sound := hh.sound.alloc a
  null := by
    have hne : 0 ≠ h.next := by
      have := hh.null.1
      omega
    exact ⟨Nat.succ_pos _, (alloc_cell hne).trans hh.null.2⟩
  live p := by
    by_cases hp : p = h.next
    · rw [hp, alloc_cell_self]
      simp
    · rw [alloc_cell hp, hh.live, List.mem_cons]
      exact (or_iff_right hp).symm
  all p hp hlt := by
    rw [alloc_next] at hlt
    by_cases hpn : p = h.next
    · exact Or.inl (hpn ▸ List.mem_cons_self)
    · exact (hh.all p hp (by omega)).imp_left (List.mem_cons_of_mem _)

theorem Holds.modify {f : α → α} (hh : h.Holds used) (hmod : h.modify p f = some h') :
    h'.Holds used := by
  have hsound := hh.sound.modify hmod
  cases hcell : h.cell p with
  | none =>
      rw [modify_none hcell] at hmod
      cases hmod
  | some b =>
      rw [modify_eq hcell] at hmod
      obtain rfl := Option.some.inj hmod
      have hp : p ≠ 0 := by
        rintro rfl
        rw [hh.null.2] at hcell
        cases hcell
      refine ⟨hsound, ⟨hh.null.1, (Function.update_of_ne hp.symm _ _).trans hh.null.2⟩,
        fun q => ?_, hh.all⟩
      rw [← hh.live q]
      by_cases hq : q = p
      · simp [hq, hcell]
      · simp [Function.update_of_ne hq]

theorem Holds.free (hh : h.Holds used) (hfree : h.free p = some h')
    (hmem : ∀ q, q ∈ used' ↔ q ∈ used ∧ q ≠ p) : h'.Holds used' := by
  have hsound := hh.sound.free hfree
  unfold Heap.free at hfree
  split_ifs at hfree with hlive
  obtain rfl := Option.some.inj hfree
  have hp : p ≠ 0 := hh.pos_of_mem ((hh.live p).mp hlive)
  refine ⟨hsound, ⟨hh.null.1, (Function.update_of_ne hp.symm _ _).trans hh.null.2⟩,
    fun q => ?_, fun q hq hlt => ?_⟩
  · rw [hmem]
    by_cases hqp : q = p
    · simp [hqp]
    · simp [hh.live, hqp]
  · by_cases hqp : q = p
    · exact Or.inr (by simp [hqp])
    · rcases hh.all q hq hlt with h | h
      · exact Or.inl ((hmem q).mpr ⟨h, hqp⟩)
      · exact Or.inr (List.mem_append_left _ h)

theorem Holds.set (hh : h.Holds used) (hset : h.set p a = some h') : h'.Holds used := by
  have hmod : h.modify p (fun _ => a) = h.set p a := by
    cases hcell : h.cell p with
    | none =>
        rw [modify_none hcell]
        exact (if_neg (by simp [hcell])).symm
    | some b => rw [modify_eq hcell, set_eq hcell]
  exact hh.modify (hmod.trans hset)

/-- Free the objects at `ps`, one after the other. -/
def freeAll (h : Heap α) : List Nat → Option (Heap α)
  | [] => some h
  | p :: ps => (h.free p).bind (·.freeAll ps)

theorem freeAll_cons {ps : List Nat} :
    h.freeAll (p :: ps) = (h.free p).bind (·.freeAll ps) := rfl

/-- **Freeing** a part of what is in use leaves the rest, and all that is there. -/
theorem Holds.freeAll {ps rest : List Nat} (hh : h.Holds (ps ++ rest))
    (hnodup : (ps ++ rest).Nodup) :
    ∃ h', h.freeAll ps = some h' ∧ h'.Holds rest ∧ ∀ q, q ∉ ps → h'.cell q = h.cell q := by
  induction ps generalizing h with
  | nil => exact ⟨h, rfl, hh, fun _ _ => rfl⟩
  | cons p ps ih =>
      obtain ⟨hp, hnodup⟩ := List.nodup_cons.mp hnodup
      obtain ⟨a, ha⟩ := hh.cell_of_mem (p := p) (by simp)
      have hfree := free_eq ha
      have hfreed : ∀ q, q ∈ ps ++ rest ↔ q ∈ p :: ps ++ rest ∧ q ≠ p := by
        intro q
        rw [List.cons_append, List.mem_cons]
        constructor
        · intro hq
          refine ⟨Or.inr hq, ?_⟩
          rintro rfl
          exact hp hq
        · rintro ⟨rfl | hq, hne⟩
          · exact absurd rfl hne
          · exact hq
      obtain ⟨h', hall, hholds, hcell⟩ := ih (hh.free hfree hfreed) hnodup
      refine ⟨h', ?_, hholds, fun q hq => ?_⟩
      · rw [freeAll_cons, hfree, Option.bind_some, hall]
      · rw [List.mem_cons, not_or] at hq
        rw [hcell q hq.2]
        exact Function.update_of_ne hq.1 _ _

/-- **What is not in use any more** was freed exactly once. -/
theorem Holds.count_freed (hh : h.Holds used) (hp : 0 < p) (hlt : p < h.next) (hnot : p ∉ used) :
    h.freed.count p = 1 :=
  List.count_eq_one_of_mem hh.sound.once ((hh.all p hp hlt).resolve_left hnot)

end

end Heap

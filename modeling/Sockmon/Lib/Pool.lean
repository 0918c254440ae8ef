import Mathlib.Data.List.Range
import Mathlib.Tactic

set_option autoImplicit false

/-! # Allocated objects

A pool numbers the objects it allocates, and knows which of them are live and which were
freed, in the order of the calls. It is sound if every number given out is that of one live
object or was freed once (`Sound`), which all operations keep; a pool without a live object
has then freed each of its objects exactly once (`Sound.count_freed`).
-/

structure Pool (α : Type*) where
  next : Nat
  live : List (Nat × α)
  freed : List Nat

namespace Pool

variable {α : Type*}

def empty : Pool α := ⟨0, [], []⟩

/-- Allocate an object and keep it. -/
def keep (p : Pool α) (a : α) : Pool α := ⟨p.next + 1, p.live ++ [(p.next, a)], p.freed⟩

/-- Allocate an object and free it again. -/
def discard (p : Pool α) : Pool α := ⟨p.next + 1, p.live, p.freed ++ [p.next]⟩

/-- Free every object. -/
def drain (p : Pool α) : Pool α := ⟨p.next, [], p.freed ++ p.live.map Prod.fst⟩

/-- The objects that are live. -/
def contents (p : Pool α) : List α := p.live.map Prod.snd

@[simp] theorem contents_empty : (empty : Pool α).contents = [] := rfl

@[simp] theorem contents_keep (p : Pool α) (a : α) : (p.keep a).contents = p.contents ++ [a] := by
  simp [contents, keep]

@[simp] theorem contents_discard (p : Pool α) : p.discard.contents = p.contents := rfl

@[simp] theorem contents_drain (p : Pool α) : p.drain.contents = [] := rfl

/-- Each number given out stands for a live object or was freed, once. -/
def Sound (p : Pool α) : Prop := (p.freed ++ p.live.map Prod.fst).Perm (List.range p.next)

theorem sound_empty : (empty : Pool α).Sound := List.Perm.refl _

section

variable {p : Pool α}

theorem Sound.keep (hp : p.Sound) (a : α) : (p.keep a).Sound := by
  show (p.freed ++ (p.live ++ [(p.next, a)]).map Prod.fst).Perm (List.range (p.next + 1))
  rw [List.map_append, ← List.append_assoc, List.range_succ]
  exact hp.append_right _

theorem Sound.discard (hp : p.Sound) : p.discard.Sound := by
  show ((p.freed ++ [p.next]) ++ p.live.map Prod.fst).Perm (List.range (p.next + 1))
  have hswap : ((p.freed ++ [p.next]) ++ p.live.map Prod.fst).Perm
      ((p.freed ++ p.live.map Prod.fst) ++ [p.next]) := by
    rw [List.append_assoc, List.append_assoc]
    exact List.perm_append_comm.append_left _
  rw [List.range_succ]
  exact hswap.trans (hp.append_right _)

theorem Sound.drain (hp : p.Sound) : p.drain.Sound := by
  show ((p.freed ++ p.live.map Prod.fst) ++ []).Perm (List.range p.next)
  rw [List.append_nil]
  exact hp

/-- Nothing is freed twice. -/
theorem Sound.freed_nodup (hp : p.Sound) : p.freed.Nodup := by
  have hall : (p.freed ++ p.live.map Prod.fst).Nodup := hp.nodup_iff.mpr List.nodup_range
  exact hall.of_append_left

/-- What is live has not been freed. -/
theorem Sound.not_freed (hp : p.Sound) {o : Nat × α} (ho : o ∈ p.live) : o.1 ∉ p.freed := by
  have hall : (p.freed ++ p.live.map Prod.fst).Nodup := hp.nodup_iff.mpr List.nodup_range
  intro hfreed
  exact List.disjoint_of_nodup_append hall hfreed (List.mem_map_of_mem ho)

/-- **Without a live object** each object was freed exactly once. -/
theorem Sound.count_freed (hp : p.Sound) (hlive : p.contents = []) {id : Nat} (hid : id < p.next) :
    p.freed.count id = 1 := by
  have hnil : p.live = [] := List.map_eq_nil_iff.mp hlive
  have hperm : p.freed.Perm (List.range p.next) := by
    unfold Sound at hp
    rwa [hnil, List.map_nil, List.append_nil] at hp
  rw [hperm.count_eq]
  exact List.count_eq_one_of_mem List.nodup_range (List.mem_range.mpr hid)

end

end Pool

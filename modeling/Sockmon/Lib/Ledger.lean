import Mathlib.Data.Finset.Basic
import Sockmon.Lib.Run

set_option autoImplicit false

/-! # A ledger of resources

The calls of a program that acquire and release resources are run against the set of those that
are held. Acquiring one that is held has no result, since its handle would be lost, and neither
has releasing one that is not. Calls are composed by `Brings.append`, and what they do not name
stays as it is (`Brings.frame`).
-/

namespace Ledger

open Transition

variable {ρ : Type*}

inductive Call (ρ : Type*)
  | acquire (r : ρ)
  | release (r : ρ)
  deriving DecidableEq

/-- The resource that a call is about. -/
def Call.resource : Call ρ → ρ
  | .acquire r => r
  | .release r => r

variable [DecidableEq ρ]

def run (held : Finset ρ) : Call ρ → Option (Finset ρ)
  | .acquire r => if r ∈ held then none else some (insert r held)
  | .release r => if r ∈ held then some (held.erase r) else none

/-- With `before` held the calls can be made, and `after` is held after them. -/
def Brings (calls : List (Call ρ)) (before after : Finset ρ) : Prop :=
  exec run calls before = some after

variable {cs ds : List (Call ρ)} {A B C F : Finset ρ} {r : ρ}

theorem Brings.nil (A : Finset ρ) : Brings [] A A := rfl

theorem Brings.append (h : Brings cs A B) (h' : Brings ds B C) : Brings (cs ++ ds) A C :=
  exec_append.mpr ⟨B, h, h'⟩

theorem Brings.acquire (hr : r ∉ A) (h : Brings cs (insert r A) B) :
    Brings (.acquire r :: cs) A B :=
  exec_cons.mpr ⟨insert r A, if_neg hr, h⟩

theorem Brings.release (hr : r ∈ A) (h : Brings cs (A.erase r) B) : Brings (.release r :: cs) A B :=
  exec_cons.mpr ⟨A.erase r, if_pos hr, h⟩

/-- One call is not affected by what is held besides. -/
theorem run_frame {c : Call ρ} (hc : c.resource ∉ F) (h : run A c = some B) :
    run (A ∪ F) c = some (B ∪ F) := by
  cases c with
  | acquire r =>
      have hr : r ∉ F := hc
      have h : (if r ∈ A then none else some (insert r A)) = some B := h
      show (if r ∈ A ∪ F then none else some (insert r (A ∪ F))) = some (B ∪ F)
      split_ifs at h with hmem
      rw [if_neg (by rw [Finset.mem_union]; exact not_or.mpr ⟨hmem, hr⟩), ← Option.some.inj h,
        Finset.insert_union]
  | release r =>
      have hr : r ∉ F := hc
      have h : (if r ∈ A then some (A.erase r) else none) = some B := h
      show (if r ∈ A ∪ F then some ((A ∪ F).erase r) else none) = some (B ∪ F)
      split_ifs at h with hmem
      rw [if_pos (Finset.mem_union_left F hmem), ← Option.some.inj h, Finset.erase_union_distrib,
        Finset.erase_eq_of_notMem hr]

/-- **The frame rule**: what the calls do not name may be held besides, and stays held. -/
theorem Brings.frame (hcs : ∀ c ∈ cs, c.resource ∉ F) (h : Brings cs A B) :
    Brings cs (A ∪ F) (B ∪ F) := by
  induction cs generalizing A with
  | nil =>
      obtain rfl : A = B := Option.some.inj h
      exact Brings.nil _
  | cons c cs ih =>
      obtain ⟨hc, hcs⟩ := List.forall_mem_cons.mp hcs
      obtain ⟨A', hA', h⟩ := exec_cons.mp h
      exact exec_cons.mpr ⟨A' ∪ F, run_frame hc hA', ih hcs h⟩

/-- Calls between the two calls for a resource that they do not name. -/
theorem Brings.bracket (hr : r ∉ A) (hcs : ∀ c ∈ cs, c.resource ≠ r) (h : Brings cs A B)
    (hB : r ∉ B) : Brings (.acquire r :: cs ++ [.release r]) A B := by
  have hinner : Brings cs (A ∪ {r}) (B ∪ {r}) :=
    h.frame fun c hc hmem => hcs c hc (Finset.mem_singleton.mp hmem)
  refine Brings.acquire hr ?_
  rw [Finset.insert_eq, Finset.union_comm]
  refine hinner.append (Brings.release (by simp) ?_)
  rw [Finset.erase_union_distrib, Finset.erase_eq_of_notMem hB, Finset.erase_singleton,
    Finset.union_empty]
  exact Brings.nil B

end Ledger

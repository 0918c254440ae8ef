import Mathlib.Data.List.Nodup
import Sockmon.Lib.Heap

set_option autoImplicit false

/-! # Chains in a heap

A singly linked list in a heap: each cell points at the next one, and the last one at 0
(`ChainAt`). A hash table has a chain for each bucket (`BucketsAt`); with all cells different, a
change to one chain leaves the others alone (`BucketsAt.set`).
-/

namespace HeapChain

/-- A value, and the place of the next cell. -/
structure Cell (γ : Type*) where
  next : Nat
  val : γ

variable {γ : Type*}

/-- From `p` on there are cells at the places `ps`, with the values `xs`. -/
inductive ChainAt (h : Heap (Cell γ)) : Nat → List Nat → List γ → Prop
  | nil : ChainAt h 0 [] []
  | cons {p n ps x xs} : p ≠ 0 → h.cell p = some ⟨n, x⟩ → ChainAt h n ps xs →
      ChainAt h p (p :: ps) (x :: xs)

variable {h h' : Heap (Cell γ)} {p o : Nat} {ps : List Nat} {x y : γ} {xs : List γ}

theorem ChainAt.length_eq (hc : ChainAt h p ps xs) : ps.length = xs.length := by
  induction hc with
  | nil => rfl
  | cons _ _ _ ih => rw [List.length_cons, List.length_cons, ih]

/-- The null pointer is the empty chain. -/
theorem ChainAt.of_zero (hc : ChainAt h 0 ps xs) : ps = [] ∧ xs = [] := by
  cases hc with
  | nil => exact ⟨rfl, rfl⟩
  | cons hp => exact absurd rfl hp

/-- A chain depends on its own cells. -/
theorem ChainAt.congr (hc : ChainAt h p ps xs) (hcell : ∀ q ∈ ps, h'.cell q = h.cell q) :
    ChainAt h' p ps xs := by
  induction hc with
  | nil => exact .nil
  | cons hp hcp _ ih =>
      refine .cons hp ((hcell _ List.mem_cons_self).trans hcp) (ih fun q hq => ?_)
      exact hcell q (List.mem_cons_of_mem _ hq)

/-- The last cell of a chain. -/
theorem ChainAt.last (hc : ChainAt h p ps xs) (hne : ps ≠ []) :
    ∃ z, h.cell (ps.getLast hne) = some ⟨0, z⟩ := by
  induction hc with
  | nil => exact absurd rfl hne
  | @cons p n ps x xs hp hcp hrest ih =>
      cases hrest with
      | nil => exact ⟨x, hcp⟩
      | cons hn hcn hrest =>
          rw [List.getLast_cons (List.cons_ne_nil _ _)]
          exact ih (List.cons_ne_nil _ _)

/-- **Chaining a cell** behind the last one. -/
theorem ChainAt.concat {z : γ} (hc : ChainAt h p ps xs) (hne : ps ≠ []) (hnodup : ps.Nodup)
    (hlast : h.cell (ps.getLast hne) = some ⟨0, z⟩)
    (hlast' : h'.cell (ps.getLast hne) = some ⟨o, z⟩)
    (hcell : ∀ q ∈ ps, q ≠ ps.getLast hne → h'.cell q = h.cell q)
    (ho : ChainAt h' o [o] [y]) : ChainAt h' p (ps ++ [o]) (xs ++ [y]) := by
  induction hc with
  | nil => exact absurd rfl hne
  | @cons p n ps x xs hp hcp hrest ih =>
      cases ps with
      | nil =>
          cases hrest
          obtain rfl : x = z := by
            rw [List.getLast_singleton, hcp] at hlast
            exact congrArg Cell.val (Option.some.inj hlast)
          exact .cons hp hlast' ho
      | cons q ps =>
          rw [List.getLast_cons (List.cons_ne_nil q ps)] at hlast hlast'
          have hpl : p ≠ (q :: ps).getLast (List.cons_ne_nil q ps) := by
            intro heq
            exact (List.nodup_cons.mp hnodup).1 (heq ▸ List.getLast_mem _)
          have hkeep : ∀ r ∈ p :: q :: ps, r ≠ (q :: ps).getLast (List.cons_ne_nil q ps) →
              h'.cell r = h.cell r := by
            intro r hr hrl
            refine hcell r hr ?_
            rwa [List.getLast_cons (List.cons_ne_nil q ps)]
          refine .cons hp ((hkeep p List.mem_cons_self hpl).trans hcp) ?_
          exact ih (List.cons_ne_nil q ps) (List.nodup_cons.mp hnodup).2 hlast hlast'
            fun r hr hrl => hkeep r (List.mem_cons_of_mem p hr) hrl

/-! ## Buckets -/

/-- The buckets `hb` are the first cells of the chains at the places `pss`, with the values
`cs`. -/
inductive BucketsAt (h : Heap (Cell γ)) : List Nat → List (List Nat) → List (List γ) → Prop
  | nil : BucketsAt h [] [] []
  | cons {p ps xs hb pss cs} : ChainAt h p ps xs → BucketsAt h hb pss cs →
      BucketsAt h (p :: hb) (ps :: pss) (xs :: cs)

variable {hb : List Nat} {pss : List (List Nat)} {cs : List (List γ)} {i : Nat}

theorem BucketsAt.length_eq (hB : BucketsAt h hb pss cs) :
    pss.length = hb.length ∧ cs.length = hb.length := by
  induction hB with
  | nil => exact ⟨rfl, rfl⟩
  | cons _ _ ih =>
      simp only [List.length_cons]
      omega

theorem BucketsAt.get (hB : BucketsAt h hb pss cs) (hi : hb[i]? = some p) :
    ∃ ps xs, pss[i]? = some ps ∧ cs[i]? = some xs ∧ ChainAt h p ps xs := by
  induction hB generalizing i with
  | nil => cases hi
  | cons hc hB ih =>
      cases i with
      | zero =>
          cases hi
          exact ⟨_, _, rfl, rfl, hc⟩
      | succ i => exact ih hi

/-- Empty buckets. -/
theorem bucketsAt_replicate (n : Nat) :
    BucketsAt h (List.replicate n 0) (List.replicate n []) (List.replicate n []) := by
  induction n with
  | zero => exact .nil
  | succ n ih => exact .cons .nil ih

theorem BucketsAt.congr (hB : BucketsAt h hb pss cs)
    (hcell : ∀ q ∈ pss.flatten, h'.cell q = h.cell q) : BucketsAt h' hb pss cs := by
  induction hB with
  | nil => exact .nil
  | cons hc hB ih =>
      rw [List.flatten_cons] at hcell
      exact .cons (hc.congr fun q hq => hcell q (List.mem_append_left _ hq))
        (ih fun q hq => hcell q (List.mem_append_right _ hq))

/-- **Changing one chain**, and no cell of another. -/
theorem BucketsAt.set {ps' : List Nat} {xs' : List γ} (hB : BucketsAt h hb pss cs)
    (hi : i < hb.length) (hc : ChainAt h' o ps' xs')
    (hcell : ∀ j qs, j ≠ i → pss[j]? = some qs → ∀ q ∈ qs, h'.cell q = h.cell q) :
    BucketsAt h' (hb.set i o) (pss.set i ps') (cs.set i xs') := by
  induction hB generalizing i with
  | nil => exact absurd hi (Nat.not_lt_zero i)
  | @cons p ps xs hb pss cs hd hB ih =>
      cases i with
      | zero =>
          refine .cons hc (hB.congr fun q hq => ?_)
          obtain ⟨qs, hqs, hq⟩ := List.mem_flatten.mp hq
          obtain ⟨j, hj⟩ := List.mem_iff_getElem?.mp hqs
          exact hcell (j + 1) qs (Nat.succ_ne_zero j) hj q hq
      | succ i =>
          refine .cons (hd.congr fun q hq => hcell 0 ps (Nat.succ_ne_zero i).symm rfl q hq) ?_
          refine ih (Nat.lt_of_succ_lt_succ hi) fun j qs hj hqs q hq => ?_
          exact hcell (j + 1) qs (by omega) hqs q hq

/-- Two chains of a table have no cell in common. -/
theorem notMem_other {ps qs : List Nat} {j q : Nat} (hnodup : pss.flatten.Nodup)
    (hi : pss[i]? = some ps) (hj : pss[j]? = some qs) (hne : j ≠ i) (hq : q ∈ qs) : q ∉ ps := by
  obtain ⟨-, hdisj⟩ := List.nodup_flatten.mp hnodup
  obtain ⟨hil, rfl⟩ := List.getElem?_eq_some_iff.mp hi
  obtain ⟨hjl, rfl⟩ := List.getElem?_eq_some_iff.mp hj
  rcases Nat.lt_or_gt_of_ne hne with hlt | hlt
  · exact (List.pairwise_iff_getElem.mp hdisj j i hjl hil hlt) hq
  · exact fun hp => (List.pairwise_iff_getElem.mp hdisj i j hil hjl hlt) hp hq

/-- The cells of a table with one more in a chain. -/
theorem flatten_set_perm {a : Nat} (hi : pss[i]? = some ps) :
    (pss.set i (ps ++ [a])).flatten.Perm (a :: pss.flatten) := by
  induction pss generalizing i with
  | nil => cases hi
  | cons qs pss ih =>
      cases i with
      | zero =>
          cases hi
          rw [List.set_cons_zero, List.flatten_cons, List.flatten_cons, List.append_assoc]
          exact List.perm_middle
      | succ i =>
          rw [List.set_cons_succ, List.flatten_cons, List.flatten_cons]
          calc (qs ++ (pss.set i (ps ++ [a])).flatten).Perm (qs ++ a :: pss.flatten) :=
                (ih hi).append_left qs
            List.Perm _ (a :: (qs ++ pss.flatten)) := List.perm_middle

end HeapChain

import Mathlib.Data.List.Chain
import Mathlib.Logic.Function.Basic
import Mathlib.Tactic

set_option autoImplicit false

/-! # Circular doubly linked lists

A list is threaded through nodes by their links, and closed by a node of its own, the head: from
the head on each node is linked with the next one in both directions, and the last one with the
head (`Ring`). Putting a node between two neighbours (`splice`) and taking out what stands between
two nodes (`bridge`) change two places each, and do to the list of the nodes what their names say
(`Ring.splice`, `Ring.bridge`).
-/

/-- The links of all nodes. -/
structure Links (ν : Type*) where
  next : ν → Option ν
  prev : ν → Option ν

namespace Links

variable {ν : Type*}

/-- `x` and `y` are linked in both directions. -/
def Linked (L : Links ν) (x y : ν) : Prop := L.next x = some y ∧ L.prev y = some x

/-- The nodes `xs` are threaded in this order, and closed by `hd`. -/
structure Ring (L : Links ν) (hd : ν) (xs : List ν) : Prop where
  nodup : (hd :: xs).Nodup
  chain : List.IsChain L.Linked (hd :: (xs ++ [hd]))

section

variable {L M : Links ν} {hd p : ν} {xs ys : List ν}

theorem dropLast_getLastD : hd :: xs = (hd :: xs).dropLast ++ [xs.getLastD hd] := by
  rw [List.getLastD_eq_getLast?]
  cases xs using List.reverseRecOn with
  | nil => rfl
  | append_singleton xs x =>
      rw [List.getLast?_append]
      simp [List.dropLast_cons_of_ne_nil]

theorem headD_tail : ys ++ [hd] = ys.headD hd :: (ys ++ [hd]).tail := by
  cases ys <;> rfl

theorem headD_mem : ys.headD hd ∈ hd :: ys := by
  cases ys <;> simp

/-- A ring around a gap: its nodes from the head to the last one before the gap, those from the
first one behind it to the head, and the link between the two. -/
theorem chain_gap : List.IsChain L.Linked (hd :: (xs ++ ys ++ [hd])) ↔
    List.IsChain L.Linked (hd :: xs) ∧ L.Linked (xs.getLastD hd) (ys.headD hd) ∧
      List.IsChain L.Linked (ys ++ [hd]) := by
  have hall : hd :: (xs ++ ys ++ [hd]) = (hd :: xs).dropLast ++
      xs.getLastD hd :: ys.headD hd :: (ys ++ [hd]).tail := by
    calc hd :: (xs ++ ys ++ [hd]) = (hd :: xs) ++ (ys ++ [hd]) := by simp
      _ = ((hd :: xs).dropLast ++ [xs.getLastD hd]) ++ (ys.headD hd :: (ys ++ [hd]).tail) := by
          rw [← dropLast_getLastD, ← headD_tail]
      _ = _ := by simp
  rw [hall, List.isChain_append_cons_cons, ← dropLast_getLastD, ← headD_tail]

/-- The neighbours at a gap. -/
theorem Ring.gap (h : L.Ring hd (xs ++ ys)) : L.Linked (xs.getLastD hd) (ys.headD hd) :=
  (chain_gap.mp h.chain).2.1

/-- The node behind `p`. -/
theorem Ring.next_eq (h : L.Ring hd (xs ++ p :: ys)) : L.next p = some (ys.headD hd) := by
  have hgap : L.Linked ((xs ++ [p]).getLastD hd) (ys.headD hd) := by
    refine Ring.gap ?_
    rwa [List.append_assoc]
  have hlast : (xs ++ [p]).getLastD hd = p := by simp [List.getLastD_eq_getLast?]
  rw [← hlast]
  exact hgap.1

/-- The first node. -/
theorem Ring.next_head (h : L.Ring hd xs) : L.next hd = some (xs.headD hd) :=
  have hgap : L.Linked ([].getLastD hd) (xs.headD hd) := Ring.gap h
  hgap.1

/-- The node before `p`. -/
theorem Ring.prev_eq (h : L.Ring hd (xs ++ p :: ys)) : L.prev p = some (xs.getLastD hd) :=
  h.gap.2

/-- A head linked with itself. -/
theorem ring_nil (hn : L.next hd = some hd) (hp : L.prev hd = some hd) : L.Ring hd [] :=
  ⟨List.nodup_singleton hd, List.isChain_pair.mpr ⟨hn, hp⟩⟩

/-- A chain depends on where its nodes lead on, but for the last one, and on where they lead
back, but for the first one. -/
theorem chain_congr (h : List.IsChain L.Linked xs)
    (hn : ∀ x ∈ xs.dropLast, M.next x = L.next x) (hp : ∀ y ∈ xs.tail, M.prev y = L.prev y) :
    List.IsChain M.Linked xs := by
  induction h with
  | nil => exact List.isChain_nil
  | singleton x => exact List.isChain_singleton x
  | @cons_cons x y xs hxy hrest ih =>
      have hx : M.next x = L.next x := hn x List.mem_cons_self
      have hy : M.prev y = L.prev y := hp y List.mem_cons_self
      refine List.isChain_cons_cons.mpr ⟨⟨hx.trans hxy.1, hy.trans hxy.2⟩, ih ?_ ?_⟩
      · exact fun z hz => hn z (List.mem_cons_of_mem x hz)
      · exact fun z hz => hp z (List.mem_cons_of_mem y hz)

/-- A ring depends on the links of its own nodes. -/
theorem Ring.congr (h : L.Ring hd xs)
    (hM : ∀ x ∈ hd :: xs, M.next x = L.next x ∧ M.prev x = L.prev x) : M.Ring hd xs := by
  have hmem : ∀ {x}, x ∈ hd :: (xs ++ [hd]) → x ∈ hd :: xs := by
    intro x hx
    simp only [List.mem_cons, List.mem_append, List.not_mem_nil, or_false] at hx ⊢
    tauto
  refine ⟨h.nodup, chain_congr h.chain (fun x hx => (hM x (hmem ?_)).1)
    (fun y hy => (hM y (hmem ?_)).2)⟩
  · exact List.mem_of_mem_dropLast hx
  · exact List.mem_of_mem_tail hy

/-- The first node behind a gap is not before it. -/
theorem headD_notMem (h : (hd :: (xs ++ ys)).Nodup) : ys.headD hd ∉ xs := by
  cases ys with
  | nil => exact (List.nodup_cons.mp (by simpa using h)).1
  | cons y ys =>
      have hdisj := (List.nodup_append.mp (List.nodup_cons.mp h).2).2.2
      exact fun hy => hdisj y hy y List.mem_cons_self rfl

/-- Nor is it behind itself. -/
theorem headD_notMem_tail (h : (hd :: (xs ++ ys)).Nodup) :
    ys.headD hd ∉ (ys ++ [hd]).tail := by
  cases ys with
  | nil => exact List.not_mem_nil
  | cons y ys =>
      obtain ⟨hhd, hnodup⟩ := List.nodup_cons.mp h
      have hy : y ∉ ys := (List.nodup_cons.mp (List.nodup_append.mp hnodup).2.1).1
      have hne : y ≠ hd := by
        rintro rfl
        exact hhd (List.mem_append_right xs List.mem_cons_self)
      show y ∉ ys ++ [hd]
      rw [List.mem_append, List.mem_singleton]
      exact fun hmem => hmem.elim hy hne

/-- The last node before a gap is not before itself. -/
theorem getLastD_notMem_dropLast (h : (hd :: xs).Nodup) :
    xs.getLastD hd ∉ (hd :: xs).dropLast := by
  rw [dropLast_getLastD] at h
  have hdisj := (List.nodup_append.mp h).2.2
  exact fun hx => hdisj _ hx _ List.mem_cons_self rfl

/-- Nor is it behind the gap. -/
theorem getLastD_notMem (h : (hd :: (xs ++ ys)).Nodup) : xs.getLastD hd ∉ ys := by
  rw [← List.cons_append] at h
  exact List.disjoint_of_nodup_append h List.getLastD_mem_cons

/-- **The two sides of a gap** stay linked under links that change only where those to the left
lead on and those to the right lead back. -/
theorem sides (h : (hd :: (xs ++ ys)).Nodup) (hleft : List.IsChain L.Linked (hd :: xs))
    (hright : List.IsChain L.Linked (ys ++ [hd]))
    (hn : ∀ x ∈ hd :: (xs ++ ys), x ≠ xs.getLastD hd → M.next x = L.next x)
    (hp : ∀ y ∈ hd :: (xs ++ ys), y ≠ ys.headD hd → M.prev y = L.prev y) :
    List.IsChain M.Linked (hd :: xs) ∧ List.IsChain M.Linked (ys ++ [hd]) := by
  have hxs : (hd :: xs).Nodup := h.sublist ((List.sublist_append_left xs ys).cons_cons hd)
  have hmem : ∀ {x}, x ∈ ys ++ [hd] → x ∈ hd :: (xs ++ ys) := by
    intro x hx
    simp only [List.mem_cons, List.mem_append, List.not_mem_nil, or_false] at hx ⊢
    tauto
  constructor
  · refine chain_congr hleft (fun x hx => hn x ?_ ?_) (fun y hy => hp y ?_ ?_)
    · exact List.mem_append_left ys (List.mem_of_mem_dropLast hx)
    · rintro rfl
      exact getLastD_notMem_dropLast hxs hx
    · exact List.mem_cons_of_mem hd (List.mem_append_left ys hy)
    · rintro rfl
      exact headD_notMem h hy
  · refine chain_congr hright (fun x hx => hn x ?_ ?_) (fun y hy => hp y ?_ ?_)
    · exact hmem (List.mem_of_mem_dropLast hx)
    · rw [List.dropLast_concat] at hx
      rintro rfl
      exact getLastD_notMem h hx
    · exact hmem (List.mem_of_mem_tail hy)
    · rintro rfl
      exact headD_notMem_tail h hy

end

variable [DecidableEq ν]

/-- Put `p` between `a` and `b`. -/
def splice (L : Links ν) (a p b : ν) : Links ν :=
  { next := Function.update (Function.update L.next p (some b)) a (some p)
    prev := Function.update (Function.update L.prev b (some p)) p (some a) }

/-- Link `a` with `b`. -/
def bridge (L : Links ν) (a b : ν) : Links ν :=
  { next := Function.update L.next a (some b), prev := Function.update L.prev b (some a) }

variable {L : Links ν} {hd p : ν} {xs ys : List ν}

/-- **Splicing** a node into a gap adds it there. -/
theorem Ring.splice (h : L.Ring hd (xs ++ ys)) (hp : p ∉ hd :: (xs ++ ys)) :
    (L.splice (xs.getLastD hd) p (ys.headD hd)).Ring hd (xs ++ p :: ys) := by
  have ha : xs.getLastD hd ≠ p := by
    rintro rfl
    exact hp (List.cons_subset_cons hd (List.subset_append_left xs ys) List.getLastD_mem_cons)
  have hb : ys.headD hd ≠ p := by
    rintro rfl
    exact hp (List.cons_subset_cons hd (List.subset_append_right xs ys) headD_mem)
  have hne : ∀ x ∈ hd :: (xs ++ ys), x ≠ p := fun x hx hxp => hp (hxp ▸ hx)
  obtain ⟨hleft, -, hright⟩ := chain_gap.mp h.chain
  obtain ⟨hleft, hright⟩ := sides (M := L.splice (xs.getLastD hd) p (ys.headD hd)) h.nodup
    hleft hright
    (fun x hx hxa => by
      show Function.update _ _ _ _ = _
      rw [Function.update_of_ne hxa, Function.update_of_ne (hne x hx)])
    (fun y hy hyb => by
      show Function.update _ _ _ _ = _
      rw [Function.update_of_ne (hne y hy), Function.update_of_ne hyb])
  constructor
  · have hperm : (hd :: (xs ++ p :: ys)).Perm (p :: hd :: (xs ++ ys)) :=
      (List.perm_middle.cons hd).trans (List.Perm.swap p hd _)
    exact hperm.nodup_iff.mpr (List.nodup_cons.mpr ⟨hp, h.nodup⟩)
  · rw [chain_gap]
    refine ⟨hleft, ⟨Function.update_self _ _ _, Function.update_self _ _ _⟩, ?_⟩
    rw [List.cons_append, headD_tail, List.isChain_cons_cons, ← headD_tail]
    refine ⟨⟨?_, ?_⟩, hright⟩
    · show Function.update _ _ _ p = _
      rw [Function.update_of_ne ha.symm, Function.update_self]
    · show Function.update _ _ _ _ = _
      rw [Function.update_of_ne hb, Function.update_self]

/-- **Bridging** a node takes it out. -/
theorem Ring.bridge (h : L.Ring hd (xs ++ p :: ys)) :
    (L.bridge (xs.getLastD hd) (ys.headD hd)).Ring hd (xs ++ ys) := by
  have hnodup : (hd :: (xs ++ ys)).Nodup :=
    h.nodup.sublist (((List.sublist_cons_self p ys).append_left xs).cons_cons hd)
  obtain ⟨hleft, -, hright⟩ := chain_gap.mp h.chain
  obtain ⟨hleft, hright⟩ := sides (M := L.bridge (xs.getLastD hd) (ys.headD hd)) hnodup
    hleft hright.tail
    (fun x _ hxa => Function.update_of_ne hxa _ _)
    (fun y _ hyb => Function.update_of_ne hyb _ _)
  refine ⟨hnodup, chain_gap.mpr ⟨hleft, ⟨?_, ?_⟩, hright⟩⟩
  · exact Function.update_self _ _ _
  · exact Function.update_self _ _ _

end Links

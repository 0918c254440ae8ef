import Sockmon.Pointer.Main
import Sockmon.Proc.FirstOwner

set_option autoImplicit false

/-! # The chains of socket owners

What the walks over the chains find, and what chaining and freeing do to them, in terms of the
buckets as lists: each function of `Pointer.Proc` does to the chains in the heap what the
function of the same name in `System.Proc` does to the lists.
-/

namespace Sockmon

open HeapChain Chains

/-- The buckets `hb` are those of the table, whose entries are all there is on the heap; without
a table there is nothing. -/
def OwnersAt (h : Heap (Cell SkOwner)) : Option (List Nat) → Option (List (List SkOwner)) → Prop
  | some hb, some cs => ∃ pss, BucketsAt h hb pss cs ∧ pss.flatten.Nodup ∧ h.Holds pss.flatten
  | none, none => h.Holds []
  | _, _ => False

/-- There is an array of pointers exactly where there is a table. -/
theorem OwnersAt.rel {h : Heap (Cell SkOwner)} {hb : Option (List Nat)}
    {t : Option (List (List SkOwner))} (ht : OwnersAt h hb t) :
    Option.Rel (fun b c => OwnersAt h (some b) (some c) ∧ t = some c) hb t := by
  cases hb with
  | none =>
      cases t with
      | none => exact .none
      | some c => exact ht.elim
  | some b =>
      cases t with
      | none => exact ht.elim
      | some c => exact .some ⟨ht, rfl⟩

namespace Pointer

variable {h h' : Heap (Cell SkOwner)} {o : Nat} {ps : List Nat} {xs : List SkOwner}

/-! ## Walks -/

theorem findOwner_eq {inode fuel : Nat} (hc : ChainAt h o ps xs) (hfuel : ps.length < fuel) :
    findOwner h inode fuel o = some (xs.find? fun x => x.skIno == inode) := by
  induction hc generalizing fuel with
  | nil =>
      obtain ⟨fuel, rfl⟩ : ∃ k, fuel = k + 1 := ⟨fuel - 1, by omega⟩
      rw [findOwner, if_pos rfl]
      rfl
  | @cons p n ps x xs hp hcp hrest ih =>
      obtain ⟨fuel, rfl⟩ : ∃ k, fuel = k + 1 := ⟨fuel - 1, by simp at hfuel; omega⟩
      rw [findOwner, if_neg hp, hcp]
      show (if x.skIno = inode then _ else _) = _
      by_cases hx : x.skIno = inode
      · rw [if_pos hx, List.find?_cons, beq_iff_eq.mpr hx]
        rfl
      · rw [if_neg hx, List.find?_cons, beq_eq_false_iff_ne.mpr hx]
        exact ih (by simpa using hfuel)

theorem lastOwner_eq {fuel : Nat} (hc : ChainAt h o ps xs) (hne : ps ≠ [])
    (hfuel : ps.length ≤ fuel) : lastOwner h fuel o = some (ps.getLast hne) := by
  induction hc generalizing fuel with
  | nil => exact absurd rfl hne
  | @cons p n ps x xs hp hcp hrest ih =>
      obtain ⟨fuel, rfl⟩ : ∃ k, fuel = k + 1 := ⟨fuel - 1, by simp at hfuel; omega⟩
      rw [lastOwner, hcp]
      cases hrest with
      | nil => rfl
      | @cons n' _ ps _ xs hn hcn hrest =>
          have hfuel' : (n :: ps).length ≤ fuel := by simpa using hfuel
          have hrest' := ih (List.cons_ne_nil n ps) hfuel'
          rw [List.getLast_cons (List.cons_ne_nil _ _)]
          simpa [hn] using hrest'

/-- Looking into a bucket. -/
theorem findBucket_eq {hb : List Nat} {cs : List (List SkOwner)}
    (ht : OwnersAt h (some hb) (some cs)) (inode i : Nat) :
    (hb[i]?.bind (findOwner h inode h.next)) =
      cs[i]?.map fun c => c.find? fun x => x.skIno == inode := by
  obtain ⟨pss, hB, hnodup, hh⟩ := ht
  cases hi : hb[i]? with
  | none =>
      have hlen := hB.length_eq
      have hle := List.getElem?_eq_none_iff.mp hi
      rw [List.getElem?_eq_none (by omega)]
      rfl
  | some o =>
      obtain ⟨ps, xs, hps, hxs, hc⟩ := hB.get hi
      have hsub : ps ⊆ pss.flatten :=
        fun q hq => List.mem_flatten.mpr ⟨ps, List.mem_of_getElem? hps, hq⟩
      have hnodup' : ps.Nodup := (List.nodup_flatten.mp hnodup).1 ps (List.mem_of_getElem? hps)
      rw [hxs]
      exact findOwner_eq hc (hh.length_lt hnodup' hsub)

/-! ## Chaining -/

/-- **Chaining an entry** behind the others of its bucket. -/
theorem chainOwner_rel {hb : List Nat} {cs : List (List SkOwner)} {i : Nat} {x : SkOwner}
    (ht : OwnersAt h (some hb) (some cs)) :
    Option.Rel (fun r c => OwnersAt r.1 (some r.2) (some (cs.set i (c ++ [x]))))
      (chainOwner (h.alloc ⟨0, x⟩) hb i h.next) cs[i]? := by
  obtain ⟨pss, hB, hnodup, hh⟩ := ht
  obtain ⟨hlp, hlc⟩ := hB.length_eq
  have hnew : ∀ q ∈ pss.flatten, (h.alloc ⟨0, x⟩).cell q = h.cell q := by
    intro q hq
    refine Heap.alloc_cell ?_
    rintro rfl
    exact hh.next_notMem hq
  unfold chainOwner
  by_cases hi : i < hb.length
  · obtain ⟨pos, hpos⟩ : ∃ pos, hb[i]? = some pos := ⟨hb[i], List.getElem?_eq_getElem hi⟩
    obtain ⟨ps, xs, hps, hxs, hc⟩ := hB.get hpos
    have hsub : ∀ q ∈ ps, q ∈ pss.flatten :=
      fun q hq => List.mem_flatten.mpr ⟨ps, List.mem_of_getElem? hps, hq⟩
    have hperm : (pss.set i (ps ++ [h.next])).flatten.Perm (h.next :: pss.flatten) :=
      flatten_set_perm hps
    have hnodup' : (pss.set i (ps ++ [h.next])).flatten.Nodup :=
      hperm.nodup_iff.mpr (List.nodup_cons.mpr ⟨hh.next_notMem, hnodup⟩)
    have hnext : h.next ≠ 0 := by
      have := hh.null.1
      omega
    rw [hpos, hxs]
    show Option.Rel _ (if pos = 0 then _ else _) _
    by_cases hz : pos = 0
    · -- The first entry of its bucket.
      subst hz
      obtain ⟨rfl, rfl⟩ := hc.of_zero
      rw [if_pos rfl]
      refine .some ⟨_, hB.set hi (.cons hnext Heap.alloc_cell_self .nil) ?_, hnodup',
        (hh.alloc ⟨0, x⟩).of_mem fun q => hperm.mem_iff⟩
      exact fun j qs _ hqs q hq =>
        hnew q (List.mem_flatten.mpr ⟨qs, List.mem_of_getElem? hqs, hq⟩)
    · have hne : ps ≠ [] := by
        rintro rfl
        cases hc
        exact hz rfl
      have hc' : ChainAt (h.alloc ⟨0, x⟩) pos ps xs := hc.congr fun q hq => hnew q (hsub q hq)
      have hpsnodup : ps.Nodup := (List.nodup_flatten.mp hnodup).1 ps (List.mem_of_getElem? hps)
      have hlen : ps.length < h.next := hh.length_lt hpsnodup hsub
      obtain ⟨z, hlast⟩ := hc'.last hne
      obtain ⟨h₂, hmod, hcell⟩ : ∃ h₂, (h.alloc ⟨0, x⟩).modify (ps.getLast hne)
          (fun c => { c with next := h.next }) = some h₂ ∧ h₂.cell = Function.update
            (h.alloc ⟨0, x⟩).cell (ps.getLast hne) (some ⟨h.next, z⟩) :=
        ⟨_, Heap.modify_eq hlast _, rfl⟩
      have hother : ∀ q, q ≠ ps.getLast hne → h₂.cell q = (h.alloc ⟨0, x⟩).cell q := by
        intro q hq
        rw [hcell, Function.update_of_ne hq]
      have hlastne : ps.getLast hne ≠ h.next := by
        intro heq
        exact hh.next_notMem (heq ▸ hsub _ (List.getLast_mem hne))
      rw [if_neg hz, lastOwner_eq hc' hne (by rw [Heap.alloc_next]; omega)]
      show Option.Rel _ ((Heap.modify _ _ _).bind _) _
      rw [hmod]
      -- The array is as it was.
      have hset : hb.set i pos = hb := by
        obtain ⟨hi', rfl⟩ := List.getElem?_eq_some_iff.mp hpos
        exact List.set_getElem_self hi'
      refine .some ⟨_, ?_, hnodup', ?_⟩
      · have hone : ChainAt h₂ h.next [h.next] [x] :=
          .cons hnext ((hother _ hlastne.symm).trans Heap.alloc_cell_self) .nil
        have hchain : ChainAt h₂ pos (ps ++ [h.next]) (xs ++ [x]) :=
          hc'.concat hne hpsnodup hlast (by rw [hcell, Function.update_self])
            (fun q _ hq => hother q hq) hone
        have hset' := hB.set hi hchain fun j qs hj hqs q hq => by
          have hq' : q ∉ ps := notMem_other hnodup hps hqs hj hq
          rw [hother q (fun heq => hq' (heq ▸ List.getLast_mem hne))]
          exact hnew q (List.mem_flatten.mpr ⟨qs, List.mem_of_getElem? hqs, hq⟩)
        rwa [hset] at hset'
      · exact ((hh.alloc ⟨0, x⟩).modify hmod).of_mem fun q => hperm.mem_iff
  · rw [List.getElem?_eq_none (by omega), List.getElem?_eq_none (by omega)]
    exact .none

/-! ## Freeing -/

/-- **Freeing a chain** frees its entries, and no other. -/
theorem freeChain_eq {rest : List Nat} {fuel : Nat} {nr : Int} (hc : ChainAt h o ps xs)
    (hne : ps ≠ []) (hnodup : (ps ++ rest).Nodup) (hh : h.Holds (ps ++ rest))
    (hfuel : ps.length ≤ fuel) :
    ∃ h', freeChain fuel o h nr = some (h', i32 (nr - ps.length)) ∧ h'.Holds rest ∧
      ∀ q ∈ rest, h'.cell q = h.cell q := by
  induction ps generalizing h o xs fuel nr with
  | nil => exact absurd rfl hne
  | cons p ps ih =>
      obtain ⟨fuel, rfl⟩ : ∃ k, fuel = k + 1 := ⟨fuel - 1, by simp at hfuel; omega⟩
      cases hc with
      | @cons _ n _ x xs hp hcp hrest =>
          obtain ⟨hpmem, hnodup⟩ := List.nodup_cons.mp hnodup
          obtain ⟨h₁, hfree, hcell⟩ : ∃ h₁, h.free p = some h₁ ∧
              h₁.cell = Function.update h.cell p none := ⟨_, Heap.free_eq hcp, rfl⟩
          -- the next pointer was read before `free (p)`, so the rest is still whole
          have hkeep : ∀ q ∈ ps ++ rest, h₁.cell q = h.cell q := by
            intro q hq
            rw [hcell, Function.update_of_ne]
            rintro rfl
            exact hpmem hq
          have hh₁ : h₁.Holds (ps ++ rest) := by
            refine hh.free hfree fun q => ?_
            rw [List.cons_append, List.mem_cons]
            constructor
            · intro hq
              refine ⟨Or.inr hq, ?_⟩
              rintro rfl
              exact hpmem hq
            · rintro ⟨hq, hqp⟩
              exact hq.resolve_left hqp
          rw [freeChain, hcp]
          show ∃ h', ((h.free p).bind _) = _ ∧ _
          rw [hfree]
          show ∃ h', (if n = 0 then _ else _) = _ ∧ _
          cases hrest with
          | nil =>
              rw [if_pos rfl]
              exact ⟨h₁, rfl, hh₁, fun q hq => hkeep q hq⟩
          | @cons _ n' ps y ys hn hcn hrest =>
              -- the chain goes on: the induction frees it from `n`
              have hc₁ : ChainAt h₁ n (n :: ps) (y :: ys) := by
                refine (ChainAt.cons hn hcn hrest).congr fun q hq => ?_
                exact hkeep q (List.mem_append_left rest hq)
              have hrec := fun nr => @ih _ _ _ _ nr hc₁ (List.cons_ne_nil n ps) hnodup hh₁
                (by simpa using hfuel)
              obtain ⟨h', he, hh', hkeep'⟩ := hrec (i32 (nr - 1))
              rw [if_neg hn, he, i32_sub_one]
              refine ⟨h', rfl, hh', fun q hq => ?_⟩
              exact (hkeep' q hq).trans (hkeep q (List.mem_append_right _ hq))

/-- **Freeing all chains** leaves null pointers and nothing else. -/
theorem freeBuckets_eq {hb : List Nat} {pss : List (List Nat)} {cs : List (List SkOwner)}
    {nr : Int} (hB : BucketsAt h hb pss cs) (hnodup : pss.flatten.Nodup)
    (hh : h.Holds pss.flatten) (hnr : i32 nr = nr) :
    ∃ h', freeBuckets hb.length hb h nr =
      some (List.replicate hb.length 0, h', i32 (nr - total cs)) ∧ h'.Holds [] := by
  induction hb generalizing h pss cs nr with
  | nil =>
      cases hB
      refine ⟨h, ?_, hh⟩
      show some (([] : List Nat), h, nr) = some ([], h, i32 (nr - 0))
      rw [sub_zero, hnr]
  | cons p hb ih =>
      cases hB with
      | @cons _ ps xs _ pss cs hc hB =>
          rw [List.flatten_cons] at hnodup hh
          have hrest := (List.nodup_append.mp hnodup).2.1
          have hps := (List.nodup_append.mp hnodup).1
          -- What the first bucket leaves.
          obtain ⟨h₁, hone, hh₁, hkeep⟩ : ∃ h₁,
              freeBucket p h nr = some (h₁, i32 (nr - ps.length)) ∧
                h₁.Holds pss.flatten ∧ ∀ q ∈ pss.flatten, h₁.cell q = h.cell q := by
            unfold freeBucket
            by_cases hp : p = 0
            · subst hp
              obtain ⟨rfl, rfl⟩ := hc.of_zero
              refine ⟨h, ?_, hh, fun _ _ => rfl⟩
              rw [if_pos rfl]
              simp [hnr]
            · rw [if_neg hp]
              have hne : ps ≠ [] := by
                rintro rfl
                cases hc
                exact hp rfl
              have hlen : ps.length < h.next := hh.length_lt hps (List.subset_append_left _ _)
              exact freeChain_eq hc hne hnodup hh (by omega)
          have hB₁ : BucketsAt h₁ hb pss cs := hB.congr hkeep
          have hnr₁ : i32 (i32 (nr - ps.length)) = i32 (nr - ps.length) := by
            unfold i32
            omega
          obtain ⟨h', he, hh'⟩ := ih hB₁ hrest hh₁ hnr₁
          refine ⟨h', ?_, hh'⟩
          rw [List.length_cons, freeBuckets]
          simp only [hone, he, Option.bind_eq_bind, Option.bind_some, Option.pure_def]
          rw [total_cons, hc.length_eq, List.replicate_succ]
          congr 3
          unfold i32
          push_cast
          omega

end Pointer

end Sockmon

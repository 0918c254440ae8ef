import Sockmon.Lib.Run

set_option autoImplicit false

/-! # Chained hash tables as first-wins maps

A table is the list of its buckets. An entry goes into the bucket of its key, behind those that
are there already, unless the bucket has an entry for the key: of the entries inserted for a
key the first one stays. A table that `Represents` a list of insertions answers each lookup with
the first entry of the list that has the key, whatever keys share a bucket. Keys that are not
`tracked` are stored and never found.

The hash function may be partial, and so are the operations; a lookup has a result where every
key has a bucket (`Covers.lookup_isSome`).
-/

namespace FirstWins

open Transition

/-- How entries are stored: the key of an entry, the bucket of a key, the keys that are
looked for. -/
structure Scheme (α κ : Type) where
  key : α → κ
  slot : κ → Option Nat
  tracked : κ → Bool

variable {α κ : Type}

/-- Every key has a bucket. -/
def Covers (S : Scheme α κ) (hb : List (List α)) : Prop :=
  ∀ k, ∃ h c, S.slot k = some h ∧ hb[h]? = some c

variable [BEq κ] (S : Scheme α κ)

def lookup (hb : List (List α)) (k : κ) : Option (Option α) :=
  if !S.tracked k then some none
  else do
    let h ← S.slot k
    let c ← hb[h]?
    return c.find? fun a => S.key a == k

/-- Put `a` behind the others of its bucket. -/
def append (hb : List (List α)) (a : α) : Option (List (List α)) := do
  let h ← S.slot (S.key a)
  let c ← hb[h]?
  return hb.set h (c ++ [a])

def insert (hb : List (List α)) (a : α) : Option (List (List α)) := do
  let found ← lookup S hb (S.key a)
  if found.isSome then return hb else append S hb a

/-- The table holds what inserting `as`, in this order, leaves. -/
structure Represents (hb : List (List α)) (as : List α) : Prop where
  placed : ∀ h c a, hb[h]? = some c → a ∈ c → S.slot (S.key a) = some h
  found : ∀ k, S.tracked k = true → ∀ h c, S.slot k = some h → hb[h]? = some c →
    (c.find? fun a => S.key a == k) = as.find? fun a => S.key a == k
  once : ∀ c ∈ hb, ((c.filter fun a => S.tracked (S.key a)).map S.key).Nodup

variable {S}

theorem represents_empty {hb : List (List α)} (h : ∀ c ∈ hb, c = []) : Represents S hb [] := by
  have hget : ∀ {i c}, hb[i]? = some c → c = [] := fun hc => h _ (List.mem_of_getElem? hc)
  refine ⟨fun i c a hc ha => ?_, fun k _ i c _ hc => ?_, fun c hc => ?_⟩
  · rw [hget hc] at ha
    cases ha
  · rw [hget hc]
  · rw [h c hc]
    exact List.nodup_nil

section

variable {hb hb' : List (List α)} {as : List α} {a : α} {k : κ}

/-- **A lookup** answers with the first entry inserted for the key. -/
theorem Represents.lookup_eq (h : Represents S hb as) {r : Option α}
    (hr : lookup S hb k = some r) :
    r = if S.tracked k then as.find? (fun a => S.key a == k) else none := by
  unfold lookup at hr
  cases ht : S.tracked k with
  | false =>
      rw [ht] at hr
      cases hr
      rfl
  | true =>
      rw [ht] at hr
      obtain ⟨i, hi, hr⟩ := Option.bind_eq_some_iff.mp hr
      obtain ⟨c, hc, hr⟩ := Option.bind_eq_some_iff.mp hr
      cases hr
      rw [if_pos rfl]
      exact h.found k ht i c hi hc

/-- No key that is looked for is stored twice. -/
theorem Represents.nodup (h : Represents S hb as) :
    ((hb.flatten.filter fun a => S.tracked (S.key a)).map S.key).Nodup := by
  have hflat : (hb.flatten.filter fun a => S.tracked (S.key a)).map S.key =
      (hb.map fun c => (c.filter fun a => S.tracked (S.key a)).map S.key).flatten := by
    rw [List.filter_flatten, List.map_flatten, List.map_map]
    rfl
  rw [hflat, List.nodup_flatten]
  constructor
  · rw [List.forall_mem_map]
    exact h.once
  · rw [List.pairwise_map, List.pairwise_iff_getElem]
    intro i j hi hj hij k hk hk'
    obtain ⟨a, ha, rfl⟩ := List.mem_map.mp hk
    obtain ⟨b, hb', hab⟩ := List.mem_map.mp hk'
    have hslot := h.placed i _ a (List.getElem?_eq_getElem hi) (List.mem_of_mem_filter ha)
    have hslot' := h.placed j _ b (List.getElem?_eq_getElem hj) (List.mem_of_mem_filter hb')
    rw [hab, hslot] at hslot'
    have := Option.some.inj hslot'
    omega

/-- Looking for a key in a list with one more entry. -/
theorem find?_snoc (k : κ) : ((as ++ [a]).find? fun a => S.key a == k) =
    if S.key a == k then (as.find? fun a => S.key a == k).or (some a)
    else as.find? fun a => S.key a == k := by
  rw [List.find?_append, List.find?_singleton]
  split
  · rfl
  · rw [Option.or_none]

variable [LawfulBEq κ]

/-- An entry for a key that is there already changes nothing. -/
theorem Represents.again (h : Represents S hb as) {o : α}
    (hfound : lookup S hb (S.key a) = some (some o)) : Represents S hb (as ++ [a]) := by
  refine ⟨h.placed, fun k ht i c hi hc => ?_, h.once⟩
  rw [h.found k ht i c hi hc, find?_snoc]
  split
  · rename_i hk
    have hr := h.lookup_eq hfound
    rw [eq_of_beq hk, ht, if_pos rfl] at hr
    rw [← hr]
    rfl
  · rfl

/-- An entry for a new key, or one that is not looked for. -/
theorem Represents.append (h : Represents S hb as)
    (hfound : lookup S hb (S.key a) = some none) (ha : append S hb a = some hb') :
    Represents S hb' (as ++ [a]) := by
  obtain ⟨i, hi, ha⟩ := Option.bind_eq_some_iff.mp ha
  obtain ⟨c, hc, ha⟩ := Option.bind_eq_some_iff.mp ha
  cases ha
  have hget : ∀ j d, (hb.set i (c ++ [a]))[j]? = some d →
      (j = i ∧ d = c ++ [a]) ∨ (j ≠ i ∧ hb[j]? = some d) := by
    intro j d hd
    rw [List.getElem?_set] at hd
    split_ifs at hd with hij hlt
    · exact Or.inl ⟨hij.symm, (Option.some.inj hd).symm⟩
    · exact Or.inr ⟨fun he => hij he.symm, hd⟩
  refine ⟨fun j d b hd hb' => ?_, fun k ht j d hj hd => ?_, fun d hd => ?_⟩
  · rcases hget j d hd with ⟨rfl, rfl⟩ | ⟨-, hd⟩
    · rcases List.mem_append.mp hb' with hb' | hb'
      · exact h.placed j c b hc hb'
      · rw [List.mem_singleton.mp hb']
        exact hi
    · exact h.placed j d b hd hb'
  · rcases hget j d hd with ⟨rfl, rfl⟩ | ⟨hne, hd⟩
    · rw [find?_snoc, find?_snoc, h.found k ht j c hj hc]
    · -- A key of another bucket is not that of the new entry.
      have hk : ¬ (S.key a == k) = true := by
        intro he
        rw [← eq_of_beq he, hi] at hj
        exact hne (Option.some.inj hj).symm
      rw [find?_snoc, if_neg hk]
      exact h.found k ht j d hj hd
  · rcases List.mem_or_eq_of_mem_set hd with hd | rfl
    · exact h.once d hd
    · have hold := h.once c (List.mem_of_getElem? hc)
      cases ht : S.tracked (S.key a) with
      | false => simpa [List.filter_append, ht] using hold
      | true =>
          unfold lookup at hfound
          rw [ht] at hfound
          simp only [Bool.not_true, Bool.false_eq_true, if_false, hi, hc, Option.bind_eq_bind,
            Option.bind_some] at hfound
          have hnone : (c.find? fun b => S.key b == S.key a) = none := Option.some.inj hfound
          rw [List.find?_eq_none] at hnone
          rw [List.filter_append, List.map_append]
          refine List.Nodup.append hold (by simp [ht]) ?_
          intro x hx hx'
          obtain ⟨b, hb, rfl⟩ := List.mem_map.mp hx
          have hxa : S.key b = S.key a := by simpa [ht] using hx'
          exact hnone b (List.mem_of_mem_filter hb) (by simpa using hxa)

/-- **An insertion** adds the entry to those represented. -/
theorem Represents.insert (h : Represents S hb as) (hi : insert S hb a = some hb') :
    Represents S hb' (as ++ [a]) := by
  obtain ⟨found, hfound, hi⟩ := Option.bind_eq_some_iff.mp hi
  cases found with
  | some o =>
      cases hi
      exact h.again hfound
  | none => exact h.append hfound hi

/-- **A run of insertions** into an empty table. -/
theorem represents_exec (hempty : ∀ c ∈ hb, c = []) (hrun : exec (insert S) as hb = some hb') :
    Represents S hb' as := by
  -- The insertions made so far are those represented.
  have hrep : ∀ (as bs : List α) (hb : List (List α)), Represents S hb bs →
      exec (FirstWins.insert S) as hb = some hb' → Represents S hb' (bs ++ as) := by
    intro as
    induction as with
    | nil =>
        intro bs hb h hrun
        cases hrun
        rwa [List.append_nil]
    | cons a as ih =>
        intro bs hb h hrun
        obtain ⟨hb₁, hb₁s, hrun⟩ := exec_cons.mp hrun
        have hrest := ih (bs ++ [a]) hb₁ (h.insert hb₁s) hrun
        rwa [List.append_assoc, List.singleton_append] at hrest
  exact hrep as [] hb (represents_empty hempty) hrun

end

/-! ## The buckets -/

section

variable {hb hb' : List (List α)} {a : α}

theorem insert_length (h : insert S hb a = some hb') : hb'.length = hb.length := by
  obtain ⟨found, -, h⟩ := Option.bind_eq_some_iff.mp h
  cases found with
  | some o =>
      cases h
      rfl
  | none =>
      obtain ⟨i, -, h⟩ := Option.bind_eq_some_iff.mp h
      obtain ⟨c, -, h⟩ := Option.bind_eq_some_iff.mp h
      cases h
      exact List.length_set

/-- Where every key has a bucket, a lookup has a result. -/
theorem Covers.lookup_isSome (h : Covers S hb) (k : κ) : ∃ r, lookup S hb k = some r := by
  obtain ⟨i, c, hi, hc⟩ := h k
  unfold lookup
  rw [hi]
  cases S.tracked k with
  | false => exact ⟨none, rfl⟩
  | true => exact ⟨_, by simp [hc]; rfl⟩

end

end FirstWins

import Sockmon.Lib.FirstWins
import Sockmon.Proc.Free

set_option autoImplicit false

/-! # The owner table as a first-wins map

`lookup_socket_owner` and `add_sk_ino` are the operations of a chained hash table in which
inode 0 is stored and never found. A table that was empty answers each lookup with the first
entry added for the inode (`chainStep_first`), whatever its size, and whatever freeing does
leaves no entry in it (`FreeStep.sized`).
-/

namespace Sockmon

open Transition Chains

/-! ## Tables of any size -/

/-- How `proc.c` stores its entries. -/
def OwnerMap.scheme (m : OwnerMap) : FirstWins.Scheme SkOwner Nat :=
  { key := SkOwner.skIno, slot := skInoHash m, tracked := fun inode => inode != 0 }

/-- What holds of the table in any case: the size is the one the shift says, if there is a table
at all, and the entries are counted. -/
structure OwnerMap.Sized (m : OwnerMap) : Prop where
  size : m.mapHashSz = 2 ^ m.mapHashShift
  shift_le : m.mapHashShift ≤ 31
  length : ∀ hb, m.skInoHb = some hb → hb.length = m.mapHashSz
  nrSockets : m.nrSockets = i32 m.entries

/-- Every bucket is empty. -/
structure OwnerMap.Empty (m : OwnerMap) : Prop where
  buckets : ∀ hb, m.skInoHb = some hb → ∀ c ∈ hb, c = []
  nrSockets : m.nrSockets = 0

theorem sized_fresh {i : Nat} (hi : i ≤ 31) : (OwnerMap.fresh i).Sized where
  size := rfl
  shift_le := hi
  length := by
    intro hb hhb
    cases hhb
    exact List.length_replicate
  nrSockets := by
    show (0 : Int) = i32 (total (List.replicate (2 ^ i) []) : Nat)
    rw [total_replicate]
    rfl

theorem empty_fresh (i : Nat) : (OwnerMap.fresh i).Empty where
  buckets := by
    intro hb hhb c hc
    cases hhb
    exact List.eq_of_mem_replicate hc
  nrSockets := rfl

theorem OwnerMap.Sized.cleared {m : OwnerMap} (h : m.Sized) : m.cleared.Sized where
  size := h.size
  shift_le := h.shift_le
  length := by
    intro hb hhb
    obtain ⟨hb, hhb', rfl⟩ := Option.map_eq_some_iff.mp hhb
    rw [List.length_map]
    exact h.length hb hhb'
  nrSockets := by
    show (0 : Int) = i32 (total ((m.skInoHb.map fun hb => hb.map fun _ => []).getD []) : Nat)
    cases m.skInoHb with
    | none => rfl
    | some hb =>
        rw [Option.map_some, Option.getD_some, total_clear]
        rfl

theorem empty_cleared (m : OwnerMap) : m.cleared.Empty where
  buckets := by
    intro hb hhb c hc
    obtain ⟨hb, -, rfl⟩ := Option.map_eq_some_iff.mp hhb
    obtain ⟨-, -, rfl⟩ := List.mem_map.mp hc
    rfl
  nrSockets := rfl

/-! ## Looking up and adding -/

section

variable {m m' : OwnerMap} {hb : List (List SkOwner)}

theorem lookupSocketOwner_eq (hhb : m.skInoHb = some hb) (inode : Nat) :
    lookupSocketOwner m inode = FirstWins.lookup m.scheme hb inode := by
  unfold lookupSocketOwner FirstWins.lookup
  rw [hhb]
  by_cases h0 : inode = 0
  · subst h0
    rfl
  · have htracked : m.scheme.tracked inode = true := by simpa [OwnerMap.scheme] using h0
    rw [if_neg h0, htracked]
    rfl

/-- Adding an entry needs a table. -/
theorem chainStep_table {o : SkOwner} (h : chainStep m o = some m') :
    ∃ hb, m.skInoHb = some hb := by
  cases hhb : m.skInoHb with
  | some hb => exact ⟨hb, rfl⟩
  | none =>
      obtain ⟨found, hfound, h⟩ := bind_some h
      unfold lookupSocketOwner at hfound
      rw [hhb] at hfound
      split at hfound
      · cases hfound
        obtain ⟨k, -, h⟩ := bind_some h
        obtain ⟨hb, hhb', -⟩ := bind_some h
        rw [hhb] at hhb'
        cases hhb'
      · obtain ⟨hb, hhb', -⟩ := bind_some hfound
        cases hhb'

/-- **Adding an entry** is an insertion, and keeps the size. -/
theorem chainStep_insert {o : SkOwner} (hhb : m.skInoHb = some hb)
    (h : chainStep m o = some m') :
    ∃ hb', m'.skInoHb = some hb' ∧ FirstWins.insert m.scheme hb o = some hb' ∧
      m'.mapHashShift = m.mapHashShift ∧ m'.mapHashSz = m.mapHashSz ∧
        (m.nrSockets = i32 m.entries → m'.nrSockets = i32 m'.entries) := by
  obtain ⟨found, hfound, h⟩ := bind_some h
  rw [lookupSocketOwner_eq hhb] at hfound
  unfold FirstWins.insert
  rw [show m.scheme.key o = o.skIno from rfl, hfound]
  cases found with
  | some o' =>
      cases h
      exact ⟨hb, hhb, rfl, rfl, rfl, id⟩
  | none =>
      have hchain : m.chain o = some m' := h
      obtain ⟨hentries, -⟩ := OwnerMap.chain_eq hchain
      obtain ⟨k, hk, h⟩ := bind_some hchain
      obtain ⟨hb₁, hhb₁, h⟩ := bind_some h
      obtain ⟨c, hc, h⟩ := bind_some h
      obtain rfl : hb₁ = hb := Option.some.inj (hhb₁.symm.trans hhb)
      cases h
      refine ⟨_, rfl, ?_, rfl, rfl, fun hnr => ?_⟩
      · show FirstWins.append m.scheme hb₁ o = _
        unfold FirstWins.append
        rw [show m.scheme.slot (m.scheme.key o) = some k from hk]
        simp [hc]
      · rw [hentries]
        show i32 (m.nrSockets + 1) = _
        rw [hnr]
        unfold i32
        push_cast
        omega

theorem chainStep_sized {o : SkOwner} (hm : m.Sized) (h : chainStep m o = some m') :
    m'.Sized := by
  obtain ⟨hb, hhb⟩ := chainStep_table h
  obtain ⟨hb', hhb', hins, hshift, hsize, hcount⟩ := chainStep_insert hhb h
  refine ⟨?_, ?_, ?_, hcount hm.nrSockets⟩
  · rw [hsize, hshift]
    exact hm.size
  · rw [hshift]
    exact hm.shift_le
  · intro hb₁ hhb₁
    obtain rfl : hb' = hb₁ := Option.some.inj (hhb'.symm.trans hhb₁)
    rw [FirstWins.insert_length hins, hsize]
    exact hm.length hb hhb

theorem exec_chainStep_sized {os : List SkOwner} (hm : m.Sized)
    (h : exec chainStep os m = some m') : m'.Sized :=
  exec_invariant (fun _ _ _ => chainStep_sized) hm h

theorem scheme_congr (h : m'.mapHashShift = m.mapHashShift) : m'.scheme = m.scheme := by
  unfold OwnerMap.scheme
  congr 1
  funext inode
  unfold skInoHash
  rw [h]

/-- Adding entries, as a run of insertions. -/
theorem exec_chainStep_insert {os : List SkOwner} (hhb : m.skInoHb = some hb)
    (h : exec chainStep os m = some m') :
    ∃ hb', m'.skInoHb = some hb' ∧ exec (FirstWins.insert m.scheme) os hb = some hb' ∧
      m'.mapHashShift = m.mapHashShift := by
  induction os generalizing m hb with
  | nil =>
      cases h
      exact ⟨hb, hhb, rfl, rfl⟩
  | cons o os ih =>
      obtain ⟨m₁, hm₁, h⟩ := exec_cons.mp h
      obtain ⟨hb₁, hhb₁, hins, hshift, -⟩ := chainStep_insert hhb hm₁
      obtain ⟨hb', hhb', hrun, hshift'⟩ := ih hhb₁ h
      rw [scheme_congr hshift] at hrun
      exact ⟨hb', hhb', exec_cons.mpr ⟨hb₁, hins, hrun⟩, hshift'.trans hshift⟩

/-- **A table that was empty** finds the first entry added for an inode. -/
theorem chainStep_first {os : List SkOwner} (hm : m.Empty) (h : exec chainStep os m = some m')
    {inode : Nat} (h0 : inode ≠ 0) {found : Option SkOwner}
    (hfound : lookupSocketOwner m' inode = some found) :
    found = os.find? fun o => o.skIno == inode := by
  have htracked : m'.scheme.tracked inode = true := by simpa [OwnerMap.scheme] using h0
  obtain ⟨hb', hhb'⟩ : ∃ hb, m'.skInoHb = some hb := by
    unfold lookupSocketOwner at hfound
    rw [if_neg h0] at hfound
    obtain ⟨hb, hhb, -⟩ := bind_some hfound
    exact ⟨hb, hhb⟩
  -- Adding entries makes no table where there was none.
  obtain ⟨hb, hhb⟩ : ∃ hb, m.skInoHb = some hb := by
    cases os with
    | nil =>
        cases h
        exact ⟨hb', hhb'⟩
    | cons o os =>
        obtain ⟨m₁, hm₁, -⟩ := exec_cons.mp h
        exact chainStep_table hm₁
  obtain ⟨hb₁, hhb₁, hrun, hshift⟩ := exec_chainStep_insert hhb h
  obtain rfl : hb₁ = hb' := Option.some.inj (hhb₁.symm.trans hhb')
  have hrep := FirstWins.represents_exec (hm.buckets hb hhb) hrun
  rw [← scheme_congr hshift] at hrep
  rw [lookupSocketOwner_eq hhb'] at hfound
  have hr := hrep.lookup_eq hfound
  rwa [htracked, if_pos rfl] at hr

/-- No inode but 0 is stored twice. -/
theorem chainStep_once {os : List SkOwner} (hm : m.Empty) (hhb : m.skInoHb = some hb)
    (h : exec chainStep os m = some m') :
    (((m'.skInoHb.getD []).flatten.filter fun o => o.skIno != 0).map SkOwner.skIno).Nodup := by
  obtain ⟨hb', hhb', hrun, -⟩ := exec_chainStep_insert hhb h
  rw [hhb', Option.getD_some]
  exact (FirstWins.represents_exec (hm.buckets hb hhb) hrun).nodup

/-! ## Where every inode has a bucket -/

theorem OwnerMap.Sized.covers (hm : m.Sized) (hshift : 1 ≤ m.mapHashShift)
    (hhb : m.skInoHb = some hb) : FirstWins.Covers m.scheme hb := by
  intro inode
  obtain ⟨k, hk, hlt⟩ := skInoHash_lt ⟨hshift, by have := hm.shift_le; omega⟩ inode
  rw [← hm.size, ← hm.length hb hhb] at hlt
  exact ⟨k, hb[k], hk, List.getElem?_eq_getElem hlt⟩

theorem OwnerMap.Sized.lookup_isSome (hm : m.Sized) (hshift : 1 ≤ m.mapHashShift)
    (hhb : m.skInoHb = some hb) (inode : Nat) : ∃ r, lookupSocketOwner m inode = some r := by
  rw [lookupSocketOwner_eq hhb]
  exact (hm.covers hshift hhb).lookup_isSome inode

/-- In a table with at least two buckets every entry can be added. -/
theorem OwnerMap.Sized.chainStep_isSome (hm : m.Sized) (hshift : 1 ≤ m.mapHashShift)
    (hhb : m.skInoHb = some hb) (o : SkOwner) : ∃ m', chainStep m o = some m' := by
  obtain ⟨r, hr⟩ := hm.lookup_isSome hshift hhb o.skIno
  obtain ⟨k, c, hk, hc⟩ := hm.covers hshift hhb o.skIno
  unfold chainStep
  rw [hr]
  cases r with
  | some o' => exact ⟨m, rfl⟩
  | none =>
      have hk : skInoHash m o.skIno = some k := hk
      exact ⟨{ m with
        skInoHb := some (hb.set k (c ++ [o])), nrSockets := i32 (m.nrSockets + 1) }, by
        simp [OwnerMap.chain, hk, hhb, hc]⟩

/-- In such a table all the entries of a scan can be added. -/
theorem OwnerMap.Sized.exec_isSome (hm : m.Sized) (hshift : 1 ≤ m.mapHashShift)
    (hhb : m.skInoHb = some hb) (os : List SkOwner) : ∃ m', exec chainStep os m = some m' := by
  induction os generalizing m hb with
  | nil => exact ⟨m, rfl⟩
  | cons o os ih =>
      obtain ⟨m₁, hm₁⟩ := hm.chainStep_isSome hshift hhb o
      obtain ⟨hb₁, hhb₁, -, hshift₁, -⟩ := chainStep_insert hhb hm₁
      obtain ⟨m', hm'⟩ := ih (chainStep_sized hm hm₁) (by rw [hshift₁]; exact hshift) hhb₁
      exact ⟨m', exec_cons.mpr ⟨m₁, hm₁, hm'⟩⟩

end

/-! ## Freeing -/

theorem OwnerMap.Sized.freeStep {s t : Sys} {resize ret : Bool} (hs : s.owners.Sized)
    (h : freeSkProcMap s resize = some (ret, t)) : FreeStep s resize ret t :=
  freeSkProcMap_step hs.length hs.nrSockets h

/-- **Freeing** leaves a table of the right size, and no entry in it. -/
theorem FreeStep.sized {s t : Sys} {resize ret : Bool} (hs : s.owners.Sized)
    (h : FreeStep s resize ret t) : t.owners.Sized ∧
      (extIsSet s.n.extReq INET_DIAG_PROC = true → t.owners.Empty) := by
  cases h with
  | off hreq => exact ⟨hs, fun h => absurd h (by simp [hreq])⟩
  | kept => exact ⟨hs.cleared, fun _ => empty_cleared _⟩
  | resized _ _ _ _ hi => exact ⟨sized_fresh hi, fun _ => empty_fresh _⟩
  | failed =>
      have hzero : (0 : Int) = i32 (total ([] : List (List SkOwner)) : Nat) := by simp [total, i32]
      refine ⟨⟨hs.size, hs.shift_le, fun hb hhb => ?_, hzero⟩, fun _ => ⟨fun hb hhb => ?_, rfl⟩⟩
      · cases hhb
      · cases hhb

end Sockmon

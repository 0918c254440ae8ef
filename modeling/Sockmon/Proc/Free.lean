import Sockmon.Proc.Table

set_option autoImplicit false

/-! # Freeing the socket owner table

`free_sk_proc_map` empties the table, and at the end of a frame replaces it by one of the size
for the sockets of that frame. `FreeStep` lists what it can do, whatever the allocation does;
`freeSkProcMap_wellFormed` says when the table it leaves is well formed.
-/

namespace Sockmon

open Chains

/-! ## The size -/

/-- The sizing loop finds the least power of two that has room for the entries. -/
theorem sizeLoop_eq {nr fuel i : Nat} (hi : i ≤ Nat.clog 2 nr) (hf : Nat.clog 2 nr < i + fuel) :
    sizeLoop nr fuel i = some (Nat.clog 2 nr) := by
  induction fuel generalizing i with
  | zero => omega
  | succ fuel ih =>
      unfold sizeLoop
      by_cases hlt : 2 ^ i < nr
      · rw [if_pos hlt]
        have := (Nat.lt_clog_iff_pow_lt (by decide)).mpr hlt
        exact ih (by omega) (by omega)
      · rw [if_neg hlt]
        have := (Nat.lt_clog_iff_pow_lt (by decide)).not.mpr hlt
        congr 1
        omega

theorem sizeLoop_some {nr fuel i j : Nat} (hi : i ≤ Nat.clog 2 nr)
    (h : sizeLoop nr fuel i = some j) : j = Nat.clog 2 nr ∧ j < i + fuel := by
  induction fuel generalizing i with
  | zero => cases h
  | succ fuel ih =>
      unfold sizeLoop at h
      split at h
      · rename_i hlt
        have := (Nat.lt_clog_iff_pow_lt (by decide)).mpr hlt
        obtain ⟨hj, hlt⟩ := ih (by omega) h
        exact ⟨hj, by omega⟩
      · rename_i hlt
        have := (Nat.lt_clog_iff_pow_lt (by decide)).not.mpr hlt
        cases h
        omega

/-! ## New and emptied tables -/

/-- An empty table of `2 ^ i` buckets. -/
def OwnerMap.fresh (i : Nat) : OwnerMap := ⟨2 ^ i, i, some (List.replicate (2 ^ i) []), 0⟩

/-- The table with its buckets emptied. -/
def OwnerMap.cleared (m : OwnerMap) : OwnerMap :=
  { m with skInoHb := m.skInoHb.map fun hb => hb.map fun _ => [], nrSockets := 0 }

/-- A new table is well formed exactly if it has more than one bucket. -/
theorem wellFormed_fresh {i : Nat} (hi : i ≤ 31) : (OwnerMap.fresh i).WellFormed ↔ 1 ≤ i := by
  have hentries : (OwnerMap.fresh i).entries = 0 := total_replicate (2 ^ i)
  rw [OwnerMap.wellFormed_iff (show (0 : Int) ≤ INT_MAX by decide), hentries]
  constructor
  · intro h
    exact h.1.shift.1
  · intro h
    have hi' : i ≤ 32 := by omega
    refine ⟨⟨rfl, ⟨h, hi'⟩, ⟨_, rfl, List.length_replicate⟩, ?_⟩, by decide⟩
    rw [hentries]
    rfl

theorem OwnerMap.Shaped.cleared {m : OwnerMap} (h : m.Shaped) : m.cleared.WellFormed := by
  obtain ⟨hb, hhb, hlen⟩ := h.buckets
  have hmap : m.cleared.skInoHb = some (hb.map fun _ => []) := by
    rw [OwnerMap.cleared, hhb, Option.map_some]
  have hentries : m.cleared.entries = 0 := by
    rw [OwnerMap.entries, hmap, Option.getD_some, total_clear]
  rw [OwnerMap.wellFormed_iff (show (0 : Int) ≤ INT_MAX by decide), hentries]
  refine ⟨⟨h.size, h.shift, ⟨_, hmap, by rw [List.length_map]; exact hlen⟩, ?_⟩, by decide⟩
  rw [hentries]
  rfl

/-! ## What freeing does -/

/-- The shift that `free_sk_proc_map` computes for the number of sockets. -/
def OwnerMap.newShift (m : OwnerMap) : Nat := Nat.clog 2 (m.nrSockets % 4294967296).toNat

/-- What `free_sk_proc_map` does: nothing where the owners are not asked for, and else it empties
the table, and replaces it by one of another size where it is asked to and that differs. -/
inductive FreeStep (s : Sys) (resize : Bool) : Bool → Sys → Prop
  | off : extIsSet s.n.extReq INET_DIAG_PROC = false → FreeStep s resize false s
  | kept : extIsSet s.n.extReq INET_DIAG_PROC = true →
      ¬(resize = true ∧ s.owners.mapHashSz ≠ 2 ^ s.owners.newShift) →
      FreeStep s resize false { s with owners := s.owners.cleared }
  | resized : extIsSet s.n.extReq INET_DIAG_PROC = true → resize = true →
      s.owners.mapHashSz ≠ 2 ^ s.owners.newShift → s.alloc.1 = true → s.owners.newShift ≤ 31 →
      FreeStep s resize false { s.alloc.2 with owners := .fresh s.owners.newShift }
  | failed : extIsSet s.n.extReq INET_DIAG_PROC = true → resize = true →
      s.owners.mapHashSz ≠ 2 ^ s.owners.newShift → s.alloc.1 = false →
      FreeStep s resize true
        ({ s.alloc.2 with owners := { s.owners with skInoHb := none, nrSockets := 0 } }.nmPerror
          "sk_ino_hb: calloc")

/-- **`free_sk_proc_map`** does one of these. -/
theorem freeSkProcMap_step {s t : Sys} {resize ret : Bool}
    (hlength : ∀ hb, s.owners.skInoHb = some hb → hb.length = s.owners.mapHashSz)
    (hnr : s.owners.nrSockets = i32 s.owners.entries)
    (h : freeSkProcMap s resize = some (ret, t)) : FreeStep s resize ret t := by
  unfold freeSkProcMap at h
  cases hreq : extIsSet s.n.extReq INET_DIAG_PROC with
  | false =>
      rw [hreq] at h
      cases h
      exact .off hreq
  | true =>
      rw [hreq] at h
      obtain ⟨i, hi, h⟩ := bind_some h
      obtain ⟨hb, hhb, h⟩ := bind_some h
      obtain ⟨rfl, hlt⟩ := sizeLoop_some (Nat.zero_le _) hi
      have hlen : hb.length = s.owners.mapHashSz := hlength hb hhb
      have htake : hb.take s.owners.mapHashSz = hb := by rw [← hlen, List.take_length]
      have hdrop : hb.drop s.owners.mapHashSz = [] := by rw [← hlen, List.drop_length]
      -- Every entry is counted, so none is left over.
      have hzero : i32 (s.owners.nrSockets - ((hb.map List.length).sum : Nat)) = 0 := by
        rw [hnr, OwnerMap.entries, hhb]
        simp only [Option.getD_some, total, i32]
        omega
      have hcleared : s.owners.cleared =
          { s.owners with skInoHb := some (hb.map fun _ => []), nrSockets := 0 } := by
        unfold OwnerMap.cleared
        rw [hhb]
        rfl
      simp only [if_false, hlen, lt_irrefl, htake, hdrop, hzero, List.append_nil,
        Bool.and_eq_true, bne_iff_ne] at h
      split at h
      · rename_i hsize
        cases halloc : s.alloc.1 with
        | true =>
            rw [halloc] at h
            cases h
            exact .resized hreq hsize.1 hsize.2 halloc (by unfold OwnerMap.newShift; omega)
        | false =>
            rw [halloc] at h
            cases h
            exact .failed hreq hsize.1 hsize.2 halloc
      · rename_i hsize
        cases h
        rw [← hcleared]
        exact .kept hreq hsize

/-- **Freeing** keeps a table well formed unless it is resized with at most one socket in
it. -/
theorem freeSkProcMap_wellFormed {s t : Sys} {resize ret : Bool} (hs : AllocsOk s)
    (hmax : s.owners.nrSockets ≤ INT_MAX) (hwf : s.owners.WellFormed)
    (h : freeSkProcMap s resize = some (ret, t)) :
    t.owners.WellFormed ↔ (extIsSet s.n.extReq INET_DIAG_PROC → resize = true →
      2 ≤ s.owners.nrSockets) := by
  obtain ⟨hshape, hle⟩ := (OwnerMap.wellFormed_iff hmax).mp hwf
  obtain ⟨hb, hhb, hlen⟩ := hshape.buckets
  have hlength : ∀ hb', s.owners.skInoHb = some hb' → hb'.length = s.owners.mapHashSz := by
    intro hb' hhb'
    rw [hhb] at hhb'
    cases hhb'
    exact hlen
  have hnr : (s.owners.nrSockets % 4294967296).toNat = s.owners.nrSockets.toNat := by
    have h0 : 0 ≤ s.owners.nrSockets := by
      rw [hwf.nrSockets]
      omega
    rw [Int.emod_eq_of_lt h0 (by unfold INT_MAX at hmax; omega)]
  have hone : 1 ≤ s.owners.newShift ↔ 2 ≤ s.owners.nrSockets := by
    unfold OwnerMap.newShift
    rw [hnr]
    calc 1 ≤ Nat.clog 2 s.owners.nrSockets.toNat ↔ 2 ^ 0 < s.owners.nrSockets.toNat :=
          Nat.lt_clog_iff_pow_lt (by decide)
      _ ↔ 2 ≤ s.owners.nrSockets := by omega
  cases freeSkProcMap_step hlength hshape.nrSockets h with
  | off hreq => exact iff_of_true hwf (by simp [hreq])
  | kept hreq hsize =>
      refine iff_of_true hshape.cleared fun _ hr => hone.mp ?_
      -- The table has the right size already, and that is more than one bucket.
      have hsame : s.owners.mapHashSz = 2 ^ s.owners.newShift := by
        by_contra hne
        exact hsize ⟨hr, hne⟩
      rw [hshape.size] at hsame
      have hshift : s.owners.mapHashShift = s.owners.newShift :=
        Nat.pow_right_injective (le_refl 2) hsame
      have hpos := hshape.shift
      omega
  | resized hreq hr hsize halloc hi =>
      show (OwnerMap.fresh s.owners.newShift).WellFormed ↔ _
      rw [wellFormed_fresh hi, hone]
      simp [hreq, hr]
  | failed hreq hr hsize halloc =>
      obtain ⟨as, -, hok⟩ := hs.alloc
      rw [hok] at halloc
      cases halloc

end Sockmon

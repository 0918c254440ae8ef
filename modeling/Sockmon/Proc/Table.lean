import Sockmon.Lib.Chains
import Sockmon.System.Main

set_option autoImplicit false

/-! # The socket owner table

When a table is well formed, and how it is filled while allocations succeed: entries are
chained one by one (`chainStep`), those of a scan in the order of the listing (`scanned`).
-/

namespace Sockmon

open Transition Chains

/-! ## Well-formed tables -/

/-- The number of chained entries. -/
def OwnerMap.entries (m : OwnerMap) : Nat := total (m.skInoHb.getD [])

structure OwnerMap.WellFormed (m : OwnerMap) : Prop where
  size : m.mapHashSz = 2 ^ m.mapHashShift
  buckets : ∃ hb, m.skInoHb = some hb ∧ hb.length = m.mapHashSz
  nrSockets : m.nrSockets = m.entries
  /-- The shift count of `sk_ino_hash` is one, and the index that of a bucket. -/
  hash : ∀ inode : BitVec 32, (0 ≤ 32 - (m.mapHashShift : Int) ∧ 32 - (m.mapHashShift : Int) < 32) ∧
    ∃ h, skInoHash m inode.toNat = some h ∧ h < m.mapHashSz

/-- The part of `WellFormed` that chaining an entry keeps in any case: the count is kept in an
`int`. -/
structure OwnerMap.Shaped (m : OwnerMap) : Prop where
  size : m.mapHashSz = 2 ^ m.mapHashShift
  shift : 1 ≤ m.mapHashShift ∧ m.mapHashShift ≤ 32
  buckets : ∃ hb, m.skInoHb = some hb ∧ hb.length = m.mapHashSz
  nrSockets : m.nrSockets = i32 m.entries

theorem skInoHash_lt {m : OwnerMap} (hs : 1 ≤ m.mapHashShift ∧ m.mapHashShift ≤ 32)
    (inode : Nat) : ∃ h, skInoHash m inode = some h ∧ h < 2 ^ m.mapHashShift := by
  have hcount : (32 - (m.mapHashShift : Int)).toNat = 32 - m.mapHashShift := by omega
  unfold skInoHash
  dsimp only
  rw [if_pos (by omega), hcount]
  exact ⟨_, rfl, index_lt (w := 32) hs.2⟩

theorem OwnerMap.wellFormed_iff {m : OwnerMap} (hmax : m.nrSockets ≤ INT_MAX) :
    m.WellFormed ↔ m.Shaped ∧ (m.entries : Int) ≤ INT_MAX := by
  constructor
  · intro h
    have hshift := (h.hash 0).1
    have hle : (m.entries : Int) ≤ INT_MAX := by rw [← h.nrSockets]; exact hmax
    have hint : i32 m.entries = m.entries := i32_of_range (by omega)
    exact ⟨⟨h.size, by omega, h.buckets, by rw [hint]; exact h.nrSockets⟩, hle⟩
  · rintro ⟨h, hle⟩
    have hint : i32 m.entries = m.entries := i32_of_range (by omega)
    refine ⟨h.size, h.buckets, by rw [← hint]; exact h.nrSockets, fun inode => ⟨?_, ?_⟩⟩
    · have := h.shift
      omega
    · rw [h.size]
      exact skInoHash_lt h.shift inode.toNat

/-- In a well-formed table every inode can be looked up. -/
theorem OwnerMap.WellFormed.lookup {m : OwnerMap} (h : m.WellFormed) (inode : BitVec 32) :
    (lookupSocketOwner m inode.toNat).isSome := by
  obtain ⟨hb, hhb, hlen⟩ := h.buckets
  obtain ⟨-, k, hk, hlt⟩ := h.hash inode
  rw [← hlen] at hlt
  unfold lookupSocketOwner
  split
  · rfl
  · rw [hhb, hk]
    simp [List.getElem?_eq_getElem hlt]

/-! ## Chaining an entry -/

/-- `add_sk_ino` while allocations succeed. -/
def chainStep (m : OwnerMap) (o : SkOwner) : Option OwnerMap := do
  let found ← lookupSocketOwner m o.skIno
  if found.isSome then return m else m.chain o

/-- There is room for `o`: it is in the table, or the count of entries below `INT_MAX`. -/
def Fits (m : OwnerMap) (o : SkOwner) : Prop :=
  (∃ found, lookupSocketOwner m o.skIno = some (some found)) ∨ m.nrSockets < INT_MAX

theorem OwnerMap.chain_eq {m m' : OwnerMap} {o : SkOwner} (h : m.chain o = some m') :
    m'.entries = m.entries + 1 ∧ (m.Shaped → m'.Shaped) := by
  obtain ⟨k, hk, h⟩ := bind_some h
  obtain ⟨hb, hhb, h⟩ := bind_some h
  obtain ⟨c, hc, h⟩ := bind_some h
  cases h
  have hentries : total (hb.set k (c ++ [o])) = m.entries + 1 := by
    unfold OwnerMap.entries
    rw [hhb]
    exact total_set o hc
  refine ⟨hentries, fun hs => ⟨hs.size, hs.shift, ⟨_, rfl, ?_⟩, ?_⟩⟩
  · obtain ⟨hb', hhb', hlen⟩ := hs.buckets
    obtain rfl : hb = hb' := Option.some.inj (hhb.symm.trans hhb')
    rw [List.length_set]
    exact hlen
  · calc i32 (m.nrSockets + 1) = i32 (i32 m.entries + 1) := by rw [hs.nrSockets]
      _ = i32 ((m.entries : Int) + 1) := by unfold i32; omega
      _ = i32 (total (hb.set k (c ++ [o])) : Nat) := by rw [hentries]; push_cast; rfl

theorem chainStep_cases {m m' : OwnerMap} {o : SkOwner} (h : chainStep m o = some m') :
    (m' = m ∧ ∃ found, lookupSocketOwner m o.skIno = some (some found)) ∨
      (lookupSocketOwner m o.skIno = some none ∧ m'.entries = m.entries + 1 ∧
        (m.Shaped → m'.Shaped)) := by
  obtain ⟨found, hfound, h⟩ := bind_some h
  cases found with
  | some o' =>
      cases h
      exact Or.inl ⟨rfl, o', hfound⟩
  | none => exact Or.inr ⟨hfound, OwnerMap.chain_eq h⟩

theorem chainStep_shaped {m m' : OwnerMap} {o : SkOwner} (hm : m.Shaped)
    (h : chainStep m o = some m') : m'.Shaped := by
  rcases chainStep_cases h with ⟨rfl, -⟩ | ⟨-, -, hs⟩
  · exact hm
  · exact hs hm

/-- Entries are only added. -/
theorem chainStep_entries {m m' : OwnerMap} {o : SkOwner} (h : chainStep m o = some m') :
    m.entries ≤ m'.entries := by
  rcases chainStep_cases h with ⟨rfl, -⟩ | ⟨-, he, -⟩ <;> omega

theorem chainStep_fits {m m' : OwnerMap} {o : SkOwner} (hm : m.Shaped)
    (hle : (m.entries : Int) ≤ INT_MAX) (h : chainStep m o = some m') :
    (m'.entries : Int) ≤ INT_MAX ↔ Fits m o := by
  have hnr : m.nrSockets = m.entries := by
    rw [hm.nrSockets]
    exact i32_of_range (by omega)
  unfold Fits
  rcases chainStep_cases h with ⟨rfl, hfound⟩ | ⟨hfound, he, -⟩
  · exact iff_of_true hle (Or.inl hfound)
  · rw [hfound, he, hnr]
    simp only [Option.some.injEq, reduceCtorEq, exists_false, false_or]
    push_cast
    omega

/-- **Adding entries** keeps a table well formed exactly if there is room for each of them. -/
theorem exec_chainStep {m m' : OwnerMap} {os : List SkOwner} (hm : m.Shaped)
    (hle : (m.entries : Int) ≤ INT_MAX) (h : exec chainStep os m = some m') :
    (m'.Shaped ∧ (m'.entries : Int) ≤ INT_MAX) ↔ Meets chainStep Fits os m := by
  have hs : m'.Shaped := exec_invariant (fun _ _ _ => chainStep_shaped) hm h
  have hmeets : Always chainStep (fun m => (m.entries : Int) ≤ INT_MAX) os m ↔
      Meets chainStep Fits os m :=
    always_iff_meets (J := OwnerMap.Shaped) (fun _ _ _ => chainStep_shaped)
      (fun _ _ _ => chainStep_fits) hm hle
  have hend : Always chainStep (fun m => (m.entries : Int) ≤ INT_MAX) os m ↔
      (m'.entries : Int) ≤ INT_MAX := by
    refine always_iff_exec (fun m o m₁ hstep hle₁ => ?_) h
    have := chainStep_entries hstep
    omega
  calc (m'.Shaped ∧ (m'.entries : Int) ≤ INT_MAX) ↔ (m'.entries : Int) ≤ INT_MAX :=
        and_iff_right hs
    _ ↔ Always chainStep (fun m => (m.entries : Int) ≤ INT_MAX) os m := hend.symm
    _ ↔ Meets chainStep Fits os m := hmeets

/-! ## The scan -/

/-- The inodes of the sockets that an `fd` directory links to. -/
def linkInodes (ents : List (Option FdEnt)) : List Nat :=
  ents.filterMap fun d => d.bind fun d => if d.isLnk then d.link.bind socketInode else none

/-- What the scan hands to `add_sk_ino`, in order. -/
def scanned (fs : ProcFs) (len : Nat) : List (Option ProcEnt) → List UInt8 → List SkOwner
  | [], _ => []
  | none :: ents, path => scanned fs len ents path
  | some d :: ents, path =>
      match procVisit fs len path d with
      | some (.skip, path) => scanned fs len ents path
      | some (.links pid comm fds, path) =>
          (linkInodes fds).map (⟨·, pid, comm⟩) ++ scanned fs len ents path
      | _ => []

/-- What `add_sk_ino` does: it chains the entry, or reports that there is no memory for it. -/
theorem addSkIno_cases {s t : Sys} {inode : Nat} {pid : Int} {comm : List UInt8} {ret : Bool}
    (h : addSkIno s inode pid comm = some (ret, t)) :
    (ret = false ∧ ∃ m as, chainStep s.owners ⟨inode, pid, comm⟩ = some m ∧ as <:+ s.allocs ∧
        t = { s with owners := m, allocs := as }) ∨
      (ret = true ∧ s.alloc.1 = false ∧ t = s.alloc.2.nmPerror "add_sk: calloc") := by
  obtain ⟨found, hfound, h⟩ := bind_some h
  unfold chainStep
  rw [hfound]
  cases found with
  | some o =>
      cases h
      exact Or.inl ⟨rfl, s.owners, s.allocs, rfl, List.suffix_rfl, rfl⟩
  | none =>
      simp only [Option.isSome_none, Bool.false_eq_true, if_false] at h
      split at h
      · rename_i hok
        cases h
        exact Or.inr ⟨rfl, by simpa using hok, rfl⟩
      · obtain ⟨m, hm, h⟩ := bind_some h
        cases h
        exact Or.inl ⟨rfl, m, s.allocs.tail, hm, List.tail_suffix _, rfl⟩

/-- **Induction over the links** of a process: what holds of no link, and can be extended by a
link in front whose `add_sk_ino` succeeds, or fails and ends the loop, holds of all. -/
theorem skInoMakeMap_rule {pid : Int} {comm : List UInt8}
    {R : List SkOwner → Bool → Sys → Sys → Prop} (hnil : ∀ s, R [] false s s)
    (hadd : ∀ s t u inode os ret, addSkIno s inode pid comm = some (false, t) → R os ret t u →
      R (⟨inode, pid, comm⟩ :: os) ret s u)
    (hstop : ∀ s t inode os, addSkIno s inode pid comm = some (true, t) →
      R (⟨inode, pid, comm⟩ :: os) true s t)
    {ents : List (Option FdEnt)} {s t : Sys} {ret : Bool}
    (h : skInoMakeMap pid comm ents s = some (ret, t)) :
    R ((linkInodes ents).map (⟨·, pid, comm⟩)) ret s t := by
  induction ents generalizing s with
  | nil =>
      cases h
      exact hnil _
  | cons d ents ih =>
      -- An entry that is passed over adds nothing.
      have hskip : skInoMakeMap pid comm ents s = some (ret, t) →
          linkInodes (d :: ents) = linkInodes ents →
            R ((linkInodes (d :: ents)).map (⟨·, pid, comm⟩)) ret s t := by
        intro h hl
        rw [hl]
        exact ih h
      cases d with
      | none => exact hskip h rfl
      | some d =>
          rw [skInoMakeMap] at h
          by_cases hl : d.isLnk
          · rw [hl] at h
            cases hi : d.link.bind socketInode with
            | none =>
                rw [hi] at h
                exact hskip h (by simp [linkInodes, hl, hi])
            | some inode =>
                rw [hi] at h
                obtain ⟨⟨r, s₁⟩, hs₁, h⟩ := bind_some h
                have hinodes : linkInodes (some d :: ents) = inode :: linkInodes ents := by
                  simp [linkInodes, hl, hi]
                rw [hinodes]
                cases r with
                | true =>
                    cases h
                    exact hstop s _ inode _ hs₁
                | false => exact hadd s s₁ t inode _ ret hs₁ (ih h)
          · rw [Bool.not_eq_true] at hl
            rw [hl] at h
            exact hskip h (by simp [linkInodes, hl])

/-- **Induction over the entries of `/proc`**: what holds of a scan that ends, does not depend on
`proc_path`, and can be extended by the links of a process in front, holds of all scans. -/
theorem procLoop_rule {fs : ProcFs} {R : Bool → Sys → Sys → Prop} (hend : ∀ ret s, R ret s s)
    (hpath : ∀ s path ret t, R ret { s with procPath := path } t → R ret s t)
    (hlinks : ∀ pid comm fds s t u ret, skInoMakeMap pid comm fds s = some (false, t) →
      R ret t u → R ret s u)
    (hstop : ∀ pid comm fds s t, skInoMakeMap pid comm fds s = some (true, t) → R true s t)
    {ents : List (Option ProcEnt)} {s t : Sys} {ret : Bool}
    (h : procLoop fs ents s = some (ret, t)) : R ret s t := by
  induction ents generalizing s with
  | nil =>
      cases h
      exact hend _ _
  | cons d ents ih =>
      cases d with
      | none => exact ih h
      | some d =>
          rw [procLoop] at h
          obtain ⟨⟨visit, path⟩, -, h⟩ := bind_some h
          refine hpath s path ret t ?_
          cases visit with
          | skip => exact ih h
          | fail =>
              cases h
              exact hend _ _
          | links pid comm fds =>
              obtain ⟨⟨r, u⟩, hu, h⟩ := bind_some h
              cases r with
              | true =>
                  cases h
                  exact hstop pid comm fds _ _ hu
              | false => exact hlinks pid comm fds _ u t ret hu (ih h)

/-- Allocations still to come succeed. -/
def AllocsOk (s : Sys) : Prop := ∀ a ∈ s.allocs, a = true

theorem AllocsOk.alloc {s : Sys} (hs : AllocsOk s) :
    ∃ as, (∀ a ∈ as, a = true) ∧ s.alloc = (true, { s with allocs := as }) := by
  unfold Sys.alloc
  unfold AllocsOk at hs
  cases ha : s.allocs with
  | nil => exact ⟨[], nofun, rfl⟩
  | cons a as =>
      rw [ha] at hs
      obtain rfl : a = true := hs a List.mem_cons_self
      exact ⟨as, fun b hb => hs b (List.mem_cons_of_mem _ hb), rfl⟩

/-- From `s` to `t` the entries `os` were added, and nothing else that the scan looks at was
changed but `proc_path`. -/
structure Added (os : List SkOwner) (s t : Sys) : Prop where
  owners : exec chainStep os s.owners = some t.owners
  allocs : AllocsOk t
  n : t.n = s.n
  procPathLen : t.procPathLen = s.procPathLen

theorem Added.trans {os os' : List SkOwner} {s t u : Sys} (h : Added os s t)
    (h' : Added os' t u) : Added (os ++ os') s u where
  owners := exec_append.mpr ⟨t.owners, h.owners, h'.owners⟩
  allocs := h'.allocs
  n := h'.n.trans h.n
  procPathLen := h'.procPathLen.trans h.procPathLen

theorem addSkIno_added {s t : Sys} {inode : Nat} {pid : Int} {comm : List UInt8} {ret : Bool}
    (hs : AllocsOk s) (h : addSkIno s inode pid comm = some (ret, t)) :
    ret = false ∧ t.procPath = s.procPath ∧ Added [⟨inode, pid, comm⟩] s t := by
  rcases addSkIno_cases h with ⟨rfl, m, as, hm, has, rfl⟩ | ⟨-, hno, -⟩
  · exact ⟨rfl, rfl, exec_cons.mpr ⟨m, hm, rfl⟩, fun a ha => hs a (has.subset ha), rfl, rfl⟩
  · obtain ⟨as, -, halloc⟩ := hs.alloc
    rw [halloc] at hno
    cases hno

theorem skInoMakeMap_added {pid : Int} {comm : List UInt8} {ents : List (Option FdEnt)}
    {s t : Sys} {ret : Bool} (hs : AllocsOk s)
    (h : skInoMakeMap pid comm ents s = some (ret, t)) :
    ret = false ∧ t.procPath = s.procPath ∧
      Added ((linkInodes ents).map (⟨·, pid, comm⟩)) s t := by
  refine skInoMakeMap_rule (R := fun os ret s t => AllocsOk s →
    ret = false ∧ t.procPath = s.procPath ∧ Added os s t) ?_ ?_ ?_ h hs
  · exact fun s hs => ⟨rfl, rfl, rfl, hs, rfl, rfl⟩
  · intro s t u inode os ret ht hrest hs
    obtain ⟨-, hpath, hadd⟩ := addSkIno_added hs ht
    obtain ⟨hret, hpath', hrest⟩ := hrest hadd.allocs
    exact ⟨hret, hpath'.trans hpath, hadd.trans hrest⟩
  · intro s t inode os ht hs
    obtain ⟨hret, -⟩ := addSkIno_added hs ht
    cases hret

theorem procLoop_added {fs : ProcFs} {ents : List (Option ProcEnt)} {s t : Sys} {ret : Bool}
    (hs : AllocsOk s) (h : procLoop fs ents s = some (ret, t)) :
    Added (scanned fs s.procPathLen ents s.procPath) s t := by
  induction ents generalizing s with
  | nil =>
      cases h
      exact ⟨rfl, hs, rfl, rfl⟩
  | cons d ents ih =>
      cases d with
      | none => exact ih hs h
      | some d =>
          rw [procLoop] at h
          obtain ⟨⟨visit, path⟩, hvisit, h⟩ := bind_some h
          have hs' : AllocsOk { s with procPath := path } := hs
          rw [scanned, hvisit]
          cases visit with
          | fail =>
              cases h
              exact ⟨rfl, hs, rfl, rfl⟩
          | skip =>
              obtain ⟨ho, ha, hn, hlen⟩ := ih hs' h
              exact ⟨ho, ha, hn, hlen⟩
          | links pid comm fds =>
              obtain ⟨⟨r, s₁⟩, hs₁, h⟩ := bind_some h
              obtain ⟨rfl, hpath, ho, ha, hn, hlen⟩ := skInoMakeMap_added hs' hs₁
              have hrest := ih ha h
              rw [hpath, hlen] at hrest
              exact Added.trans ⟨ho, ha, hn, hlen⟩ hrest

/-- **A scan** adds the sockets it finds. -/
theorem buildSkProcMap_added {s t : Sys} {fs : ProcFs} {ret : Bool} (hs : AllocsOk s)
    (h : buildSkProcMap s fs = some (ret, t)) :
    (extIsSet s.n.extReq INET_DIAG_PROC = false ∧ t = s) ∨
      (extIsSet s.n.extReq INET_DIAG_PROC = true ∧ AllocsOk t ∧
        exec chainStep (scanned fs s.procPathLen fs.listing s.procPath) s.owners =
          some t.owners) := by
  unfold buildSkProcMap at h
  cases hreq : extIsSet s.n.extReq INET_DIAG_PROC
  · rw [hreq] at h
    cases h
    exact Or.inl ⟨rfl, rfl⟩
  · rw [hreq] at h
    obtain ⟨⟨r, u⟩, hu, h⟩ := bind_some h
    have hadd := procLoop_added hs hu
    cases r <;> cases h
    · exact Or.inr ⟨rfl, hadd.allocs, hadd.owners⟩
    · exact Or.inr ⟨rfl, hadd.allocs, hadd.owners⟩

end Sockmon

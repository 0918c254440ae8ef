import Sockmon.Run.Lookup
import Sockmon.Run.Table

set_option autoImplicit false

/-! # The extensions that are asked for

`n->ext_req` is computed when the field screen is left, while the keys of that screen enable and
move fields. In every run it says on the main screen which extensions the enabled fields need
(`ExtReqKept`), so that the request asks for these, and the map of socket owners is built,
consulted and freed in the frames in which a field shows them, and in no other.
-/

namespace Sockmon

open Transition

/-- Some enabled field needs the extension `e`. -/
def Needs (s : Sys) (e : Nat) : Prop := ∃ f ∈ s.tcpFields, f.enabled = true ∧ f.extReq = e

/-- A field that shows the owners of sockets is enabled. -/
def OwnerFieldEnabled (s : Sys) : Prop :=
  ∃ f ∈ s.tcpFields, f.enabled = true ∧ (f.header = "pid" ∨ f.header = "comm")

/-- The test with which each of the functions that deal with socket owners starts. -/
def wantsOwners (s : Sys) : Bool := extIsSet s.n.extReq INET_DIAG_PROC

/-- The frame that starts in `s` deals with socket owners. -/
structure MapUsed (s : Sys) (env : BodyEnv) : Prop where
  /-- The owners that are scanned are chained, all of them if the scan comes to its end. -/
  build : ∀ ret t, buildSkProcMap (frameStart s env) env.fs = some (ret, t) →
    ∃ os, os <+: frameScan s env ∧ exec chainStep os s.owners = some t.owners ∧
      (ret = false → os = frameScan s env ∧ t.n.extRcv = s.n.extRcv ||| bit INET_DIAG_PROC)
  /-- For every message, in the state in which `diag_dump` is called for it: the connection that
  is listed has the owner that is found in the map. -/
  consult : ∀ t u v ms m ms', buildSkProcMap (frameStart s env) env.fs = some (false, t) →
    env.dump.msgs = ms ++ m :: ms' → dumpAll ms (dumpStart t) = some (false, u) →
      diagDump u m.1 m.2 = some (false, v) →
        ∃ owner, lookupSocketOwner t.owners (msgInode m) = some owner ∧
          v.n.connList.Perm (u.n.connList ++ [listedConn m owner])
  /-- No owner is left, whether the new table can be allocated or not. -/
  free : ∀ t ret u, collect (frameStart s env) env = some (false, t) →
    freeSkProcMap (beforeFree t) true = some (ret, u) → u.owners.Empty

/-- The frame that starts in `s` does not deal with socket owners: nothing is done in the places
where it would, and the connections are listed as they are with any other map. -/
structure MapUnused (s : Sys) (env : BodyEnv) : Prop where
  build : buildSkProcMap (frameStart s env) env.fs = some (false, frameStart s env)
  consult : ∀ t u ms m ms', buildSkProcMap (frameStart s env) env.fs = some (false, t) →
    env.dump.msgs = ms ++ m :: ms' → dumpAll ms (dumpStart t) = some (false, u) →
      (∀ owners, diagDump { u with owners } m.1 m.2 =
        (diagDump u m.1 m.2).map fun r => (r.1, { r.2 with owners })) ∧
      ∀ v, diagDump u m.1 m.2 = some (false, v) →
        v.n.connList.Perm (u.n.connList ++ [listedConn m none])
  free : ∀ t, collect (frameStart s env) env = some (false, t) →
    freeSkProcMap (beforeFree t) true = some (false, beforeFree t)

/-- The map is built, consulted and freed in the frame that starts in `s` if a field needs it, and
none of this is done if none does. -/
structure OneDecision (s : Sys) (env : BodyEnv) : Prop where
  used : OwnerFieldEnabled s → MapUsed s env
  unused : ¬ OwnerFieldEnabled s → MapUnused s env

/-- What holds of `n->ext_req` in a state. -/
structure ExtReqKept (s : Sys) : Prop where
  mask : s.n.curScreen = .main → ∀ e, e ≠ 0 → (hasBit s.n.extReq (e - 1) = true ↔ Needs s e)
  /-- The bits of `idiag_ext`, of which there are eight. -/
  request : s.n.curScreen = .main → ∀ k,
    (buildRequest s.n).idiagExt.testBit k = true ↔ k < 8 ∧ Needs s (k + 1)
  frame : s.pc = .top → s.n.curScreen = .main → ∀ env, OneDecision s env

/-! ## The computation of the mask -/

theorem hasBit_extSet {ext : BitVec 32} {flag k : Nat} :
    hasBit (extSet ext flag) k = (hasBit ext k || decide (k < 32 ∧ k = flag - 1)) := by
  unfold extSet
  rw [hasBit_or, hasBit_bit]

theorem hasBit_extReqFold {fields : List Field} {ext : BitVec 32} {k : Nat}
    (h : ∀ f ∈ fields, f.extReq ≤ 32) :
    hasBit (fields.foldl
      (fun ext f => if f.enabled && f.extReq != 0 then extSet ext f.extReq else ext) ext) k = true ↔
      hasBit ext k = true ∨ ∃ f ∈ fields, f.enabled = true ∧ f.extReq = k + 1 := by
  induction fields generalizing ext with
  | nil => simp
  | cons f fields ih =>
      obtain ⟨hf, hrest⟩ := List.forall_mem_cons.mp h
      -- The bit that this field sets, if it is enabled and needs an extension at all.
      have hstep :
          hasBit (if f.enabled && f.extReq != 0 then extSet ext f.extReq else ext) k = true ↔
            hasBit ext k = true ∨ (f.enabled = true ∧ f.extReq = k + 1) := by
        by_cases hset : (f.enabled && f.extReq != 0) = true
        · rw [if_pos hset, hasBit_extSet, Bool.or_eq_true, decide_eq_true_eq]
          simp only [Bool.and_eq_true, bne_iff_ne] at hset
          refine or_congr_right ?_
          rw [and_iff_right hset.1]
          omega
        · rw [if_neg hset]
          simp only [Bool.and_eq_true, bne_iff_ne, not_and, not_not] at hset
          refine (or_iff_left ?_).symm
          rintro ⟨hen, hext⟩
          have hzero := hset hen
          omega
      rw [List.foldl_cons, ih hrest, hstep, or_assoc]
      simp only [List.exists_mem_cons_iff]

theorem hasBit_extReqOf {fields : List Field} {k : Nat} (h : ∀ f ∈ fields, f.extReq ≤ 32) :
    hasBit (extReqOf fields) k = true ↔ ∃ f ∈ fields, f.enabled = true ∧ f.extReq = k + 1 := by
  unfold extReqOf
  rw [hasBit_extReqFold h, hasBit_zero]
  simp

/-! ## The invariant -/

/-- Off the field screen the mask is that of the table. -/
def MaskCurrent (s : Sys) : Prop := s.n.curScreen ≠ .field → s.n.extReq = extReqOf s.tcpFields

theorem maskCurrent_quiet {s t : Sys} (h : Quiet s t) (hs : MaskCurrent s) : MaskCurrent t := by
  have hext : t.n.extReq = s.n.extReq := h.proj Ui.extReq fun _ _ => rfl
  unfold MaskCurrent
  rw [h.curScreen, h.tcpFields, hext]
  exact hs

theorem maskCurrent_input {s t : Sys} {i : Input} (hs : MaskCurrent s) (hi : InputStep s i t) :
    MaskCurrent t := by
  cases hi with
  | idle | resize => exact hs
  | help hc =>
      intro _
      exact hs (by rw [hc]; decide)
  | main k t hk hrun =>
      intro _
      obtain ⟨c, d, b, f, p, hu⟩ := MainHandler.run_ui hrun
      have hext : t.n.extReq = s.n.extReq := congrArg Ui.extReq hu
      rw [hext, MainHandler.tcpFields hrun]
      exact hs (by rw [mainKey_screen hk]; decide)
  | field k t hc hk hstep =>
      intro hscreen
      -- Only quitting leaves the field screen, and it computes the mask.
      cases hstep with
      | quit => rfl
      | sort => exact absurd ((toggleSortKey_kept _ _).2.2.2.1.trans hc) hscreen
      | move sel f u hsel hf hd hne hu =>
          refine absurd ?_ hscreen
          show u.n.curScreen = .field
          rw [(moveLoop_moved hu).frame]
          exact hc
      | idle | cursor | noFilter | space | pin | setFilter | clearFilter | pick =>
          exact absurd hc hscreen

/-- No field of the program's own table that is enabled at the start needs an extension. -/
theorem extReqOf_tcpFields : extReqOf tcpFields = 0 := by decide +kernel

theorem maskCurrent_start (b : Start) : MaskCurrent b.state := by
  have hq : Quiet (Sys.boot b.size b.allocs) b.state := Or.inl b.ui
  refine maskCurrent_quiet hq fun _ => ?_
  exact extReqOf_tcpFields.symm

/-! ## What follows in a state -/

/-- What a field needs, and which fields show the owners of sockets. -/
theorem tcpFields_extReq : ∀ f ∈ tcpFields.map (·.toFieldInfo),
    f.extReq ≤ 32 ∧ (f.extReq = INET_DIAG_PROC ↔ f.header = "pid" ∨ f.header = "comm") := by
  decide +kernel

theorem TableSound.extReq {s : Sys} (hs : TableSound s) {f : Field} (hf : f ∈ s.tcpFields) :
    f.extReq ≤ 32 ∧ (f.extReq = INET_DIAG_PROC ↔ f.header = "pid" ∨ f.header = "comm") := by
  have hmem : f.toFieldInfo ∈ s.infos := List.mem_map_of_mem hf
  exact tcpFields_extReq _ (hs.perm.mem_iff.mp hmem)

theorem TableSound.needs_proc {s : Sys} (hs : TableSound s) :
    Needs s INET_DIAG_PROC ↔ OwnerFieldEnabled s := by
  constructor
  · rintro ⟨f, hf, hen, hext⟩
    exact ⟨f, hf, hen, (hs.extReq hf).2.mp hext⟩
  · rintro ⟨f, hf, hen, hheader⟩
    exact ⟨f, hf, hen, (hs.extReq hf).2.mpr hheader⟩

section

variable {s : Sys} (hs : TableSound s) (hmask : MaskCurrent s) (hc : s.n.curScreen = .main)

include hs hmask hc

theorem hasBit_extReq {k : Nat} : hasBit s.n.extReq k = true ↔ Needs s (k + 1) := by
  rw [hmask (by rw [hc]; decide)]
  exact hasBit_extReqOf fun f hf => (hs.extReq hf).1

theorem idiagExt_testBit {k : Nat} :
    (buildRequest s.n).idiagExt.testBit k = true ↔ k < 8 ∧ Needs s (k + 1) := by
  show (s.n.extReq.toNat % 2 ^ 8).testBit k = true ↔ _
  rw [Nat.testBit_mod_two_pow, Bool.and_eq_true, decide_eq_true_eq, ← hasBit_extReq hs hmask hc,
    hasBit_eq]
  rfl

/-- The mask of the main screen says whether a field shows the owners of sockets. -/
theorem wantsOwners_iff : wantsOwners s = true ↔ OwnerFieldEnabled s := by
  unfold wantsOwners extIsSet
  rw [hasBit_extReq hs hmask hc]
  exact hs.needs_proc

end

/-! ## What follows in a frame -/

/-- Without the mask `diag_dump` does not look into the map. -/
theorem diagDump_off {s : Sys} (hoff : wantsOwners s = false) (owners : OwnerMap) (d : Datagram)
    (nlh : Nat) : diagDump { s with owners } d nlh =
      (diagDump s d nlh).map fun r => (r.1, { r.2 with owners }) := by
  have hoff : extIsSet s.n.extReq INET_DIAG_PROC = false := hoff
  have hnone : ∀ m inode, ownerLookup s.n.extReq m inode = some none := by
    intro m inode
    unfold ownerLookup
    rw [hoff]
    rfl
  unfold diagDump Sys.alloc
  dsimp only
  rw [hnone, hnone, Option.bind_eq_bind, Option.bind_some, Option.bind_some]
  cases s.allocs.headD true with
  | false => rfl
  | true =>
      rw [Bool.not_true, if_neg Bool.false_ne_true, if_neg Bool.false_ne_true]
      cases (diagAttrs d.mem nlh none d.reach).how with
      | more => rfl
      | unsupported type => rfl
      | done =>
          show (Sys.sortField s).bind _ = Option.map _ ((Sys.sortField s).bind _)
          cases Sys.sortField s with
          | none => rfl
          | some key =>
              rw [Option.bind_some, Option.bind_some]
              show (addConnInfo key s.n.sortAscending _ s.n.connList).bind _ =
                Option.map _ ((addConnInfo key s.n.sortAscending _ s.n.connList).bind _)
              cases addConnInfo key s.n.sortAscending _ s.n.connList <;> rfl

section

variable {s t u v : Sys} {env : BodyEnv} {m : Datagram × Nat}

/-- A message that is listed has brought a connection, with the owner that was looked up. -/
theorem diagDump_owner (h : diagDump u m.1 m.2 = some (false, v)) :
    ∃ owner, ownerOf u m = some owner ∧
      v.n.connList.Perm (u.n.connList ++ [listedConn m owner]) := by
  cases diagDump_step h with
  | listed owner key connList halloc howner hhow hkey hadd =>
      exact ⟨owner, howner, addConnInfo_perm hadd⟩

/-- The mask and the map do not change while messages are listed. -/
theorem dumpAll_map {ms : List (Datagram × Nat)} (hu : dumpAll ms (dumpStart t) = some (false, u)) :
    u.n.extReq = t.n.extReq ∧ u.owners = t.owners := by
  rw [(dumpAll_dumped hu).frame]
  exact ⟨rfl, rfl⟩

theorem mapUsed (hs : OwnersSound s) (hpc : s.pc = .top) (hw : wantsOwners s = true) :
    MapUsed s env := by
  obtain ⟨hpath, hsized, -⟩ := hs.frame hpc env
  have hreq : extIsSet (frameStart s env).n.extReq INET_DIAG_PROC = true := hw
  refine ⟨fun ret t ht => ?_, fun t u v ms m ms' ht _ hu hv => ?_, fun t ret u ht hu => ?_⟩
  · rcases buildSkProcMap_scan hpath ht with ⟨hoff, -⟩ | ⟨-, hscan, -⟩
    · rw [hreq] at hoff
      cases hoff
    · obtain ⟨os, hpre, hos, hall⟩ := hscan.owners
      refine ⟨os, hpre, hos, fun hret => ⟨hall hret, ?_⟩⟩
      subst hret
      have hn : t.n = builtCtx (frameStart s env).n := buildSkProcMap_n ht
      rw [hn, builtCtx, hreq, if_pos rfl]
      rfl
  · obtain ⟨owner, howner, hperm⟩ := diagDump_owner hv
    obtain ⟨hext, howners⟩ := dumpAll_map hu
    have htreq : t.n.extReq = s.n.extReq := congrArg Ui.extReq (buildSkProcMap_ui ht)
    have hw' : extIsSet s.n.extReq INET_DIAG_PROC = true := hw
    refine ⟨owner, ?_, hperm⟩
    unfold ownerOf ownerLookup at howner
    rwa [hext, htreq, hw', if_pos rfl, howners] at howner
  · have hsized' : (beforeFree t).owners.Sized := (collect_sound hpath hsized ht).2
    have hext : (beforeFree t).n.extReq = s.n.extReq := congrArg Ui.extReq (collect_ui ht)
    refine ((hsized'.freeStep hu).sized hsized').2 ?_
    rw [hext]
    exact hw

theorem mapUnused (hw : wantsOwners s = false) : MapUnused s env := by
  have hoff : extIsSet s.n.extReq INET_DIAG_PROC = false := hw
  refine ⟨?_, fun t u ms m ms' ht _ hu => ?_, fun t ht => ?_⟩
  · unfold buildSkProcMap
    rw [show (frameStart s env).n.extReq = s.n.extReq from rfl, hoff]
    rfl
  · have hext : u.n.extReq = s.n.extReq :=
      (dumpAll_map hu).1.trans (congrArg Ui.extReq (buildSkProcMap_ui ht))
    have hu : wantsOwners u = false := by
      unfold wantsOwners
      rw [hext]
      exact hoff
    refine ⟨fun owners => diagDump_off hu owners m.1 m.2, fun v hv => ?_⟩
    obtain ⟨owner, howner, hperm⟩ := diagDump_owner hv
    unfold ownerOf ownerLookup at howner
    rw [hext, hoff] at howner
    cases howner
    exact hperm
  · have hext : (beforeFree t).n.extReq = s.n.extReq := congrArg Ui.extReq (collect_ui ht)
    unfold freeSkProcMap
    rw [hext, hoff]
    rfl

end

/-- **In every run** the mask of the main screen is that of the enabled fields, and with it the
request; and in each frame the map of socket owners is built, consulted and freed exactly if a
field shows them. -/
theorem extReqKept (b : Start) (es : List Event) : Always step ExtReqKept es b.state := by
  have hinv : Always step (fun s => OwnersSound s ∧ TableSound s ∧ MaskCurrent s) es b.state := by
    refine always_of_invariant
      (fun s e t hs h => ⟨ownersSound_step hs.1 h, tableSound_step hs.2.1 h, ?_⟩)
      ⟨ownersSound_start b, tableSound_start b, maskCurrent_start b⟩
    exact step_invariant (fun _ _ => maskCurrent_quiet) (fun _ _ _ => maskCurrent_input) hs.2.2 h
  refine always_mono (fun s hs => ?_) hinv
  obtain ⟨howners, htable, hmask⟩ := hs
  refine ⟨fun hc e he => ?_, fun hc k => idiagExt_testBit htable hmask hc,
    fun hpc hc env => ⟨fun hen => ?_, fun hno => ?_⟩⟩
  · rw [hasBit_extReq htable hmask hc, Nat.sub_add_cancel (Nat.one_le_iff_ne_zero.mpr he)]
  · exact mapUsed howners hpc ((wantsOwners_iff htable hmask hc).mpr hen)
  · refine mapUnused (Bool.eq_false_of_not_eq_true fun hw => hno ?_)
    exact (wantsOwners_iff htable hmask hc).mp hw

end Sockmon

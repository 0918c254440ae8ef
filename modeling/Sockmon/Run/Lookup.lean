import Sockmon.Run.OwnerTable

set_option autoImplicit false

/-! # Looking up socket owners

In every frame that asks for the owners, `lookup_socket_owner` finds for an inode the first one
scanned in this frame (`OwnerLookups`), as long as there is a table: when the allocation of a
table of another size fails, the old one has been freed, and the frames that follow go on
without any.
-/

namespace Sockmon

open Transition

/-- A frame with the process columns starts, and the table has a size that can be shifted for. -/
structure AsksOwners (s : Sys) : Prop where
  top : s.pc = .top
  main : s.n.curScreen = .main
  extReq : extIsSet s.n.extReq INET_DIAG_PROC = true
  shift : 1 ≤ s.owners.mapHashShift ∧ s.owners.mapHashShift ≤ 31

/-- What the scan of the frame hands to `add_sk_ino`. -/
def frameScan (s : Sys) (env : BodyEnv) : List SkOwner :=
  scanned env.fs s.procPathLen env.fs.listing s.procPath

/-- What holds of the table in the frame that starts in `s`. -/
structure OwnerLookups (s : Sys) (env : BodyEnv) : Prop where
  /-- Whatever is added, the first entry is found. -/
  first : ∀ os, ∃ m, exec chainStep os s.owners = some m ∧
    ∀ inode, inode ≠ 0 →
      lookupSocketOwner m inode = some (os.find? fun o => o.skIno == inode)
  scan : ∀ t, buildSkProcMap (frameStart s env) env.fs = some (false, t) →
    ∀ inode, inode ≠ 0 →
      lookupSocketOwner t.owners inode = some ((frameScan s env).find? fun o => o.skIno == inode)
  /-- For every message of the dump the table is that of the scan. -/
  dump : ∀ t u ms m ms', buildSkProcMap (frameStart s env) env.fs = some (false, t) →
    env.dump.msgs = ms ++ m :: ms' → dumpAll ms (dumpStart t) = some (false, u) →
      u.owners = t.owners
  once : ∀ t, buildSkProcMap (frameStart s env) env.fs = some (false, t) →
    (((t.owners.skInoHb.getD []).flatten.filter fun o => o.skIno != 0).map SkOwner.skIno).Nodup
  freed : ∀ u ret v, collect (frameStart s env) env = some (false, u) →
    freeSkProcMap (beforeFree u) true = some (ret, v) → v.owners.Empty

/-! ## With a table -/

theorem AsksOwners.lookups {s : Sys} (ha : AsksOwners s) (hs : OwnersSound s)
    {hb : List (List SkOwner)} (hhb : s.owners.skInoHb = some hb) (env : BodyEnv) :
    OwnerLookups s env := by
  obtain ⟨hpath, hsized, hempty⟩ := hs.frame ha.top env
  -- Every sequence of entries can be added, and leaves a table that can be looked into.
  have hfirst : ∀ os m, exec chainStep os s.owners = some m → ∀ inode, inode ≠ 0 →
      lookupSocketOwner m inode = some (os.find? fun o => o.skIno == inode) := by
    intro os m hm inode h0
    obtain ⟨hb', hhb', -, hshift⟩ := exec_chainStep_insert hhb hm
    have hsized' : m.Sized := exec_chainStep_sized hsized hm
    obtain ⟨r, hr⟩ := hsized'.lookup_isSome (by rw [hshift]; exact ha.shift.1) hhb' inode
    rw [hr, chainStep_first hempty hm h0 hr]
  have hbuilt : ∀ t, buildSkProcMap (frameStart s env) env.fs = some (false, t) →
      exec chainStep (frameScan s env) s.owners = some t.owners := by
    intro t ht
    rcases buildSkProcMap_scan hpath ht with ⟨hoff, -⟩ | ⟨-, hscan, -⟩
    · rw [show (frameStart s env).n.extReq = s.n.extReq from rfl, ha.extReq] at hoff
      cases hoff
    · obtain ⟨os, -, hos, heq⟩ := hscan.owners
      rw [heq rfl] at hos
      exact hos
  refine ⟨fun os => ?_, fun t ht => hfirst _ _ (hbuilt t ht), ?_, ?_, ?_⟩
  · obtain ⟨m, hm⟩ := hsized.exec_isSome ha.shift.1 hhb os
    exact ⟨m, hm, hfirst os m hm⟩
  · intro t u ms m ms' _ _ hu
    rw [(dumpAll_dumped hu).frame]
    rfl
  · intro t ht
    exact chainStep_once hempty hhb (hbuilt t ht)
  · intro u ret v hu hv
    have hsized' : u.owners.Sized := (collect_sound hpath hsized hu).2
    have hbefore : (beforeFree u).owners.Sized := hsized'
    exact drawn_empty hempty hu hsized' (hbefore.freeStep hv)

/-- Without a table nothing can be looked up. -/
theorem OwnerLookups.table {s : Sys} {env : BodyEnv} (h : OwnerLookups s env) :
    s.owners.skInoHb.isSome := by
  obtain ⟨m, hm, hfound⟩ := h.first []
  cases hm
  have hr := hfound 1 (by decide)
  unfold lookupSocketOwner at hr
  rw [if_neg (by decide)] at hr
  obtain ⟨hb, hhb, -⟩ := bind_some hr
  rw [hhb]
  rfl

/-! ## Whether there is a table -/

/-- If the table that `free_sk_proc_map` is called with in `s` has not the size for its sockets,
there is memory for one that has. -/
def ResizeSucceeds (s : Sys) : Prop :=
  extIsSet s.n.extReq INET_DIAG_PROC = true →
    s.owners.mapHashSz ≠ 2 ^ s.owners.newShift → s.alloc.1 = true

/-- At the end of a frame. -/
def ResizesSucceed (s : Sys) : Event → Prop
  | .body env => s.n.curScreen = .main → ∀ u, collect (frameStart s env) env = some (false, u) →
      ResizeSucceeds (beforeFree u)
  | _ => True

/-- Until the exit there is a table. -/
def HasTable (s : Sys) : Prop := s.pc ≠ .done → s.owners.skInoHb.isSome

theorem exec_chainStep_table {m m' : OwnerMap} {os : List SkOwner} (hm : m.skInoHb.isSome)
    (h : exec chainStep os m = some m') : m'.skInoHb.isSome := by
  obtain ⟨hb, hhb⟩ := Option.isSome_iff_exists.mp hm
  obtain ⟨hb', hhb', -⟩ := exec_chainStep_insert hhb h
  rw [hhb']
  rfl

theorem collect_table {s t : Sys} {env : BodyEnv} {ret : Bool} (hpath : PathSound s)
    (hs : s.owners.skInoHb.isSome) (h : collect s env = some (ret, t)) :
    t.owners.skInoHb.isSome := by
  unfold collect at h
  obtain ⟨⟨r, u⟩, hu, h⟩ := bind_some h
  have hbuilt : u.owners.skInoHb.isSome := by
    rcases buildSkProcMap_scan hpath hu with ⟨-, -, rfl⟩ | ⟨-, hscan, -⟩
    · exact hs
    · obtain ⟨os, -, hos, -⟩ := hscan.owners
      exact exec_chainStep_table hs hos
  cases r with
  | true =>
      cases h
      exact hbuilt
  | false =>
      rw [(connectionsDump_owners h).owners]
      exact hbuilt

/-- A free that finds memory, if it needs any, leaves a table. -/
theorem FreeStep.table {s t : Sys} {resize ret : Bool} (hs : s.owners.skInoHb.isSome)
    (hsucc : ResizeSucceeds s) (h : FreeStep s resize ret t) : t.owners.skInoHb.isSome := by
  cases h with
  | off => exact hs
  | kept =>
      show (s.owners.skInoHb.map _).isSome
      rw [Option.isSome_map]
      exact hs
  | resized => rfl
  | failed hreq _ hsize halloc =>
      rw [hsucc hreq hsize] at halloc
      cases halloc

theorem hasTable_step {s t : Sys} {e : Event} (hs : OwnersSound s) (htable : HasTable s)
    (hsucc : ResizesSucceed s e) (h : step s e = some t) : HasTable t := by
  cases e with
  | body env =>
      obtain ⟨hpc, hbody⟩ := step_body h
      have htable : s.owners.skInoHb.isSome := htable (by rw [hpc]; decide)
      obtain ⟨hpath, hsized, -⟩ := hs.frame hpc env
      intro _
      cases hbody with
      | idle => exact htable
      | failed u hc hu =>
          have hutable : u.owners.skInoHb.isSome := collect_table hpath htable hu
          exact hutable
      | drawn u ret v hc hu hrows hv =>
          have hbefore : (beforeFree u).owners.Sized := (collect_sound hpath hsized hu).2
          have hutable : u.owners.skInoHb.isSome := collect_table hpath htable hu
          have hbtable : (beforeFree u).owners.skInoHb.isSome := hutable
          have hvtable : v.owners.skInoHb.isSome :=
            (hbefore.freeStep hv).table hbtable (hsucc hc u hu)
          exact hvtable
  | input i =>
      obtain ⟨hpc, hback, -⟩ := step_input h
      have howners : t.owners = s.owners := congrArg Backstage.owners hback
      intro _
      rw [howners]
      exact htable (by rw [hpc]; decide)
  | exit closedir =>
      obtain ⟨-, -, -, -, rfl⟩ := step_exit h
      exact fun hne => absurd rfl hne

/-! ## Runs -/

/-- What a frame meets in which there is no process and no connection. -/
def BodyEnv.bare (allocs : List Bool) : BodyEnv :=
  { allocs, fs := ⟨[], fun _ => none, fun _ => none⟩
    dump := ⟨fun _ => true, [some Datagram.done]⟩, stk := fun _ _ _ => 0 }

theorem hasTable_start (b : Start) : HasTable b.state := by
  obtain ⟨path, len, allocs, heq⟩ := b.state_eq
  intro _
  rw [show b.state.owners = .fresh 10 from congrArg Sys.owners heq]
  rfl

/-- **In every frame of every run** that asks for the owners the first one scanned is found,
exactly if there is a table; and there is one as long as no resize has failed. -/
theorem ownerLookups_iff (b : Start) (es : List Event) :
    Always step (fun s => AsksOwners s →
        ((∀ env, OwnerLookups s env) ↔ s.owners.skInoHb.isSome)) es b.state ∧
      (Meets step ResizesSucceed es b.state →
        Always step (fun s => AsksOwners s → ∀ env, OwnerLookups s env) es b.state) := by
  have hlookups : ∀ s, OwnersSound s → AsksOwners s → s.owners.skInoHb.isSome →
      ∀ env, OwnerLookups s env := by
    intro s hs ha htable
    obtain ⟨hb, hhb⟩ := Option.isSome_iff_exists.mp htable
    exact ha.lookups hs hhb
  constructor
  · have hinv : Always step OwnersSound es b.state :=
      always_of_invariant (fun _ _ _ => ownersSound_step) (ownersSound_start b)
    refine always_mono (fun s hs ha => ⟨fun h => ?_, hlookups s hs ha⟩) hinv
    exact (h (.bare [])).table
  · intro hmeets
    have hinv : Always step (fun s => OwnersSound s ∧ HasTable s) es b.state := by
      refine always_of_meets (fun s e t hs hg h => ?_)
        ⟨ownersSound_start b, hasTable_start b⟩ hmeets
      exact ⟨ownersSound_step hs.1 h, hasTable_step hs.1 hs.2 hg h⟩
    refine always_mono (fun s hs ha => ?_) hinv
    exact hlookups s hs.1 ha (hs.2 (by rw [ha.top]; decide))

/-! ## A resize that fails -/

/-- The keys that show the process column. -/
def Event.showPid : List Event :=
  ([key 'f', KEY_NPAGE, KEY_DOWN, KEY_DOWN, KEY_DOWN, KEY_DOWN, key ' ', key 'q'] :
    List Key).flatMap fun ch => [.quiet, .press ch []]

/-- A frame at whose end there is no memory for a table of another size, and no key. -/
def Event.noMemory : List Event := [.body (.bare [false]), .press ERR []]

/-- With the process column shown, the frame after one whose resize has failed looks up owners
in no table. -/
theorem failed_resize_lookups : ¬ Always step (fun s => AsksOwners s → ∀ env, OwnerLookups s env)
    (Event.showPid ++ Event.noMemory) Start.quiet.state :=
  not_always_of_exec
    (f := fun s => (s.pc, s.n.curScreen, extIsSet s.n.extReq INET_DIAG_PROC,
      s.owners.mapHashShift, s.owners.skInoHb.isSome))
    (a := (.top, .main, true, 10, false)) (by decide +kernel) fun t ht h => by
      simp only [Prod.mk.injEq] at ht
      obtain ⟨hpc, hmain, hreq, hshift, hnone⟩ := ht
      have htable := (h ⟨hpc, hmain, hreq, by rw [hshift]; decide⟩ (.bare [])).table
      rw [hnone] at htable
      cases htable

end Sockmon

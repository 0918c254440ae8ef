import Sockmon.Draw.Columns
import Sockmon.Draw.Scrolled
import Sockmon.Dump.Order
import Sockmon.Run.ExtRcv
import Sockmon.Run.Settings
import Sockmon.Run.Table

set_option autoImplicit false

/-! # What a frame shows

A frame is a picture of a snapshot: the sockets of the processes in the order in which `/proc`
lists them, and the messages of the kernel. `Displays` says what it is to look like, in terms of
the snapshot, the columns and the settings; in every run every frame looks like that
(`frames_display`), whatever table, list and path the frames before have left behind.
-/

namespace Sockmon

open Transition StableInsert

/-! ## The snapshot -/

structure Snapshot where
  owners : List SkOwner
  msgs : List (Datagram × Nat)

/-- The first process that was found to have the socket; 0 is no socket. -/
def Snapshot.owner (v : Snapshot) (inode : Nat) : Option SkOwner :=
  if inode = 0 then none else v.owners.find? fun o => o.skIno == inode

/-- The connections, in the order of the messages. -/
def Snapshot.conns (v : Snapshot) : List ConnInfo :=
  v.msgs.map fun m => listedConn m (v.owner (msgInode m))

/-- What the frame that starts in `s` sees. -/
def snapshot (s : Sys) (env : BodyEnv) : Snapshot :=
  ⟨if wantsOwners s then frameScan s env else [], env.dump.msgs⟩

/-! ## The picture -/

/-- The drawing of the frame that starts in `s`, if nothing fails before it is drawn. -/
def frameOf (s : Sys) (env : BodyEnv) : Option Frame := do
  let (err, t) ← collect (frameStart s env) env
  if err then none
  else
    let (frame, _) ← drawConnections t env.stk
    return frame

/-- The connections `conns` in the list, under the settings of `s`. -/
def listing (s : Sys) (conns : List ConnInfo) : Sys :=
  { s with n := { s.n with
    extRcv := dumpExt conns, connList := conns, nrConns := i32 conns.length } }

/-- The list has the connections that arrived, in the order that the settings of `s` ask for. -/
structure Ordered (s : Sys) (arrived conns : List ConnInfo) : Prop where
  /-- Each connection is there once. -/
  perm : conns.Perm arrived
  /-- Without a sort key they are in the order in which they arrived. -/
  arrival : s.n.sortKey = none → conns = arrived
  /-- With one, those that have its extension are sorted stably, and the others follow. -/
  sorted : ∀ f g fam, s.sortField = some (some f) → f.sortFunc = some g →
    (∀ ci ∈ arrived, ci.family = fam) →
      ∃ front, conns = front ++ (arrived.filter fun ci => !keyed f ci) ∧
        StableSort (inOrder f g s.n.sortAscending) (· ∈ arrived.filter (keyed f))
          (arrived.filter (keyed f)) front

/-- The connections that the filters let pass, from the vertical position on. -/
def visible (s : Sys) (stk : ConnInfo → FieldInfo → Ptr) : List ConnInfo :=
  (s.n.connList.drop (clampY s.n).toNat).filter fun ci =>
    accepts s.n.extRcv (stk ci) ci s.tcpFields = some true

/-- Line `y` has the texts `text` in the columns of `s`, over nothing or over a wiped line. -/
def LineShows (s : Sys) (y : Int) (attrs : Attrs) (text : Field → List UInt8) (ws : List Write) :
    Prop :=
  ∀ x, ∃ under, Blank under ∧ screen ws (y, x) =
    (screen ((columns s).flatMap (columnWrites s.n y attrs text)) (y, x)).or under

/-- The frame shows the connections `conns` of the snapshot. -/
structure Displays (s : Sys) (env : BodyEnv) (conns : List ConnInfo) (frame : Frame) : Prop where
  ordered : Ordered s (snapshot s env).conns conns
  header : LineShows (listing s conns) 0 { reverse := true } (caption s.n) frame.writes
  rows : ∀ (k : Nat) ci, (visible (listing s conns) env.stk)[k]? = some ci →
    LineShows (listing s conns) (1 + k) {} (cellText s.n ci) frame.writes
  blank : ∀ y x, y < 0 ∨ ((visible (listing s conns) env.stk).length : Int) < y →
    Blank (screen frame.writes (y, x))
  lines : frame.lines = i32 conns.length + 1

/-! ## The owners -/

section

variable {s t u : Sys} {env : BodyEnv}

/-- The mask of the owners in a dump is that with which the frame started. -/
theorem dumpStart_wants (hu : buildSkProcMap (frameStart s env) env.fs = some (false, u)) :
    extIsSet (dumpStart u).n.extReq INET_DIAG_PROC = wantsOwners s := by
  have hn : u.n = builtCtx s.n := buildSkProcMap_n hu
  show extIsSet u.n.extReq INET_DIAG_PROC = wantsOwners s
  rw [hn]
  unfold builtCtx
  split <;> rfl

/-- **Lookups** in the table of the frame are lookups in the scan. -/
theorem ownerOf_snapshot (hs : OwnersSound s) (hpc : s.pc = .top)
    (hu : buildSkProcMap (frameStart s env) env.fs = some (false, u)) {m : Datagram × Nat}
    {owner : Option SkOwner} (howner : ownerOf (dumpStart u) m = some owner) :
    owner = (snapshot s env).owner (msgInode m) := by
  obtain ⟨hpath, -, hempty⟩ := hs.frame hpc env
  unfold ownerOf ownerLookup at howner
  rw [dumpStart_wants hu] at howner
  unfold snapshot Snapshot.owner
  cases hw : wantsOwners s with
  | false =>
      rw [hw] at howner
      cases howner
      simp
  | true =>
      rw [hw, if_pos rfl] at howner
      rcases buildSkProcMap_scan hpath hu with ⟨hoff, -⟩ | ⟨-, hscan, -⟩
      · have hoff : wantsOwners s = false := hoff
        rw [hw] at hoff
        cases hoff
      · obtain ⟨os, -, hos, heq⟩ := hscan.owners
        obtain rfl := heq rfl
        by_cases h0 : msgInode m = 0
        · rw [h0] at howner ⊢
          cases howner
          rfl
        · rw [if_neg h0]
          exact chainStep_first hempty hos h0 howner

/-- The connections of the dump are those of the snapshot. -/
theorem conns_snapshot (hs : OwnersSound s) (hpc : s.pc = .top)
    (hu : buildSkProcMap (frameStart s env) env.fs = some (false, u))
    (ht : connectionsDump u env.dump = some (false, t)) :
    env.dump.msgs.map (connOf (dumpStart u)) = (snapshot s env).conns := by
  obtain ⟨-, -, hdumped⟩ := connectionsDump_ok ht
  refine List.map_congr_left fun m hm => ?_
  obtain ⟨owner, howner⟩ := Option.isSome_iff_exists.mp (hdumped.owners m hm)
  unfold connOf
  rw [howner, Option.getD_some, ownerOf_snapshot hs hpc hu howner]

/-! ## The order -/

/-- Messages added one after the other. -/
theorem dumpAll_added {ms : List (Datagram × Nat)} (h : dumpAll ms s = some (false, t))
    {key : Option FieldInfo} (hkey : s.sortField = some key) :
    (ms.map (connOf s)).foldlM (fun l ci => addConnInfo key s.n.sortAscending ci l)
      s.n.connList = some t.n.connList := by
  induction ms generalizing s with
  | nil =>
      cases h
      rfl
  | cons m ms ih =>
      rw [dumpAll] at h
      obtain ⟨⟨ret, u⟩, hu, h⟩ := bind_some h
      cases ret with
      | true => cases h
      | false =>
          have hdumped := diagStep_dumped (diagDump_step hu)
          have hconn : connOf u = connOf s := by
            funext m'
            unfold connOf ownerOf
            rw [hdumped.frame]
          have hrest := ih h (by rw [← hkey, hdumped.frame]; rfl)
          rw [hconn, show u.n.sortAscending = s.n.sortAscending by rw [hdumped.frame]] at hrest
          cases diagDump_step hu with
          | listed owner key' l _ howner _ hkey' hadd =>
              obtain rfl : key' = key := Option.some.inj (hkey'.symm.trans hkey)
              have hfirst : connOf s m = listedConn m owner := by
                unfold connOf
                rw [howner]
                rfl
              rw [List.map_cons, List.foldlM_cons, hfirst, hadd]
              exact hrest

/-- Nothing before the dump changes how it sorts. -/
theorem dumpStart_sorts (hu : buildSkProcMap (frameStart s env) env.fs = some (false, u)) :
    (dumpStart u).sortField = s.sortField ∧ (dumpStart u).n.sortAscending = s.n.sortAscending := by
  have hui : u.ui = s.ui := (buildSkProcMap_ui hu).trans rfl
  have hkey : u.n.sortKey = s.n.sortKey := congrArg Ui.sortKey hui
  have hfields : u.tcpFields = s.tcpFields := congrArg Ui.tcpFields hui
  refine ⟨?_, congrArg Ui.sortAscending hui⟩
  unfold Sys.sortField Sys.fieldAt
  rw [show (dumpStart u).n.sortKey = s.n.sortKey from hkey,
    show (dumpStart u).tcpFields = s.tcpFields from hfields]

/-- The list that is drawn: the connections of the snapshot, added one after the other. -/
theorem conns_added (hs : OwnersSound s) (hc : ConnsSound s) (hpc : s.pc = .top)
    (hu : buildSkProcMap (frameStart s env) env.fs = some (false, u))
    (ht : connectionsDump u env.dump = some (false, t)) {key : Option FieldInfo}
    (hkey : s.sortField = some key) :
    addConnInfos key s.n.sortAscending (snapshot s env).conns = some t.n.connList := by
  obtain ⟨hall, -, -⟩ := connectionsDump_ok ht
  obtain ⟨hfield, hasc⟩ := dumpStart_sorts hu
  have hadded := dumpAll_added hall (hfield.trans hkey)
  have hempty : (dumpStart u).n.connList = [] := (hc.frame hpc env).empty u hu
  rw [conns_snapshot hs hpc hu ht, hasc, hempty] at hadded
  exact hadded

/-- The sort key is a field of the table. -/
theorem sortField_mem (hinfos : s.infos.Perm (tcpFields.map (·.toFieldInfo))) {f : FieldInfo}
    (hf : s.sortField = some (some f)) : f ∈ tcpFields.map (·.toFieldInfo) := by
  unfold Sys.sortField at hf
  cases hk : s.n.sortKey with
  | none =>
      rw [hk] at hf
      cases hf
  | some k =>
      rw [hk] at hf
      obtain ⟨g, hg, he⟩ := Option.map_eq_some_iff.mp hf
      obtain rfl := Option.some.inj he
      obtain ⟨-, -, hget⟩ := fieldAt_some hg
      exact hinfos.mem_iff.mp (List.mem_map_of_mem (List.mem_of_getElem? hget))

/-- The list that is drawn is in the order asked for. -/
theorem ordered (hs : OwnersSound s) (hc : ConnsSound s)
    (hinfos : s.infos.Perm (tcpFields.map (·.toFieldInfo))) (hpc : s.pc = .top)
    (hu : buildSkProcMap (frameStart s env) env.fs = some (false, u))
    (ht : connectionsDump u env.dump = some (false, t)) :
    Ordered s (snapshot s env).conns t.n.connList := by
  have hperm : t.n.connList.Perm (env.dump.msgs.map (connOf (dumpStart u))) :=
    (collect_extRcv hc hpc hu ht).1
  rw [conns_snapshot hs hpc hu ht] at hperm
  refine ⟨hperm, fun hkey => ?_, fun f g fam hf hg hfam => ?_⟩
  · have hnone : s.sortField = some none := by
      unfold Sys.sortField
      rw [hkey]
    have hadded := conns_added hs hc hpc hu ht hnone
    rw [addConnInfos_none] at hadded
    exact (Option.some.inj hadded).symm
  · have hmem := sortField_mem hinfos hf
    have hadded := conns_added hs hc hpc hu ht hf
    rw [addConnInfos_eq hmem hg hfam] at hadded
    have horders : OrdersOn (connLe f g s.n.sortAscending) fun ci => ci.family = fam :=
      (OrdersOn.of_threeWay (sortRet_threeWay hmem hg s.n.sortAscending fam)).keyed (keyed f)
    obtain ⟨hsplit, hsorted⟩ := (stableSort_foldl horders hfam).split hfam
    rw [Option.some.inj hadded] at hsplit hsorted
    exact ⟨_, hsplit, hsorted⟩

/-! ## The lines -/

theorem shownAt_visible (s : Sys) (stk : ConnInfo → FieldInfo → Ptr) :
    shownAt s stk = visible s stk := by
  unfold shownAt visible
  refine List.filter_congr fun ci _ => ?_
  rw [Bool.eq_iff_iff, decide_eq_true_iff]
  unfold isAccepted
  constructor
  · intro h
    obtain ⟨⟨rewind, w⟩, hdraw, hrewind⟩ := (Option.any_eq_true _ _).mp h
    rw [accepts_of_draw hdraw]
    exact congrArg some hrewind
  · intro h
    obtain ⟨w, hw⟩ := draw_of_accepts (y := 1) h
    rw [hw]
    rfl

/-- The line of an accepted connection has its cells. -/
theorem LineHolds.shows {stk : ConnInfo → FieldInfo → Ptr} {y : Int} {ci : ConnInfo}
    {ws : List Write} (h : LineHolds s stk y ci ws) : LineShows s y {} (cellText s.n ci) ws := by
  obtain ⟨own, hown, hcells⟩ := h
  rw [drawProtocol_row hown] at hcells
  exact hcells

/-- Line 0 has the captions. -/
theorem headerShows {ws : List Write} (h : ∀ x, screen ws (0, x) =
    screen (headerLoop s.n s.tcpFields 0 s.n.posMain.x false) (0, x)) :
    LineShows s 0 { reverse := true } (caption s.n) ws := by
  have hheader : headerLoop s.n s.tcpFields 0 s.n.posMain.x false =
      (columns s).flatMap (columnWrites s.n 0 { reverse := true } (caption s.n)) :=
    headerLoop_columns (show AtColumn 0 false from rfl)
  intro x
  refine ⟨none, Or.inl rfl, ?_⟩
  rw [h x, hheader, Option.or_none]

/-- **A frame** is a picture of its snapshot. -/
theorem displays (hs : OwnersSound s) (hc : ConnsSound s) (hset : SettingsSound s)
    (hinfos : s.infos.Perm (tcpFields.map (·.toFieldInfo))) (hpc : s.pc = .top)
    (hcols : s.n.cols ≤ 4095) {frame : Frame} (h : frameOf s env = some frame) :
    ∃ conns, Displays s env conns frame := by
  obtain ⟨⟨err, t⟩, ht, h⟩ := bind_some h
  cases err with
  | true => cases h
  | false =>
      obtain ⟨⟨frame, v⟩, hv, h⟩ := bind_some h
      cases h
      obtain ⟨u, hu, hdump⟩ := collect_ok ht
      have hui : t.ui = s.ui := (collect_ui ht).trans rfl
      have hext := (collect_extRcv hc hpc hu hdump).2
      have hcount : t.n.nrConns = i32 t.n.connList.length :=
        (collect_counted (s := frameStart s env) (hc.counted.congr rfl rfl) ht).stored
      have halike : DrawsAlike (listing s t.n.connList) t :=
        ⟨hext, congrArg Ui.cols hui, congrArg Ui.family hui,
          congrArg (fun ui : Ui => ui.posMain.x) hui, congrArg Ui.tcpFields hui⟩
      have hclamp : clampY t.n = clampY (listing s t.n.connList).n := by
        unfold clampY
        rw [show t.n.posMain = s.n.posMain from congrArg Ui.posMain hui, hcount]
        rfl
      have hshown : shownAt t env.stk = shownAt (listing s t.n.connList) env.stk := by
        unfold shownAt
        rw [halike.isAccepted, hclamp]
        rfl
      obtain ⟨hrows, hheader, hblank, hlines⟩ :=
        screen_scrolled hv (by rw [halike.cols]; exact hset.cols) (by rw [halike.cols]; exact hcols)
      rw [hshown, shownAt_visible] at hrows hblank
      refine ⟨t.n.connList, ordered hs hc hinfos hpc hu hdump, headerShows fun x => ?_,
        fun k ci hk => (halike.lineHolds (hrows k ci hk)).shows, hblank, by rw [hlines, hcount]⟩
      rw [hheader, halike.headerLoop, halike.tcpFields, halike.x]

end

/-! ## Runs -/

/-- What the frames of a run rely on. -/
structure FramesSound (s : Sys) : Prop where
  owners : OwnersSound s
  conns : ConnsSound s
  settings : SettingsSound s
  infos : s.infos.Perm (tcpFields.map (·.toFieldInfo))

theorem framesSound_start (b : Start) : FramesSound b.state := by
  refine ⟨ownersSound_start b, connsSound_start b, settingsSound_start b, List.Perm.of_eq ?_⟩
  show b.state.ui.tcpFields.map _ = _
  rw [b.ui]
  rfl

theorem framesSound_step {s t : Sys} {e : Event} (hs : FramesSound s) (h : step s e = some t) :
    FramesSound t where
  owners := ownersSound_step hs.owners h
  conns := connsSound_step hs.conns h
  settings := settingsSound_step hs.settings h
  infos := (infos_step h).trans hs.infos

/-- A round of the loop that goes on to wait for a key has drawn, on the main screen. -/
theorem frameOf_drawn {s t : Sys} {env : BodyEnv}
    (hmain : s.n.curScreen = .main) (h : step s (.body env) = some t) (ht : t.pc = .wait) :
    ∃ frame, frameOf s env = some frame := by
  rw [step] at h
  split at h
  · unfold mainBody at h
    rw [if_neg (by simp [hmain])] at h
    obtain ⟨⟨err, u⟩, hu, h⟩ := bind_some h
    have hu : collect (frameStart s env) env = some (err, u) := hu
    unfold frameOf
    rw [hu]
    cases err with
    | true =>
        cases h
        cases ht
    | false =>
        obtain ⟨⟨frame, v⟩, hv, -⟩ := bind_some h
        refine ⟨frame, ?_⟩
        show ((drawConnections u env.stk).bind fun r => some r.1) = some frame
        rw [hv]
        rfl
  · cases h

/-- **In every run every frame shows its snapshot**, up to the width that the buffer of
`nm_mvwprintw` has room for. -/
theorem frames_display (b : Start) (es : List Event) :
    Always step (fun s => s.n.curScreen = .main → s.n.cols ≤ 4095 → ∀ env t,
      step s (.body env) = some t → t.pc = .wait →
        ∃ frame conns, frameOf s env = some frame ∧ Displays s env conns frame) es b.state := by
  have hinv : Always step FramesSound es b.state :=
    always_of_invariant (fun _ _ _ => framesSound_step) (framesSound_start b)
  refine always_mono (fun s hs hmain hcols env t h ht => ?_) hinv
  obtain ⟨frame, hframe⟩ := frameOf_drawn hmain h ht
  obtain ⟨conns, hd⟩ :=
    displays hs.owners hs.conns hs.settings hs.infos (step_body h).1 hcols hframe
  exact ⟨frame, conns, hframe, hd⟩

end Sockmon

import Sockmon.Proc.Table

set_option autoImplicit false

/-! # What a frame leaves alone

The body of the main loop collects the connections and draws them. Of what the user sees and
steers (`Ui`) it changes only the vertical position of the connection list, which
`draw_connections` clamps.
-/

namespace Sockmon

/-- The members of `struct nm_ctx` that the keys change, and the field table. -/
structure Ui where
  tcpFields : List Field
  selField : Option Nat
  sortKey : Option Int
  sortAscending : Bool
  curScreen : Screen
  posField : Position
  posMain : Position
  lines : Int
  cols : Int
  delay : Int
  shouldStop : Bool
  family : Nat
  protocol : Nat
  extReq : BitVec 32

def Sys.ui (s : Sys) : Ui :=
  { tcpFields := s.tcpFields, selField := s.n.selField, sortKey := s.n.sortKey,
    sortAscending := s.n.sortAscending, curScreen := s.n.curScreen, posField := s.n.posField,
    posMain := s.n.posMain, lines := s.n.lines, cols := s.n.cols, delay := s.n.delay,
    shouldStop := s.n.shouldStop, family := s.n.family, protocol := s.n.protocol,
    extReq := s.n.extReq }

/-! ## The start -/

theorem getProcMountPath_ui (s : Sys) (env : ProcInitEnv) :
    (getProcMountPath s env).2.ui = s.ui := by
  unfold getProcMountPath
  split
  · rfl
  · split
    · rfl
    · dsimp only
      split <;> rfl

theorem procInit_ui {s t : Sys} {env : ProcInitEnv} {ret : Bool}
    (h : procInit s env = some (ret, t)) : t.ui = s.ui := by
  have hpath := getProcMountPath_ui s env
  unfold procInit at h
  dsimp only at h
  split at h
  · cases h; exact hpath
  · split at h
    · cases h; exact hpath
    · split at h
      · cases h
      · rw [← hpath]
        split at h
        · obtain ⟨path, -, h⟩ := bind_some h
          split at h <;> (cases h; rfl)
        · obtain ⟨path, -, h⟩ := bind_some h
          split at h <;> (cases h; rfl)

/-- The user interface at the start. -/
theorem Start.ui (b : Start) : b.state.ui = (Sys.boot b.size b.allocs).ui := procInit_ui b.ok

/-! ## Scanning for socket owners -/

theorem addSkIno_ui {s t : Sys} {inode : Nat} {pid : Int} {comm : List UInt8} {ret : Bool}
    (h : addSkIno s inode pid comm = some (ret, t)) : t.ui = s.ui := by
  rcases addSkIno_cases h with ⟨-, m, as, -, -, rfl⟩ | ⟨-, -, rfl⟩
  · rfl
  · rfl

theorem skInoMakeMap_ui {pid : Int} {comm : List UInt8} {ents : List (Option FdEnt)} {s t : Sys}
    {ret : Bool} (h : skInoMakeMap pid comm ents s = some (ret, t)) : t.ui = s.ui := by
  refine skInoMakeMap_rule (R := fun _ _ s t => t.ui = s.ui) (fun _ => rfl) ?_ ?_ h
  · exact fun s t u inode os ret ht hrest => hrest.trans (addSkIno_ui ht)
  · exact fun s t inode os ht => addSkIno_ui ht

theorem procLoop_ui {fs : ProcFs} {ents : List (Option ProcEnt)} {s t : Sys} {ret : Bool}
    (h : procLoop fs ents s = some (ret, t)) : t.ui = s.ui := by
  refine procLoop_rule (R := fun _ s t => t.ui = s.ui) (fun _ _ => rfl) ?_ ?_ ?_ h
  · exact fun s path r t hst => hst
  · exact fun _ _ _ s t u r hst hrest => hrest.trans (skInoMakeMap_ui hst)
  · exact fun _ _ _ s t hst => skInoMakeMap_ui hst

theorem buildSkProcMap_ui {s t : Sys} {fs : ProcFs} {ret : Bool}
    (h : buildSkProcMap s fs = some (ret, t)) : t.ui = s.ui := by
  unfold buildSkProcMap at h
  split at h
  · cases h; rfl
  · obtain ⟨⟨r, s₁⟩, hs₁, h⟩ := bind_some h
    rw [← procLoop_ui hs₁]
    dsimp only at h
    split at h <;> (cases h; rfl)

theorem freeSkProcMap_ui {s t : Sys} {resize ret : Bool}
    (h : freeSkProcMap s resize = some (ret, t)) : t.ui = s.ui := by
  unfold freeSkProcMap at h
  split at h
  · cases h; rfl
  · dsimp only at h
    obtain ⟨i, -, h⟩ := bind_some h
    obtain ⟨hb, -, h⟩ := bind_some h
    split at h
    · cases h
    · split at h
      · split at h <;> (cases h; rfl)
      · cases h; rfl

/-! ## Receiving the dump -/

theorem diagDump_ui {s t : Sys} {d : Datagram} {nlh : Nat} {ret : Bool}
    (h : diagDump s d nlh = some (ret, t)) : t.ui = s.ui := by
  unfold diagDump at h
  dsimp only at h
  split at h
  · cases h; rfl
  · obtain ⟨owner, -, h⟩ := bind_some h
    split at h
    · cases h
    · cases h; rfl
    · obtain ⟨key, -, h⟩ := bind_some h
      obtain ⟨l, -, h⟩ := bind_some h
      cases h; rfl

theorem nlmsgLoop_ui {d : Datagram} {fuel nlh : Nat} {sz : Int} {s t : Sys} {how : MsgEnd}
    (h : nlmsgLoop d fuel nlh sz s = some (how, t)) : t.ui = s.ui := by
  induction fuel generalizing nlh sz s with
  | zero => cases h
  | succ fuel ih =>
      rw [nlmsgLoop] at h
      split at h
      · cases h; rfl
      · split at h
        · cases h; rfl
        · split at h
          · split at h <;> (cases h; rfl)
          · obtain ⟨⟨r, s₁⟩, hs₁, h⟩ := bind_some h
            have hui : s₁.ui = s.ui := diagDump_ui hs₁
            dsimp only at h
            split at h
            · cases h; exact hui
            · calc t.ui = s₁.ui := ih h
                _ = s.ui := hui

theorem recvLoop_ui {ds : List (Option Datagram)} {s t : Sys} {ret : Bool}
    (h : recvLoop ds s = some (ret, t)) : t.ui = s.ui := by
  induction ds generalizing s with
  | nil => cases h
  | cons d ds ih =>
      cases d with
      | none => cases h; rfl
      | some d =>
          rw [recvLoop] at h
          obtain ⟨⟨how, s₁⟩, hs₁, h⟩ := bind_some h
          have hui : s₁.ui = s.ui := nlmsgLoop_ui hs₁
          cases how with
          | done => cases h; exact hui
          | err => cases h; exact hui
          | next =>
              calc t.ui = s₁.ui := ih h
                _ = s.ui := hui

theorem connectionsDump_ui {s t : Sys} {env : DumpEnv} {ret : Bool}
    (h : connectionsDump s env = some (ret, t)) : t.ui = s.ui := by
  unfold connectionsDump at h
  split at h
  · cases h; rfl
  · exact (recvLoop_ui h).trans rfl

theorem collect_ui {s t : Sys} {env : BodyEnv} {err : Bool} (h : collect s env = some (err, t)) :
    t.ui = s.ui := by
  unfold collect at h
  obtain ⟨⟨e, s₁⟩, hs₁, h⟩ := bind_some h
  have hui : s₁.ui = s.ui := buildSkProcMap_ui hs₁
  dsimp only at h
  split at h
  · cases h; exact hui
  · calc t.ui = s₁.ui := connectionsDump_ui h
      _ = s.ui := hui

/-! ## Drawing and leaving -/

theorem drawConnections_ui {s t : Sys} {stk : ConnInfo → FieldInfo → Ptr} {frame : Frame}
    (h : drawConnections s stk = some (frame, t)) :
    t.ui = { s.ui with posMain := ⟨clampY s.n, s.n.posMain.x⟩ } := by
  unfold drawConnections at h
  dsimp only at h
  obtain ⟨rows, -, h⟩ := bind_some h
  obtain ⟨⟨r, s₁⟩, hs₁, h⟩ := bind_some h
  cases h
  exact freeSkProcMap_ui hs₁

/-- **A frame** changes nothing of the user interface but where the list is scrolled to: there
it leaves a position that `draw_connections` has clamped for some number of connections. -/
theorem mainBody_ui {s t : Sys} {env : BodyEnv} (h : mainBody s env = some t) :
    t.ui = s.ui ∨
      ∃ n : NmCtx, n.posMain = s.n.posMain ∧
        t.ui = { s.ui with posMain := ⟨clampY n, s.n.posMain.x⟩ } := by
  unfold mainBody at h
  split at h
  · cases h; exact Or.inl rfl
  · obtain ⟨⟨err, s₁⟩, hs₁, h⟩ := bind_some h
    have hui : s₁.ui = s.ui := (collect_ui hs₁).trans rfl
    dsimp only at h
    split at h
    · cases h; exact Or.inl hui
    · obtain ⟨⟨frame, s₂⟩, hs₂, h⟩ := bind_some h
      have hdraw := drawConnections_ui hs₂
      have hpos : s₁.n.posMain = s.n.posMain := congrArg Ui.posMain hui
      cases h
      refine Or.inr ⟨s₁.n, hpos, ?_⟩
      calc s₂.ui = { s₁.ui with posMain := ⟨clampY s₁.n, s₁.n.posMain.x⟩ } := hdraw
        _ = { s.ui with posMain := ⟨clampY s₁.n, s.n.posMain.x⟩ } := by rw [hui, hpos]

theorem mainExit_ui {s t : Sys} {closedir : Bool} (h : mainExit s closedir = some t) :
    t.ui = s.ui := by
  unfold mainExit procExit at h
  obtain ⟨s₁, hs₁, h⟩ := bind_some h
  dsimp only at hs₁
  obtain ⟨⟨r, s₂⟩, hs₂, hs₁⟩ := bind_some hs₁
  have hui := freeSkProcMap_ui hs₂
  cases h
  cases hs₁
  calc (nmCtxExit _).ui = s₂.ui := rfl
    _ = (if closedir = true then s else s.nmPerror "pric: closedir").ui := hui
    _ = s.ui := by split <;> rfl

end Sockmon

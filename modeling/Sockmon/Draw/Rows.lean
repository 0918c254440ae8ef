import Sockmon.Lib.SkipFilter
import Sockmon.Draw.Verdict

set_option autoImplicit false

/-! # The rows of the connection list

`draw_connections` skips, filters and draws in one loop: it counts the position down over all
connections, and wipes off what it drew of one that is rejected. `drawnRows` is that loop with
the rows that stay in place of the writes. The view it gives is the filtered list without its
first `pos.y` entries only under a condition (`scrollLaw_iff`), since rejected connections use
up scroll steps too.
-/

namespace Sockmon

open SkipFilter

/-! ## What stays on the screen -/

/-- The rows that the loop of `draw_connections` leaves, with their lines. -/
def drawnRows (s : Sys) (stk : ConnInfo → FieldInfo → Ptr) :
    List ConnInfo → Int → Int → Option (List (Int × ConnInfo))
  | [], _, _ => some []
  | ci :: cis, y, skipY =>
      if 0 < skipY then drawnRows s stk cis y (skipY - 1)
      else do
        let (rewind, _) ← drawProtocol s (stk ci) y ci
        if rewind then drawnRows s stk cis y skipY
        else return (y, ci) :: (← drawnRows s stk cis (y + 1) skipY)

/-- The writes `w` draw the rows `rows`, one below the other, and wipe off the rest. -/
inductive Draws (s : Sys) (stk : ConnInfo → FieldInfo → Ptr) :
    List (Int × ConnInfo) → List Write → Prop
  | nil : Draws s stk [] []
  | row (y ci w rows ws) : drawProtocol s (stk ci) y ci = some (false, w) → Draws s stk rows ws →
      Draws s stk ((y, ci) :: rows) (w ++ ws)
  | wiped (y ci w rows ws) : drawProtocol s (stk ci) y ci = some (true, w) →
      Draws s stk rows ws →
      Draws s stk rows (w ++ nmMvwprintw s.n.cols y 0 (padLeft s.n.cols.toNat []) ++ ws)

section

variable {s : Sys} {stk : ConnInfo → FieldInfo → Ptr} {conns : List ConnInfo} {y skipY : Int}

theorem rowLoop_draws {w : List Write} (h : rowLoop s stk conns y skipY = some w) :
    ∃ rows, drawnRows s stk conns y skipY = some rows ∧ Draws s stk rows w := by
  induction conns generalizing y skipY w with
  | nil =>
      cases h
      exact ⟨[], rfl, .nil⟩
  | cons ci cis ih =>
      rw [rowLoop] at h
      rw [drawnRows]
      by_cases hskip : 0 < skipY
      · rw [if_pos hskip] at h ⊢
        exact ih h
      · rw [if_neg hskip] at h ⊢
        obtain ⟨⟨rewind, w₁⟩, hdraw, h⟩ := bind_some h
        rw [hdraw]
        cases rewind with
        | true =>
            obtain ⟨ws, hws, h⟩ := bind_some h
            obtain ⟨rows, hrows, hd⟩ := ih hws
            cases h
            exact ⟨rows, hrows, .wiped y ci w₁ rows ws hdraw hd⟩
        | false =>
            obtain ⟨ws, hws, h⟩ := bind_some h
            obtain ⟨rows, hrows, hd⟩ := ih hws
            cases h
            refine ⟨(y, ci) :: rows, ?_, .row y ci w₁ rows ws hdraw hd⟩
            show ((drawnRows s stk cis (y + 1) skipY).bind fun r => some ((y, ci) :: r)) = _
            rw [hrows]
            rfl

end

/-- The state behind the clamp of `draw_connections`. -/
def clamped (s : Sys) : Sys :=
  { s with n := { s.n with posMain := { s.n.posMain with y := clampY s.n } } }

/-- `draw_connections` draws the header and the rows that the position leaves. -/
theorem drawConnections_rows {s t : Sys} {stk : ConnInfo → FieldInfo → Ptr} {frame : Frame}
    (h : drawConnections s stk = some (frame, t)) :
    ∃ rows w, drawnRows (clamped s) stk s.n.connList 1 (clampY s.n) = some rows ∧
      Draws (clamped s) stk rows w ∧
      frame.writes = headerLoop (clamped s).n s.tcpFields 0 s.n.posMain.x false ++ w := by
  obtain ⟨w, hw, h⟩ := bind_some h
  obtain ⟨⟨ret, u⟩, -, h⟩ := bind_some h
  cases h
  obtain ⟨rows, hrows, hdraws⟩ := rowLoop_draws hw
  exact ⟨rows, w, hrows, hdraws, rfl⟩

/-! ## Which rows stay -/

/-- `draw_protocol` does not reject the connection; on which line makes no difference. -/
def isAccepted (s : Sys) (stk : ConnInfo → FieldInfo → Ptr) (ci : ConnInfo) : Bool :=
  (drawProtocol s (stk ci) 1 ci).any fun r => !r.1

/-- `draw_protocol` has a result for the connection. -/
def HasVerdict (s : Sys) (stk : ConnInfo → FieldInfo → Ptr) (ci : ConnInfo) : Prop :=
  (drawProtocol s (stk ci) 1 ci).isSome

theorem isAccepted_of_draw {s : Sys} {stk : ConnInfo → FieldInfo → Ptr} {ci : ConnInfo} {y : Int}
    {rewind : Bool} {w : List Write} (h : drawProtocol s (stk ci) y ci = some (rewind, w)) :
    HasVerdict s stk ci ∧ isAccepted s stk ci = !rewind := by
  obtain ⟨w', hw'⟩ := draw_of_accepts (y := 1) (accepts_of_draw h)
  rw [Bool.not_not] at hw'
  unfold HasVerdict isAccepted
  rw [hw']
  exact ⟨rfl, rfl⟩

theorem HasVerdict.draw {s : Sys} {stk : ConnInfo → FieldInfo → Ptr} {ci : ConnInfo}
    (h : HasVerdict s stk ci) (y : Int) :
    ∃ rewind w, drawProtocol s (stk ci) y ci = some (rewind, w) := by
  obtain ⟨⟨rewind, w⟩, hw⟩ := Option.isSome_iff_exists.mp h
  obtain ⟨w', hw'⟩ := draw_of_accepts (y := y) (accepts_of_draw hw)
  exact ⟨_, w', hw'⟩

/-- Connections on one line each, from line `y` on. -/
def numbered (y : Int) : List ConnInfo → List (Int × ConnInfo)
  | [] => []
  | ci :: cis => (y, ci) :: numbered (y + 1) cis

theorem numbered_snd (y : Int) (cis : List ConnInfo) : (numbered y cis).map (·.2) = cis := by
  induction cis generalizing y with
  | nil => rfl
  | cons ci cis ih => rw [numbered, List.map_cons, ih]

theorem numbered_inj {y : Int} {cis cis' : List ConnInfo} :
    numbered y cis = numbered y cis' ↔ cis = cis' := by
  constructor
  · intro h
    rw [← numbered_snd y cis, h, numbered_snd]
  · intro h
    rw [h]

section

variable {s : Sys} {stk : ConnInfo → FieldInfo → Ptr} {conns : List ConnInfo} {y skipY : Int}

/-- A step of the loop that skips. -/
theorem drop_of_skip {ci : ConnInfo} (h : 0 < skipY) :
    (ci :: conns).drop skipY.toNat = conns.drop (skipY - 1).toNat := by
  obtain ⟨k, hk⟩ : ∃ k : Nat, skipY = k + 1 := ⟨skipY.toNat - 1, by omega⟩
  have hk' : skipY.toNat = k + 1 := by omega
  have hk₁ : (skipY - 1).toNat = k := by omega
  rw [hk', hk₁, List.drop_succ_cons]

/-- **The rows that stay** are those of the accepted connections behind the first `skipY`. -/
theorem drawnRows_eq (h : ∀ ci ∈ conns.drop skipY.toNat, HasVerdict s stk ci) :
    drawnRows s stk conns y skipY =
      some (numbered y ((conns.drop skipY.toNat).filter (isAccepted s stk))) := by
  induction conns generalizing y skipY with
  | nil => simp [drawnRows, numbered]
  | cons ci cis ih =>
      rw [drawnRows]
      -- the counter drops connections unasked; from zero on the verdict decides
      by_cases hskip : 0 < skipY
      · rw [drop_of_skip hskip] at h ⊢
        rw [if_pos hskip]
        exact ih h
      · have hzero : skipY.toNat = 0 := by omega
        rw [hzero, List.drop_zero] at h ⊢
        rw [if_neg hskip]
        obtain ⟨hci, hcis⟩ := List.forall_mem_cons.mp h
        obtain ⟨rewind, w, hw⟩ := hci.draw y
        have haccepted := (isAccepted_of_draw hw).2
        have hrest : ∀ y', drawnRows s stk cis y' skipY =
            some (numbered y' (cis.filter (isAccepted s stk))) := by
          intro y'
          have hcis' : ∀ ci ∈ cis.drop skipY.toNat, HasVerdict s stk ci := by
            rw [hzero]
            exact hcis
          have := ih (y := y') hcis'
          rwa [hzero] at this
        rw [hw]
        cases rewind with
        | true =>
            rw [List.filter_cons_of_neg (by simp [haccepted])]
            exact hrest y
        | false =>
            rw [List.filter_cons_of_pos (by simp [haccepted])]
            show ((drawnRows s stk cis (y + 1) skipY).bind fun r => some ((y, ci) :: r)) = _
            rw [hrest]
            rfl

/-- The loop goes through only if it has a result for every connection it does not skip. -/
theorem drawnRows_verdicts {rows : List (Int × ConnInfo)}
    (h : drawnRows s stk conns y skipY = some rows) :
    ∀ ci ∈ conns.drop skipY.toNat, HasVerdict s stk ci := by
  induction conns generalizing y skipY rows with
  | nil => simp
  | cons ci cis ih =>
      rw [drawnRows] at h
      by_cases hskip : 0 < skipY
      · rw [if_pos hskip] at h
        rw [drop_of_skip hskip]
        exact ih h
      · rw [if_neg hskip] at h
        have hzero : skipY.toNat = 0 := by omega
        rw [hzero, List.drop_zero, List.forall_mem_cons]
        obtain ⟨⟨rewind, w⟩, hdraw, h⟩ := bind_some h
        refine ⟨(isAccepted_of_draw hdraw).1, ?_⟩
        have hrest : ∀ y' rows', drawnRows s stk cis y' skipY = some rows' →
            ∀ ci ∈ cis, HasVerdict s stk ci := by
          intro y' rows' h'
          have := ih h'
          rwa [hzero, List.drop_zero] at this
        cases rewind with
        | true => exact hrest y rows h
        | false =>
            obtain ⟨rows', hrows', -⟩ := bind_some h
            exact hrest (y + 1) rows' hrows'

end

/-! ## The law -/

/-- The connections that the position `y` leaves on the screen, from top to bottom. -/
def shownConns (s : Sys) (stk : ConnInfo → FieldInfo → Ptr) (y : Int) : Option (List ConnInfo) :=
  (drawnRows s stk s.n.connList 1 y).map fun rows => rows.map (·.2)

/-- The view at the position that the clamp has left. -/
structure ScrollLaw (s : Sys) (stk : ConnInfo → FieldInfo → Ptr) : Prop where
  /-- It is the filtered list without its first `pos.y` entries. -/
  rows : drawnRows s stk s.n.connList 1 s.n.posMain.y =
    some (numbered 1 ((s.n.connList.filter (isAccepted s stk)).drop s.n.posMain.y.toNat))
  /-- Scrolling down by one takes its top row away. -/
  down : s.n.posMain.y + 1 < s.n.nrConns →
    shownConns s stk (s.n.posMain.y + 1) = (shownConns s stk s.n.posMain.y).map List.tail

/-- No connection above the position is rejected, nor the one there, or none from there on is
accepted. -/
structure NoneRejectedAbove (s : Sys) (stk : ConnInfo → FieldInfo → Ptr) : Prop where
  verdicts : ∀ ci ∈ s.n.connList.drop s.n.posMain.y.toNat, HasVerdict s stk ci
  above : (∀ ci ∈ s.n.connList.take s.n.posMain.y.toNat, isAccepted s stk ci = true) ∨
    ∀ ci ∈ s.n.connList.drop s.n.posMain.y.toNat, isAccepted s stk ci = false
  top : s.n.posMain.y + 1 < s.n.nrConns →
    (0 ≤ s.n.posMain.y ∧
      ∃ ci, s.n.connList[s.n.posMain.y.toNat]? = some ci ∧ isAccepted s stk ci = true) ∨
    ∀ ci ∈ s.n.connList.drop s.n.posMain.y.toNat, isAccepted s stk ci = false

section

variable {s : Sys} {stk : ConnInfo → FieldInfo → Ptr}

theorem shownConns_eq {y : Int} (h : ∀ ci ∈ s.n.connList.drop y.toNat, HasVerdict s stk ci) :
    shownConns s stk y = some ((s.n.connList.drop y.toNat).filter (isAccepted s stk)) := by
  unfold shownConns
  rw [drawnRows_eq h, Option.map_some, numbered_snd]

theorem rows_iff (h : ∀ ci ∈ s.n.connList.drop s.n.posMain.y.toNat, HasVerdict s stk ci) :
    drawnRows s stk s.n.connList 1 s.n.posMain.y =
        some (numbered 1 ((s.n.connList.filter (isAccepted s stk)).drop s.n.posMain.y.toNat)) ↔
      (∀ ci ∈ s.n.connList.take s.n.posMain.y.toNat, isAccepted s stk ci = true) ∨
        ∀ ci ∈ s.n.connList.drop s.n.posMain.y.toNat, isAccepted s stk ci = false := by
  rw [drawnRows_eq h, Option.some.injEq, numbered_inj]
  exact drop_filter_iff

theorem down_iff (h : ∀ ci ∈ s.n.connList.drop s.n.posMain.y.toNat, HasVerdict s stk ci) :
    shownConns s stk (s.n.posMain.y + 1) = (shownConns s stk s.n.posMain.y).map List.tail ↔
      (0 ≤ s.n.posMain.y ∧
        ∃ ci, s.n.connList[s.n.posMain.y.toNat]? = some ci ∧ isAccepted s stk ci = true) ∨
      ∀ ci ∈ s.n.connList.drop s.n.posMain.y.toNat, isAccepted s stk ci = false := by
  have h' : ∀ ci ∈ s.n.connList.drop (s.n.posMain.y + 1).toNat, HasVerdict s stk ci := by
    intro ci hci
    refine h ci (List.drop_subset_drop_left _ ?_ hci)
    omega
  rw [shownConns_eq h, shownConns_eq h', Option.map_some, Option.some.injEq]
  by_cases hy : 0 ≤ s.n.posMain.y
  · have hsucc : (s.n.posMain.y + 1).toNat = s.n.posMain.y.toNat + 1 := by omega
    rw [hsucc, filter_drop_succ]
    simp only [hy, true_and]
  · -- A position above the list shows the whole of it, and so does the next.
    have hzero : s.n.posMain.y.toNat = 0 := by omega
    have hzero' : (s.n.posMain.y + 1).toNat = 0 := by omega
    rw [hzero, hzero', eq_tail_iff, List.filter_eq_nil_iff]
    simp [hy]

/-- **Scrolling works on the filtered view exactly if no rejected connection is scrolled over.** The
rows of the view are what `draw_connections` leaves of its writes (`drawConnections_rows`). -/
theorem scrollLaw_iff (s : Sys) (stk : ConnInfo → FieldInfo → Ptr) :
    ScrollLaw s stk ↔ NoneRejectedAbove s stk := by
  constructor
  · intro h
    have hverdicts := drawnRows_verdicts h.rows
    exact ⟨hverdicts, (rows_iff hverdicts).mp h.rows,
      fun hlt => (down_iff hverdicts).mp (h.down hlt)⟩
  · intro h
    exact ⟨(rows_iff h.verdicts).mpr h.above, fun hlt => (down_iff h.verdicts).mpr (h.top hlt)⟩

end

/-- A state on the main screen whose filter asks for remote port 22, with these connections. -/
def Sys.port22 (conns : List ConnInfo) (y : Int) : Sys :=
  { Start.quiet.state with
    n := { Start.quiet.state.n with
      extRcv := bit INET_DIAG_NONE ||| bit INET_DIAG_ADDRESS
      posMain := ⟨y, 0⟩
      nrConns := conns.length
      connList := conns }
    tcpFields := [{ (Sockmon.tcpFields.getD 4 (heading "" 0)) with
      filterOn := true, filter := some ⟨.eq, .v 22⟩ }] }

/-- A connection to the port `port`. -/
def ConnInfo.toPort (port : UInt8) : ConnInfo :=
  { img := fun i => if i = 31 then port else 0
    ext := bit INET_DIAG_NONE ||| bit INET_DIAG_ADDRESS }

/-- Of three connections the first is rejected. Scrolled down by one the view still has both
others: the step was used up by the rejected one. -/
theorem scroll_over_rejected : ¬ ∀ (s : Sys) (stk : ConnInfo → FieldInfo → Ptr),
    s.n.posMain.y = clampY s.n → ScrollLaw s stk := by
  intro h
  let conns := [ConnInfo.toPort 80, ConnInfo.toPort 22, ConnInfo.toPort 22]
  have hlaw := h (Sys.port22 conns 1) (fun _ _ _ => 0) (by decide +kernel)
  have hrows := congrArg (Option.map List.length) hlaw.rows
  have hcode : (drawnRows (Sys.port22 conns 1) (fun _ _ _ => 0) conns 1 1).map List.length =
      some 2 := by decide +kernel
  have hlaw' : (numbered 1 ((conns.filter
      (isAccepted (Sys.port22 conns 1) fun _ _ _ => 0)).drop 1)).length = 1 := by
    decide +kernel
  have hcontra : some 2 = some 1 := by
    calc some 2 = (drawnRows (Sys.port22 conns 1) (fun _ _ _ => 0) conns 1 1).map List.length :=
          hcode.symm
      _ = some (numbered 1 ((conns.filter
          (isAccepted (Sys.port22 conns 1) fun _ _ _ => 0)).drop 1)).length := hrows
      _ = some 1 := by rw [hlaw']
  exact absurd hcontra (by decide)

end Sockmon

import Sockmon.Draw.Cells

set_option autoImplicit false

/-! # The window at any position

Drawing reads the field table, the extensions received, the size of the window and the position,
and nothing else of the state (`DrawsAlike`). Skipping the connections above the position is
dropping them from the list (`rowLoop_drop`), so the window is described at any position as it
is at the top (`screen_scrolled`).
-/

namespace Sockmon

/-- The two states agree on what drawing reads. -/
structure DrawsAlike (s s' : Sys) : Prop where
  extRcv : s'.n.extRcv = s.n.extRcv
  cols : s'.n.cols = s.n.cols
  family : s'.n.family = s.n.family
  x : s'.n.posMain.x = s.n.posMain.x
  tcpFields : s'.tcpFields = s.tcpFields

section

variable {s s' t : Sys} {stk : ConnInfo → FieldInfo → Ptr}

theorem DrawsAlike.drawProtocolLoop (h : DrawsAlike s s') (stk : FieldInfo → Ptr) (y : Int)
    (ci : ConnInfo) (fs : List Field) (x skipX : Int) (drawn : Bool) :
    drawProtocolLoop s'.n stk y ci fs x skipX drawn =
      Sockmon.drawProtocolLoop s.n stk y ci fs x skipX drawn := by
  induction fs generalizing x skipX drawn with
  | nil => rfl
  | cons f fs ih =>
      unfold Sockmon.drawProtocolLoop
      simp only [ih, h.extRcv, h.cols, h.family]

theorem DrawsAlike.drawProtocol (h : DrawsAlike s s') (stk : FieldInfo → Ptr) (y : Int)
    (ci : ConnInfo) : drawProtocol s' stk y ci = Sockmon.drawProtocol s stk y ci := by
  unfold Sockmon.drawProtocol
  rw [h.drawProtocolLoop, h.tcpFields, h.x]

theorem DrawsAlike.headerLoop (h : DrawsAlike s s') (fs : List Field) (x skipX : Int)
    (drawn : Bool) :
    headerLoop s'.n fs x skipX drawn = Sockmon.headerLoop s.n fs x skipX drawn := by
  induction fs generalizing x skipX drawn with
  | nil => rfl
  | cons f fs ih =>
      unfold Sockmon.headerLoop
      simp only [ih, h.extRcv, h.cols, h.family]

theorem DrawsAlike.rowLoop (h : DrawsAlike s s') (cis : List ConnInfo) (y skipY : Int) :
    rowLoop s' stk cis y skipY = Sockmon.rowLoop s stk cis y skipY := by
  induction cis generalizing y skipY with
  | nil => rfl
  | cons ci cis ih =>
      unfold Sockmon.rowLoop
      simp only [ih, h.cols, h.drawProtocol]

theorem DrawsAlike.isAccepted (h : DrawsAlike s s') :
    isAccepted s' stk = Sockmon.isAccepted s stk := by
  funext ci
  unfold Sockmon.isAccepted
  rw [h.drawProtocol]

theorem DrawsAlike.lineHolds (h : DrawsAlike s s') {y : Int} {ci : ConnInfo} {ws : List Write}
    (hl : LineHolds s' stk y ci ws) : LineHolds s stk y ci ws := by
  obtain ⟨own, hown, hcells⟩ := hl
  rw [h.drawProtocol] at hown
  exact ⟨own, hown, hcells⟩

theorem drawsAlike_clamped (s : Sys) : DrawsAlike s (clamped s) := ⟨rfl, rfl, rfl, rfl, rfl⟩

/-! ## The position -/

/-- **Skipping** connections is dropping them. -/
theorem rowLoop_drop (s : Sys) (stk : ConnInfo → FieldInfo → Ptr) (cis : List ConnInfo)
    (y skipY : Int) : rowLoop s stk cis y skipY = rowLoop s stk (cis.drop skipY.toNat) y 0 := by
  induction cis generalizing y skipY with
  | nil => simp [rowLoop]
  | cons ci cis ih =>
      by_cases hskip : 0 < skipY
      · rw [drop_of_skip hskip, ← ih, rowLoop, if_pos hskip]
      · have hzero : skipY.toNat = 0 := by omega
        have hrest : ∀ y', rowLoop s stk cis y' skipY = rowLoop s stk cis y' 0 := by
          intro y'
          rw [ih, hzero, List.drop_zero]
        rw [hzero, List.drop_zero, rowLoop, rowLoop, if_neg hskip, if_neg (lt_irrefl 0)]
        simp only [hrest]

theorem drawConnections_scrolled {frame : Frame} (h : drawConnections s stk = some (frame, t)) :
    ∃ w, rowLoop s stk (s.n.connList.drop (clampY s.n).toNat) 1 0 = some w ∧
      frame.writes = headerLoop s.n s.tcpFields 0 s.n.posMain.x false ++ w ∧
      frame.lines = s.n.nrConns + 1 := by
  have hsame := drawsAlike_clamped s
  obtain ⟨w, hw, h⟩ := bind_some h
  obtain ⟨⟨ret, u⟩, -, h⟩ := bind_some h
  cases h
  refine ⟨w, ?_, ?_, rfl⟩
  · rw [← rowLoop_drop, ← hsame.rowLoop]
    exact hw
  · rw [← hsame.headerLoop]
    rfl

/-- The connections that have a line. -/
def shownAt (s : Sys) (stk : ConnInfo → FieldInfo → Ptr) : List ConnInfo :=
  (s.n.connList.drop (clampY s.n).toNat).filter (isAccepted s stk)

/-- **The window at any position**: the lines below the header have the accepted connections from
the position on, and the lines below them are blank. -/
theorem screen_scrolled {frame : Frame} (h : drawConnections s stk = some (frame, t))
    (hcols : 0 < s.n.cols) (hcols' : s.n.cols ≤ 4095) :
    (∀ (k : Nat) ci, (shownAt s stk)[k]? = some ci → LineHolds s stk (1 + k) ci frame.writes) ∧
    (∀ x, screen frame.writes (0, x) =
      screen (headerLoop s.n s.tcpFields 0 s.n.posMain.x false) (0, x)) ∧
    (∀ y x, y < 0 ∨ ((shownAt s stk).length : Int) < y → Blank (screen frame.writes (y, x))) ∧
    frame.lines = s.n.nrConns + 1 := by
  obtain ⟨w, hrows, hwrites, hlines⟩ := drawConnections_scrolled h
  have hbelow : ∀ v ∈ w, 1 ≤ v.y := fun v hv => (rowLoop_lines hrows v hv).1
  have hshown : RowsHold s stk 1 (shownAt s stk) w := rowLoop_screen hcols hcols' hrows
  rw [hwrites]
  refine ⟨fun k ci hk => ?_, fun x => ?_, fun y x hyx => ?_, hlines⟩
  · obtain ⟨own, hown, hcells⟩ := hshown.lines k ci hk
    refine ⟨own, hown, fun x => ?_⟩
    obtain ⟨under, hunder, hx⟩ := hcells x
    refine ⟨under, hunder, ?_⟩
    rw [screen_header hbelow, if_neg (by dsimp only; omega), hx]
  · rw [screen_header hbelow, if_pos rfl]
  · rw [screen_header hbelow, if_neg (by dsimp only; omega)]
    rcases hyx with hyx | hyx
    · exact Or.inl (screen_of_ne fun v hv => by have := hbelow v hv; dsimp only; omega)
    · exact hshown.below _ (by dsimp only; omega)

end

end Sockmon

import Sockmon.Run.Keys

set_option autoImplicit false

/-! # The cursors stay in range

The cursor of the field screen points into the field table, and the position of the connection
list is not negative (`CursorsInRange`), as long as no key meets one of the cases of
`PagingSafe`: on a terminal of one or two lines half a page is `-1`, so paging down from the
first row, or up from the last, leaves the range; and the position of the connection list is
not kept below `INT_MAX`.
-/

namespace Sockmon

open Transition

def CursorsInRange (s : Sys) : Prop :=
  0 ≤ s.n.posField.y ∧ s.n.posField.y < s.nrTcpFields ∧ 0 ≤ s.n.posMain.y ∧ 0 ≤ s.n.posMain.x

/-- What keeps a key from moving a cursor out of its range. -/
def PagingSafe (s : Sys) (i : Input) : Prop :=
  (fieldKey s i = some .pgdn → ¬(s.n.posField.y = 0 ∧ s.n.lines ≤ 2)) ∧
  (fieldKey s i = some .pgup → ¬(s.n.posField.y = s.nrTcpFields - 1 ∧ s.n.lines ≤ 2)) ∧
  (mainKey s i = some .keyPgdn →
    ¬(s.n.posMain.y = 0 ∧ s.n.lines ≤ 2) ∧ s.n.posMain.y + pageStep s.n ≤ INT_MAX) ∧
  (mainKey s i = some .keyDown → s.n.posMain.y < INT_MAX) ∧
  (mainKey s i = some .keyRight → s.n.posMain.x < INT_MAX)

/-- The bounds that hold in any case. -/
structure Bounds (s : Sys) : Prop where
  nrTcpFields : s.nrTcpFields = 139
  lines_pos : 0 < s.n.lines
  lines_le : s.n.lines ≤ INT_MAX
  y_le : s.n.posMain.y ≤ INT_MAX
  x_le : s.n.posMain.x ≤ INT_MAX

/-! ## Half a page -/

/-- Half a page is negative on terminals of one or two lines only, and then it is `-1`. -/
theorem pageStep_range {n : NmCtx} (h : 0 < n.lines) (hle : n.lines ≤ INT_MAX) :
    (n.lines ≤ 2 ∧ pageStep n = -1) ∨
      (2 < n.lines ∧ 0 ≤ pageStep n ∧ pageStep n ≤ 1073741821) := by
  unfold pageStep INT_MAX at *
  obtain hl | hl | hl | hl : n.lines = 1 ∨ n.lines = 2 ∨ n.lines = 3 ∨ 4 ≤ n.lines := by omega
  · rw [hl]; decide
  · rw [hl]; decide
  · rw [hl]; decide
  · rw [Int.tdiv_eq_ediv_of_nonneg (by omega)]
    omega

theorem clampY_nonneg {n : NmCtx} : 0 ≤ clampY n ↔ 0 ≤ n.posMain.y := by
  unfold clampY
  split_ifs <;> omega

theorem clampY_le {n : NmCtx} (h : n.posMain.y ≤ INT_MAX) : clampY n ≤ INT_MAX := by
  unfold clampY INT_MAX at *
  split_ifs <;> omega

/-! ## Quiet steps -/

theorem cursorsInRange_quiet {s t : Sys} (h : Quiet s t) :
    CursorsInRange t ↔ CursorsInRange s := by
  unfold CursorsInRange Sys.nrTcpFields
  rw [h.tcpFields, h.posField]
  rcases h with h | ⟨n, hn, h⟩
  · have hm : t.n.posMain = s.n.posMain := congrArg Ui.posMain h
    rw [hm]
  · have hm : t.n.posMain = ⟨clampY n, s.n.posMain.x⟩ := congrArg Ui.posMain h
    rw [hm, clampY_nonneg, hn]

theorem bounds_quiet {s t : Sys} (h : Quiet s t) (hs : Bounds s) : Bounds t := by
  have hm : t.n.posMain.y ≤ INT_MAX ∧ t.n.posMain.x ≤ INT_MAX := by
    rcases h with h | ⟨n, hn, h⟩
    · have hm : t.n.posMain = s.n.posMain := congrArg Ui.posMain h
      rw [hm]
      exact ⟨hs.y_le, hs.x_le⟩
    · have hm : t.n.posMain = ⟨clampY n, s.n.posMain.x⟩ := congrArg Ui.posMain h
      rw [hm]
      exact ⟨clampY_le (by rw [hn]; exact hs.y_le), hs.x_le⟩
  constructor
  · unfold Sys.nrTcpFields; rw [h.tcpFields]; exact hs.nrTcpFields
  · rw [h.lines]; exact hs.lines_pos
  · rw [h.lines]; exact hs.lines_le
  · exact hm.1
  · exact hm.2

/-! ## One key -/

theorem posMainAfter_le {s : Sys} (hs : Bounds s) (h : MainHandler) :
    (posMainAfter s h).y ≤ INT_MAX ∧ (posMainAfter s h).x ≤ INT_MAX := by
  have hy := hs.y_le
  have hx := hs.x_le
  cases h with
  | keyDown | keyPgdn => exact ⟨(i32_range _).2, hx⟩
  | keyRight => exact ⟨hy, (i32_range _).2⟩
  | keyUp =>
      refine ⟨?_, hx⟩
      dsimp only [posMainAfter]
      split_ifs <;> omega
  | keyLeft =>
      refine ⟨hy, ?_⟩
      dsimp only [posMainAfter]
      split_ifs <;> omega
  | keyPgup =>
      refine ⟨?_, hx⟩
      have hi := (i32_range (s.n.posMain.y - pageStep s.n)).2
      have h0 : (0 : Int) ≤ INT_MAX := by decide
      dsimp only [posMainAfter]
      split_ifs <;> omega
  | quit | ip | ip6 | delay | field | help | tcp | udp => exact ⟨hy, hx⟩

theorem bounds_input {s t : Sys} {i : Input} (hs : Bounds s) (hi : InputStep s i t) :
    Bounds t := by
  cases hi with
  | idle => exact hs
  | resize => exact ⟨hs.nrTcpFields, i.size.lines_pos, i.size.lines_le, hs.y_le, hs.x_le⟩
  | help => exact ⟨hs.nrTcpFields, hs.lines_pos, hs.lines_le, hs.y_le, hs.x_le⟩
  | field k t hc hk hstep =>
      constructor
      · rw [hstep.nrTcpFields]; exact hs.nrTcpFields
      · rw [hstep.lines]; exact hs.lines_pos
      · rw [hstep.lines]; exact hs.lines_le
      · rw [hstep.posMain]; exact hs.y_le
      · rw [hstep.posMain]; exact hs.x_le
  | main k t hk hrun =>
      have hle := posMainAfter_le hs k
      constructor
      · unfold Sys.nrTcpFields; rw [MainHandler.tcpFields hrun]; exact hs.nrTcpFields
      · rw [MainHandler.lines hrun]; exact hs.lines_pos
      · rw [MainHandler.lines hrun]; exact hs.lines_le
      · rw [MainHandler.posMain hrun]; exact hle.1
      · rw [MainHandler.posMain hrun]; exact hle.2

/-- A key of the field screen keeps the cursor in the table exactly if it is no page key of
the unsafe kind. -/
theorem cursorAfter_inRange {s : Sys} (hb : Bounds s) (hs : CursorsInRange s)
    (h : FieldHandler) :
    (0 ≤ cursorAfter s h ∧ cursorAfter s h < s.nrTcpFields) ↔
      (h = .pgdn → ¬(s.n.posField.y = 0 ∧ s.n.lines ≤ 2)) ∧
      (h = .pgup → ¬(s.n.posField.y = s.nrTcpFields - 1 ∧ s.n.lines ≤ 2)) := by
  obtain ⟨h0, hlt, -, -⟩ := hs
  have hnr := hb.nrTcpFields
  have hpage := pageStep_range hb.lines_pos hb.lines_le
  cases h with
  | pgdn =>
      have hi : i32 (s.n.posField.y + pageStep s.n) = s.n.posField.y + pageStep s.n :=
        i32_of_range (by unfold INT_MAX; omega)
      dsimp only [cursorAfter]
      rw [hi]
      simp only [true_implies, reduceCtorEq, false_implies, and_true]
      split_ifs <;> omega
  | pgup =>
      have hi : i32 (s.n.posField.y - pageStep s.n) = s.n.posField.y - pageStep s.n :=
        i32_of_range (by unfold INT_MAX; omega)
      dsimp only [cursorAfter]
      rw [hi]
      simp only [true_implies, reduceCtorEq, false_implies, true_and]
      split_ifs <;> omega
  | keyDown | keyUp =>
      dsimp only [cursorAfter]
      simp only [reduceCtorEq, false_implies, and_true, iff_true]
      split_ifs <;> omega
  | quit | space | filter | pin | sort | keyLeft | keyRight =>
      simp only [reduceCtorEq, false_implies, and_true, iff_true]
      exact ⟨h0, hlt⟩

/-- A key of the main screen keeps the position of the list from getting negative exactly if
it pages up from the top by accident or steps over `INT_MAX` in no way. -/
theorem posMainAfter_nonneg {s : Sys} (hb : Bounds s) (hs : CursorsInRange s)
    (h : MainHandler) :
    (0 ≤ (posMainAfter s h).y ∧ 0 ≤ (posMainAfter s h).x) ↔
      (h = .keyPgdn →
        ¬(s.n.posMain.y = 0 ∧ s.n.lines ≤ 2) ∧ s.n.posMain.y + pageStep s.n ≤ INT_MAX) ∧
      (h = .keyDown → s.n.posMain.y < INT_MAX) ∧ (h = .keyRight → s.n.posMain.x < INT_MAX) := by
  obtain ⟨-, -, hy, hx⟩ := hs
  have hyle := hb.y_le
  have hxle := hb.x_le
  have hpage := pageStep_range hb.lines_pos hb.lines_le
  cases h with
  | keyDown | keyRight | keyPgdn =>
      simp only [posMainAfter, i32, INT_MAX, true_implies, reduceCtorEq, false_implies, true_and,
        and_true] at *
      omega
  | keyUp | keyLeft | keyPgup =>
      simp only [posMainAfter, reduceCtorEq, false_implies, and_true, iff_true]
      split_ifs <;> omega
  | quit | ip | ip6 | delay | field | help | tcp | udp =>
      simp only [reduceCtorEq, false_implies, and_true, iff_true]
      exact ⟨hy, hx⟩

/-- **One key** keeps the cursors in range exactly if it is safe. -/
theorem cursorsInRange_input {s t : Sys} {i : Input} (hb : Bounds s) (hs : CursorsInRange s)
    (hi : InputStep s i t) : CursorsInRange t ↔ PagingSafe s i := by
  have hnone : mainKey s i = none → fieldKey s i = none → PagingSafe s i := by
    intro hm hf
    simp [PagingSafe, hm, hf]
  cases hi with
  | idle hm hf => exact iff_of_true hs (hnone hm hf)
  | resize hm hf => exact iff_of_true hs (hnone hm hf)
  | help hc hm hf => exact iff_of_true hs (hnone hm hf)
  | field k t hc hk hstep =>
      have hkey := cursorAfter_inRange hb hs k
      have hpos : t.n.posField.y = cursorAfter s k := by rw [hstep.posField]
      have hm := mainKey_of_fieldKey hk
      unfold CursorsInRange PagingSafe
      rw [hpos, hstep.nrTcpFields, hstep.posMain, hk, hm]
      simp only [Option.some.injEq, reduceCtorEq, false_implies, and_true]
      rw [← hkey]
      exact ⟨fun h => ⟨h.1, h.2.1⟩, fun h => ⟨h.1, h.2, hs.2.2.1, hs.2.2.2⟩⟩
  | main k t hk hrun =>
      have hkey := posMainAfter_nonneg hb hs k
      have hf := fieldKey_of_mainKey hk
      unfold CursorsInRange PagingSafe Sys.nrTcpFields
      rw [MainHandler.posField hrun, MainHandler.tcpFields hrun, MainHandler.posMain hrun, hk, hf]
      simp only [Option.some.injEq, reduceCtorEq, false_implies, true_and]
      rw [← hkey]
      exact ⟨fun h => h.2.2, fun h => ⟨hs.1, hs.2.1, h⟩⟩

/-! ## Whole runs -/

/-- **The cursors stay in range in a run exactly if all its keys are safe.** -/
theorem cursorsInRange_iff (b : Start) (es : List Event) :
    Always step CursorsInRange es b.state ↔ Meets step (OnInput PagingSafe) es b.state := by
  refine always_iff_keys (J := Bounds) b es (fun _ _ => bounds_quiet)
    (fun _ _ => cursorsInRange_quiet) (fun _ _ _ => Iff.rfl) (fun _ _ _ => bounds_input)
    (fun _ _ _ => cursorsInRange_input) ?_ ?_
  · exact ⟨rfl, b.size.lines_pos, b.size.lines_le, by show (0 : Int) ≤ INT_MAX; decide,
      by show (0 : Int) ≤ INT_MAX; decide⟩
  · exact ⟨le_refl _, by show (0 : Int) < 139; decide, le_refl _, le_refl _⟩

/-- On a terminal of two lines, paging down from the first field leaves the table. -/
theorem cursor_leaves_table : ¬ Always step CursorsInRange
    [.quiet, .resize 2 (by decide), .quiet, .press (key 'f') [], .quiet, .press KEY_NPAGE []]
    Start.quiet.state :=
  not_always_of_exec (f := fun s => s.n.posField.y) (a := -1) (by decide +kernel)
    fun t ht h => absurd h.1 (by rw [ht]; decide)

end Sockmon

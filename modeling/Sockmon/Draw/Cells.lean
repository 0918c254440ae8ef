import Mathlib.Data.UInt
import Sockmon.Lib.Writes
import Sockmon.Draw.Rows

set_option autoImplicit false

/-! # The cells of the connection list

`draw_protocol` may have drawn some columns of a connection when a filter rejects it. Then the
line is wiped and used again. What counts is the text written last to each cell
(`screen_lines`): a line keeps the columns of one accepted connection, or nothing.
-/

namespace Sockmon

/-! ## Cells -/

/-- The character that the write `w` prints into the cell at line `p.1` and column `p.2`. -/
def Write.char (w : Write) (p : Int × Int) : Option UInt8 :=
  if w.y = p.1 ∧ w.x ≤ p.2 then w.text[(p.2 - w.x).toNat]? else none

/-- The text written last to each cell. -/
def screen (ws : List Write) : Int × Int → Option UInt8 := Writes.last Write.char ws

/-- The cell was not written, or holds a blank. -/
def Blank (c : Option UInt8) : Prop := c = none ∨ c = some 32

/-- The writes are to line `y`, from column `x` on and inside the window. -/
def Inside (cols y x : Int) (ws : List Write) : Prop :=
  ∀ w ∈ ws, w.y = y ∧ x ≤ w.x ∧ w.x + w.text.length ≤ cols

section

variable {cols y x x' : Int} {ws ws' : List Write} {p : Int × Int} {c c' d : Option UInt8}

theorem screen_append (ws ws' : List Write) (p : Int × Int) :
    screen (ws ++ ws') p = (screen ws' p).or (screen ws p) :=
  Writes.last_append ws ws' p

theorem screen_singleton (w : Write) (p : Int × Int) : screen [w] p = w.char p :=
  Option.none_or

/-- A line that is not written to. -/
theorem screen_of_ne (h : ∀ w ∈ ws, w.y ≠ p.1) : screen ws p = none :=
  Writes.last_eq_none fun w hw => if_neg fun hp => h w hw hp.1

/-- Nothing is written to the right of the window. -/
theorem Inside.screen_outside (h : Inside cols y x ws) (hp : p.2 < x ∨ cols ≤ p.2) :
    screen ws p = none := by
  refine Writes.last_eq_none fun w hw => ?_
  obtain ⟨-, hx, hend⟩ := h w hw
  unfold Write.char
  split_ifs with hcell
  · rw [List.getElem?_eq_none_iff]
    omega
  · rfl

theorem Inside.append (h : Inside cols y x ws) (h' : Inside cols y x ws') :
    Inside cols y x (ws ++ ws') := by
  intro w hw
  rcases List.mem_append.mp hw with hw | hw
  · exact h w hw
  · exact h' w hw

theorem Inside.mono (h : Inside cols y x ws) (hx : x' ≤ x) : Inside cols y x' ws := by
  intro w hw
  obtain ⟨hy, hw', hend⟩ := h w hw
  exact ⟨hy, hx.trans hw', hend⟩

theorem nmMvwprintw_inside (cols y x : Int) (text : List UInt8) (attrs : Attrs) :
    Inside cols y x (nmMvwprintw cols y x text attrs) := by
  intro w hw
  unfold nmMvwprintw at hw
  dsimp only at hw
  split_ifs at hw with hleft
  · cases hw
  · rw [List.mem_singleton] at hw
    subst hw
    refine ⟨rfl, le_rfl, ?_⟩
    have hlen : ((text.take 4095).take (min text.length (cols - x).toNat)).length ≤
        (cols - x).toNat := by
      rw [List.length_take, List.length_take]
      omega
    show x + (((text.take 4095).take (min text.length (cols - x).toNat)).length : Int) ≤ cols
    omega

theorem Blank.or (h : Blank c) (h' : Blank c') : Blank (c.or c') := by
  rcases h with rfl | rfl
  · exact h'
  · exact Or.inr rfl

/-- What the wipe of `draw_connections` prints. -/
theorem wipe_eq (hcols : 0 < cols) (hcols' : cols ≤ 4095) :
    nmMvwprintw cols y 0 (padLeft cols.toNat []) = [⟨y, 0, List.replicate cols.toNat 32, {}⟩] := by
  have hleft : ¬ cols - 0 ≤ 0 := by omega
  have hlen : min cols.toNat (cols - 0).toNat = cols.toNat := by
    rw [Int.sub_zero, Nat.min_self]
  unfold nmMvwprintw padLeft
  rw [if_neg hleft]
  simp only [List.append_nil, List.length_nil, Nat.sub_zero, List.length_replicate]
  rw [hlen, List.take_replicate, List.take_replicate]
  congr 3
  omega

/-- The wipe blanks every cell of its line, and no other. -/
theorem screen_wipe (hcols : 0 < cols) (hcols' : cols ≤ 4095) :
    screen (nmMvwprintw cols y 0 (padLeft cols.toNat [])) p =
      if p.1 = y ∧ 0 ≤ p.2 ∧ p.2 < cols then some 32 else none := by
  rw [wipe_eq hcols hcols', screen_singleton]
  unfold Write.char
  dsimp only
  by_cases hp : y = p.1 ∧ 0 ≤ p.2
  · rw [if_pos hp, Int.sub_zero, List.getElem?_replicate]
    by_cases hx : p.2 < cols
    · rw [if_pos (by omega), if_pos ⟨hp.1.symm, hp.2, hx⟩]
    · rw [if_neg (by omega), if_neg fun h => hx h.2.2]
  · rw [if_neg hp, if_neg fun h => hp ⟨h.1.symm, h.2.1⟩]

/-- So nothing is left of what was drawn there. -/
theorem blank_wiped (hcols : 0 < cols) (hcols' : cols ≤ 4095) (h : Inside cols y 0 ws) :
    Blank (screen (ws ++ nmMvwprintw cols y 0 (padLeft cols.toNat [])) p) := by
  rw [screen_append, screen_wipe hcols hcols']
  split_ifs with hp
  · exact Or.inr rfl
  · rw [Option.none_or]
    by_cases hy : p.1 = y
    · exact Or.inl (h.screen_outside (by omega))
    · exact Or.inl (screen_of_ne fun w hw hwy => hy (hwy.symm.trans (h w hw).1))

end

/-! ## The rows -/

section

variable {s : Sys} {stk : ConnInfo → FieldInfo → Ptr} {conns : List ConnInfo} {ci : ConnInfo}
  {y : Int} {rewind : Bool} {w ws : List Write}

theorem cellWrites_inside (n : NmCtx) (y : Int) (ci : ConnInfo) (x : Int) (drawn : Bool)
    (f : Field) : Inside n.cols y x (cellWrites n y ci x drawn f) := by
  unfold cellWrites
  cases drawn with
  | true =>
      exact (nmMvwprintw_inside _ _ _ _ _).append
        ((nmMvwprintw_inside _ _ _ _ _).mono (by show x ≤ x + 1; omega))
  | false => exact nmMvwprintw_inside _ _ _ _ _

/-- All the field loop prints is on its line, and in the window. -/
theorem drawProtocolLoop_inside {n : NmCtx} {stk : FieldInfo → Ptr} {fs : List Field}
    {x skipX : Int} {drawn : Bool}
    (h : drawProtocolLoop n stk y ci fs x skipX drawn = some (rewind, w)) :
    Inside n.cols y x w := by
  induction fs generalizing x skipX drawn rewind w with
  | nil =>
      cases h
      intro w hw
      cases hw
  | cons f fs ih =>
      cases hcol : f.hasColumn n.extRcv with
      | false =>
          rw [drawProtocolLoop_noColumn hcol] at h
          exact ih h
      | true =>
          rw [drawProtocolLoop_column hcol] at h
          obtain ⟨pass, -, h⟩ := bind_some h
          cases pass with
          | false =>
              cases h
              intro w hw
              cases hw
          | true =>
              rw [if_pos rfl] at h
              by_cases hskip : 0 < skipX ∧ (!f.pinned) = true
              · rw [if_pos hskip] at h
                exact ih h
              · rw [if_neg hskip] at h
                obtain ⟨⟨rewind', w'⟩, hrest, h⟩ := Option.map_eq_some_iff.mp h
                cases h
                refine (cellWrites_inside n y ci x drawn f).append ((ih hrest).mono ?_)
                split_ifs <;> omega

theorem drawProtocol_inside (h : drawProtocol s (stk ci) y ci = some (rewind, w)) :
    Inside s.n.cols y 0 w :=
  drawProtocolLoop_inside h

/-- The lines that the loop writes to. -/
theorem rowLoop_lines (h : rowLoop s stk conns y 0 = some ws) :
    ∀ w ∈ ws, y ≤ w.y ∧ w.y < y + conns.length := by
  induction conns generalizing y ws with
  | nil =>
      cases h
      intro w hw
      cases hw
  | cons ci cis ih =>
      rw [rowLoop, if_neg (lt_irrefl 0)] at h
      obtain ⟨⟨rewind, w₁⟩, hdraw, h⟩ := bind_some h
      have hown := drawProtocol_inside hdraw
      have hwipe := nmMvwprintw_inside s.n.cols y 0 (padLeft s.n.cols.toNat []) {}
      have hlen : ((ci :: cis).length : Int) = cis.length + 1 := by simp
      -- a rejected connection wipes its line, and the next one is drawn there
      cases rewind with
      | true =>
          obtain ⟨ws', hws', h⟩ := bind_some h
          cases h
          intro w hw
          rcases List.mem_append.mp hw with hw | hw
          · have hy := (hown.append hwipe w hw).1
            omega
          · have hy := ih hws' w hw
            omega
      | false =>
          obtain ⟨ws', hws', h⟩ := bind_some h
          cases h
          intro w hw
          rcases List.mem_append.mp hw with hw | hw
          · have hy := (hown w hw).1
            omega
          · have hy := ih hws' w hw
            omega

/-- What line `y + k` holds: the cells of the connection `ci`, drawn over nothing or over a
wiped line. -/
def LineHolds (s : Sys) (stk : ConnInfo → FieldInfo → Ptr) (y : Int) (ci : ConnInfo)
    (ws : List Write) : Prop :=
  ∃ own, drawProtocol s (stk ci) y ci = some (false, own) ∧
    ∀ x, ∃ under, Blank under ∧ screen ws (y, x) = (screen own (y, x)).or under

/-- From line `y` on there is a line for each of the connections, and below them it is blank. -/
structure RowsHold (s : Sys) (stk : ConnInfo → FieldInfo → Ptr) (y : Int) (shown : List ConnInfo)
    (ws : List Write) : Prop where
  lines : ∀ (k : Nat) ci, shown[k]? = some ci → LineHolds s stk (y + k) ci ws
  below : ∀ p : Int × Int, y + shown.length ≤ p.1 → Blank (screen ws p)

/-- A rejected connection leaves its line blank for the next. -/
theorem RowsHold.rejected {shown : List ConnInfo} (h : RowsHold s stk y shown ws)
    (hw : ∀ p, Blank (screen w p)) : RowsHold s stk y shown (w ++ ws) where
  lines k ci hk := by
    obtain ⟨own, hdraw, hcells⟩ := h.lines k ci hk
    refine ⟨own, hdraw, fun x => ?_⟩
    obtain ⟨under, hunder, hx⟩ := hcells x
    refine ⟨_, hunder.or (hw (y + k, x)), ?_⟩
    rw [screen_append, hx, Option.or_assoc]
  below p hp := by
    rw [screen_append]
    exact (h.below p hp).or (hw p)

/-- An accepted connection keeps its line: all that follows is written below it. -/
theorem RowsHold.accepted {shown : List ConnInfo} (h : RowsHold s stk (y + 1) shown ws)
    (hdraw : drawProtocol s (stk ci) y ci = some (false, w)) (hws : ∀ v ∈ ws, y + 1 ≤ v.y) :
    RowsHold s stk y (ci :: shown) (w ++ ws) := by
  have hown := drawProtocol_inside hdraw
  -- the row writes line `y` and the lines below are written after it: neither covers the other
  have habove : ∀ p : Int × Int, p.1 ≠ y → screen w p = none := fun p hp =>
    screen_of_ne fun v hv => by rw [(hown v hv).1]; exact hp.symm
  refine ⟨fun k ci' hk => ?_, fun p hp => ?_⟩
  · cases k with
    | zero =>
        cases hk
        refine ⟨w, by simpa using hdraw, fun x => ⟨none, Or.inl rfl, ?_⟩⟩
        have hrest : screen ws (y + (0 : Nat), x) = none := by
          refine screen_of_ne fun v hv => ?_
          have := hws v hv
          simp only [Nat.cast_zero]
          omega
        rw [screen_append, hrest, Option.none_or, Option.or_none]
    | succ k =>
        obtain ⟨own, hdraw', hcells⟩ := h.lines k ci' hk
        have hline : y + ((k + 1 : Nat) : Int) = y + 1 + k := by omega
        rw [hline]
        refine ⟨own, hdraw', fun x => ?_⟩
        obtain ⟨under, hunder, hx⟩ := hcells x
        refine ⟨under, hunder, ?_⟩
        rw [screen_append, habove _ (by dsimp only; omega), Option.or_none, hx]
  · rw [List.length_cons] at hp
    rw [screen_append, habove p (by omega), Option.or_none]
    exact h.below p (by omega)

/-- **The lines of the rows** hold the accepted connections. The induction is on the list. -/
theorem rowLoop_screen (hcols : 0 < s.n.cols) (hcols' : s.n.cols ≤ 4095)
    (h : rowLoop s stk conns y 0 = some ws) :
    RowsHold s stk y (conns.filter (isAccepted s stk)) ws := by
  induction conns generalizing y ws with
  | nil =>
      cases h
      exact ⟨by simp, fun p _ => Or.inl rfl⟩
  | cons ci cis ih =>
      rw [rowLoop, if_neg (lt_irrefl 0)] at h
      obtain ⟨⟨rewind, w⟩, hdraw, h⟩ := bind_some h
      have haccepted := (isAccepted_of_draw hdraw).2
      cases rewind with
      | true =>
          obtain ⟨ws', hws', h⟩ := bind_some h
          cases h
          rw [List.filter_cons_of_neg (by simp [haccepted])]
          exact (ih hws').rejected fun _ => blank_wiped hcols hcols' (drawProtocol_inside hdraw)
      | false =>
          obtain ⟨ws', hws', h⟩ := bind_some h
          cases h
          rw [List.filter_cons_of_pos (by simp [haccepted])]
          exact (ih hws').accepted hdraw fun v hv => (rowLoop_lines hws' v hv).1

/-- The header is on line 0. -/
theorem headerLoop_line {n : NmCtx} {fs : List Field} {x skipX : Int} {drawn : Bool} :
    ∀ w ∈ headerLoop n fs x skipX drawn, w.y = 0 := by
  induction fs generalizing x skipX drawn with
  | nil =>
      intro w hw
      cases hw
  | cons f fs ih =>
      rw [headerLoop]
      by_cases hend : n.cols ≤ x
      · rw [if_pos hend]
        intro w hw
        cases hw
      · rw [if_neg hend]
        by_cases hcol : (!f.enabled || f.drawRow.isNone || !hasBit n.extRcv f.extRcv) = true
        · rw [if_pos hcol]
          exact ih
        · rw [if_neg hcol]
          by_cases hskip : 0 < skipX ∧ (!f.pinned) = true
          · rw [if_pos hskip]
            exact ih
          · rw [if_neg hskip]
            intro w hw
            rcases List.mem_append.mp hw with hw | hw
            · rcases List.mem_append.mp hw with hw | hw
              · split_ifs at hw with hdrawn
                · exact (nmMvwprintw_inside _ _ _ _ _ w hw).1
                · cases hw
              · exact (nmMvwprintw_inside _ _ _ _ _ w hw).1
            · exact ih w hw

/-- At its top the list is drawn from its first connection on. -/
theorem drawConnections_top {s t : Sys} {stk : ConnInfo → FieldInfo → Ptr} {frame : Frame}
    (h : drawConnections s stk = some (frame, t)) (hy : s.n.posMain.y = 0) :
    ∃ w, rowLoop s stk s.n.connList 1 0 = some w ∧
      frame.writes = headerLoop s.n s.tcpFields 0 s.n.posMain.x false ++ w ∧
      frame.lines = s.n.nrConns + 1 := by
  have hclamp : clampY s.n = 0 := by
    unfold clampY
    rw [hy]
    split_ifs <;> omega
  have hsame : clamped s = s := by
    unfold clamped
    rw [hclamp, ← hy]
  obtain ⟨w, hw, h⟩ := bind_some h
  obtain ⟨⟨ret, u⟩, -, h⟩ := bind_some h
  cases h
  have hw' : rowLoop (clamped s) stk s.n.connList 1 (clampY s.n) = some w := hw
  rw [hsame, hclamp] at hw'
  refine ⟨w, hw', ?_, rfl⟩
  show headerLoop (clamped s).n s.tcpFields 0 s.n.posMain.x false ++ w = _
  rw [hsame]

/-- Line 0 of the window is that of the header, and the others are those of the rows. -/
theorem screen_header {n : NmCtx} {fs : List Field} {x skipX : Int} {drawn : Bool}
    (hw : ∀ v ∈ w, 1 ≤ v.y) (p : Int × Int) :
    screen (headerLoop n fs x skipX drawn ++ w) p =
      if p.1 = 0 then screen (headerLoop n fs x skipX drawn) p else screen w p := by
  rw [screen_append]
  split_ifs with hp
  · have hrows : screen w p = none := screen_of_ne fun v hv => by have := hw v hv; omega
    rw [hrows, Option.none_or]
  · have hhead : screen (headerLoop n fs x skipX drawn) p = none :=
      screen_of_ne fun v hv => by rw [headerLoop_line v hv]; exact fun h => hp h.symm
    rw [hhead, Option.or_none]

end

/-- **What the window shows.** With the list at its top, line `k + 1` has the cells of the `k`-th
accepted connection and of no other, the header is on line 0, and the other lines are blank. If
`nr_conns` counts the list, all writes are inside the window. -/
theorem screen_lines {s t : Sys} {stk : ConnInfo → FieldInfo → Ptr} {frame : Frame}
    (h : drawConnections s stk = some (frame, t)) (hy : s.n.posMain.y = 0)
    (hcols : 0 < s.n.cols) (hcols' : s.n.cols ≤ 4095) :
    (∀ (k : Nat) ci, (s.n.connList.filter (isAccepted s stk))[k]? = some ci →
      LineHolds s stk (1 + k) ci frame.writes) ∧
    (∀ x, screen frame.writes (0, x) =
      screen (headerLoop s.n s.tcpFields 0 s.n.posMain.x false) (0, x)) ∧
    (∀ y x, y < 0 ∨ ((s.n.connList.filter (isAccepted s stk)).length : Int) < y →
      Blank (screen frame.writes (y, x))) ∧
    (s.n.nrConns = s.n.connList.length → ∀ w ∈ frame.writes, 0 ≤ w.y ∧ w.y ≤ s.n.nrConns) ∧
    frame.lines = s.n.nrConns + 1 := by
  obtain ⟨w, hrows, hwrites, hframe⟩ := drawConnections_top h hy
  have hbelow : ∀ v ∈ w, 1 ≤ v.y := fun v hv => (rowLoop_lines hrows v hv).1
  have hshown := rowLoop_screen hcols hcols' hrows
  rw [hwrites]
  refine ⟨fun k ci hk => ?_, fun x => ?_, fun y x hyx => ?_, fun hconns v hv => ?_, hframe⟩
  · obtain ⟨own, hown, hcells⟩ := hshown.lines k ci hk
    refine ⟨own, hown, fun x => ?_⟩
    obtain ⟨under, hunder, hx⟩ := hcells x
    refine ⟨under, hunder, ?_⟩
    rw [screen_header hbelow, if_neg (by dsimp only; omega), hx]
  · rw [screen_header hbelow, if_pos rfl]
  · rw [screen_header hbelow, if_neg (by dsimp only; omega)]
    rcases hyx with hyx | hyx
    · exact Or.inl (screen_of_ne fun v hv => by have := hbelow v hv; dsimp only; omega)
    · exact hshown.below _ (by dsimp only; omega)
  · rcases List.mem_append.mp hv with hv | hv
    · have hline : v.y = 0 := headerLoop_line v hv
      omega
    · have hline := rowLoop_lines hrows v hv
      omega

/-- Of a connection to port 80 the state is drawn before its port is rejected; one to port 22
takes its line. -/
theorem screen_lines_port22 :
    let conns := [ConnInfo.toPort 80, ConnInfo.toPort 22]
    let state : Field := { (tcpFields.getD 5 (heading "" 0)) with enabled := true }
    let s := { Sys.port22 conns 0 with tcpFields := state :: (Sys.port22 conns 0).tcpFields }
    (drawProtocol s (fun _ => 0) 1 (ConnInfo.toPort 80)).map
        (fun r => (r.1, r.2.map (·.text))) = some (true, [bytes "          ?"]) ∧
      ∃ frame t, drawConnections s (fun _ _ _ => 0) = some (frame, t) ∧
        LineHolds s (fun _ _ _ => 0) 1 (ConnInfo.toPort 22) frame.writes ∧
        ∀ x, Blank (screen frame.writes (2, x)) := by
  intro conns state s
  refine ⟨by decide +kernel, ?_⟩
  have hsome : (drawConnections s fun _ _ _ => 0).isSome = true := by decide +kernel
  have hshown : conns.filter (isAccepted s fun _ _ _ => 0) = [ConnInfo.toPort 22] := by
    rw [List.filter_cons_of_neg (by decide +kernel), List.filter_cons_of_pos (by decide +kernel),
      List.filter_nil]
  obtain ⟨⟨frame, t⟩, h⟩ := Option.isSome_iff_exists.mp hsome
  obtain ⟨hlines, -, hrest, -⟩ := screen_lines h rfl (by decide +kernel) (by decide +kernel)
  refine ⟨frame, t, h, ?_, fun x => hrest 2 x (Or.inr ?_)⟩
  · exact hlines 0 _ (by show (conns.filter _)[0]? = _; rw [hshown]; rfl)
  · show ((conns.filter _).length : Int) < 2
    rw [hshown]
    decide

end Sockmon

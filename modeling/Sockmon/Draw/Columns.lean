import Mathlib.Data.UInt
import Sockmon.Lib.Layout
import Sockmon.Draw.Cells

set_option autoImplicit false

/-! # The columns of the connection list

`draw_connections` prints the header and `draw_protocol` the rows, each with a loop of its own
that skips fields, keeps the pinned ones, counts columns and packs widths. The loops end
differently: the header stops at the right margin, a row goes on. Both are compared with one
table of the columns of the frame (`columns`): the header prints its captions there
(`headerLoop_columns`) and an accepted connection its cells (`drawProtocolLoop_columns`).
-/

namespace Sockmon

open Layout

/-- The fields that are drawn, with the columns they start at. -/
def columns (s : Sys) : List (Field × Int) :=
  place (fun f => columnWidth s.n.family f.toFieldInfo) 0
    (scroll (·.pinned) s.n.posMain.x.toNat (s.tcpFields.filter (·.hasColumn s.n.extRcv)))

/-- What is printed on line `y` for a column with the text `text`: left of every column but the
first one stands a blank. -/
def columnWrites (n : NmCtx) (y : Int) (attrs : Attrs) (text : Field → List UInt8)
    (c : Field × Int) : List Write :=
  (if 0 < c.2 then nmMvwprintw n.cols y (c.2 - 1) (bytes " ") attrs else [])
    ++ nmMvwprintw n.cols y c.2 (text c.1) attrs

/-- The caption of a column. -/
def caption (n : NmCtx) (f : Field) : List UInt8 :=
  padRight (columnWidth n.family f.toFieldInfo) (bytes f.header)

section

variable {n : NmCtx} {stk : FieldInfo → Ptr} {y : Int} {ci : ConnInfo} {f : Field}
  {fs : List Field} {x skipX : Int} {drawn : Bool} {w : List Write} {attrs : Attrs}
  {text : Field → List UInt8}

/-- The columns of the fields `fs` when a loop is at `x`, with `skipX` columns still to be
scrolled out. -/
def columnsFrom (n : NmCtx) (fs : List Field) (x skipX : Int) (drawn : Bool) :
    List (Field × Int) :=
  place (fun f => columnWidth n.family f.toFieldInfo) (if drawn then x + 1 else x)
    (scroll (·.pinned) skipX.toNat (fs.filter (·.hasColumn n.extRcv)))

/-- A loop is at the left margin until it has drawn a column. -/
def AtColumn (x : Int) (drawn : Bool) : Prop := if drawn then 0 ≤ x else x = 0

theorem AtColumn.next (h : AtColumn x drawn) (width : Nat) :
    AtColumn ((if drawn then x + 1 else x) + width) true := by
  unfold AtColumn at *
  cases drawn with
  | true =>
      have hx : 0 ≤ x := h
      show 0 ≤ x + 1 + (width : Int)
      omega
  | false =>
      have hx : x = 0 := h
      show 0 ≤ x + (width : Int)
      omega

/-! ## One round of a loop -/

theorem columnsFrom_noColumn (h : f.hasColumn n.extRcv = false) :
    columnsFrom n (f :: fs) x skipX drawn = columnsFrom n fs x skipX drawn := by
  unfold columnsFrom
  rw [List.filter_cons_of_neg (by simp [h])]

theorem columnsFrom_skip (h : f.hasColumn n.extRcv = true)
    (hskip : 0 < skipX ∧ (!f.pinned) = true) :
    columnsFrom n (f :: fs) x skipX drawn = columnsFrom n fs x (skipX - 1) drawn := by
  have hskip' : 0 < skipX.toNat ∧ (!f.pinned) = true := ⟨by omega, hskip.2⟩
  have hless : (skipX - 1).toNat = skipX.toNat - 1 := by omega
  unfold columnsFrom
  rw [List.filter_cons_of_pos h, scroll, if_pos hskip', hless]

theorem columnsFrom_column (h : f.hasColumn n.extRcv = true)
    (hskip : ¬ (0 < skipX ∧ (!f.pinned) = true)) :
    columnsFrom n (f :: fs) x skipX drawn =
      (f, if drawn then x + 1 else x) ::
        columnsFrom n fs ((if drawn then x + 1 else x) + columnWidth n.family f.toFieldInfo)
          skipX true := by
  have hskip' : ¬ (0 < skipX.toNat ∧ (!f.pinned) = true) := fun h => hskip ⟨by omega, h.2⟩
  unfold columnsFrom
  rw [List.filter_cons_of_pos h, scroll, if_neg hskip', place]
  rfl

/-- The separator and the text that a loop at `x` prints. -/
theorem columnWrites_at (hx : AtColumn x drawn) :
    columnWrites n y attrs text (f, if drawn then x + 1 else x) =
      (if drawn then nmMvwprintw n.cols y x (bytes " ") attrs else [])
        ++ nmMvwprintw n.cols y (if drawn then x + 1 else x) (text f) attrs := by
  unfold AtColumn at hx
  unfold columnWrites
  cases drawn with
  | true =>
      have hx' : 0 ≤ x := hx
      dsimp only
      rw [if_pos rfl, if_pos (by omega), if_pos rfl, Int.add_sub_cancel]
  | false =>
      have hx' : x = 0 := hx
      subst hx'
      rfl

/-- To the right of the window nothing is printed. -/
theorem nmMvwprintw_outside {cols : Int} (h : cols ≤ x) (t : List UInt8) :
    nmMvwprintw cols y x t attrs = [] :=
  if_pos (by omega)

theorem columnsFrom_outside (hat : AtColumn x drawn) (hx : n.cols ≤ x) :
    (columnsFrom n fs x skipX drawn).flatMap (columnWrites n y attrs text) = [] := by
  refine List.flatMap_eq_nil_iff.mpr fun c hc => ?_
  have hle := le_of_mem_place hc
  unfold AtColumn at hat
  have hright : x ≤ c.2 ∧ (0 < c.2 → x ≤ c.2 - 1) := by
    cases drawn with
    | true =>
        have hle' : x + 1 ≤ c.2 := hle
        exact ⟨by omega, fun _ => by omega⟩
    | false =>
        have hat' : x = 0 := hat
        have hle' : x ≤ c.2 := hle
        exact ⟨hle', fun _ => by omega⟩
  unfold columnWrites
  rw [nmMvwprintw_outside (hx.trans hright.1), List.append_nil]
  split_ifs with hpos
  · exact nmMvwprintw_outside (hx.trans (hright.2 hpos)) _
  · rfl

/-! ## The two loops -/

theorem hasColumn_eq (extRcv : BitVec 32) (f : Field) :
    (!f.enabled || f.drawRow.isNone || !hasBit extRcv f.extRcv) = !f.hasColumn extRcv := by
  unfold Field.hasColumn
  cases f.enabled <;> cases f.drawRow <;> rfl

/-- **The header** has its captions in the columns. The induction is on the fields; where the
loop stops at the right margin, the rest of the columns would print nothing. -/
theorem headerLoop_columns (hat : AtColumn x drawn) :
    headerLoop n fs x skipX drawn =
      (columnsFrom n fs x skipX drawn).flatMap
        (columnWrites n 0 { reverse := true } (caption n)) := by
  induction fs generalizing x skipX drawn with
  | nil => rfl
  | cons f fs ih =>
      rw [headerLoop]
      by_cases hend : n.cols ≤ x
      · rw [if_pos hend, columnsFrom_outside hat hend]
      · rw [if_neg hend, hasColumn_eq]
        cases hcol : f.hasColumn n.extRcv with
        | false =>
            rw [if_pos (by rfl), columnsFrom_noColumn hcol]
            exact ih hat
        | true =>
            rw [if_neg (by decide)]
            by_cases hskip : 0 < skipX ∧ (!f.pinned) = true
            · rw [if_pos hskip, columnsFrom_skip hcol hskip]
              exact ih hat
            · rw [if_neg hskip, columnsFrom_column hcol hskip, List.flatMap_cons,
                columnWrites_at hat, ← ih (hat.next _)]
              rfl

/-- **The row of an accepted connection** has its cells in the same columns. -/
theorem drawProtocolLoop_columns (hat : AtColumn x drawn)
    (h : drawProtocolLoop n stk y ci fs x skipX drawn = some (false, w)) :
    w = (columnsFrom n fs x skipX drawn).flatMap (columnWrites n y {} (cellText n ci)) := by
  induction fs generalizing x skipX drawn w with
  | nil =>
      cases h
      rfl
  | cons f fs ih =>
      cases hcol : f.hasColumn n.extRcv with
      | false =>
          rw [drawProtocolLoop_noColumn hcol] at h
          rw [columnsFrom_noColumn hcol]
          exact ih hat h
      | true =>
          rw [drawProtocolLoop_column hcol] at h
          obtain ⟨pass, -, h⟩ := bind_some h
          cases pass with
          | false => cases h
          | true =>
              rw [if_pos rfl] at h
              by_cases hskip : 0 < skipX ∧ (!f.pinned) = true
              · rw [if_pos hskip] at h
                rw [columnsFrom_skip hcol hskip]
                exact ih hat h
              · rw [if_neg hskip] at h
                obtain ⟨⟨rewind, rest⟩, hrest, h⟩ := Option.map_eq_some_iff.mp h
                cases h
                rw [columnsFrom_column hcol hskip, List.flatMap_cons, columnWrites_at hat,
                  ← ih (hat.next _) hrest]
                rfl

end

/-! ## The frame -/

theorem columns_pairwise (s : Sys) : (columns s).Pairwise fun (c d : Field × Int) =>
    c.2 + columnWidth s.n.family c.1.toFieldInfo < d.2 :=
  place_pairwise (fun f : Field => columnWidth s.n.family f.toFieldInfo) 0 _

theorem columns_fst (s : Sys) : (columns s).map (·.1) =
    scroll (·.pinned) s.n.posMain.x.toNat (s.tcpFields.filter (·.hasColumn s.n.extRcv)) :=
  place_map_fst _ 0 _

/-- What `draw_protocol` prints for an accepted connection. -/
theorem drawProtocol_row {s : Sys} {stk : FieldInfo → Ptr} {y : Int} {ci : ConnInfo}
    {w : List Write} (h : drawProtocol s stk y ci = some (false, w)) :
    w = (columns s).flatMap (columnWrites s.n y {} (cellText s.n ci)) :=
  drawProtocolLoop_columns (show AtColumn 0 false from rfl) h

/-- A column is written from its separator on. -/
theorem columnWrites_inside {n : NmCtx} {y x : Int} {attrs : Attrs} {text : Field → List UInt8}
    {c : Field × Int} (hle : x ≤ c.2) (hlt : 0 < c.2 → x < c.2) :
    Inside n.cols y x (columnWrites n y attrs text c) := by
  unfold columnWrites
  refine Inside.append ?_ ((nmMvwprintw_inside _ _ _ _ _).mono hle)
  split_ifs with hpos
  · have := hlt hpos
    exact (nmMvwprintw_inside _ _ _ _ _).mono (by omega)
  · intro v hv
    cases hv

end Sockmon

import Sockmon.Pointer.Main

set_option autoImplicit false

/-! # The list of connections on the heap

What the loops over `n->conn_list` do, in terms of the list of its entries: `add_conn_info` puts
a connection where `addConnInfo` puts it in a list, and the loops that take every connection out
draw and count what `rowLoop` does.
-/

namespace Sockmon.Pointer

open Transition

/-! ## Adding -/

section

variable {h : Heap (Node ConnInfo)} {ps qs : List Nat} {xs ys : List ConnInfo} {ci : ConnInfo}

/-- Where a connection goes: the list behind it from the place `pos` on, and before it the rest. -/
structure Placed (ci : ConnInfo) (qs : List Nat) (ys : List ConnInfo) (pos : Nat)
    (l : List ConnInfo) (qs₁ qs₂ : List Nat) (ys₁ ys₂ : List ConnInfo) : Prop where
  nodes : qs = qs₁ ++ qs₂
  conns : ys = ys₁ ++ ys₂
  length_eq : qs₁.length = ys₁.length
  pos : pos = qs₂.headD connList
  list : l = ys₁ ++ ci :: ys₂

/-- **The loop of `add_conn_info`** stops at the entry before which `insertConn` inserts. -/
theorem placeLoop_rel {f : FieldInfo} {ascending : Bool} {fuel : Nat}
    (hl : ListAt h connList (ps ++ qs) (xs ++ ys)) (hlen : ps.length = xs.length)
    (hfuel : qs.length < fuel) :
    Option.Rel (fun pos l => ∃ qs₁ qs₂ ys₁ ys₂, Placed ci qs ys pos l qs₁ qs₂ ys₁ ys₂)
      (placeLoop f ascending ci h fuel (qs.headD connList)) (insertConn f ascending ci ys) := by
  induction qs generalizing ps xs ys fuel with
  | nil =>
      have hys : ys = [] := by
        have := hl.length_eq
        simp only [List.append_nil, List.length_append] at this
        exact List.eq_nil_of_length_eq_zero (by omega)
      subst hys
      obtain ⟨fuel, rfl⟩ : ∃ k, fuel = k + 1 := ⟨fuel - 1, by omega⟩
      rw [List.headD_nil, placeLoop, if_pos rfl]
      exact .some ⟨[], [], [], [], rfl, rfl, rfl, rfl, rfl⟩
  | cons q qs ih =>
      obtain ⟨y, ys, rfl⟩ : ∃ y ys', ys = y :: ys' := by
        have := hl.length_eq
        simp only [List.length_append, List.length_cons] at this
        exact List.exists_cons_of_length_eq_add_one (n := qs.length) (by omega)
      obtain ⟨fuel, rfl⟩ : ∃ k, fuel = k + 1 := ⟨fuel - 1, by simp at hfuel; omega⟩
      have hq : q ≠ connList := by
        rintro rfl
        exact (List.nodup_cons.mp hl.ring.nodup).1 (List.mem_append_right ps List.mem_cons_self)
      have hy : entryOf h q = some y := by
        have hsplit := List.append_inj (by simpa using hl.entries) (by simpa using hlen)
        exact (List.cons.inj hsplit.2).1
      have hnext : nextOf h q = some (qs.headD connList) := hl.ring.next_eq
      -- both `break`s stop in front of `q`, where nothing is passed yet
      have hhere : ∃ qs₁ qs₂ ys₁ ys₂,
          Placed ci (q :: qs) (y :: ys) q (ci :: y :: ys) qs₁ qs₂ ys₁ ys₂ :=
        ⟨[], q :: qs, [], y :: ys, rfl, rfl, rfl, rfl, rfl⟩
      rw [List.headD_cons, placeLoop, if_neg hq, insertConn, hy]
      show Option.Rel _ (if (!hasBit y.ext f.extRcv) = true then _ else _) _
      by_cases hext : (!hasBit y.ext f.extRcv) = true
      · rw [if_pos hext, if_pos hext]
        exact .some hhere
      · rw [if_neg hext, if_neg hext]
        refine rel_bind_same fun sort _ => ?_
        dsimp only
        generalize sort.apply f (ci.ptr f.offset) (y.ptr f.offset) = ret
        by_cases hstop : (if ascending = true then ret < 0 else ret > 0)
        · rw [if_pos hstop, if_pos hstop]
          exact .some hhere
        · rw [if_neg hstop, if_neg hstop, hnext]
          -- `list_for_each_entry` goes on: `q` is now among the passed nodes
          have hl' : ListAt h connList ((ps ++ [q]) ++ qs) ((xs ++ [y]) ++ ys) := by
            simpa using hl
          have hfuel' : qs.length < fuel := by simpa using hfuel
          have hrest := ih hl' (by simp [hlen]) hfuel'
          show Option.Rel _ (placeLoop f ascending ci h fuel (qs.headD connList)) _
          refine rel_bind_right hrest ?_
          rintro pos l ⟨qs₁, qs₂, ys₁, ys₂, hp⟩
          refine .some ⟨q :: qs₁, qs₂, y :: ys₁, ys₂, ?_, ?_, ?_, hp.pos, ?_⟩
          · rw [hp.nodes, List.cons_append]
          · rw [hp.conns, List.cons_append]
          · rw [List.length_cons, List.length_cons, hp.length_eq]
          · rw [hp.list, List.cons_append]

/-- **`add_conn_info`** of a connection that is in no list yet. -/
theorem addConnInfo_rel {sortKey : Option FieldInfo} {ascending : Bool} {new : Nat}
    (hl : ListAt h connList ps xs) (hh : h.Holds (new :: connList :: ps))
    (hnew : new ∉ connList :: ps) (hci : entryOf h new = some ci) :
    Option.Rel (fun h' l => ∃ ps', ListAt h' connList ps' l ∧ h'.Holds (connList :: ps'))
      (addConnInfo sortKey ascending new h) (Sockmon.addConnInfo sortKey ascending ci xs) := by
  -- Behind the nodes `qs₁` of the list.
  have hadd : ∀ {qs₁ qs₂ : List Nat} {ys₁ ys₂ : List ConnInfo}, ps = qs₁ ++ qs₂ →
      xs = ys₁ ++ ys₂ → qs₁.length = ys₁.length →
        ∃ h' ps', listAddTail new (qs₂.headD connList) h = some h' ∧
          ListAt h' connList ps' (ys₁ ++ ci :: ys₂) ∧ h'.Holds (connList :: ps') := by
    rintro qs₁ qs₂ ys₁ ys₂ rfl rfl hlen
    obtain ⟨h', he, hl', hs⟩ := hl.listAddTail hlen hnew hci
    refine ⟨h', _, he, hl', (hs.holds hh).of_mem fun q => ?_⟩
    simp only [List.mem_cons, List.mem_append]
    tauto
  have htail : Option.Rel (fun h' l => ∃ ps', ListAt h' connList ps' l ∧
      h'.Holds (connList :: ps')) (listAddTail new connList h) (some (xs ++ [ci])) := by
    obtain ⟨h', ps', he, hl', hh'⟩ := hadd (List.append_nil ps).symm (List.append_nil xs).symm
      hl.length_eq
    rw [show listAddTail new connList h = some h' from he]
    exact .some ⟨ps', hl', hh'⟩
  have hfirst : nextOf h connList = some (ps.headD connList) := hl.ring.next_head
  have hempty : listEmpty connList h = some xs.isEmpty := by
    unfold listEmpty
    rw [hfirst]
    show some (ps.headD connList == connList) = _
    cases ps with
    | nil =>
        rw [List.eq_nil_of_length_eq_zero hl.length_eq.symm]
        simp
    | cons p ps =>
        obtain ⟨x, xs, rfl⟩ := List.exists_cons_of_length_eq_add_one hl.length_eq.symm
        have hp : p ≠ connList := by
          rintro rfl
          exact (List.nodup_cons.mp hl.ring.nodup).1 List.mem_cons_self
        simp [hp]
  unfold addConnInfo Sockmon.addConnInfo
  rw [hci]
  cases sortKey with
  | none => exact htail
  | some f =>
      simp only [hempty, hfirst, Option.bind_eq_bind, Option.bind_some]
      by_cases hback : (!hasBit ci.ext f.extRcv || xs.isEmpty) = true
      · rw [if_pos hback, if_pos hback]
        exact htail
      · rw [if_neg hback, if_neg hback]
        have hfuel : ps.length < h.next :=
          hh.length_lt (List.nodup_cons.mp hl.ring.nodup).2 fun q hq => by simp [hq]
        have hall : ListAt h connList ([] ++ ps) ([] ++ xs) := hl
        have hplace := @placeLoop_rel _ _ _ _ _ ci f ascending _ hall rfl hfuel
        refine rel_bind_left hplace ?_
        rintro pos l ⟨qs₁, qs₂, ys₁, ys₂, hp⟩
        obtain ⟨h', ps', he, hl', hh'⟩ := hadd hp.nodes hp.conns hp.length_eq
        rw [hp.pos, hp.list, he]
        exact .some ⟨ps', hl', hh'⟩

end

/-! ## Drawing and counting -/

/-- **The loop of `draw_connections`** draws the rows of `rowLoop` and counts the connections
down. -/
theorem drawRow_rel (s : Sys) (stk : ConnInfo → FieldInfo → Ptr) (cis : List ConnInfo) (r : Rows)
    (hnr : i32 r.nrConns = r.nrConns) :
    Option.Rel (fun r' ws => r'.writes = r.writes ++ ws ∧
        r'.nrConns = i32 (r.nrConns - cis.length))
      (cis.foldlM (fun r ci => drawRow s stk ci r) r) (rowLoop s stk cis r.y r.skipY) := by
  induction cis generalizing r with
  | nil => exact .some ⟨(List.append_nil _).symm, by simp [hnr]⟩
  | cons ci cis ih =>
      obtain ⟨y, skipY, writes, nr⟩ := r
      -- The rest of the loop, with what the first round has drawn.
      have hrest : ∀ y' skipY' ws, Option.Rel (fun r' ws' => r'.writes = writes ++ (ws ++ ws') ∧
          r'.nrConns = i32 (nr - (ci :: cis).length))
            (cis.foldlM (fun r ci => drawRow s stk ci r) ⟨y', skipY', writes ++ ws, i32 (nr - 1)⟩)
            (rowLoop s stk cis y' skipY') := by
        intro y' skipY' ws
        refine rel_mono (ih ⟨y', skipY', writes ++ ws, i32 (nr - 1)⟩ (i32_i32 _)) ?_
        rintro r' ws' ⟨hw, hn⟩
        exact ⟨by rw [hw, List.append_assoc], by rw [hn, i32_sub_one, List.length_cons]⟩
      rw [List.foldlM_cons]
      unfold drawRow drawLine rowLoop
      by_cases hskip : 0 < skipY
      · rw [if_pos hskip, if_pos hskip]
        have hr := hrest y (skipY - 1) []
        rw [List.append_nil] at hr
        exact hr
      · rw [if_neg hskip, if_neg hskip]
        simp only [Option.bind_eq_bind, Option.bind_assoc]
        refine rel_bind_same fun v _ => ?_
        obtain ⟨rewind, ws⟩ := v
        cases rewind with
        | true =>
            exact rel_bind_right (hrest y skipY (ws ++ nmMvwprintw s.n.cols y 0
              (padLeft s.n.cols.toNat []))) fun _ _ hab => .some hab
        | false => exact rel_bind_right (hrest (y + 1) skipY ws) fun _ _ hab => .some hab

/-- The loop of `nm_ctx_exit`. -/
theorem count_foldlM (cis : List ConnInfo) {nr : Int} (hnr : i32 nr = nr) :
    cis.foldlM (fun nr _ => some (i32 (nr - 1))) nr = some (i32 (nr - cis.length)) := by
  induction cis generalizing nr with
  | nil => simp [hnr]
  | cons ci cis ih =>
      rw [List.foldlM_cons, List.length_cons, ← i32_sub_one]
      exact ih (i32_i32 _)

end Sockmon.Pointer

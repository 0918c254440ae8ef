import Sockmon.Field.Sort
import Sockmon.Lib.StableInsert
import Sockmon.System.Netlink

set_option autoImplicit false

/-! # The order of the connection list

`add_conn_info` places each connection among those before it. Added one after the other, the
connections that have the extension of the sort key are sorted stably by its comparison
function, in either direction, and the others follow as they came (`addConnInfos_sorted`).
-/

namespace Sockmon

open Compare StableInsert

/-- Connections added one after the other to an empty `conn_list`. -/
def addConnInfos (sortKey : Option FieldInfo) (ascending : Bool) (cis : List ConnInfo) :
    Option (List ConnInfo) :=
  cis.foldlM (fun connList ci => addConnInfo sortKey ascending ci connList) []

/-- The connection has the extension of the sort key. -/
def keyed (f : FieldInfo) (ci : ConnInfo) : Bool := hasBit ci.ext f.extRcv

/-- What the comparison function says of two connections, in the direction chosen. -/
def sortRet (f : FieldInfo) (g : SortFunc) (ascending : Bool) (a b : ConnInfo) : Int :=
  let ret := g.apply f (a.ptr f.offset) (b.ptr f.offset)
  if ascending then ret else -ret

/-- `a` may stand before `b`. -/
def inOrder (f : FieldInfo) (g : SortFunc) (ascending : Bool) (a b : ConnInfo) : Bool :=
  sortRet f g ascending a b ≤ 0

/-! ## The comparison functions on connections -/

/-- The address functions are given the address of the `inet_diag_msg`. -/
theorem sortAddress_offset : ∀ f ∈ tcpFields.map (·.toFieldInfo),
    f.sortFunc = some .sortSrc ∨ f.sortFunc = some .sortDst → f.offset = ofConnInfo.r := by
  decide +kernel

theorem sortRet_threeWay {f : FieldInfo} {g : SortFunc} (hf : f ∈ tcpFields.map (·.toFieldInfo))
    (hg : f.sortFunc = some g) (ascending : Bool) (fam : Nat) :
    ThreeWay (fun ci => ci.family = fam) (sortRet f g ascending) := by
  -- On connections the address functions read the family of the connection.
  have hfam : ∀ ci : ConnInfo, ci.family = fam → g = .sortSrc ∨ g = .sortDst →
      rdU8 ((ci.ptr f.offset).add ofInetDiagMsg.idiagFamily) = fam := by
    intro ci hci haddr
    have hoff : f.offset = ofConnInfo.r := by
      refine sortAddress_offset f hf ?_
      rcases haddr with rfl | rfl
      · exact Or.inl hg
      · exact Or.inr hg
    rw [hoff]
    exact hci
  have hbase : ThreeWay (fun ci : ConnInfo => ci.family = fam) fun a b =>
      g.apply f (a.ptr f.offset) (b.ptr f.offset) :=
    (g.threeWay f fam).comap (fun ci : ConnInfo => ci.ptr f.offset) hfam
  cases ascending with
  | true => exact hbase
  | false => exact hbase.neg

/-! ## One insertion -/

/-- Connections with the extension in the order of the sort key, the others behind them. -/
def connLe (f : FieldInfo) (g : SortFunc) (ascending : Bool) : ConnInfo → ConnInfo → Bool :=
  keyedLe (keyed f) (inOrder f g ascending)

section

variable {f : FieldInfo} {g : SortFunc} {ascending : Bool} {fam : Nat} {ci : ConnInfo}
  {connList : List ConnInfo}

/-- The loop stops at a connection that `ci` may not stand behind. -/
theorem insertConn_stop {pos : ConnInfo} (hf : f ∈ tcpFields.map (·.toFieldInfo))
    (hg : f.sortFunc = some g) (hci : ci.family = fam) (hpos : pos.family = fam) :
    (if ascending then g.apply f (ci.ptr f.offset) (pos.ptr f.offset) < 0
      else g.apply f (ci.ptr f.offset) (pos.ptr f.offset) > 0) ↔
      ¬ inOrder f g ascending pos ci = true := by
  have hswap : sortRet f g ascending pos ci = -sortRet f g ascending ci pos :=
    (sortRet_threeWay hf hg ascending fam).swap hci hpos
  unfold inOrder
  rw [decide_eq_true_eq, hswap]
  unfold sortRet
  cases ascending with
  | true =>
      simp only [if_true]
      omega
  | false =>
      simp only [Bool.false_eq_true, if_false]
      omega

/-- **The loop of `add_conn_info`** places a connection that has the extension. -/
theorem insertConn_eq (hf : f ∈ tcpFields.map (·.toFieldInfo)) (hg : f.sortFunc = some g)
    (hkey : keyed f ci = true) (hci : ci.family = fam)
    (hfam : ∀ pos ∈ connList, pos.family = fam) :
    insertConn f ascending ci connList = some (insertLe (connLe f g ascending) ci connList) := by
  induction connList with
  | nil => rfl
  | cons pos rest ih =>
      have hpos : pos.family = fam := hfam pos List.mem_cons_self
      have hrest := ih fun p hp => hfam p (List.mem_cons_of_mem pos hp)
      have hle : connLe f g ascending pos ci = (keyed f pos && inOrder f g ascending pos ci) := by
        unfold connLe keyedLe
        rw [hkey, if_pos rfl]
      rw [insertConn, hg, insertLe_eq, List.takeWhile_cons, List.dropWhile_cons, hle]
      by_cases hkp : keyed f pos = true
      · have hbit : hasBit pos.ext f.extRcv = true := hkp
        have hstop := @insertConn_stop f g ascending fam ci pos hf hg hci hpos
        rw [hkp, hbit, hrest, insertLe_eq]
        simp only [Bool.not_true, Bool.false_eq_true, if_false, Option.bind_eq_bind,
          Option.bind_some]
        by_cases ho : inOrder f g ascending pos ci = true
        · -- `ci` goes on behind `pos`.
          rw [if_neg fun h => hstop.mp h ho, ho]
          rfl
        · rw [if_pos (hstop.mpr ho), Bool.eq_false_of_not_eq_true ho]
          rfl
      · -- From here on no connection has the extension.
        have hbit : ¬ hasBit pos.ext f.extRcv = true := hkp
        rw [Bool.not_eq_true] at hkp hbit
        rw [hkp, hbit]
        rfl

/-- A connection without the extension goes to the end. -/
theorem insertLe_unkeyed (hkey : keyed f ci = false) :
    insertLe (connLe f g ascending) ci connList = connList ++ [ci] := by
  have hle : ∀ pos, connLe f g ascending pos ci = true := by
    intro pos
    unfold connLe keyedLe
    rw [hkey]
    rfl
  have hfront : connList.takeWhile (fun pos => connLe f g ascending pos ci) = connList :=
    List.takeWhile_eq_self_iff.mpr fun pos _ => hle pos
  have hback : connList.dropWhile (fun pos => connLe f g ascending pos ci) = [] :=
    List.dropWhile_eq_nil_iff.mpr fun pos _ => hle pos
  calc insertLe (connLe f g ascending) ci connList
      = connList.takeWhile (fun pos => connLe f g ascending pos ci) ++
          ci :: connList.dropWhile (fun pos => connLe f g ascending pos ci) :=
        insertLe_eq ci connList
    _ = connList ++ [ci] := by rw [hfront, hback]

/-- **`add_conn_info`** is an insertion into the sorted list. -/
theorem addConnInfo_eq (hf : f ∈ tcpFields.map (·.toFieldInfo)) (hg : f.sortFunc = some g)
    (hci : ci.family = fam) (hfam : ∀ pos ∈ connList, pos.family = fam) :
    addConnInfo (some f) ascending ci connList =
      some (insertLe (connLe f g ascending) ci connList) := by
  unfold addConnInfo
  cases hkey : keyed f ci with
  | false =>
      have hbit : hasBit ci.ext f.extRcv = false := hkey
      rw [insertLe_unkeyed hkey]
      simp [hbit]
  | true =>
      have hbit : hasBit ci.ext f.extRcv = true := hkey
      cases connList with
      | nil => simp [insertLe]
      | cons pos rest =>
          simp only [hbit, List.isEmpty_cons]
          exact insertConn_eq hf hg hkey hci hfam

end

/-! ## All connections -/

theorem addConnInfos_eq {f : FieldInfo} {g : SortFunc} {ascending : Bool} {fam : Nat}
    {cis : List ConnInfo} (hf : f ∈ tcpFields.map (·.toFieldInfo)) (hg : f.sortFunc = some g)
    (hfam : ∀ ci ∈ cis, ci.family = fam) : addConnInfos (some f) ascending cis =
      some (cis.foldl (fun l ci => insertLe (connLe f g ascending) ci l) []) := by
  have hfold : ∀ connList : List ConnInfo, (∀ pos ∈ connList, pos.family = fam) →
      cis.foldlM (fun connList ci => addConnInfo (some f) ascending ci connList) connList =
        some (cis.foldl (fun l ci => insertLe (connLe f g ascending) ci l) connList) := by
    induction cis with
    | nil => exact fun _ _ => rfl
    | cons ci cis ih =>
        intro connList hlist
        have hci : ci.family = fam := hfam ci List.mem_cons_self
        rw [List.foldlM_cons, addConnInfo_eq hf hg hci hlist, List.foldl_cons]
        refine ih (fun c hc => hfam c (List.mem_cons_of_mem ci hc)) _ fun pos hpos => ?_
        rcases List.mem_cons.mp ((List.perm_orderedInsert _ ci connList).mem_iff.mp hpos) with
          rfl | hmem
        · exact hci
        · exact hlist pos hmem
  exact hfold [] nofun

theorem addConnInfos_none (ascending : Bool) (cis : List ConnInfo) :
    addConnInfos none ascending cis = some cis := by
  have hfold : ∀ connList : List ConnInfo,
      cis.foldlM (fun connList ci => addConnInfo none ascending ci connList) connList =
        some (connList ++ cis) := by
    induction cis with
    | nil =>
        intro connList
        rw [List.append_nil]
        rfl
    | cons ci cis ih =>
        intro connList
        have hrest := ih (connList ++ [ci])
        rw [List.append_assoc] at hrest
        exact hrest
  exact hfold []

/-- **The connection list is sorted stably** by the sort key, in either direction, with the
connections that lack its extension behind in arrival order; without a sort key it is in
arrival order. -/
theorem addConnInfos_sorted (f : FieldInfo) (hf : f ∈ tcpFields.map (·.toFieldInfo))
    (g : SortFunc) (hg : f.sortFunc = some g) (ascending : Bool) (fam : Nat)
    (cis : List ConnInfo) (hfam : ∀ ci ∈ cis, ci.family = fam) :
    (∃ connList sorted, addConnInfos (some f) ascending cis = some connList ∧
      connList.Perm cis ∧ connList = sorted ++ (cis.filter fun ci => !keyed f ci) ∧
      StableSort (inOrder f g ascending) (· ∈ cis.filter (keyed f)) (cis.filter (keyed f))
        sorted) ∧
    addConnInfos none ascending cis = some cis := by
  have horders : OrdersOn (connLe f g ascending) fun ci => ci.family = fam :=
    (OrdersOn.of_threeWay (sortRet_threeWay hf hg ascending fam)).keyed (keyed f)
  have hstable := stableSort_foldl horders hfam
  obtain ⟨hsplit, hsorted⟩ := hstable.split hfam
  exact ⟨⟨_, _, addConnInfos_eq hf hg hfam, hstable.perm, hsplit, hsorted⟩,
    addConnInfos_none ascending cis⟩

/-- An IPv4 connection from the address `0.0.0.x` in network order, with the extensions `ext`. -/
def ConnInfo.fromAddr (x : UInt8) (ext : BitVec 32) : ConnInfo :=
  ⟨fun i => if i = ofConnInfo.r then 2 else if i = ofConnInfo.r + 11 then x else 0, ext⟩

/-- Three connections sorted by source address, the second of them without an address. -/
theorem addConnInfos_sorted_src :
    let f := (tcpFields.get ⟨1, by decide +kernel⟩).toFieldInfo
    let cis := [ConnInfo.fromAddr 9 (bit INET_DIAG_ADDRESS), .fromAddr 1 0,
      .fromAddr 5 (bit INET_DIAG_ADDRESS)]
    ∃ connList sorted, addConnInfos (some f) true cis = some connList ∧ connList.Perm cis ∧
      connList = sorted ++ (cis.filter fun ci => !keyed f ci) ∧
      StableSort (inOrder f .sortSrc true) (· ∈ cis.filter (keyed f)) (cis.filter (keyed f))
        sorted :=
  (addConnInfos_sorted (tcpFields.get ⟨1, by decide +kernel⟩).toFieldInfo
    (List.mem_map_of_mem (List.get_mem _ _)) .sortSrc rfl true 2
    [.fromAddr 9 (bit INET_DIAG_ADDRESS), .fromAddr 1 0, .fromAddr 5 (bit INET_DIAG_ADDRESS)]
    (by
      intro ci hci
      simp only [List.mem_cons, List.not_mem_nil, or_false] at hci
      rcases hci with rfl | rfl | rfl <;> rfl)).1

end Sockmon

import Sockmon.Field.Apply
import Sockmon.Field.Draw

set_option autoImplicit false

/-! # The value of a numeric field

A numeric field is decoded three times: to be drawn, to be sorted by and to be filtered on. The
helpers and the three `switch`es on its type agree on one value for every entry of the table
(`numeric_oneValue`), that of the little-endian word, the port in network order, the nibble or
the two words of the bandwidth (`FieldInfo.val`).
-/

namespace Sockmon

open Compare

/-- The fields with `fp_common` that are not strings. -/
def FieldInfo.isNumeric (f : FieldInfo) : Bool :=
  f.filterParse == some .fpCommon && f.type != .string

/-- The number at `p`. -/
def FieldInfo.read (f : FieldInfo) (p : Ptr) : Nat :=
  match f.drawRow, f.type with
  | some .drSndWscale, _ => rdBits p 0 4
  | some .drRcvWscale, _ => rdBits p 4 4
  | some .drBbrBw, _ => bbrBw p
  | _, .u8 => rdU8 p
  | _, .u16 => rdU16 p
  | _, .u16Port => rdBe16 p
  | _, .u32 => rdU32 p
  | _, .u64 => rdU64 p
  | _, _ => 0

/-- The value of the field in a connection. -/
def FieldInfo.val (f : FieldInfo) (ci : ConnInfo) : Nat := f.read (ci.ptr f.offset)

/-- The comparison an operator stands for. -/
def CmpOp.Holds : CmpOp → Nat → Nat → Prop
  | .eq, a, b => a = b
  | .ne, a, b => a ≠ b
  | .gt, a, b => a > b
  | .ge, a, b => a ≥ b
  | .lt, a, b => a < b
  | .le, a, b => a ≤ b
  | _, _, _ => False

/-- The value `val` is what the field draws, sorts by and filters on. -/
structure OneValue (f : FieldInfo) (val : ConnInfo → Nat) : Prop where
  /-- `draw_row` prints it in decimal. -/
  draw : ∃ g, f.drawRow = some g ∧
    ∀ ci, g.text f (ci.ptr f.offset) = padLeft f.width (digits (val ci))
  /-- `sort_func` is the sign of its comparison. -/
  sort : ∃ g, f.sortFunc = some g ∧
    ∀ ci₁ ci₂, g.apply f (ci₁.ptr f.offset) (ci₂.ptr f.offset) = cmp3 (val ci₁) (val ci₂)
  /-- `filter_apply` compares it with the constant, whatever lies behind a local variable. -/
  filter : ∃ g, f.filterApply = some g ∧
    ∀ (fd : Field) (op : CmpOp) (v : Nat) (stk : Ptr) (ci : ConnInfo), fd.toFieldInfo = f →
      fd.filter = some ⟨op, .v v⟩ → op ∈ [.eq, .ne, .gt, .ge, .lt, .le] →
      ∃ b, g.apply stk fd (ci.ptr f.offset) = some b ∧ (b = true ↔ op.Holds (val ci) v)

/-- What the numeric entries of the table are made of. -/
def numericKinds : List (DrawRow × SortFunc × FilterApply × FieldType) :=
  [(.drCommon, .sortCommon, .faCommon, .u8), (.drCommon, .sortCommon, .faCommon, .u16),
    (.drCommon, .sortCommon, .faCommon, .u32), (.drCommon, .sortCommon, .faCommon, .u64),
    (.drPort, .sortPort, .faCommon, .u16Port), (.drSndWscale, .sortSndWscale, .faSndWscale, .u8),
    (.drRcvWscale, .sortRcvWscale, .faRcvWscale, .u8),
    (.drBbrBw, .sortBbrBw, .faBbrBw, .u64)]

theorem tcpFields_numeric : ∀ f ∈ tcpFields.map (·.toFieldInfo), f.isNumeric = true →
    ∃ k ∈ numericKinds, f.drawRow = some k.1 ∧ f.sortFunc = some k.2.1 ∧
      f.filterApply = some k.2.2.1 ∧ f.type = k.2.2.2 := by
  decide +kernel

theorem typeOp_iff {op : CmpOp} {data v : Nat} (h : op ∈ [CmpOp.eq, .ne, .gt, .ge, .lt, .le]) :
    typeOp op data v = true ↔ op.Holds data v := by
  cases op <;> simp_all [typeOp, CmpOp.Holds]

theorem rdU16_lt (p : Ptr) : rdU16 p < 65536 := by
  have h0 := (p 0).toNat_lt
  have h1 := (p 1).toNat_lt
  unfold rdU16
  omega

theorem rdU32_lt (p : Ptr) : rdU32 p < 4294967296 := by
  have h0 := rdU16_lt p
  have h1 := rdU16_lt (p.add 2)
  unfold rdU32
  omega

theorem bbrBw_lt (p : Ptr) : bbrBw p < 18446744073709551616 := by
  have h0 := rdU32_lt p
  have h1 := rdU32_lt (p.add 4)
  unfold bbrBw
  omega

/-- `fa_common` for a field of which it reads `data`. -/
theorem faCommon_eq {fd : Field} {op : CmpOp} {v data : Nat} {p : Ptr}
    (hflt : fd.filter = some ⟨op, .v v⟩) (hop : op ∈ [CmpOp.eq, .ne, .gt, .ge, .lt, .le])
    (hread : fd.type = .u8 ∧ rdU8 p = data ∨ fd.type = .u16 ∧ rdU16 p = data ∨
      fd.type = .u16Port ∧ rdBe16 p = data ∨ fd.type = .u32 ∧ rdU32 p = data ∨
      fd.type = .u64 ∧ rdU64 p = data) :
    ∃ b, faCommon fd p = some b ∧ (b = true ↔ op.Holds data v) := by
  refine ⟨typeOp op data v, ?_, typeOp_iff hop⟩
  rcases hread with ⟨ht, rfl⟩ | ⟨ht, rfl⟩ | ⟨ht, rfl⟩ | ⟨ht, rfl⟩ | ⟨ht, rfl⟩
  all_goals simp [faCommon, ht, hflt, Filter.v]

/-- A field whose functions all decode the number at `p`. -/
theorem oneValue_of {f : FieldInfo} {g : DrawRow} {c : SortFunc} {a : FilterApply}
    (hdraw : f.drawRow = some g) (hsort : f.sortFunc = some c) (hfilter : f.filterApply = some a)
    (hg : ∀ p, g.text f p = padLeft f.width (digits (f.read p)))
    (hc : ∀ p q, c.apply f p q = cmp3 (f.read p) (f.read q))
    (ha : ∀ (fd : Field) (stk p : Ptr), fd.toFieldInfo = f → ∃ q, a.apply stk fd p = faCommon fd q ∧
      (fd.type = .u8 ∧ rdU8 q = f.read p ∨ fd.type = .u16 ∧ rdU16 q = f.read p ∨
        fd.type = .u16Port ∧ rdBe16 q = f.read p ∨ fd.type = .u32 ∧ rdU32 q = f.read p ∨
        fd.type = .u64 ∧ rdU64 q = f.read p)) :
    OneValue f f.val where
  draw := ⟨g, hdraw, fun ci => hg (ci.ptr f.offset)⟩
  sort := ⟨c, hsort, fun ci₁ ci₂ => hc (ci₁.ptr f.offset) (ci₂.ptr f.offset)⟩
  filter := by
    refine ⟨a, hfilter, fun fd op v stk ci hfd hflt hop => ?_⟩
    obtain ⟨q, hq, hread⟩ := ha fd stk (ci.ptr f.offset) hfd
    rw [hq]
    exact faCommon_eq hflt hop hread

/-- The fields with the four common functions, where the three `switch`es decode the type. -/
theorem oneValue_common {f : FieldInfo} (hdraw : f.drawRow = some .drCommon)
    (hsort : f.sortFunc = some .sortCommon) (hfilter : f.filterApply = some .faCommon)
    (htype : f.type = .u8 ∨ f.type = .u16 ∨ f.type = .u32 ∨ f.type = .u64) :
    OneValue f f.val := by
  refine oneValue_of hdraw hsort hfilter (fun p => ?_) (fun p q => ?_) fun fd stk p he => ?_
  · rcases htype with ht | ht | ht | ht <;>
      simp [DrawRow.text, drCommon, padNum, FieldInfo.read, hdraw, ht]
  · rcases htype with ht | ht | ht | ht <;>
      simp [SortFunc.apply, sortCommon, FieldInfo.read, hdraw, ht]
  · subst he
    refine ⟨p, rfl, ?_⟩
    rcases htype with ht | ht | ht | ht <;> simp [FieldInfo.read, hdraw, ht]

/-- One value for the fields of each kind. -/
theorem oneValue_kind {f : FieldInfo} {k : DrawRow × SortFunc × FilterApply × FieldType}
    (hk : k ∈ numericKinds) (hdraw : f.drawRow = some k.1) (hsort : f.sortFunc = some k.2.1)
    (hfilter : f.filterApply = some k.2.2.1) (htype : f.type = k.2.2.2) : OneValue f f.val := by
  simp only [numericKinds, List.mem_cons, List.not_mem_nil, or_false] at hk
  rcases hk with rfl | rfl | rfl | rfl | rfl | rfl | rfl | rfl
  · exact oneValue_common hdraw hsort hfilter (by simp [htype])
  · exact oneValue_common hdraw hsort hfilter (by simp [htype])
  · exact oneValue_common hdraw hsort hfilter (by simp [htype])
  · exact oneValue_common hdraw hsort hfilter (by simp [htype])
  · -- A port, in network order.
    refine oneValue_of hdraw hsort hfilter (fun p => ?_) (fun p q => ?_) fun fd stk p he => ?_
    · simp [DrawRow.text, drPort, padNum, FieldInfo.read, hdraw, htype]
    · simp [SortFunc.apply, sortPort, FieldInfo.read, hdraw, htype]
    · subst he
      exact ⟨p, rfl, by simp [FieldInfo.read, hdraw, htype]⟩
  · refine oneValue_of hdraw hsort hfilter (fun p => ?_) (fun p q => ?_) fun fd stk p he => ?_
    · simp [DrawRow.text, drSndWscale, padNum, FieldInfo.read, hdraw]
    · simp [SortFunc.apply, sortSndWscale, sortBits, FieldInfo.read, hdraw]
    · subst he
      have hlt := rdBits_lt p 0 4
      exact ⟨_, rfl, by simp [FieldInfo.read, hdraw, htype]; omega⟩
  · refine oneValue_of hdraw hsort hfilter (fun p => ?_) (fun p q => ?_) fun fd stk p he => ?_
    · simp [DrawRow.text, drRcvWscale, padNum, FieldInfo.read, hdraw]
    · simp [SortFunc.apply, sortRcvWscale, sortBits, FieldInfo.read, hdraw]
    · subst he
      have hlt := rdBits_lt p 4 4
      exact ⟨_, rfl, by simp [FieldInfo.read, hdraw, htype]; omega⟩
  · refine oneValue_of hdraw hsort hfilter (fun p => ?_) (fun p q => ?_) fun fd stk p he => ?_
    · simp [DrawRow.text, drBbrBw, padNum, FieldInfo.read, hdraw]
    · simp [SortFunc.apply, sortBbrBw, FieldInfo.read, hdraw]
    · subst he
      have hlt := bbrBw_lt p
      exact ⟨_, rfl, by simp [FieldInfo.read, hdraw, htype, rdU64_localVar]; omega⟩

/-- **One value governs the three paths of every numeric field.** -/
theorem numeric_oneValue (f : FieldInfo) (hf : f ∈ tcpFields.map (·.toFieldInfo))
    (hnum : f.isNumeric = true) : OneValue f f.val := by
  obtain ⟨k, hk, hdraw, hsort, hfilter, htype⟩ := tcpFields_numeric f hf hnum
  exact oneValue_kind hk hdraw hsort hfilter htype

/-- The remote port. -/
theorem numeric_oneValue_dport :
    OneValue (tcpFields.getD 4 (heading "" 0)).toFieldInfo
      (tcpFields.getD 4 (heading "" 0)).toFieldInfo.val :=
  numeric_oneValue _ (by decide +kernel) (by decide +kernel)

end Sockmon

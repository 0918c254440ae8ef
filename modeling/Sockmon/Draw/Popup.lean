import Sockmon.Draw.Verdict

set_option autoImplicit false

/-! # Filters that select labels

The popup of such a filter has a row for each value that a field should have, and `draw_row` has
a text for each. `filter_apply` looks the value up in the selection by its own way of reading
it. `popup_faithful_iff` says for which fields and values it accepts what is drawn as selected:
not for the two that hand a byte to a function that reads more (`faithful_never`).
-/

namespace Sockmon

/-! ## Popups -/

/-- A popup for single values: what is drawn for each value, and the value of the first row. -/
structure Popup where
  texts : List String
  start : Nat
  deriving DecidableEq, Repr

/-- The popups, the flag sets apart. The rows for `shutdown` have longer names than its cells. -/
def FilterParse.popup : FilterParse → Option Popup
  | .fpState => some ⟨stateStr, 1⟩
  | .fpTimer => some ⟨timerStr, 0⟩
  | .fpShutdown => some ⟨["    ", "RD  ", "  WR", "RDWR"], RCV_SHUTDOWN⟩
  | .fpBool => some ⟨["false", "true"], 0⟩
  | .fpCaState => some ⟨caStateStr, 0⟩
  | .fpFastopenClientFail => some ⟨fastopenClientFailStr, 0⟩
  | .fpEcnMode => some ⟨ecnModeStr, 0⟩
  | .fpAccecnOptSeen => some ⟨accecnOptSeenStr, 0⟩
  | _ => none

/-- The value `i` has a row. -/
def Popup.HasRow (P : Popup) (i : Nat) : Prop := P.start ≤ i ∧ i < P.texts.length

/-- Only values that have a row are selected. -/
def Popup.Selects (P : Popup) (selected : BitVec 32) : Prop :=
  ∀ i, hasBit selected i = true → P.HasRow i

/-- A filter that was made in the popup. -/
def Popup.Makes (P : Popup) (flt : Filter) : Prop :=
  ∃ selected, flt.arg = .selected selected ∧ P.Selects selected

/-- `field_type` and the number of bytes of a value. -/
def FieldType.size : FieldType → Nat
  | .s8 | .u8 | .boolU8 | .bitU8 _ => 1
  | .s16 | .u16 | .u16Port | .boolU16 => 2
  | .s32 | .u32 | .boolU32 => 4
  | .s64 | .u64 => 8
  | .address | .string | .other => 0

/-! ## What can be selected -/

section

variable {height start y : Nat} {keys rest : List Key} {sel sel' : BitVec 32}

/-- A key that moves the cursor keeps it in the popup, and a blank changes the bit of the row
under it. -/
theorem popupLoop_bits (h : popupLoop height start keys y sel = some (sel', rest))
    (hy : 1 ≤ y ∧ y ≤ height) (hsel : ∀ i, hasBit sel i = true → start ≤ i ∧ i < start + height) :
    ∀ i, hasBit sel' i = true → start ≤ i ∧ i < start + height := by
  induction keys generalizing y sel with
  | nil => cases h
  | cons ch keys ih =>
      rw [popupLoop] at h
      by_cases hdown : ch = KEY_DOWN
      · rw [if_pos hdown] at h
        exact ih h (by split_ifs <;> omega) hsel
      rw [if_neg hdown] at h
      by_cases hup : ch = KEY_UP
      · rw [if_pos hup] at h
        exact ih h (by split_ifs <;> omega) hsel
      rw [if_neg hup] at h
      by_cases hspace : ch = key ' '
      · rw [if_pos hspace] at h
        refine ih h hy fun i hi => ?_
        split_ifs at hi with hset
        · rw [hasBit_eq, BitVec.getLsbD_and, Bool.and_eq_true] at hi
          exact hsel i (by rw [hasBit_eq]; exact hi.1)
        · rw [hasBit_or, Bool.or_eq_true, hasBit_bit, decide_eq_true_eq] at hi
          rcases hi with hi | hi
          · exact hsel i hi
          · omega
      rw [if_neg hspace] at h
      split_ifs at h
      · cases h
        exact hsel
      · exact ih h hy hsel

end

/-- The popups run the common loop on their rows. -/
theorem FilterParse.run_popup {fp : FilterParse} {P : Popup} (hP : fp.popup = some P) :
    fp.run = fpStrCommon (P.texts.length - P.start) P.start ∧ P.start < P.texts.length := by
  cases fp <;> cases hP <;> exact ⟨rfl, by decide⟩

/-- **What a popup leaves behind** was made in it, if the filter it found was. So the selections
that `popup_faithful_iff` is about are all that there are. -/
theorem FilterParse.run_makes {fp : FilterParse} {P : Popup} {f : Field} {allocs : List Bool}
    {keys : List Key} {r : FpResult} (hP : fp.popup = some P)
    (hold : ∀ flt, f.filter = some flt → P.Makes flt) (hr : fp.run f allocs keys = some r) :
    ∀ flt, r.filter = some flt → P.Makes flt := by
  obtain ⟨hrun, hstart⟩ := FilterParse.run_popup hP
  rw [hrun] at hr
  obtain ⟨old, hsel, hr⟩ := bind_some hr
  obtain ⟨⟨selected, rest⟩, hloop, hr⟩ := bind_some hr
  have hbits : P.Selects selected := by
    intro i hi
    have hin := popupLoop_bits hloop (by omega) ?_ i hi
    · exact ⟨hin.1, by omega⟩
    · intro j hj
      unfold oldSelected at hsel
      cases hf : f.filter with
      | none =>
          rw [hf] at hsel
          cases hsel
          rw [hasBit_zero] at hj
          cases hj
      | some flt =>
          rw [hf] at hsel
          obtain ⟨sel, harg, hmade⟩ := hold flt hf
          have heq : sel = old := by simpa [Filter.selected, harg] using hsel
          obtain ⟨hlo, hhi⟩ := hmade j (heq ▸ hj)
          omega
  intro flt hflt
  dsimp only at hr
  split_ifs at hr with hzero halloc
  · cases hr
    exact hold flt hflt
  · cases hr
    cases hflt
    exact ⟨selected, rfl, hbits⟩
  · cases hr
    obtain ⟨flt', -, rfl⟩ := Option.map_eq_some_iff.mp hflt
    exact ⟨selected, rfl, hbits⟩

/-! ## What is read -/

/-- The number that `filter_apply` looks up, where it does not read past a local variable. -/
def FieldInfo.tested (f : FieldInfo) (p : Ptr) : Nat :=
  match f.filterApply with
  | some .faDeliveryRateAppLimited | some .faBindAddressNoPort => rdBits p 0 1
  | some .faFastopenClientFail => rdBits p 1 2
  | some .faEcnMode => rdBits p 0 2
  | some .faAccecnOptSeen => rdBits p 2 2
  | some .faRecverrRfc4884 => rdBits p 1 1
  | some .faDeferConnect => rdBits p 2 1
  | _ =>
      match f.type with
      | .bitU8 nr => rdBits p nr 1
      | _ => rdU8 p

/-- The number whose text `draw_row` prints. -/
def FieldInfo.drawn (f : FieldInfo) (p : Ptr) : Nat :=
  match f.drawRow, f.type with
  | some .drShutdown, _ => rdBits p 0 2
  | some .drCommon, .boolU8 => if rdU8 p = 0 then 0 else 1
  | _, _ => f.tested p

/-- The functions of a field and its type. -/
abbrev PopupShape : Type :=
  Option DrawRow × Option FilterParse × Option FilterApply × FieldType

/-- The fields with such a popup, but for the two that read past a local variable. -/
def popupShapes : List PopupShape :=
  ([(some .drState, some .fpState, some .faStrCommon, .u8),
    (some .drTimer, some .fpTimer, some .faStrCommon, .u8),
    (some .drShutdown, some .fpShutdown, some .faStrCommon, .u8),
    (some .drCaState, some .fpCaState, some .faStrCommon, .u8),
    (some .drCommon, some .fpBool, some .faStrCommon, .boolU8),
    (some .drDeliveryRateAppLimited, some .fpBool, some .faDeliveryRateAppLimited, .u8),
    (some .drFastopenClientFail, some .fpFastopenClientFail, some .faFastopenClientFail, .u8),
    (some .drEcnMode, some .fpEcnMode, some .faEcnMode, .u8),
    (some .drAccecnOptSeen, some .fpAccecnOptSeen, some .faAccecnOptSeen, .u8),
    (some .drBindAddressNoPort, some .fpBool, some .faBindAddressNoPort, .u8),
    (some .drRecverrRfc4884, some .fpBool, some .faRecverrRfc4884, .u8),
    (some .drDeferConnect, some .fpBool, some .faDeferConnect, .u8)] : List PopupShape) ++
  (List.range 8).map fun nr => (some .drCommon, some .fpBool, some .faStrCommon, .bitU8 nr)

/-- The field applies its filter through a local variable that is too small. -/
def FieldInfo.readsPastLocal (f : FieldInfo) : Prop :=
  f.filterApply = some .faVegasEnabled ∧ f.type = .boolU32 ∨
    f.filterApply = some .faDctcpEnabled ∧ f.type = .boolU16

instance (f : FieldInfo) : Decidable f.readsPastLocal := by
  unfold FieldInfo.readsPastLocal
  infer_instance

/-- In cells of width `w` no row looks like another value. -/
def Popup.Distinct (P : Popup) (w : Nat) : Prop :=
  ∀ j ∈ List.range P.texts.length, P.start ≤ j →
    padLeft w (label P.texts j) ≠ padLeft w (bytes "?") ∧
    ∀ i ∈ List.range P.texts.length, padLeft w (label P.texts i) = padLeft w (label P.texts j) →
      i = j

instance (P : Popup) (w : Nat) : Decidable (P.Distinct w) := by
  unfold Popup.Distinct
  infer_instance

theorem tcpFields_popupShapes : ∀ f ∈ tcpFields.map (·.toFieldInfo),
    (f.filterParse.bind FilterParse.popup).isSome →
      f.readsPastLocal ∨ (f.drawRow, f.filterParse, f.filterApply, f.type) ∈ popupShapes := by
  decide +kernel

theorem tcpFields_distinct : ∀ f ∈ tcpFields.map (·.toFieldInfo),
    ∀ P ∈ f.filterParse.bind FilterParse.popup, P.Distinct f.width := by
  decide +kernel

/-- What a field draws and tests, in the terms of its popup. -/
structure ReadsValue (f : FieldInfo) (P : Popup) : Prop where
  apply : ∃ g, f.filterApply = some g ∧
    ∀ stk (h : Field) p, h.toFieldInfo = f → g.apply stk h p = isSelected h (f.tested p)
  text : ∃ d, f.drawRow = some d ∧ ∀ p, d.text f p = padLeft f.width (label P.texts (f.drawn p))
  same : ∀ p, f.drawn p = f.tested p ∨ P.texts.length ≤ f.tested p
  size : f.type.size = 1

/-- A truth value is drawn as the label of its number. -/
theorem trueFalse_label (v : Nat) :
    trueFalse (v != 0) = label ["false", "true"] (if v = 0 then 0 else 1) := by
  by_cases hv : v = 0
  · rw [hv]
    rfl
  · rw [if_neg hv, bne_iff_ne.mpr hv]
    rfl

theorem trueFalse_bit {v : Nat} (hv : v < 2) :
    trueFalse (v != 0) = label ["false", "true"] v := by
  rw [trueFalse_label]
  congr 1
  split_ifs <;> omega

section

variable {f : FieldInfo}

/-- A field that is looked up as the byte it points at. -/
theorem reads_byte (ha : f.filterApply = some .faStrCommon) (ht : f.type = .u8 ∨ f.type = .boolU8)
    (stk : Ptr) {g : Field} (hg : g.toFieldInfo = f) (p : Ptr) :
    FilterApply.faStrCommon.apply stk g p = isSelected g (f.tested p) := by
  subst hg
  rcases ht with ht | ht <;> simp [FilterApply.apply, faStrCommon, FieldInfo.tested, ha, ht]

/-- A bit-field that is copied to a local variable first. -/
theorem reads_bits {a : FilterApply} {lo n : Nat} (hn : n ≤ 8)
    (ha : ∀ stk, a.apply stk = faBits lo n stk) (ht : f.type = .u8)
    (htested : ∀ p, f.tested p = rdBits p lo n) (stk : Ptr) {g : Field} (hg : g.toFieldInfo = f)
    (p : Ptr) : a.apply stk g p = isSelected g (f.tested p) := by
  subst hg
  have hlt : rdBits p lo n < 256 :=
    (rdBits_lt p lo n).trans_le (Nat.pow_le_pow_right (by decide) hn)
  rw [ha, htested, faBits, faStrCommon, ht]
  dsimp only
  rw [rdU8_localVar, Nat.mod_eq_of_lt hlt]

/-- A byte that is drawn as its label. -/
theorem readsValue_byte {d : DrawRow} {P : Popup} (ha : f.filterApply = some .faStrCommon)
    (hd : f.drawRow = some d) (ht : f.type = .u8)
    (htext : ∀ p, d.text f p = padLeft f.width (label P.texts (rdU8 p)))
    (hdrawn : ∀ p, f.drawn p = f.tested p) : ReadsValue f P where
  apply := ⟨_, ha, fun stk _ p hg => reads_byte ha (Or.inl ht) stk hg p⟩
  text := by
    refine ⟨d, hd, fun p => ?_⟩
    have htested : f.tested p = rdU8 p := by simp [FieldInfo.tested, ha, ht]
    rw [htext, hdrawn, htested]
  same p := Or.inl (hdrawn p)
  size := by rw [ht]; rfl

/-- A bit-field that is drawn as its label. -/
theorem readsValue_bits {a : FilterApply} {d : DrawRow} {P : Popup} {lo n : Nat} (hn : n ≤ 8)
    (ha : f.filterApply = some a) (hd : f.drawRow = some d)
    (happly : ∀ stk, a.apply stk = faBits lo n stk) (ht : f.type = .u8)
    (htext : ∀ p, d.text f p = padLeft f.width (label P.texts (rdBits p lo n)))
    (htested : ∀ p, f.tested p = rdBits p lo n) (hdrawn : ∀ p, f.drawn p = f.tested p) :
    ReadsValue f P where
  apply := ⟨a, ha, fun stk _ p hg => reads_bits hn happly ht htested stk hg p⟩
  text := ⟨d, hd, fun p => by rw [htext, hdrawn, htested]⟩
  same p := Or.inl (hdrawn p)
  size := by rw [ht]; rfl

theorem drShutdown_label (f : FieldInfo) (p : Ptr) : drShutdown f p =
    padLeft f.width (label ["    ", "RD  ", "  WR", "RDWR"] (rdBits p 0 2)) := by
  have hlt : rdBits p 0 2 < 4 := rdBits_lt p 0 2
  unfold drShutdown
  dsimp only
  interval_cases rdBits p 0 2 <;> rfl

/-- `dr_common` reads two bytes of a truth value of one, and drops the second. -/
theorem rdU16_low (p : Ptr) : rdU16 p % 256 = rdU8 p := by
  have := (p 0).toNat_lt
  unfold rdU16 rdU8
  omega

theorem drBit_label (f : FieldInfo) (lo : Nat) (p : Ptr) :
    drBit lo f p = padLeft f.width (label ["false", "true"] (rdBits p lo 1)) := by
  rw [drBit, trueFalse_bit (rdBits_lt p lo 1)]

/-- `dr_shutdown` prints the text of two bits, and the whole byte is tested. -/
theorem readsValue_shutdown (ha : f.filterApply = some .faStrCommon)
    (hd : f.drawRow = some .drShutdown) (ht : f.type = .u8) :
    ReadsValue f ⟨["    ", "RD  ", "  WR", "RDWR"], RCV_SHUTDOWN⟩ where
  apply := ⟨_, ha, fun stk _ p hg => reads_byte ha (Or.inl ht) stk hg p⟩
  text := by
    refine ⟨_, hd, fun p => ?_⟩
    have hdrawn : f.drawn p = rdBits p 0 2 := by simp [FieldInfo.drawn, hd]
    rw [hdrawn]
    exact drShutdown_label f p
  same p := by
    have htested : f.tested p = rdU8 p := by simp [FieldInfo.tested, ha, ht]
    have hdrawn : f.drawn p = rdBits p 0 2 := by simp [FieldInfo.drawn, hd]
    rw [hdrawn, htested]
    exact (Nat.lt_or_ge (rdU8 p) 4).imp_left fun hlt => by simp [rdBits, Nat.mod_eq_of_lt hlt]
  size := by rw [ht]; rfl

/-- A byte that is drawn by whether it is 0, and tested as it is. -/
theorem readsValue_truth (ha : f.filterApply = some .faStrCommon)
    (hd : f.drawRow = some .drCommon) (ht : f.type = .boolU8) :
    ReadsValue f ⟨["false", "true"], 0⟩ where
  apply := ⟨_, ha, fun stk _ p hg => reads_byte ha (Or.inr ht) stk hg p⟩
  text := by
    refine ⟨_, hd, fun p => ?_⟩
    have hdrawn : f.drawn p = if rdU8 p = 0 then 0 else 1 := by simp [FieldInfo.drawn, hd, ht]
    rw [hdrawn, ← trueFalse_label, ← rdU16_low]
    simp [DrawRow.text, drCommon, ht]
  same p := by
    have htested : f.tested p = rdU8 p := by simp [FieldInfo.tested, ha, ht]
    have hdrawn : f.drawn p = if rdU8 p = 0 then 0 else 1 := by simp [FieldInfo.drawn, hd, ht]
    rw [hdrawn, htested]
    show _ ∨ 2 ≤ rdU8 p
    split_ifs <;> omega
  size := by rw [ht]; rfl

/-- A bit of a byte, drawn and tested as that bit. -/
theorem readsValue_bit {nr : Nat} (hnr : nr < 8) (ha : f.filterApply = some .faStrCommon)
    (hd : f.drawRow = some .drCommon) (ht : f.type = .bitU8 nr) :
    ReadsValue f ⟨["false", "true"], 0⟩ := by
  have htested : ∀ p, f.tested p = rdBits p nr 1 := fun p => by simp [FieldInfo.tested, ha, ht]
  have hdrawn : ∀ p, f.drawn p = f.tested p := fun p => by simp [FieldInfo.drawn, hd, ht]
  refine ⟨⟨_, ha, fun stk g p hg => ?_⟩, ⟨_, hd, fun p => ?_⟩, fun p => Or.inl (hdrawn p),
    by rw [ht]; rfl⟩
  · subst hg
    rw [htested]
    simp [FilterApply.apply, faStrCommon, ht, hnr]
  · rw [hdrawn, htested, ← trueFalse_bit (rdBits_lt p nr 1)]
    simp [DrawRow.text, drCommon, ht, Nat.not_lt.mpr (Nat.le_of_lt_succ hnr)]

end

theorem readsValue_of_shape {f : FieldInfo} {P : Popup}
    (hf : (f.drawRow, f.filterParse, f.filterApply, f.type) ∈ popupShapes)
    (hP : f.filterParse.bind FilterParse.popup = some P) : ReadsValue f P := by
  simp only [popupShapes, List.mem_append, List.mem_cons, List.mem_map, List.mem_range,
    List.not_mem_nil, or_false, Prod.mk.injEq] at hf
  rcases hf with (⟨hd, hp, ha, ht⟩ | ⟨hd, hp, ha, ht⟩ | ⟨hd, hp, ha, ht⟩ | ⟨hd, hp, ha, ht⟩ |
    ⟨hd, hp, ha, ht⟩ | ⟨hd, hp, ha, ht⟩ | ⟨hd, hp, ha, ht⟩ | ⟨hd, hp, ha, ht⟩ | ⟨hd, hp, ha, ht⟩ |
    ⟨hd, hp, ha, ht⟩ | ⟨hd, hp, ha, ht⟩ | ⟨hd, hp, ha, ht⟩) | ⟨nr, hnr, hd, hp, ha, ht⟩
  case inr =>
    rw [← hp] at hP
    cases hP
    exact readsValue_bit hnr ha.symm hd.symm ht.symm
  all_goals
    rw [hp] at hP
    cases hP
  · exact readsValue_byte ha hd ht (fun p => rfl) fun p => by simp [FieldInfo.drawn, hd]
  · exact readsValue_byte ha hd ht (fun p => rfl) fun p => by simp [FieldInfo.drawn, hd]
  · exact readsValue_shutdown ha hd ht
  · exact readsValue_byte ha hd ht (fun p => rfl) fun p => by simp [FieldInfo.drawn, hd]
  · exact readsValue_truth ha hd ht
  -- The others are bit-fields.
  · exact readsValue_bits (by decide) ha hd (fun stk => rfl) ht (fun p => drBit_label f 0 p)
      (fun p => by simp [FieldInfo.tested, ha]) fun p => by simp [FieldInfo.drawn, hd]
  · exact readsValue_bits (by decide) ha hd (fun stk => rfl) ht (fun p => rfl)
      (fun p => by simp [FieldInfo.tested, ha]) fun p => by simp [FieldInfo.drawn, hd]
  · exact readsValue_bits (by decide) ha hd (fun stk => rfl) ht (fun p => rfl)
      (fun p => by simp [FieldInfo.tested, ha]) fun p => by simp [FieldInfo.drawn, hd]
  · exact readsValue_bits (by decide) ha hd (fun stk => rfl) ht (fun p => rfl)
      (fun p => by simp [FieldInfo.tested, ha]) fun p => by simp [FieldInfo.drawn, hd]
  · exact readsValue_bits (by decide) ha hd (fun stk => rfl) ht (fun p => drBit_label f 0 p)
      (fun p => by simp [FieldInfo.tested, ha]) fun p => by simp [FieldInfo.drawn, hd]
  · exact readsValue_bits (by decide) ha hd (fun stk => rfl) ht (fun p => drBit_label f 1 p)
      (fun p => by simp [FieldInfo.tested, ha]) fun p => by simp [FieldInfo.drawn, hd]
  · exact readsValue_bits (by decide) ha hd (fun stk => rfl) ht (fun p => drBit_label f 2 p)
      (fun p => by simp [FieldInfo.tested, ha]) fun p => by simp [FieldInfo.drawn, hd]

/-! ## What is accepted -/

/-- What `draw_row` prints is what it prints for a value with a selected row. -/
def ShowsSelected (f : Field) (P : Popup) (sel : BitVec 32) (p : Ptr) : Prop :=
  ∃ d i, f.drawRow = some d ∧ P.HasRow i ∧ hasBit sel i = true ∧
    d.text f.toFieldInfo p = padLeft f.width (label P.texts i)

/-- The filter accepts what is drawn as selected, no value drawn as `?`, and reads the bytes of
its own value only. -/
structure PopupFaithful (f : Field) (P : Popup) (sel : BitVec 32) (ci : ConnInfo) : Prop where
  accepts : ∀ stk, ∃ b, f.filterResult stk ci = some b ∧
    (b = true ↔ ShowsSelected f P sel (ci.ptr f.offset))
  unknown : ∀ stk d, f.drawRow = some d →
    d.text f.toFieldInfo (ci.ptr f.offset) = padLeft f.width (bytes "?") →
    f.filterResult stk ci ≠ some true
  own : ∀ stk stk' ci', (∀ i < f.type.size, ci'.ptr f.offset i = ci.ptr f.offset i) →
    f.filterResult stk' ci' = f.filterResult stk ci

/-- The field does not read past a local variable. A byte that is tested as a whole has a bit in
the selection, and if its text is that of another number, that one is not selected. -/
@[mk_iff]
structure PopupExact (f : Field) (sel : BitVec 32) (ci : ConnInfo) : Prop where
  inBounds : ¬ f.readsPastLocal
  shift : f.filterApply = some .faStrCommon → f.type = .u8 ∨ f.type = .boolU8 →
    rdU8 (ci.ptr f.offset) < 32
  shutdown : f.filterParse = some .fpShutdown → rdU8 (ci.ptr f.offset) < 4 ∨
    hasBit sel (rdU8 (ci.ptr f.offset) % 4) = false
  bool : f.type = .boolU8 → rdU8 (ci.ptr f.offset) < 2 ∨ hasBit sel 1 = false

section

variable {f : Field} {P : Popup} {op : CmpOp} {sel : BitVec 32} {p p' : Ptr} {ci : ConnInfo}

theorem isSelected_eq (hflt : f.filter = some ⟨op, .selected sel⟩) (i : Nat) :
    isSelected f i = if i < 32 then some (hasBit sel i) else none := by
  unfold isSelected
  rw [hflt]
  rfl

/-- All readers of one value look at its first byte. -/
theorem tested_congr (h : p 0 = p' 0) : f.tested p = f.tested p' := by
  have hbyte : rdU8 p = rdU8 p' := by rw [rdU8, rdU8, h]
  unfold FieldInfo.tested rdBits
  rw [hbyte]

theorem showsSelected_iff (h : ReadsValue f.toFieldInfo P) (hd : P.Distinct f.width) :
    ShowsSelected f P sel p ↔ P.HasRow (f.drawn p) ∧ hasBit sel (f.drawn p) = true := by
  obtain ⟨d, hdraw, htext⟩ := h.text
  constructor
  · rintro ⟨d', i, hd', hrow, hbit, heq⟩
    rw [hdraw] at hd'
    cases hd'
    rw [htext] at heq
    obtain ⟨hunknown, hinj⟩ := hd i (List.mem_range.mpr hrow.2) hrow.1
    have hlt : f.drawn p < P.texts.length := by
      by_contra hge
      refine hunknown ?_
      rw [← heq, label, List.getD_eq_getElem?_getD,
        List.getElem?_eq_none (Nat.le_of_not_lt hge), Option.getD_none]
    rw [hinj _ (List.mem_range.mpr hlt) heq]
    exact ⟨hrow, hbit⟩
  · rintro ⟨hrow, hbit⟩
    exact ⟨d, _, hdraw, hrow, hbit, htext p⟩

theorem filterResult_eq (h : ReadsValue f.toFieldInfo P)
    (hflt : f.filter = some ⟨op, .selected sel⟩) (stk : FieldInfo → Ptr) (ci : ConnInfo) :
    f.filterResult stk ci =
      if f.tested (ci.ptr f.offset) < 32 then some (hasBit sel (f.tested (ci.ptr f.offset)))
      else none := by
  obtain ⟨g, hg, happly⟩ := h.apply
  unfold Field.filterResult
  rw [hg, Option.bind_some, happly _ f _ rfl, isSelected_eq hflt]

/-- **One value, read twice.** What is tested and what is drawn are the same number, or the
tested one has no row. -/
theorem popupFaithful_iff_values (h : ReadsValue f.toFieldInfo P) (hd : P.Distinct f.width)
    (hsel : P.Selects sel) (hflt : f.filter = some ⟨op, .selected sel⟩) :
    PopupFaithful f P sel ci ↔ f.tested (ci.ptr f.offset) < 32 ∧
      (f.drawn (ci.ptr f.offset) = f.tested (ci.ptr f.offset) ∨
        hasBit sel (f.drawn (ci.ptr f.offset)) = false) := by
  have hshows : ShowsSelected f P sel (ci.ptr f.offset) ↔
      hasBit sel (f.drawn (ci.ptr f.offset)) = true := by
    rw [showsSelected_iff h hd]
    exact ⟨fun h => h.2, fun h => ⟨hsel _ h, h⟩⟩
  have hnorow : P.texts.length ≤ f.tested (ci.ptr f.offset) →
      hasBit sel (f.tested (ci.ptr f.offset)) = false := by
    intro hge
    by_contra hbit
    have := (hsel _ (Bool.eq_true_of_not_eq_false hbit)).2
    omega
  constructor
  · -- What is tested has a bit, and if another number is drawn, the tested one has no row.
    intro hf
    obtain ⟨b, hb, hiff⟩ := hf.accepts fun _ _ => 0
    rw [filterResult_eq h hflt] at hb
    split_ifs at hb with hlt
    cases hb
    refine ⟨hlt, (h.same (ci.ptr f.offset)).imp_right fun hge => ?_⟩
    rw [hshows, hnorow hge] at hiff
    by_contra hbit
    exact absurd (hiff.mpr (Bool.eq_true_of_not_eq_false hbit)) (by decide)
  · rintro ⟨hlt, hsame⟩
    have hresult : ∀ stk, f.filterResult stk ci =
        some (hasBit sel (f.tested (ci.ptr f.offset))) := fun stk => by
      rw [filterResult_eq h hflt, if_pos hlt]
    have hbits : hasBit sel (f.tested (ci.ptr f.offset)) =
        hasBit sel (f.drawn (ci.ptr f.offset)) := by
      rcases hsame with hsame | hnot
      · rw [hsame]
      · rcases h.same (ci.ptr f.offset) with heq | hge
        · rw [heq]
        · rw [hnorow hge, hnot]
    refine ⟨fun stk => ⟨_, hresult stk, by rw [hbits]; exact hshows.symm⟩, ?_, ?_⟩
    · intro stk d hdraw htext hyes
      rw [hresult stk, hbits] at hyes
      obtain ⟨d', hdraw', htext'⟩ := h.text
      rw [hdraw] at hdraw'
      cases hdraw'
      have hrow := hsel _ (Option.some.inj hyes)
      rw [htext'] at htext
      exact (hd _ (List.mem_range.mpr hrow.2) hrow.1).1 htext
    · intro stk stk' ci' hsame
      have hbyte : ci'.ptr f.offset 0 = ci.ptr f.offset 0 := hsame 0 (by rw [h.size]; decide)
      rw [filterResult_eq h hflt, filterResult_eq h hflt, tested_congr hbyte]

/-- The condition says what it takes that the two numbers are fit. -/
theorem popupExact_iff_values
    (hf : (f.drawRow, f.filterParse, f.filterApply, f.type) ∈ popupShapes) :
    PopupExact f sel ci ↔ f.tested (ci.ptr f.offset) < 32 ∧
      (f.drawn (ci.ptr f.offset) = f.tested (ci.ptr f.offset) ∨
        hasBit sel (f.drawn (ci.ptr f.offset)) = false) := by
  have hbits : ∀ lo n, n ≤ 2 → rdBits (ci.ptr f.offset) lo n < 32 := fun lo n hn =>
    (rdBits_lt _ lo n).trans_le ((Nat.pow_le_pow_right (by decide) hn).trans (by decide))
  have hmod : rdBits (ci.ptr f.offset) 0 2 = rdU8 (ci.ptr f.offset) % 4 := by simp [rdBits]
  simp only [popupShapes, List.mem_append, List.mem_cons, List.mem_map, List.mem_range,
    List.not_mem_nil, or_false, Prod.mk.injEq] at hf
  rcases hf with (⟨hd, hp, ha, ht⟩ | ⟨hd, hp, ha, ht⟩ | ⟨hd, hp, ha, ht⟩ | ⟨hd, hp, ha, ht⟩ |
    ⟨hd, hp, ha, ht⟩ | ⟨hd, hp, ha, ht⟩ | ⟨hd, hp, ha, ht⟩ | ⟨hd, hp, ha, ht⟩ | ⟨hd, hp, ha, ht⟩ |
    ⟨hd, hp, ha, ht⟩ | ⟨hd, hp, ha, ht⟩ | ⟨hd, hp, ha, ht⟩) | ⟨nr, hnr, hd, hp, ha, ht⟩
  case inr =>
    simp [popupExact_iff, FieldInfo.readsPastLocal, FieldInfo.tested, FieldInfo.drawn, ← hd, ← hp,
      ← ha, ← ht, hbits]
  all_goals
    simp [popupExact_iff, FieldInfo.readsPastLocal, FieldInfo.tested, FieldInfo.drawn, hd, hp, ha,
      ht, hbits]
  -- `shutdown` and the truth value in a byte are left.
  · intro _
    rw [hmod]
    exact or_congr_left ⟨fun hlt => Nat.mod_eq_of_lt hlt, fun heq => by omega⟩
  · intro _
    by_cases hv : rdU8 (ci.ptr f.offset) ≤ 1
    · refine iff_of_true (Or.inl hv) (Or.inl ?_)
      split_ifs <;> omega
    · rw [if_neg (by omega)]
      exact or_congr_left (iff_of_false hv (by omega))

/-- A byte with ones behind it, read as a word of two bytes. -/
theorem long16 (v : Nat) : 32 ≤ rdU16 (localVar 1 v fun _ => 255) := by
  have hbehind : ((localVar 1 v fun _ => 255) 1).toNat = 255 := rfl
  unfold rdU16
  rw [hbehind]
  omega

theorem long32 (v : Nat) : 32 ≤ rdU32 (localVar 1 v fun _ => 255) := by
  have h := long16 v
  unfold rdU32
  omega

/-- A byte that is read as a longer word may give any shift count. -/
theorem faithful_never (hf : f.toFieldInfo.readsPastLocal)
    (hflt : f.filter = some ⟨op, .selected sel⟩) : ¬ PopupFaithful f P sel ci := by
  intro h
  -- With ones on the stack the shift count is at least 32.
  obtain ⟨b, hb, -⟩ := h.accepts fun _ _ => 255
  have hshift : ∀ i, 32 ≤ i → isSelected f i ≠ some b := by
    intro i hi heq
    rw [isSelected_eq hflt, if_neg (by omega)] at heq
    cases heq
  rcases hf with ⟨ha, ht⟩ | ⟨ha, ht⟩
  · unfold Field.filterResult at hb
    rw [ha, Option.bind_some] at hb
    simp only [FilterApply.apply, faVegasEnabled, faStrCommon, ht] at hb
    exact hshift _ (long32 _) hb
  · unfold Field.filterResult at hb
    rw [ha, Option.bind_some] at hb
    simp only [FilterApply.apply, faDctcpEnabled, faStrCommon, ht] at hb
    exact hshift _ (long16 _) hb

end

/-- **Where a selection is applied as it is drawn.** -/
theorem popup_faithful_iff {f : Field} {fp : FilterParse} {P : Popup}
    (hf : f.toFieldInfo ∈ tcpFields.map (·.toFieldInfo)) (hfp : f.filterParse = some fp)
    (hP : fp.popup = some P) {op : CmpOp} {sel : BitVec 32} (hsel : P.Selects sel)
    (hflt : f.filter = some ⟨op, .selected sel⟩) (ci : ConnInfo) :
    PopupFaithful f P sel ci ↔ PopupExact f sel ci := by
  have hpopup : f.filterParse.bind FilterParse.popup = some P := by rw [hfp]; exact hP
  rcases tcpFields_popupShapes _ hf (by rw [hpopup]; rfl) with hlocal | hshape
  · exact iff_of_false (faithful_never hlocal hflt) fun h => h.inBounds hlocal
  · rw [popupExact_iff_values hshape]
    exact popupFaithful_iff_values (readsValue_of_shape hshape hpopup)
      (tcpFields_distinct _ hf P hpopup) hsel hflt

/-- A blank in the popup of the state selects its first row, that of an established connection. -/
theorem popup_faithful_iff_state :
    let state := tcpFields.getD 5 (heading "" 0)
    let ci : ConnInfo := { ConnInfo.zero with img := fun i => if i = 25 then 1 else 0 }
    FilterParse.fpState.run state [] [key ' ', key 'q'] =
        some ⟨false, some ⟨.other, .selected (bit 1)⟩, []⟩ ∧
      PopupFaithful { state with filter := some ⟨.other, .selected (bit 1)⟩ } ⟨stateStr, 1⟩
        (bit 1) ci := by
  intro state ci
  have hrun : FilterParse.fpState.run state [] [key ' ', key 'q'] =
      some ⟨false, some ⟨.other, .selected (bit 1)⟩, []⟩ := by decide +kernel
  have hnone : state.filter = none := by decide +kernel
  obtain ⟨sel, harg, hsel⟩ := FilterParse.run_makes (P := ⟨stateStr, 1⟩) rfl
    (fun flt hflt => by rw [hnone] at hflt; cases hflt) hrun _ rfl
  cases harg
  have hparse : ({ state with filter := some ⟨.other, .selected (bit 1)⟩ } : Field).filterParse =
      some .fpState := rfl
  refine ⟨hrun, (popup_faithful_iff (by decide +kernel) hparse rfl hsel rfl ci).mpr
    ⟨by decide, fun _ _ => by decide, by decide, by decide⟩⟩

/-- Vegas is enabled and `true` is selected, but what the filter does is up to the stack. -/
theorem popup_past_local : ¬ ∀ (f : Field) (fp : FilterParse) (P : Popup) (op : CmpOp)
    (sel : BitVec 32) (ci : ConnInfo), f.toFieldInfo ∈ tcpFields.map (·.toFieldInfo) →
    f.filterParse = some fp → fp.popup = some P → P.Selects sel →
    f.filter = some ⟨op, .selected sel⟩ → PopupFaithful f P sel ci := by
  intro h
  have hsel : (Popup.mk ["false", "true"] 0).Selects (bit 1) := by
    intro i hi
    rw [hasBit_bit, decide_eq_true_eq] at hi
    rw [hi.2]
    exact ⟨Nat.zero_le _, by decide⟩
  refine faithful_never (Or.inl ⟨?_, ?_⟩) rfl
    (h { tcpFields.getD 102 (heading "" 0) with filter := some ⟨.other, .selected (bit 1)⟩ } .fpBool
      ⟨["false", "true"], 0⟩ .other (bit 1)
      { ConnInfo.zero with img := fun i => if i = 392 then 1 else 0 } (by decide +kernel) rfl rfl
      hsel rfl)
  · rfl
  · rfl

end Sockmon

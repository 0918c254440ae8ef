import Sockmon.Basic.InetNtop
import Sockmon.Field.AddrMatch
import Sockmon.Field.Numeral

set_option autoImplicit false

/-! # The text of the current filter

`decode_filter` writes the filter of a field as the line one would type for it. Typing that line
installs a filter that accepts the same connections, unless the operator has no text for the type
of the field (`roundTrip_iff`). Of a string that is too long for the buffer only a part is shown,
but then neither the string nor that part is the name of a process or an algorithm, which have at
most 15 characters (`ConnInfo.Terminated`).
-/

namespace Sockmon

open LineScan

/-! ## Writing -/

/-- The text of an operator. -/
def CmpOp.text (op : CmpOp) : List UInt8 :=
  match op with
  | .eq => bytes "="
  | .ne => bytes "!="
  | .gt => bytes ">"
  | .ge => bytes ">="
  | .lt => bytes "<"
  | .le => bytes "<="
  | .ct => bytes "~"
  | .nc => bytes "!~"
  | .other => bytes "?"

/-- The text of an operator that is one of `ops`. -/
def decodeOp (ops : List CmpOp) (op : CmpOp) : List UInt8 :=
  if op ∈ ops then op.text else bytes "?"

/-- The two loops over the bits of a mask: the ones before the first zero, in the first `len`
bytes. -/
def decodePfix (mask : List UInt8) (len : Nat) : Nat :=
  ((List.range (8 * len)).takeWhile fun i =>
    (mask.getD (i / 8) 0).toNat.testBit (7 - i % 8)).length

/-- `snprintf` into `n` bytes. -/
def snprintf (n : Nat) (s : List UInt8) : List UInt8 := s.take (n - 1)

/-- The text that `decode_filter` has in `buf`. -/
def decodeFilter (f : FieldInfo) (flt : Filter) : Option (List UInt8) :=
  if f.type = .address then do
    let (addr, mask, family) ← flt.addr
    let dst ← inetNtop family addr
    let pfix := decodePfix mask (if family = AF_INET then 4 else 16)
    let dst := dst ++ snprintf (bufSize - dst.length) (47 :: digits pfix)
    return snprintf bufSize (decodeOp [.eq, .ne] flt.op ++ dst)
  else if f.type = .string then do
    return snprintf bufSize (decodeOp [.eq, .ct, .nc] flt.op ++ (← flt.s))
  else do
    return snprintf bufSize (decodeOp [.eq, .ne, .gt, .ge, .lt, .le] flt.op ++ digits (← flt.v))

/-- The strings of the connection end inside the members that hold them, as those of every
connection that is listed do (`listed_terminated`). -/
structure ConnInfo.Terminated (ci : ConnInfo) : Prop where
  caName : ∃ j < TCP_CA_NAME_MAX, ci.img (ofConnInfo.caName + j) = 0
  comm : ∃ j < TASK_COMM_LEN, ci.img (ofConnInfo.comm + j) = 0

/-- The text of the filter, typed back, installs a filter that accepts the same connections. -/
def RoundTrips (f : Field) (fp : FilterParse) (flt : Filter) : Prop :=
  ∃ t, decodeFilter f.toFieldInfo flt = some t ∧ ∀ nl rest, isNewline nl = true →
    ∃ flt', Installs fp f [] (textKeys t ++ nl :: rest) flt' ∧
      ∀ g, f.filterApply = some g → ∀ (stk : Ptr) (ci : ConnInfo), ci.Terminated →
        g.apply stk { f with filter := some flt' } (ci.ptr f.offset) =
          g.apply stk { f with filter := some flt } (ci.ptr f.offset)

/-! ## Texts and keys -/

theorem textKeys_append (t t' : List UInt8) : textKeys (t ++ t') = textKeys t ++ textKeys t' :=
  List.map_append

theorem textKeys_op {op : CmpOp} (h : op ≠ .other) : textKeys op.text = op.keys := by
  cases op with
  | other => exact absurd rfl h
  | eq | ne | gt | ge | lt | le | ct | nc => decide +kernel

theorem length_text {op : CmpOp} (h : op ≠ .other) : op.text.length = op.keys.length := by
  rw [← textKeys_op h, textKeys, List.length_map]

theorem allDigits_digits (n : Nat) : AllDigits (digits n) := by
  have hdigit : ∀ d < 10, isdigit (digitByte d).toNat = true := by decide
  induction n using Nat.base_induction 10 (by omega) with
  | single d hd =>
      rw [digits_of_lt hd]
      simpa [AllDigits] using hdigit d hd
  | digit m k hk hm ih =>
      rw [digits_append hk hm]
      exact List.forall_mem_append.mpr ⟨ih, by simpa using hdigit k hk⟩

/-- Decimal digits are read back. -/
theorem decimal_digits (n : Nat) : decimal (digits n) = n := by
  induction n using Nat.base_induction 10 (by omega) with
  | single d hd =>
      rw [digits_of_lt hd]
      simp [decimal, toNat_digitByte d hd]
  | digit m k hk hm ih =>
      rw [digits_append hk hm, decimal, List.foldl_append, ← decimal, ih]
      simp [toNat_digitByte k hk]
      omega

theorem numeral_textKeys (t : List UInt8) : numeral (textKeys t) = decimal t := by
  simp [numeral, decimal, textKeys, List.foldl_map]

theorem unblank_textKeys {t : List UInt8} (h : ∀ c ∈ t, isAddrChar c.toNat = true) :
    unblank (textKeys t) = textKeys t := by
  refine List.filter_eq_self.mpr fun k hk => ?_
  obtain ⟨c, hc, rfl⟩ := List.mem_map.mp hk
  have hge := (addrChar_range (h c hc)).1
  have hblank : isBlank (c.toNat : Key) = false := by
    unfold isBlank
    simp only [Bool.or_eq_false_iff, beq_eq_false_iff_ne]
    constructor
    · intro he
      rw [he] at hge
      exact absurd hge (by decide)
    · intro he
      rw [he] at hge
      exact absurd hge (by decide)
  rw [hblank]
  rfl

theorem snprintf_eq {n : Nat} {s : List UInt8} (h : s.length < n) : snprintf n s = s :=
  List.take_of_length_le (by omega)

/-- The text of another operator is no operator for `fp_common`. -/
theorem commonReading_question (str : Bool) (t : List UInt8) :
    commonReading str (textKeys (63 :: t)) = .bad := by
  have hdrop : (textKeys (63 :: t)).dropWhile isBlank = textKeys (63 :: t) :=
    List.dropWhile_cons_of_neg (by decide)
  refine lineReading_bad ?_ ?_
  · rw [hdrop]
    simp [readOp, commonOps, CmpOp.keys, key, List.isPrefixOf, textKeys]
  · rw [hdrop]
    simp [textKeys]

/-- A printable text with an operator in front is a line. -/
theorem isLine_text (op : CmpOp) {t : List UInt8} (h : ∀ c ∈ t, isprint c.toNat = true) :
    IsLine isNewline (op.keys ++ textKeys t) := by
  refine isLine_op op (List.forall_mem_nil _) fun k hk => ?_
  obtain ⟨c, hc, rfl⟩ := List.mem_map.mp hk
  exact isNewline_of_print (h c hc)

/-! ## Fields of `fp_common` -/

section

variable {f : Field}

theorem fpCommon_type (hf : f.toFieldInfo ∈ tcpFields.map (·.toFieldInfo))
    (hfp : f.filterParse = some .fpCommon) :
    f.type ≠ .address ∧ (f.type = .string → f.filterApply = some .faString) := by
  have hall : ∀ f ∈ tcpFields.map (·.toFieldInfo), f.filterParse = some .fpCommon →
      f.type ≠ .address ∧ (f.type = .string → f.filterApply = some .faString) := by
    decide +kernel
  exact hall _ hf hfp

/-- The strings are the names of the process and of the algorithm. -/
theorem string_offset : ∀ f ∈ tcpFields.map (·.toFieldInfo), f.type = .string →
    f.offset = ofConnInfo.caName ∨ f.offset = ofConnInfo.comm := by
  decide +kernel

theorem boxOps_number (haddr : f.type ≠ .address) (hstr : f.type ≠ .string) :
    boxOps f.type = [.eq, .ne, .gt, .ge, .lt, .le] := by
  rw [boxOps, if_neg haddr, if_neg hstr]

theorem boxOps_string (hstr : f.type = .string) : boxOps f.type = [.eq, .ct, .nc] := by
  rw [hstr]
  rfl

/-- The text that `decode_filter` has for a filter of `fp_common`. -/
theorem decodeFilter_common (op : CmpOp) (haddr : f.type ≠ .address) {arg : FilterArg}
    {t : List UInt8}
    (harg : f.type = .string ∧ arg = .s t ∨ f.type ≠ .string ∧ ∃ v, arg = .v v ∧ t = digits v) :
    decodeFilter f.toFieldInfo ⟨op, arg⟩ =
      some (snprintf bufSize (decodeOp (boxOps f.type) op ++ t)) := by
  unfold decodeFilter
  rw [if_neg haddr]
  rcases harg with ⟨hstr, rfl⟩ | ⟨hstr, v, rfl, rfl⟩
  · rw [if_pos hstr, boxOps_string hstr]
    rfl
  · rw [if_neg hstr, boxOps_number haddr hstr]
    rfl

/-- With an operator that is not shown for the type the text is no filter. -/
theorem not_roundTrips {flt : Filter} {t : List UInt8}
    (hdecode : decodeFilter f.toFieldInfo flt =
      some (snprintf bufSize (decodeOp (boxOps f.type) flt.op ++ t)))
    (hchars : ∀ c ∈ t, isprint c.toNat = true) (hop : flt.op ∉ boxOps f.type) :
    ¬ RoundTrips f .fpCommon flt := by
  rintro ⟨u, hu, hback⟩
  rw [hdecode, decodeOp, if_neg hop] at hu
  obtain ⟨w, hw, hwt⟩ : ∃ w, u = 63 :: w ∧ ∀ c ∈ w, isprint c.toNat = true := by
    refine ⟨t.take 78, ?_, fun c hc => hchars c (List.mem_of_mem_take hc)⟩
    rw [← Option.some.inj hu]
    rfl
  obtain ⟨flt', hinst, -⟩ := hback (key '\n') [] rfl
  have hline : IsLine isNewline (textKeys u) := by
    rw [hw]
    exact isLine_text .other (List.forall_mem_cons.mpr ⟨by decide, hwt⟩)
  obtain ⟨hread, -⟩ := (installs_common hline rfl).mp hinst
  rw [hw, commonReading_question] at hread
  cases hread

theorem ne_other_of_boxOps {type : FieldType} {op : CmpOp} (h : op ∈ boxOps type) :
    op ≠ .other := by
  rintro rfl
  exact absurd (boxOps_common h) (by decide)

theorem length_opKeys (op : CmpOp) : op.keys.length ≤ 2 := by
  cases op <;> decide

theorem length_decodeOp {type : FieldType} {op : CmpOp} (hop : op ∈ boxOps type) :
    (decodeOp (boxOps type) op).length = op.keys.length := by
  rw [decodeOp, if_pos hop, length_text (ne_other_of_boxOps hop)]

/-- What the text of an operator of the type and an operand is read as. -/
theorem commonReading_text {op : CmpOp} {t : List UInt8} (hop : op ∈ boxOps f.type)
    (hchars : OperandChars f.type (textKeys t)) (hgiven : OperandGiven f.type (textKeys t))
    (hlen : f.type = .string → t.length ≤ bufSize) :
    commonReading (f.type = .string) (textKeys (decodeOp (boxOps f.type) op ++ t)) =
      .new ⟨op, commonArg (f.type = .string) ((commonReader (f.type = .string)).kept
        (textKeys t))⟩ := by
  have hread := commonReading_advertised (List.forall_mem_nil _) hop hchars
  rw [List.nil_append] at hread
  have htake := takes_iff.mpr ⟨hchars, fun ht => by simpa [textKeys] using hlen ht⟩
  rw [decodeOp, if_pos hop, textKeys_append, textKeys_op (ne_other_of_boxOps hop), hread]
  exact operandReading_new.mpr ⟨htake, (kept_ne_nil_iff hchars).mpr hgiven, rfl⟩

/-- Numbers are typed back as they are. -/
theorem roundTrips_number (haddr : f.type ≠ .address) (hstr : f.type ≠ .string) {op : CmpOp}
    {v : Nat} (hv : v < 2 ^ 64) (hop : op ∈ boxOps f.type) :
    RoundTrips f .fpCommon ⟨op, .v v⟩ := by
  -- 20 digits and an operator are far from the 80 bytes: nothing is cut
  have hlen : (digits v).length ≤ 20 := (length_digits_le (by omega)).mpr (by omega)
  have hkeys := length_opKeys op
  have htext := length_decodeOp hop
  have hdigit : ∀ k ∈ textKeys (digits v), isdigit k = true := by
    intro k hk
    obtain ⟨c, hc, rfl⟩ := List.mem_map.mp hk
    exact allDigits_digits v c hc
  have hchars : OperandChars f.type (textKeys (digits v)) := by
    unfold OperandChars
    rw [if_neg hstr]
    exact fun k hk => Or.inr (hdigit k hk)
  have hgiven : OperandGiven f.type (textKeys (digits v)) := by
    unfold OperandGiven
    rw [if_neg hstr]
    obtain ⟨k, hk⟩ := List.exists_mem_of_ne_nil (textKeys (digits v))
      (by simp [textKeys, digits_ne_nil])
    exact ⟨k, hk, hdigit k hk⟩
  have harg : commonArg (f.type = .string) ((commonReader (f.type = .string)).kept
      (textKeys (digits v))) = .v v := by
    have hkept : (textKeys (digits v)).filter (fun k => !isBlank k) = textKeys (digits v) :=
      List.filter_eq_self.mpr fun k hk => by rw [not_blank_of_digit (hdigit k hk)]; rfl
    simp only [hstr, decide_false, commonArg, kept_number, hkept, wrapValue_eq, numeral_textKeys,
      decimal_digits, Nat.mod_eq_of_lt hv]
    rfl
  have hdecode := decodeFilter_common op haddr (Or.inr ⟨hstr, v, rfl, rfl⟩)
  rw [snprintf_eq (by rw [List.length_append, htext, bufSize]; omega)] at hdecode
  refine ⟨_, hdecode, fun nl rest hnl => ⟨⟨op, .v v⟩, ?_, fun g hg stk ci hci => rfl⟩⟩
  have hline : IsLine isNewline (textKeys (decodeOp (boxOps f.type) op ++ digits v)) := by
    rw [decodeOp, if_pos hop, textKeys_append, textKeys_op (ne_other_of_boxOps hop)]
    exact isLine_numeral op (fun k hk => Or.inr (hdigit k hk)) (List.forall_mem_nil _)
  refine (installs_common hline hnl).mpr ⟨?_, by simp [hstr, commonMem]⟩
  rw [commonReading_text hop hchars hgiven fun ht => absurd ht hstr, harg]

/-! ## Strings -/

/-- A string that is found is not longer. -/
theorem length_le_of_strstr {t s : List UInt8} (h : strstr t s = true) : t.length ≤ s.length := by
  induction s with
  | nil =>
      rw [strstr, List.isEmpty_iff] at h
      simp [h]
  | cons c s ih =>
      rw [strstr, Bool.or_eq_true] at h
      rcases h with hpre | hsub
      · exact (List.isPrefixOf_iff_prefix.mp hpre).length_le
      · exact (ih hsub).trans (Nat.le_succ _)

/-- `fa_string` with a filter of `fp_common`. -/
theorem faString_eq {fd : Field} {op : CmpOp} {s : List UInt8} (p : Ptr)
    (hflt : fd.filter = some ⟨op, .s s⟩) (hop : op ∈ [CmpOp.eq, .ct, .nc]) :
    faString fd p = some (
      if op = .eq then cstr p (sizeofConnInfo - fd.offset) == s
      else if op = .ct then strstr s (cstr p (sizeofConnInfo - fd.offset))
      else !strstr s (cstr p (sizeofConnInfo - fd.offset))) := by
  unfold faString
  rw [hflt]
  simp only [List.mem_cons, List.not_mem_nil, or_false] at hop
  rcases hop with rfl | rfl | rfl <;> rfl

/-- Two strings that are longer than the string of the connection are not told apart. -/
theorem faString_long (fd fd' : Field) {op : CmpOp} {s s' : List UInt8} (p : Ptr)
    (hflt : fd.filter = some ⟨op, .s s⟩) (hflt' : fd'.filter = some ⟨op, .s s'⟩)
    (hoff : fd'.offset = fd.offset) (hop : op ∈ [CmpOp.eq, .ct, .nc])
    (hs : (cstr p (sizeofConnInfo - fd.offset)).length < s.length)
    (hs' : (cstr p (sizeofConnInfo - fd.offset)).length < s'.length) :
    faString fd' p = faString fd p := by
  have hno : ∀ t : List UInt8, (cstr p (sizeofConnInfo - fd.offset)).length < t.length →
      (cstr p (sizeofConnInfo - fd.offset) == t) = false ∧
        strstr t (cstr p (sizeofConnInfo - fd.offset)) = false := by
    intro t ht
    constructor
    · rw [beq_eq_false_iff_ne]
      intro he
      rw [he] at ht
      exact Nat.lt_irrefl _ ht
    · rw [Bool.eq_false_iff]
      intro he
      have hle := length_le_of_strstr he
      omega
  rw [faString_eq p hflt hop, faString_eq p hflt' hop, hoff, (hno s hs).1, (hno s hs).2,
    (hno s' hs').1, (hno s' hs').2]

/-- A string is not longer than the bytes before its NUL. -/
theorem length_cstr_le {p : Ptr} {n j : Nat} (hj : p j = 0) : (cstr p n).length ≤ j := by
  by_contra hlong
  have hget : (cstr p n)[j]? = some 0 := by
    have hpre : cstr p n <+: p.take n := List.takeWhile_prefix _
    rw [List.getElem?_eq_getElem (by omega), hpre.getElem (by omega)]
    simp [Ptr.take, hj]
  exact cstr_ne_zero 0 (List.mem_of_getElem? hget) rfl

/-- **The strings of a connection** have at most 15 characters. -/
theorem ConnInfo.Terminated.length_lt {ci : ConnInfo} (hci : ci.Terminated)
    (hf : f.toFieldInfo ∈ tcpFields.map (·.toFieldInfo)) (hstr : f.type = .string) :
    (cstr (ci.ptr f.offset) (sizeofConnInfo - f.offset)).length < 16 := by
  rcases string_offset _ hf hstr with hoff | hoff
  · obtain ⟨j, hj, hzero⟩ := hci.caName
    rw [hoff]
    unfold TCP_CA_NAME_MAX at hj
    exact lt_of_le_of_lt (length_cstr_le hzero) hj
  · obtain ⟨j, hj, hzero⟩ := hci.comm
    rw [hoff]
    unfold TASK_COMM_LEN at hj
    exact lt_of_le_of_lt (length_cstr_le hzero) hj

/-- What is shown of a string behind an operator. -/
def shownString (op : CmpOp) (s : List UInt8) : List UInt8 :=
  s.take (bufSize - 1 - op.keys.length)

theorem length_shownString (op : CmpOp) (s : List UInt8) :
    (shownString op s).length = min (bufSize - 1 - op.keys.length) s.length :=
  List.length_take

theorem decodeFilter_string (hstr : f.type = .string) {op : CmpOp} (hop : op ∈ boxOps f.type)
    (s : List UInt8) : decodeFilter f.toFieldInfo ⟨op, .s s⟩ =
      some (decodeOp (boxOps f.type) op ++ shownString op s) := by
  have haddr : f.type ≠ .address := by rw [hstr]; simp
  have htext := length_decodeOp hop
  have hkeys := length_opKeys op
  rw [decodeFilter_common op haddr (Or.inl ⟨hstr, rfl⟩), snprintf, List.take_append, htext,
    List.take_of_length_le (by rw [htext]; unfold bufSize; omega)]
  rfl

/-- Typing back what is shown of a string gives just that. -/
theorem installs_string (hstr : f.type = .string) {op : CmpOp} (hop : op ∈ boxOps f.type)
    {s : List UInt8} (hs : ∀ c ∈ s, isprint c.toNat = true) (hne : s ≠ [])
    (hlen : s.length ≤ bufSize) (rest : List Key) {nl : Key} (hnl : isNewline nl = true)
    (flt : Filter) :
    Installs .fpCommon f [] (textKeys (decodeOp (boxOps f.type) op ++ s) ++ nl :: rest) flt ↔
      flt = ⟨op, .s s⟩ := by
  have hchars : OperandChars f.type (textKeys s) := by
    unfold OperandChars
    rw [if_pos hstr]
    intro k hk
    obtain ⟨c, hc, rfl⟩ := List.mem_map.mp hk
    exact hs c hc
  have hgiven : OperandGiven f.type (textKeys s) := by
    unfold OperandGiven
    rw [if_pos hstr]
    simpa [textKeys] using hne
  have hline : IsLine isNewline (textKeys (decodeOp (boxOps f.type) op ++ s)) := by
    rw [decodeOp, if_pos hop, textKeys_append, textKeys_op (ne_other_of_boxOps hop)]
    exact isLine_text op hs
  have hread := commonReading_text hop hchars hgiven fun _ => hlen
  simp only [hstr, decide_true, kept_string, commonArg, if_true, map_keyByte_textKeys] at hread
  rw [installs_common hline hnl]
  simp only [hstr, decide_true]
  rw [hread]
  constructor
  · rintro ⟨heq, -⟩
    cases heq
    rfl
  · rintro rfl
    exact ⟨rfl, rfl⟩

/-- Strings are typed back as far as they are shown, and if that is not all of them, no connection
has a string as long. -/
theorem roundTrips_string (hf : f.toFieldInfo ∈ tcpFields.map (·.toFieldInfo))
    (hstr : f.type = .string) (happly : f.filterApply = some .faString)
    {op : CmpOp} {s : List UInt8} (hs : ∀ c ∈ s, isprint c.toNat = true) (hne : s ≠ [])
    (hlen : s.length ≤ bufSize) (hop : op ∈ boxOps f.type) :
    RoundTrips f .fpCommon ⟨op, .s s⟩ := by
  have hkeys := length_opKeys op
  have hpos := List.length_pos_of_ne_nil hne
  have hshown := length_shownString op s
  have hprint : ∀ c ∈ shownString op s, isprint c.toNat = true :=
    fun c hc => hs c (List.mem_of_mem_take hc)
  have hshownne : shownString op s ≠ [] := by
    refine List.ne_nil_of_length_pos ?_
    rw [hshown]
    unfold bufSize
    omega
  refine ⟨_, decodeFilter_string hstr hop s, fun nl rest hnl => ⟨⟨op, .s (shownString op s)⟩,
    (installs_string hstr hop hprint hshownne (by omega) rest hnl _).mpr rfl, ?_⟩⟩
  intro g hg stk ci hci
  rw [happly] at hg
  cases hg
  -- the text is cut to 79 bytes, which are still more than a terminated field holds
  by_cases hshort : op.keys.length + s.length < bufSize
  · have hwhole : shownString op s = s := List.take_of_length_le (by omega)
    rw [hwhole]
  · have hname := hci.length_lt hf hstr
    rw [boxOps_string hstr] at hop
    unfold bufSize at hshort hshown
    exact faString_long { f with filter := some ⟨op, .s s⟩ }
      { f with filter := some ⟨op, .s (shownString op s)⟩ } _ rfl rfl rfl hop
      (by simp only; omega) (by simp only; omega)

end

/-! ## Fields of `fp_addr` -/

/-- Counting the ones of a mask. -/
theorem decodePfix_eq {mask : List UInt8} {n p : Nat}
    (hmask : BitPrefix.IsMask (fun i => mask.getD i 0) n p) (hp : p ≤ 8 * n) :
    decodePfix mask n = p := by
  have hbit : ∀ i < 8 * n, (mask.getD (i / 8) 0).toNat.testBit (7 - i % 8) = decide (i < p) := hmask
  obtain ⟨k, hk⟩ : ∃ k, 8 * n = p + k := ⟨8 * n - p, by omega⟩
  have hones : ∀ i ∈ List.range p,
      (mask.getD (i / 8) 0).toNat.testBit (7 - i % 8) = true := by
    intro i hi
    rw [hbit i (by rw [List.mem_range] at hi; omega)]
    exact decide_eq_true (List.mem_range.mp hi)
  have hzero : ((List.range k).map (p + ·)).takeWhile (fun i =>
      (mask.getD (i / 8) 0).toNat.testBit (7 - i % 8)) = [] := by
    cases k with
    | zero => rfl
    | succ k =>
        rw [List.range_succ_eq_map, List.map_cons, Nat.add_zero]
        refine List.takeWhile_cons_of_neg ?_
        rw [hbit p (by omega)]
        simp
  rw [decodePfix, hk, List.range_add, List.takeWhile_append_of_pos hones, hzero, List.append_nil,
    List.length_range]

/-- The length that a mask of `fp_addr` is shown with. -/
theorem AddrSplit.isMask {t host mask : List UInt8} (h : AddrSplit t host mask) (family : Nat) :
    ∃ p, BitPrefix.IsMask (fun i => mask.getD i 0) (addrLen family) p ∧ p ≤ addrBits family := by
  cases h with
  | whole ht hmask =>
      rw [hmask]
      exact ⟨_, isMask_whole (addrLen_le family), le_rfl⟩
  | pfix q ht hq hle hmask =>
      refine ⟨min (decimal q) (addrBits family), fun i hi => ?_, min_le_right _ _⟩
      rw [hmask, isMask_prefixMask _ (addrLen_le family) i hi, decide_eq_decide]
      unfold addrBits
      omega

/-- The answer for a network is determined. -/
theorem NetworkAnswer.unique {op : CmpOp} {b b' : Option Bool} {q : Prop} (hop : op ∈ addrOps)
    (h : NetworkAnswer op b q) (h' : NetworkAnswer op b' q) : b = b' := by
  obtain ⟨r, rfl, heq, hne⟩ := h
  obtain ⟨r', rfl, heq', hne'⟩ := h'
  refine congrArg some (Bool.eq_iff_iff.mpr ?_)
  rcases mem_addrOps.mp hop with rfl | rfl
  · rw [hne rfl, hne' rfl]
  · rw [heq rfl, heq' rfl]

/-- The text that `decode_filter` has for a filter of `fp_addr`, none of it cut off. -/
theorem decodeFilter_addr {f : FieldInfo} (htype : f.type = .address) {op : CmpOp}
    {a mask dst : List UInt8} {family p : Nat} (hop : op ∈ addrOps)
    (hdst : inetNtop family a = some dst) (hdlen : dst.length ≤ 56)
    (hmask : BitPrefix.IsMask (fun i => mask.getD i 0) (addrLen family) p)
    (hp : p ≤ addrBits family) :
    decodeFilter f ⟨op, .addr a mask family⟩ = some (op.text ++ (dst ++ 47 :: digits p)) := by
  have hp128 := hp.trans (addrBits_le family)
  have hplen : (digits p).length ≤ 3 := (length_digits_le (by omega)).mpr (by omega)
  have hoplen : op.text.length ≤ 2 := by cases op <;> decide +kernel
  have hops : decodeOp [.eq, .ne] op = op.text := by
    refine if_pos ?_
    rcases mem_addrOps.mp hop with rfl | rfl <;> decide
  have hpfix : (47 :: digits p).length < bufSize - dst.length := by
    rw [List.length_cons]
    unfold bufSize
    omega
  have hall : (op.text ++ (dst ++ 47 :: digits p)).length < bufSize := by
    simp only [List.length_append, List.length_cons]
    unfold bufSize
    omega
  unfold decodeFilter
  simp only [htype, if_true, Filter.addr, Option.bind_eq_bind, Option.bind_some, hdst]
  rw [← addrLen, decodePfix_eq hmask hp, hops, snprintf_eq hpfix, snprintf_eq hall]
  rfl

/-- `fa_src` and `fa_dst` do not see the bits of a mask that no address of the family has. -/
theorem apply_sameMask {f : Field}
    (happly : f.filterApply = some .faSrc ∨ f.filterApply = some .faDst) {op : CmpOp}
    {a mask mask' : List UInt8} {family p : Nat} (hop : op ∈ addrOps)
    (hmask : BitPrefix.IsMask (fun i => mask.getD i 0) (addrLen family) p)
    (hmask' : BitPrefix.IsMask (fun i => mask'.getD i 0) (addrLen family) p)
    (hp : p ≤ addrBits family) {g : FilterApply} (hg : f.filterApply = some g) (stk ptr : Ptr) :
    g.apply stk { f with filter := some ⟨op, .addr a mask' family⟩ } ptr =
      g.apply stk { f with filter := some ⟨op, .addr a mask family⟩ } ptr := by
  have hsame : ∀ family' address,
      faAddr { f with filter := some ⟨op, .addr a mask' family⟩ } family' address =
        faAddr { f with filter := some ⟨op, .addr a mask family⟩ } family' address :=
    fun family' address => (faAddr_network rfl hmask' hp family' address).unique hop
      (faAddr_network rfl hmask hp family' address)
  rcases happly with hsrc | hdst
  · rw [hsrc] at hg
    cases hg
    exact hsame _ _
  · rw [hdst] at hg
    cases hg
    exact hsame _ _

/-- Address filters are typed back as they are, but for the bits of a mask that no address of
the family has. -/
theorem roundTrips_addr {f : Field} (htype : f.type = .address)
    (happly : f.filterApply = some .faSrc ∨ f.filterApply = some .faDst) {op : CmpOp}
    {t host mask a : List UInt8} {family : Nat} (hop : op ∈ addrOps)
    (hsplit : AddrSplit t host mask) (ha : inetPton family host = some a) :
    RoundTrips f .fpAddr ⟨op, .addr a mask family⟩ := by
  obtain ⟨hfam, -, halen⟩ := inetPton_spec ha
  obtain ⟨dst, hdst, hback⟩ := inetPton_inetNtop hfam halen
  obtain ⟨p, hmask, hp⟩ := hsplit.isMask family
  have hp128 := hp.trans (addrBits_le family)
  have hdlen := length_inetNtop halen hdst
  have hplen : (digits p).length ≤ 3 := (length_digits_le (by omega)).mpr (by omega)
  have hne : op ≠ .other := by
    rintro rfl
    exact absurd hop (by decide)
  -- The text is split again into the address and the length.
  have hsplit' : AddrSplit (dst ++ 47 :: digits p) dst (prefixMask p) :=
    .pfix (digits p) rfl (allDigits_digits p) (by rw [decimal_digits]; exact hp128)
      (by rw [decimal_digits])
  have hw := unblank_textKeys (hsplit'.chars hback)
  have hlen' : (dst ++ 47 :: digits p).length ≤ bufSize := by
    simp only [List.length_append, List.length_cons]
    unfold bufSize
    omega
  refine ⟨_, decodeFilter_addr htype hop hdst hdlen hmask hp, fun nl rest hnl =>
    ⟨⟨op, .addr a (prefixMask p) family⟩, ?_, fun g hg stk ci _ =>
      apply_sameMask happly hop hmask (isMask_prefixMask p (addrLen_le family)) hp hg stk _⟩⟩
  have hline : IsLine isNewline (textKeys (op.text ++ (dst ++ 47 :: digits p))) := by
    rw [textKeys_append, textKeys_op hne]
    exact isLine_addr (List.forall_mem_nil _) hw (hsplit'.chars hback)
  have hkeys : textKeys (op.text ++ (dst ++ 47 :: digits p)) =
      [] ++ (op.keys ++ textKeys (dst ++ 47 :: digits p)) := by
    rw [textKeys_append, textKeys_op hne]
    rfl
  refine (installs_addr hline hnl).mpr ⟨?_, rfl⟩
  rw [addrReading_op hkeys (List.forall_mem_nil _) hop]
  exact operandReading_addr op hw hlen' hsplit' hback

/-! ## The round trip -/

theorem fpAddr_fields {f : Field} (hf : f.toFieldInfo ∈ tcpFields.map (·.toFieldInfo))
    (hfp : f.filterParse = some .fpAddr) :
    f.type = .address ∧
      (f.filterApply = some .faSrc ∨ f.filterApply = some .faDst) := by
  have hall : ∀ f ∈ tcpFields.map (·.toFieldInfo), f.filterParse = some .fpAddr →
      f.type = .address ∧ (f.filterApply = some .faSrc ∨ f.filterApply = some .faDst) := by
    decide +kernel
  exact hall _ hf hfp

/-- The filters of `fp_common` have the operand of the type, as it was typed. -/
theorem common_filter {f : Field} {allocs : List Bool} {line rest : List Key} {nl : Key}
    {flt : Filter} (hline : IsLine isNewline line) (hnl : isNewline nl = true)
    (h : Installs .fpCommon f allocs (line ++ nl :: rest) flt) :
    f.type = .string ∧ (∃ s, flt.arg = .s s ∧ (∀ c ∈ s, isprint c.toNat = true) ∧ s ≠ [] ∧
        s.length ≤ bufSize) ∨
      f.type ≠ .string ∧ ∃ v < 2 ^ 64, flt.arg = .v v := by
  obtain ⟨hread, -⟩ := (installs_common hline hnl).mp h
  obtain ⟨bl, op, w, -, -, -, hw, hlen, heq⟩ :=
    commonReading_split f (ne_of_eq_of_ne hread (by simp)) (ne_of_eq_of_ne hread (by simp))
  rw [hread] at heq
  obtain ⟨-, hk, hmake⟩ := operandReading_new.mp heq.symm
  cases hmake
  by_cases hstr : f.type = .string
  · refine Or.inl ⟨hstr, ?_⟩
    simp only [hstr, decide_true, kept_string] at hk ⊢
    unfold OperandChars at hw
    rw [if_pos hstr] at hw
    refine ⟨w.map keyByte, rfl, fun c hc => ?_, by simpa using hk, by simpa using hlen hstr⟩
    obtain ⟨k, hkw, rfl⟩ := List.mem_map.mp hc
    obtain ⟨hpos, hlt⟩ := print_range (hw k hkw)
    rw [toNat_keyByte ⟨hpos.le, hlt⟩]
    exact hw k hkw
  · refine Or.inr ⟨hstr, wrapValue ((commonReader false).kept w), ?_, by simp [hstr, commonArg]⟩
    rw [wrapValue_eq]
    exact Nat.mod_lt _ (Nat.two_pow_pos 64)

/-- **The text of a filter, typed back**, is a filter that accepts the same connections, exactly if
its operator is one that the box shows. -/
theorem roundTrip_iff (f : Field) (fp : FilterParse) (allocs : List Bool) (line rest : List Key)
    (nl : Key) (flt : Filter) (hf : f.toFieldInfo ∈ tcpFields.map (·.toFieldInfo))
    (hfp : f.filterParse = some fp) (hfps : fp = .fpCommon ∨ fp = .fpAddr)
    (hline : IsLine isNewline line) (hnl : isNewline nl = true)
    (h : Installs fp f allocs (line ++ nl :: rest) flt) :
    RoundTrips f fp flt ↔ flt.op ∈ boxOps f.type := by
  rcases hfps with rfl | rfl
  · obtain ⟨haddr, happly⟩ := fpCommon_type hf hfp
    obtain ⟨op, arg⟩ := flt
    rcases common_filter hline hnl h with ⟨hstr, s, harg, hs, hne, hlen⟩ | ⟨hstr, v, hv, harg⟩
    · -- a string
      dsimp only at harg
      subst harg
      by_cases hop : op ∈ boxOps f.type
      · exact iff_of_true (roundTrips_string hf hstr (happly hstr) hs hne hlen hop) hop
      · refine iff_of_false ?_ hop
        exact not_roundTrips (decodeFilter_common _ haddr (Or.inl ⟨hstr, rfl⟩)) hs hop
    · -- a number
      dsimp only at harg
      subst harg
      by_cases hop : op ∈ boxOps f.type
      · exact iff_of_true (roundTrips_number haddr hstr hv hop) hop
      · refine iff_of_false ?_ hop
        refine not_roundTrips (decodeFilter_common _ haddr (Or.inr ⟨hstr, v, rfl, rfl⟩))
          (fun c hc => ?_) hop
        have hd := allDigits_digits v c hc
        unfold isdigit at hd
        unfold isprint
        simp only [Bool.and_eq_true, decide_eq_true_eq] at hd ⊢
        omega
  · -- an address
    obtain ⟨htype, happly⟩ := fpAddr_fields hf hfp
    obtain ⟨hread, -⟩ := (installs_addr hline hnl).mp h
    obtain ⟨bl, op, w, -, -, hop, hnew⟩ := addrReading_split hread (by simp) (by simp)
    obtain ⟨t, host, mask, family, a, -, -, hsplit, ha, rfl⟩ := operandReading_addr_inv hnew
    refine iff_of_true (roundTrips_addr htype happly hop hsplit ha) ?_
    rw [htype]
    have hbox : ∀ op ∈ addrOps, op ∈ boxOps .address := by decide
    exact hbox op hop

/-- A network of the local address. -/
theorem roundTrip_iff_network :
    RoundTrips (tcpFields.getD 1 (heading "" 0)) .fpAddr
        ⟨.eq, .addr [1, 2, 3, 4] (prefixMask 33) AF_INET⟩ ↔
      CmpOp.eq ∈ boxOps (tcpFields.getD 1 (heading "" 0)).type :=
  roundTrip_iff _ .fpAddr [] (typing "=1.2.3.4/33") [] (key '\n') _ (by decide +kernel)
    (by decide +kernel) (by decide) (by decide) rfl
    ((installs_addr (by decide) rfl).mpr ⟨by decide +kernel, rfl⟩)

/-- The filter `~5` on a number is shown as `?5`, which is no filter. -/
theorem tilde_not_typed_back :
    ¬ ∀ (f : Field) (fp : FilterParse) (allocs : List Bool) (line rest : List Key) (nl : Key)
      (flt : Filter), f ∈ tcpFields → f.filterParse = some fp → (fp = .fpCommon ∨ fp = .fpAddr) →
      IsLine isNewline line → isNewline nl = true →
      Installs fp f allocs (line ++ nl :: rest) flt → RoundTrips f fp flt := by
  intro h
  have hround := h (tcpFields.getD 4 (heading "" 0)) .fpCommon [] (typing "~5") [] (key '\n')
    ⟨.ct, .v 5⟩ (by decide +kernel) (by decide +kernel) (by decide) (by decide) rfl
    ((installs_common (by decide) rfl).mpr ⟨by decide +kernel, by decide +kernel⟩)
  obtain ⟨t, ht, hback⟩ := hround
  have htext : decodeFilter (tcpFields.getD 4 (heading "" 0)).toFieldInfo ⟨.ct, .v 5⟩ =
      some (bytes "?5") := by decide +kernel
  rw [htext] at ht
  cases ht
  obtain ⟨flt', hinst, -⟩ := hback (key '\n') [] rfl
  obtain ⟨hread, -⟩ := (installs_common (by decide +kernel) rfl).mp hinst
  have hbad : commonReading ((tcpFields.getD 4 (heading "" 0)).type = .string)
      (textKeys (bytes "?5")) = .bad := by decide +kernel
  rw [hbad] at hread
  cases hread

end Sockmon

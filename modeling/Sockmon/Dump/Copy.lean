import Sockmon.Dump.Message

set_option autoImplicit false

/-! # What a connection depends on

The connection that `diag_dump` makes of a well-formed message depends on its `inet_diag_msg`,
the owner of the socket and, for each type, the payload of the last attribute of that type,
exactly if these payloads fill what the copy functions read and the congestion control infos,
which share a union, do not differ (`dependsOnLast_iff`). A copy function reads as many bytes
as its member has, however few the payload has.
-/

namespace Sockmon

/-! ## The property and its condition -/

/-- The connection that `diag_dump` makes of the message at `nlh`. -/
def builtConn (mem : Ptr) (nlh : Nat) (owner : Option SkOwner) : ConnInfo :=
  let r := diagAttrs mem nlh owner (nlmsgLen mem nlh / 4)
  { r.ci with ext := r.ext }

/-- The messages agree on the `inet_diag_msg` and on the last payload of each type. -/
structure Agree (m m' : DiagMsg) : Prop where
  r : m'.r = m.r
  last : ∀ type, m'.last type = m.last type

/-- Wherever `m` and messages that agree with it stand, the same connection is made of them. -/
def DependsOnLast (m : DiagMsg) (owner : Option SkOwner) : Prop :=
  ∀ m' mem nlh mem' nlh', Agree m m' → m.At mem nlh → m'.At mem' nlh' →
    builtConn mem' nlh' owner = builtConn mem nlh owner

/-- The payload has all the bytes that the copy function of the type uses. -/
def Covers (type : Nat) (payload : List UInt8) : Prop :=
  if type = INET_DIAG_CONG then 0 ∈ payload ∨ TCP_CA_NAME_MAX - 1 ≤ payload.length
  else memberSize type ≤ payload.length

/-- The types whose members share a union. -/
def ccTypes : List Nat := [INET_DIAG_VEGASINFO, INET_DIAG_DCTCPINFO, INET_DIAG_BBRINFO]

structure Covered (m : DiagMsg) : Prop where
  covers : ∀ type payload, m.last type = some payload → Covers type payload
  /-- The members of the union have their first 16 bytes in common. -/
  union : ∀ t ∈ ccTypes, ∀ t' ∈ ccTypes, ∀ p p', m.last t = some p → m.last t' = some p' →
    p.take 16 = p'.take 16

/-- The members of the union stand at one place and have 16 bytes at least. -/
theorem ccTypes_member : ∀ type ∈ ccTypes, type ≠ INET_DIAG_CONG ∧
    memberOff type = ofConnInfo.ccInfo ∧ 16 ≤ memberSize type := by
  decide

theorem Covers.length_ge {type : Nat} {payload : List UInt8} (h : Covers type payload)
    (hcc : type ∈ ccTypes) : 16 ≤ payload.length := by
  obtain ⟨hcong, -, hsize⟩ := ccTypes_member type hcc
  unfold Covers at h
  rw [if_neg hcong] at h
  exact le_trans hsize h

/-! ## What a copy function reads -/

theorem takeWhile_getD (l : List UInt8) (j : Nat) : (l.takeWhile (· != 0)).getD j 0 =
    if ∀ k ≤ j, l.getD k 0 ≠ 0 then l.getD j 0 else 0 := by
  induction l generalizing j with
  | nil => split <;> rfl
  | cons c l ih =>
      by_cases hc : c = 0
      · have hstop : ¬ ∀ k ≤ j, (c :: l).getD k 0 ≠ 0 := by
          intro h
          exact h 0 (Nat.zero_le j) hc
        rw [if_neg hstop]
        simp [hc]
      · rw [List.takeWhile_cons_of_pos (by simpa using hc)]
        cases j with
        | zero => simp [hc]
        | succ j =>
            have hiff : (∀ k ≤ j + 1, (c :: l).getD k 0 ≠ 0) ↔ ∀ k ≤ j, l.getD k 0 ≠ 0 := by
              constructor
              · intro h k hk
                exact h (k + 1) (by omega)
              · intro h k hk
                cases k with
                | zero => exact hc
                | succ k => exact h k (by omega)
            rw [List.getD_cons_succ, List.getD_cons_succ, ih]
            simp only [hiff]

/-- A byte of the string at `p`, with NULs behind it. -/
theorem cstr_getD {p : Ptr} {n j : Nat} (hj : j < n) :
    (cstr p n).getD j 0 = if ∀ k ≤ j, p k ≠ 0 then p j else 0 := by
  have htake : ∀ k ≤ j, (p.take n).getD k 0 = p k := by
    intro k hk
    have hkn : k < n := by omega
    simp [Ptr.take, List.getD_eq_getElem?_getD, hkn]
  have hiff : (∀ k ≤ j, (p.take n).getD k 0 ≠ 0) ↔ ∀ k ≤ j, p k ≠ 0 :=
    forall₂_congr fun k hk => by rw [htake k hk]
  unfold cstr
  rw [takeWhile_getD, htake j (le_refl j)]
  simp only [hiff]

theorem bytesAt_get {q : Ptr} {payload : List UInt8} (h : BytesAt q 0 payload) {k : Nat}
    (hk : k < payload.length) : q k = payload[k] := by
  have hget := h k payload[k] (List.getElem?_eq_getElem hk)
  rwa [Nat.zero_add] at hget

/-- The bytes of the payload are the same wherever it stands. -/
theorem bytesAt_same {q q' : Ptr} {payload : List UInt8} (hq : BytesAt q 0 payload)
    (hq' : BytesAt q' 0 payload) {k : Nat} (hk : k < payload.length) : q k = q' k := by
  calc q k = payload[k] := bytesAt_get hq hk
    _ = q' k := (bytesAt_get hq' hk).symm

/-- A name in the payload, or one that fills the member, is the same wherever it stands. -/
theorem cstr_covers {payload : List UInt8}
    (hc : 0 ∈ payload ∨ TCP_CA_NAME_MAX - 1 ≤ payload.length) {q q' : Ptr}
    (hq : BytesAt q 0 payload) (hq' : BytesAt q' 0 payload) {j : Nat}
    (hj : j < TCP_CA_NAME_MAX - 1) :
    (cstr q TCP_CA_NAME_MAX).getD j 0 = (cstr q' TCP_CA_NAME_MAX).getD j 0 := by
  rw [cstr_getD (by omega), cstr_getD (by omega)]
  by_cases hin : j < payload.length
  · -- Up to `j` the bytes are those of the payload.
    have hiff : (∀ k ≤ j, q k ≠ 0) ↔ ∀ k ≤ j, q' k ≠ 0 :=
      forall₂_congr fun k hk => by rw [bytesAt_same hq hq' (lt_of_le_of_lt hk hin)]
    rw [bytesAt_same hq hq' hin]
    simp only [hiff]
  · -- The payload is shorter than the member, so the name ends in it.
    have hzero : 0 ∈ payload := hc.resolve_right (by omega)
    obtain ⟨k, hk, hget⟩ := List.getElem_of_mem hzero
    have hq0 : q k = 0 := (bytesAt_get hq hk).trans hget
    have hq0' : q' k = 0 := (bytesAt_get hq' hk).trans hget
    rw [if_neg fun h => h k (by omega) hq0, if_neg fun h => h k (by omega) hq0']

/-- **A payload that covers** determines what is stored. -/
theorem copyByte_covers {type : Nat} {payload : List UInt8} (hc : Covers type payload)
    {q q' : Ptr} (hq : BytesAt q 0 payload) (hq' : BytesAt q' 0 payload) (i : Nat) :
    copyByte type q i = copyByte type q' i := by
  unfold copyByte
  by_cases hi : memberOff type ≤ i ∧ i < memberOff type + memberSize type
  · rw [if_pos hi, if_pos hi]
    congr 1
    unfold memberByte
    unfold Covers at hc
    by_cases hcong : type = INET_DIAG_CONG
    · rw [if_pos hcong] at hc
      have hsize : memberSize type = TCP_CA_NAME_MAX := by rw [hcong]; rfl
      rw [if_pos hcong, if_pos hcong]
      by_cases hlast : i - memberOff type = TCP_CA_NAME_MAX - 1
      · rw [if_pos hlast, if_pos hlast]
      · rw [if_neg hlast, if_neg hlast]
        exact cstr_covers hc hq hq' (by omega)
    · rw [if_neg hcong] at hc
      rw [if_neg hcong, if_neg hcong]
      exact bytesAt_same hq hq' (by omega)
  · rw [if_neg hi, if_neg hi]

/-- **A payload that does not cover** is read beyond its end, and the byte read there is
stored. -/
theorem copyByte_uncovered {type : Nat} {payload : List UInt8} (hc : ¬ Covers type payload)
    {q : Ptr} (hq : BytesAt q 0 payload) :
    copyByte type q (memberOff type + payload.length) = some (q payload.length) := by
  unfold Covers at hc
  unfold copyByte memberByte
  rw [Nat.add_sub_cancel_left]
  by_cases hcong : type = INET_DIAG_CONG
  · rw [if_pos hcong, not_or] at hc
    obtain ⟨hzero, hlen⟩ := hc
    have hsize : memberSize type = TCP_CA_NAME_MAX := by rw [hcong]; rfl
    rw [if_pos (by omega), if_pos hcong, if_neg (by omega), cstr_getD (by omega)]
    congr 1
    by_cases hend : q payload.length = 0
    · rw [hend, ite_self]
    · refine if_pos fun k hk => ?_
      rcases Nat.lt_or_eq_of_le hk with hlt | rfl
      · rw [bytesAt_get hq hlt]
        intro h0
        exact hzero (h0 ▸ List.getElem_mem hlt)
      · exact hend
  · rw [if_neg hcong] at hc
    rw [if_pos (by omega), if_neg hcong]

/-- Whether a type stores a byte does not depend on the payload. -/
theorem copyByte_none {type i : Nat} {q : Ptr} (h : copyByte type q i = none) (q' : Ptr) :
    copyByte type q' i = none := by
  unfold copyByte at *
  split
  · rename_i hi
    rw [if_pos hi] at h
    cases h
  · rfl

/-! ## Members that overlap -/

/-- Only the members of the union overlap. -/
theorem members_overlap : ∀ t ∈ List.range 23, ∀ t' ∈ List.range 23, t ≠ t' →
    (memberOff t + memberSize t ≤ memberOff t' ∨ memberOff t' + memberSize t' ≤ memberOff t ∨
      memberSize t = 0 ∨ memberSize t' = 0) ∨
    (t ∈ ccTypes ∧ t' ∈ ccTypes ∧ memberOff t = memberOff t' ∧
      (memberSize t = 16 ∨ memberSize t' = 16)) := by
  decide +kernel

theorem copyByte_some {t i : Nat} {q : Ptr} {b : UInt8} (h : copyByte t q i = some b) :
    t < 23 ∧ memberOff t ≤ i ∧ i < memberOff t + memberSize t ∧
      memberByte t q (i - memberOff t) = b := by
  unfold copyByte at h
  split at h
  · rename_i hi
    refine ⟨?_, hi.1, hi.2, Option.some.inj h⟩
    by_contra ht
    have hsize : memberSize t = 0 := by
      unfold memberSize
      rw [List.getD_eq_getElem?_getD, List.getElem?_eq_none (by show 23 ≤ t; omega)]
      rfl
    omega
  · cases h

/-- Attributes of different types that store the same byte belong to the union. -/
theorem copyByte_union {t t' i : Nat} {q q' : Ptr} {b b' : UInt8} (hne : t ≠ t')
    (h : copyByte t q i = some b) (h' : copyByte t' q' i = some b') :
    t ∈ ccTypes ∧ t' ∈ ccTypes ∧ ∃ j < 16, b = q j ∧ b' = q' j := by
  obtain ⟨ht, hlo, hhi, hb⟩ := copyByte_some h
  obtain ⟨ht', hlo', hhi', hb'⟩ := copyByte_some h'
  have hmembers := members_overlap t (List.mem_range.mpr ht) t' (List.mem_range.mpr ht') hne
  rcases hmembers with hdisj | ⟨hcc, hcc', hoff, hsize⟩
  · omega
  · refine ⟨hcc, hcc', i - memberOff t, by omega, ?_, ?_⟩
    · rw [← hb]
      exact if_neg (ccTypes_member t hcc).1
    · rw [← hb', hoff]
      exact if_neg (ccTypes_member t' hcc').1

/-! ## The connection built -/

section

variable {m : DiagMsg} {mem : Ptr} {nlh : Nat}

/-- The memory image of the connection before the attribute loop. -/
def startImg (mem : Ptr) (nlh : Nat) (owner : Option SkOwner) : Ptr :=
  (diagStart owner (mem.add (nlh + NLMSG_HDRLEN))).1.img

/-- The extensions before the attribute loop. -/
def startExt (owner : Option SkOwner) : BitVec 32 := (diagStart owner fun _ => 0).2

theorem diagStart_ext (owner : Option SkOwner) (r : Ptr) :
    (diagStart owner r).2 = startExt owner := by
  cases owner <;> rfl

/-- It holds the `inet_diag_msg` and the owner. -/
theorem startImg_congr {m' : DiagMsg} {mem' : Ptr} {nlh' : Nat} (hr : m'.r = m.r)
    (h : m.At mem nlh) (h' : m'.At mem' nlh') (owner : Option SkOwner) :
    startImg mem' nlh' owner = startImg mem nlh owner := by
  have hbytes : ∀ k < sizeofInetDiagMsg, mem' (nlh' + NLMSG_HDRLEN + k) =
      mem (nlh + NLMSG_HDRLEN + k) := by
    intro k hk
    have hlt : k < m.r.length := by rw [m.r_length]; exact hk
    have hsome : m.r[k]? = some m.r[k] := List.getElem?_eq_getElem hlt
    calc mem' (nlh' + NLMSG_HDRLEN + k) = m.r[k] := h'.r k m.r[k] (by rw [hr, hsome])
      _ = mem (nlh + NLMSG_HDRLEN + k) := (h.r k m.r[k] hsome).symm
  have hwrite : ConnInfo.zero.write ofConnInfo.r sizeofInetDiagMsg
      (mem'.add (nlh' + NLMSG_HDRLEN)) = ConnInfo.zero.write ofConnInfo.r sizeofInetDiagMsg
      (mem.add (nlh + NLMSG_HDRLEN)) := by
    unfold ConnInfo.write
    congr 1
    funext i
    split
    · exact hbytes _ (by omega)
    · rfl
  unfold startImg diagStart
  rw [hwrite]

/-- **The connection** is the image before the loop with what the attributes store, and the
extensions are those of their types. -/
theorem builtConn_eq (h : m.At mem nlh) (owner : Option SkOwner) :
    (builtConn mem nlh owner).img = Writes.run (storedBy mem)
        (placed (nlh + NLMSG_HDRLEN + sizeofInetDiagMsg) m.attrs) (startImg mem nlh owner) ∧
      (builtConn mem nlh owner).ext =
        m.attrs.foldl (fun ext a => ext ||| bit a.type) (startExt owner) := by
  have hfits := m.fits
  have hlen : nlmsgLen mem nlh = NLMSG_HDRLEN + sizeofInetDiagMsg + attrsSize m.attrs := h.len
  have hcount := length_le_attrsSize m.attrs
  obtain ⟨-, hci, hext⟩ := rtaLoop_attrs (nlmsgLen mem nlh / 4)
    (diagStart owner (mem.add (nlh + NLMSG_HDRLEN))).1
    (diagStart owner (mem.add (nlh + NLMSG_HDRLEN))).2 h.attrs (by omega) (by omega)
  unfold builtConn
  rw [diagAttrs_eq owner (by omega)]
  dsimp only
  rw [hlen, Nat.add_sub_cancel_left] at *
  exact ⟨hci, by rw [hext, diagStart_ext]⟩

/-- **A byte of the connection** is what it was before the loop, if no type of the message
stores it, or what the last attribute of some type stores. -/
theorem builtConn_byte (h : m.At mem nlh) (owner : Option SkOwner) (i : Nat) :
    ((∀ type payload q, m.last type = some payload → copyByte type q i = none) ∧
        (builtConn mem nlh owner).img i = startImg mem nlh owner i) ∨
      ∃ type payload q, m.last type = some payload ∧ BytesAt q 0 payload ∧
        copyByte type q i = some ((builtConn mem nlh owner).img i) := by
  rw [(builtConn_eq h owner).1]
  set rta := nlh + NLMSG_HDRLEN + sizeofInetDiagMsg with hrta
  have hmap := placed_map rta m.attrs
  rcases Writes.run_cases (placed rta m.attrs) i (startImg mem nlh owner) (w := storedBy mem)
    with ⟨hnone, hrun⟩ | ⟨xs₁, x, xs₂, hxs, hnone, hx⟩
  · refine Or.inl ⟨fun type payload q hlast => ?_, hrun⟩
    obtain ⟨a, ha, rfl⟩ := Option.map_eq_some_iff.mp hlast
    have hmem : a ∈ (placed rta m.attrs).map Prod.fst := by
      rw [hmap]
      exact List.mem_reverse.mp (List.mem_of_find?_eq_some ha)
    obtain ⟨y, hy, rfl⟩ := List.mem_map.mp hmem
    obtain rfl : y.1.type = type := by simpa using List.find?_some ha
    exact copyByte_none (hnone y hy) q
  · refine Or.inr ⟨x.1.type, x.1.payload, mem.add x.2, ?_, ?_, hx⟩
    · rw [hxs, List.map_append, List.map_cons] at hmap
      refine DiagMsg.last_of_split hmap.symm fun b hb heq => ?_
      obtain ⟨y, hy, rfl⟩ := List.mem_map.mp hb
      have hno := copyByte_none (hnone y hy) (mem.add x.2)
      rw [heq] at hno
      exact absurd (hno.symm.trans hx) nofun
    · have hat := placed_at h.attrs x (by rw [hxs]; simp)
      intro k b hk
      rw [Nat.zero_add]
      exact hat k b hk

end

/-! ## The condition is enough -/

theorem last_isSome {m : DiagMsg} {type : Nat} :
    (m.last type).isSome ↔ ∃ a ∈ m.attrs, a.type = type := by
  unfold DiagMsg.last
  rw [Option.isSome_map, List.find?_isSome]
  simp

theorem foldl_ext (as : List Attr) (ext : BitVec 32) (j : Nat) :
    (as.foldl (fun ext a => ext ||| bit a.type) ext).getLsbD j =
      (ext.getLsbD j || as.any fun a => (bit a.type).getLsbD j) := by
  induction as generalizing ext with
  | nil => simp
  | cons a as ih => rw [List.foldl_cons, ih, BitVec.getLsbD_or, List.any_cons, Bool.or_assoc]

/-- Messages that agree have attributes of the same types. -/
theorem Agree.ext {m m' : DiagMsg} (h : Agree m m') (ext : BitVec 32) :
    m'.attrs.foldl (fun ext a => ext ||| bit a.type) ext =
      m.attrs.foldl (fun ext a => ext ||| bit a.type) ext := by
  have htypes : ∀ type, (∃ a ∈ m'.attrs, a.type = type) ↔ ∃ a ∈ m.attrs, a.type = type := by
    intro type
    rw [← last_isSome, ← last_isSome, h.last]
  apply BitVec.eq_of_getLsbD_eq
  intro j hj
  rw [foldl_ext, foldl_ext]
  congr 1
  rw [Bool.eq_iff_iff, List.any_eq_true, List.any_eq_true]
  constructor
  · rintro ⟨a, ha, hbit⟩
    obtain ⟨b, hb, htype⟩ := (htypes a.type).mp ⟨a, ha, rfl⟩
    exact ⟨b, hb, by rw [htype]; exact hbit⟩
  · rintro ⟨a, ha, hbit⟩
    obtain ⟨b, hb, htype⟩ := (htypes a.type).mpr ⟨a, ha, rfl⟩
    exact ⟨b, hb, by rw [htype]; exact hbit⟩

/-- Two payloads of the message that store a byte store the same. -/
theorem Covered.copyByte {m : DiagMsg} (h : Covered m) {t t' i : Nat} {p p' : List UInt8}
    {q q' : Ptr} {b b' : UInt8} (ht : m.last t = some p) (ht' : m.last t' = some p')
    (hq : BytesAt q 0 p) (hq' : BytesAt q' 0 p') (hb : copyByte t q i = some b)
    (hb' : Sockmon.copyByte t' q' i = some b') : b' = b := by
  by_cases hne : t = t'
  · subst hne
    obtain rfl : p = p' := Option.some.inj (ht.symm.trans ht')
    rw [copyByte_covers (h.covers t p ht) hq hq'] at hb
    exact Option.some.inj (hb'.symm.trans hb)
  · obtain ⟨hcc, hcc', j, hj, rfl, rfl⟩ := copyByte_union hne hb hb'
    -- Both payloads have the bytes they share with the union.
    have hlen := (h.covers t p ht).length_ge hcc
    have hlen' := (h.covers t' p' ht').length_ge hcc'
    have htake := h.union t hcc t' hcc' p p' ht ht'
    have hget : p[j]? = p'[j]? := by
      calc p[j]? = (p.take 16)[j]? := (List.getElem?_take_of_lt hj).symm
        _ = (p'.take 16)[j]? := by rw [htake]
        _ = p'[j]? := List.getElem?_take_of_lt hj
    rw [List.getElem?_eq_getElem (by omega), List.getElem?_eq_getElem (by omega)] at hget
    rw [bytesAt_get hq (by omega), bytesAt_get hq' (by omega)]
    exact (Option.some.inj hget).symm

theorem Covered.dependsOnLast {m : DiagMsg} (h : Covered m) (owner : Option SkOwner) :
    DependsOnLast m owner := by
  intro m' mem nlh mem' nlh' hagree hat hat'
  have himg : (builtConn mem' nlh' owner).img = (builtConn mem nlh owner).img := by
    funext i
    rcases builtConn_byte hat owner i with ⟨hnone, hi⟩ | ⟨t, p, q, ht, hq, hi⟩
    · rcases builtConn_byte hat' owner i with ⟨hnone', hi'⟩ | ⟨t', p', q', ht', hq', hi'⟩
      · rw [hi, hi', startImg_congr hagree.r hat hat']
      · rw [hagree.last] at ht'
        rw [hnone t' p' q' ht'] at hi'
        cases hi'
    · rcases builtConn_byte hat' owner i with ⟨hnone', hi'⟩ | ⟨t', p', q', ht', hq', hi'⟩
      · -- Whether a type stores the byte is the same for both messages.
        have hno := hnone' t p q (by rw [hagree.last]; exact ht)
        rw [hno] at hi
        cases hi
      · rw [hagree.last] at ht'
        exact h.copyByte ht ht' hq hq' hi hi'
  have hext : (builtConn mem' nlh' owner).ext = (builtConn mem nlh owner).ext := by
    rw [(builtConn_eq hat owner).2, (builtConn_eq hat' owner).2, hagree.ext]
  exact congrArg₂ ConnInfo.mk himg hext

/-! ## The condition is needed

Moving the last attribute of a type to the end of the message changes nothing that the
connection should depend on, and makes it the one that fills its member. -/

namespace DiagMsg

theorem attrsSize_filter (p : Attr → Bool) (as : List Attr) :
    attrsSize (as.filter p) + attrsSize (as.filter fun a => !p a) = attrsSize as := by
  induction as with
  | nil => rfl
  | cons a as ih =>
      rw [attrsSize_cons]
      cases hp : p a <;> simp only [hp, List.filter_cons, Bool.not_true, Bool.not_false,
        if_true, if_false, Bool.false_eq_true, attrsSize_cons] <;> omega

theorem size_le_of_mem {a : Attr} {as : List Attr} (h : a ∈ as) : a.size ≤ attrsSize as := by
  induction as with
  | nil => cases h
  | cons b as ih =>
      rw [attrsSize_cons]
      rcases List.mem_cons.mp h with rfl | h
      · omega
      · have := ih h
        omega

/-- The attributes of other types. -/
def others (m : DiagMsg) (type : Nat) : List Attr := m.attrs.filter fun b => b.type != type

/-- Keeping only one attribute of a type makes no message longer. -/
theorem others_fits (m : DiagMsg) {a : Attr} (h : m.last a.type = some a.payload) :
    NLMSG_HDRLEN + sizeofInetDiagMsg + attrsSize (m.others a.type ++ [a]) ≤ 32768 := by
  obtain ⟨b, hb, hpayload⟩ := Option.map_eq_some_iff.mp h
  have htype : b.type = a.type := by simpa using List.find?_some hb
  have hmem : b ∈ m.attrs.filter fun c => !(c.type != a.type) :=
    List.mem_filter.mpr ⟨List.mem_reverse.mp (List.mem_of_find?_eq_some hb), by simp [htype]⟩
  have hsize : a.size = b.size := by
    unfold Attr.size
    rw [hpayload]
  have hle := size_le_of_mem hmem
  have hsingle : attrsSize [a] = a.size := by simp [attrsSize]
  have hattrs : attrsSize (m.others a.type ++ [a]) ≤ attrsSize m.attrs := by
    calc attrsSize (m.others a.type ++ [a]) = attrsSize (m.others a.type) + b.size := by
          rw [attrsSize_append, hsingle, hsize]
      _ ≤ attrsSize (m.others a.type) +
            attrsSize (m.attrs.filter fun c => !(c.type != a.type)) := Nat.add_le_add_left hle _
      _ = attrsSize m.attrs := attrsSize_filter (fun c => c.type != a.type) m.attrs
  exact le_trans (Nat.add_le_add_left hattrs _) m.fits

/-- The message with the last attribute of a type at its end, padded with other bytes, and
without the others of that type. -/
def toEnd (m : DiagMsg) (a : Attr) (h : m.last a.type = some a.payload) : DiagMsg :=
  ⟨m.r, m.others a.type ++ [a], m.r_length, m.others_fits h⟩

theorem toEnd_agree (m : DiagMsg) (a : Attr) (h : m.last a.type = some a.payload) :
    Agree m (m.toEnd a h) where
  r := rfl
  last := by
    intro type
    by_cases htype : a.type = type
    · subst htype
      rw [h]
      exact last_of_split rfl nofun
    · have hskip : (a.type == type) = false := by simpa using htype
      have hsame : ∀ b : Attr, decide ((b.type != a.type) = true ∧ (b.type == type) = true) =
          (b.type == type) := by
        intro b
        by_cases hb : b.type = type
        · simp [hb, Ne.symm htype]
        · simp [hb]
      unfold last toEnd others
      rw [List.reverse_append, List.reverse_singleton, List.singleton_append, List.find?_cons,
        hskip, ← List.filter_reverse, List.find?_filter]
      simp only [hsame]

end DiagMsg

/-- The last attribute of a message fills its member. -/
theorem builtConn_toEnd {m : DiagMsg} {a : Attr} {h : m.last a.type = some a.payload}
    {mem : Ptr} {nlh : Nat} (hat : (m.toEnd a h).At mem nlh) (owner : Option SkOwner) {i : Nat}
    {b : UInt8} (hb : copyByte a.type (mem.add (nlh + NLMSG_HDRLEN + sizeofInetDiagMsg +
      attrsSize (m.others a.type) + RTA_HDRLEN)) i = some b) :
    (builtConn mem nlh owner).img i = b := by
  set rta := nlh + NLMSG_HDRLEN + sizeofInetDiagMsg with hrta
  set before := Writes.run (storedBy mem) (placed rta (m.others a.type))
    (startImg mem nlh owner) with hbefore
  calc (builtConn mem nlh owner).img i
      = Writes.run (storedBy mem) (placed rta (m.others a.type ++ [a]))
          (startImg mem nlh owner) i := by
        rw [(builtConn_eq hat owner).1]
        rfl
    _ = (copyByte a.type (mem.add (rta + attrsSize (m.others a.type) + RTA_HDRLEN)) i).getD
          (before i) := by
        rw [placed_append, Writes.run_append]
        rfl
    _ = b := by
        rw [hb]
        rfl

/-- The payload of the last attribute, as it stands in the message. -/
theorem toEnd_payload {m : DiagMsg} {a : Attr} {h : m.last a.type = some a.payload}
    {mem : Ptr} {nlh : Nat} (hat : (m.toEnd a h).At mem nlh) :
    BytesAt (mem.add (nlh + NLMSG_HDRLEN + sizeofInetDiagMsg + attrsSize (m.others a.type) +
      RTA_HDRLEN)) 0 a.payload := by
  have hattrs : BytesAt mem _ ((m.others a.type ++ [a]).flatMap Attr.bytes) := hat.attrs
  have hplaced := placed_at hattrs
  rw [placed_append] at hplaced
  have hpayload := hplaced (a, _) (List.mem_append_right _ (List.mem_singleton_self _))
  intro k b hk
  rw [Nat.zero_add]
  exact hpayload k b hk

/-- The attribute with the padding `x`. -/
def Attr.padded (a : Attr) (x : UInt8) : Attr :=
  { a with
    pad := List.replicate a.pad.length x
    pad_length := by rw [List.length_replicate]; exact a.pad_length }

theorem memOf_replicate (bs : List UInt8) (k : Nat) (x : UInt8) :
    memOf (bs ++ List.replicate k x) x bs.length = x := by
  unfold memOf
  rw [List.getD_eq_getElem?_getD, List.getElem?_append_right (le_refl _), Nat.sub_self]
  cases k <;> rfl

/-- Behind the payload of the last attribute come its padding and the bytes after the
message. -/
theorem toEnd_fill {m : DiagMsg} {a : Attr} (x : UInt8)
    (h : m.last (a.padded x).type = some (a.padded x).payload) :
    memOf (m.toEnd (a.padded x) h).bytes x (NLMSG_HDRLEN + sizeofInetDiagMsg +
      attrsSize (m.others a.type) + RTA_HDRLEN + a.payload.length) = x := by
  have hbytes : (m.toEnd (a.padded x) h).bytes =
      (le32 (m.toEnd (a.padded x) h).size ++ le16 SOCK_DIAG_BY_FAMILY ++ List.replicate 10 0 ++
        (m.r ++ ((m.others a.type).flatMap Attr.bytes ++ ((a.padded x).header ++ a.payload)))) ++
        List.replicate a.pad.length x := by
    show _ ++ (m.r ++ (m.others a.type ++ [a.padded x]).flatMap Attr.bytes) = _
    simp [List.append_assoc, Attr.bytes, Attr.padded]
  have hlen : (le32 (m.toEnd (a.padded x) h).size ++ le16 SOCK_DIAG_BY_FAMILY ++
      List.replicate 10 0 ++ (m.r ++ ((m.others a.type).flatMap Attr.bytes ++
        ((a.padded x).header ++ a.payload)))).length = NLMSG_HDRLEN + sizeofInetDiagMsg +
      attrsSize (m.others a.type) + RTA_HDRLEN + a.payload.length := by
    simp only [List.length_append, m.r_length, attrs_length, Attr.header_length,
      List.length_replicate]
    show 16 + (72 + (attrsSize (m.others a.type) + (4 + a.payload.length))) =
      16 + 72 + attrsSize (m.others a.type) + 4 + a.payload.length
    omega
  rw [hbytes, ← hlen]
  exact memOf_replicate _ _ x

/-- **A last payload that does not cover** is filled up with what follows it. -/
theorem not_dependsOnLast_of_uncovered {m : DiagMsg} {a : Attr}
    (h : m.last a.type = some a.payload) (hc : ¬ Covers a.type a.payload)
    (owner : Option SkOwner) : ¬ DependsOnLast m owner := by
  intro hdep
  -- The byte behind the payload becomes a byte of the connection, whatever it is.
  have hbyte : ∀ x : UInt8,
      (builtConn (memOf m.bytes 0) 0 owner).img (memberOff a.type + a.payload.length) = x := by
    intro x
    have hx : m.last (a.padded x).type = some (a.padded x).payload := h
    have hat := (m.toEnd (a.padded x) hx).at_memOf x
    have hpayload := toEnd_payload hat
    have hstored := copyByte_uncovered hc hpayload
    have hfill := toEnd_fill x hx
    rw [← hdep _ _ _ _ _ (m.toEnd_agree _ hx) (m.at_memOf 0) hat,
      builtConn_toEnd hat owner hstored]
    simp only [Ptr.add, Nat.zero_add]
    exact hfill
  have h01 : (0 : UInt8) = 1 := by
    calc (0 : UInt8) = (builtConn (memOf m.bytes 0) 0 owner).img
          (memberOff a.type + a.payload.length) := (hbyte 0).symm
      _ = 1 := hbyte 1
  exact absurd h01 (by decide)

/-- **Two members of the union** that differ leave what the later one stores. -/
theorem not_dependsOnLast_of_union {m : DiagMsg} {a a' : Attr} {j : Nat} {b b' : UInt8}
    (h : m.last a.type = some a.payload) (h' : m.last a'.type = some a'.payload)
    (hcc : a.type ∈ ccTypes) (hcc' : a'.type ∈ ccTypes) (hj : j < 16)
    (hb : a.payload[j]? = some b) (hb' : a'.payload[j]? = some b') (hne : b ≠ b')
    (owner : Option SkOwner) : ¬ DependsOnLast m owner := by
  intro hdep
  -- With either of them at the end, its byte is the one stored.
  have hbyte : ∀ (c : Attr) (x : UInt8), m.last c.type = some c.payload → c.type ∈ ccTypes →
      c.payload[j]? = some x →
      (builtConn (memOf m.bytes 0) 0 owner).img (ofConnInfo.ccInfo + j) = x := by
    intro c x hc hccc hx
    obtain ⟨hcong, hoff, hsize⟩ := ccTypes_member c.type hccc
    have hat := (m.toEnd c hc).at_memOf 0
    have hget := toEnd_payload hat j x hx
    rw [← hdep _ _ _ _ _ (m.toEnd_agree c hc) (m.at_memOf 0) hat]
    refine builtConn_toEnd hat owner ?_
    unfold copyByte memberByte
    rw [hoff, if_pos (by omega), if_neg hcong, Nat.add_sub_cancel_left]
    simp only [Nat.zero_add] at hget ⊢
    rw [hget]
  exact hne ((hbyte a b h hcc hb).symm.trans (hbyte a' b' h' hcc' hb'))

/-- A last payload comes from an attribute. -/
theorem exists_attr {m : DiagMsg} {type : Nat} {payload : List UInt8}
    (h : m.last type = some payload) : ∃ a : Attr, a.type = type ∧ a.payload = payload := by
  obtain ⟨a, ha, hpayload⟩ := Option.map_eq_some_iff.mp h
  exact ⟨a, by simpa using List.find?_some ha, hpayload⟩

theorem DependsOnLast.covered {m : DiagMsg} {owner : Option SkOwner}
    (h : DependsOnLast m owner) : Covered m := by
  have hcovers : ∀ type payload, m.last type = some payload → Covers type payload := by
    intro type payload hlast
    obtain ⟨a, rfl, rfl⟩ := exists_attr hlast
    by_contra hc
    exact not_dependsOnLast_of_uncovered hlast hc owner h
  refine ⟨hcovers, fun t ht t' ht' p p' hp hp' => ?_⟩
  obtain ⟨a, rfl, rfl⟩ := exists_attr hp
  obtain ⟨a', rfl, rfl⟩ := exists_attr hp'
  have hlen := (hcovers a.type a.payload hp).length_ge ht
  have hlen' := (hcovers a'.type a'.payload hp').length_ge ht'
  apply List.ext_getElem?
  intro j
  by_cases hj : j < 16
  · rw [List.getElem?_take_of_lt hj, List.getElem?_take_of_lt hj]
    by_contra hne
    have hb := List.getElem?_eq_getElem (show j < a.payload.length by omega)
    have hb' := List.getElem?_eq_getElem (show j < a'.payload.length by omega)
    rw [hb, hb'] at hne
    exact not_dependsOnLast_of_union hp hp' ht ht' hj hb hb' (fun he => hne (by rw [he])) owner h
  · rw [List.getElem?_eq_none (by rw [List.length_take]; omega),
      List.getElem?_eq_none (by rw [List.length_take]; omega)]

/-- **The connection depends on the last payloads only** exactly if these cover what is copied
and the congestion control infos agree. -/
theorem dependsOnLast_iff (m : DiagMsg) (owner : Option SkOwner) :
    DependsOnLast m owner ↔ Covered m :=
  ⟨DependsOnLast.covered, fun h => h.dependsOnLast owner⟩

/-- A message whose `INET_DIAG_INFO` has the 104 bytes of `struct tcp_info` without the rates. -/
def DiagMsg.shortInfo : DiagMsg where
  r := List.replicate 72 0
  attrs := [
    { type := INET_DIAG_INFO
      payload := List.replicate 104 0
      pad := []
      type_lt := by decide
      len_lt := by decide
      pad_length := by decide }]
  r_length := rfl
  fits := by decide

/-- Its pacing rate is read from behind the payload. -/
theorem shortInfo_filled : ¬ ∀ (m : DiagMsg) (owner : Option SkOwner), DependsOnLast m owner := by
  intro h
  have hlast : DiagMsg.shortInfo.last INET_DIAG_INFO = some (List.replicate 104 0) := rfl
  obtain ⟨a, htype, hpayload⟩ := exists_attr hlast
  rw [← htype, ← hpayload] at hlast
  refine not_dependsOnLast_of_uncovered hlast ?_ none (h DiagMsg.shortInfo none)
  rw [htype, hpayload]
  unfold Covers
  decide

end Sockmon

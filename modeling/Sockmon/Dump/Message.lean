import Sockmon.Dump.Attrs
import Sockmon.Lib.Writes

set_option autoImplicit false

/-! # Well-formed diag messages

A message is an `inet_diag_msg` and a list of attributes, each with its payload and its padding
(`DiagMsg`). The attribute loop of `diag_dump` takes such a message apart again: it runs the
copy function of each attribute on its payload, in order (`rtaLoop_attrs`).
-/

namespace Sockmon

/-! ## Bytes in memory -/

/-- The bytes `bs` stand at `off`. -/
def BytesAt (mem : Ptr) (off : Nat) (bs : List UInt8) : Prop :=
  ∀ i b, bs[i]? = some b → mem (off + i) = b

theorem bytesAt_append {mem : Ptr} {off : Nat} {bs cs : List UInt8} :
    BytesAt mem off (bs ++ cs) ↔ BytesAt mem off bs ∧ BytesAt mem (off + bs.length) cs := by
  unfold BytesAt
  constructor
  · intro h
    refine ⟨fun i b hb => h i b ?_, fun i b hb => ?_⟩
    · rw [List.getElem?_append_left (List.getElem?_eq_some_iff.mp hb).1]
      exact hb
    · rw [Nat.add_assoc]
      refine h (bs.length + i) b ?_
      rw [List.getElem?_append_right (by omega), Nat.add_sub_cancel_left]
      exact hb
  · rintro ⟨hbs, hcs⟩ i b hb
    by_cases hi : i < bs.length
    · rw [List.getElem?_append_left hi] at hb
      exact hbs i b hb
    · rw [List.getElem?_append_right (by omega)] at hb
      have hmem := hcs (i - bs.length) b hb
      rwa [show off + bs.length + (i - bs.length) = off + i by omega] at hmem

/-- The bytes of a list, followed by `fill` without end. -/
def memOf (bs : List UInt8) (fill : UInt8) : Ptr := fun i => bs.getD i fill

theorem bytesAt_memOf (bs : List UInt8) (fill : UInt8) : BytesAt (memOf bs fill) 0 bs := by
  intro i b hb
  show bs.getD (0 + i) fill = b
  rw [Nat.zero_add, List.getD_eq_getElem?_getD, hb]
  rfl

def le16 (v : Nat) : List UInt8 := [v.toUInt8, (v / 256).toUInt8]
def le32 (v : Nat) : List UInt8 := le16 (v % 65536) ++ le16 (v / 65536)

theorem rdU16_at {mem : Ptr} {off v : Nat} (h : BytesAt mem off (le16 v)) (hv : v < 65536) :
    rdU16 (mem.add off) = v := by
  have h0 : mem (off + 0) = v.toUInt8 := h 0 _ rfl
  have h1 : mem (off + 1) = (v / 256).toUInt8 := h 1 _ rfl
  show (mem (off + 0)).toNat + 256 * (mem (off + 1)).toNat = v
  rw [h0, h1]
  simp only [Nat.toUInt8, UInt8.toNat_ofNat']
  omega

theorem rdU32_at {mem : Ptr} {off v : Nat} (h : BytesAt mem off (le32 v))
    (hv : v < 4294967296) : rdU32 (mem.add off) = v := by
  obtain ⟨hlow, hhigh⟩ := bytesAt_append.mp h
  have h0 := rdU16_at hlow (by omega)
  have h1 : rdU16 ((mem.add off).add 2) = v / 65536 := by
    have hadd : (mem.add off).add 2 = mem.add (off + 2) := by
      funext i
      show mem (off + (2 + i)) = mem (off + 2 + i)
      rw [Nat.add_assoc]
    rw [hadd]
    exact rdU16_at hhigh (by omega)
  unfold rdU32
  rw [h0, h1]
  omega

/-! ## Attributes -/

/-- A well-formed attribute of a type that `diag_dump` knows. -/
structure Attr where
  type : Nat
  payload : List UInt8
  pad : List UInt8
  type_lt : type < INET_DIAG_MAX
  len_lt : RTA_HDRLEN + payload.length < 65536
  pad_length : pad.length =
    align4 (RTA_HDRLEN + payload.length) - (RTA_HDRLEN + payload.length)

namespace Attr

def size (a : Attr) : Nat := align4 (RTA_HDRLEN + a.payload.length)

def header (a : Attr) : List UInt8 := le16 (RTA_HDRLEN + a.payload.length) ++ le16 a.type

def bytes (a : Attr) : List UInt8 := a.header ++ (a.payload ++ a.pad)

theorem header_length (a : Attr) : a.header.length = RTA_HDRLEN := rfl

theorem bytes_length (a : Attr) : a.bytes.length = a.size := by
  have hle := (align4_range (RTA_HDRLEN + a.payload.length)).1
  calc a.bytes.length = RTA_HDRLEN + (a.payload.length + a.pad.length) := by
        rw [bytes, List.length_append, List.length_append, header_length]
    _ = RTA_HDRLEN + a.payload.length + a.pad.length := (Nat.add_assoc _ _ _).symm
    _ = align4 (RTA_HDRLEN + a.payload.length) := by
        rw [a.pad_length]
        omega

theorem size_ge (a : Attr) : RTA_HDRLEN + a.payload.length ≤ a.size :=
  (align4_range _).1

/-- The attribute at an offset, as the loop reads it. -/
theorem read {mem : Ptr} {rta : Nat} {a : Attr} (h : BytesAt mem rta a.bytes) :
    rtaLen mem rta = RTA_HDRLEN + a.payload.length ∧ rtaType mem rta = a.type ∧
      BytesAt mem (rta + RTA_HDRLEN) a.payload := by
  obtain ⟨hheader, hdata⟩ := bytesAt_append.mp h
  obtain ⟨hlen, htype⟩ := bytesAt_append.mp hheader
  have hlt := a.type_lt
  unfold INET_DIAG_MAX at hlt
  exact ⟨rdU16_at hlen a.len_lt, rdU16_at htype (by omega), (bytesAt_append.mp hdata).1⟩

end Attr

/-- The bytes that attributes take. -/
def attrsSize (as : List Attr) : Nat := (as.map Attr.size).sum

theorem attrsSize_cons (a : Attr) (as : List Attr) :
    attrsSize (a :: as) = a.size + attrsSize as := by
  simp [attrsSize]

theorem attrsSize_append (as bs : List Attr) :
    attrsSize (as ++ bs) = attrsSize as + attrsSize bs := by
  simp [attrsSize]

theorem attrs_length (as : List Attr) : (as.flatMap Attr.bytes).length = attrsSize as := by
  induction as with
  | nil => rfl
  | cons a as ih =>
      calc ((a :: as).flatMap Attr.bytes).length
          = a.bytes.length + (as.flatMap Attr.bytes).length := by
            rw [List.flatMap_cons, List.length_append]
        _ = a.size + attrsSize as := by rw [a.bytes_length, ih]
        _ = attrsSize (a :: as) := (attrsSize_cons a as).symm

/-- Every attribute takes at least the bytes of its header. -/
theorem length_le_attrsSize (as : List Attr) : as.length ≤ attrsSize as / 4 := by
  induction as with
  | nil => exact Nat.zero_le _
  | cons a as ih =>
      have hsize := a.size_ge
      unfold RTA_HDRLEN at hsize
      rw [List.length_cons, attrsSize_cons]
      omega

/-- The attributes with the offsets of their payloads. -/
def placed (rta : Nat) : List Attr → List (Attr × Nat)
  | [] => []
  | a :: as => (a, rta + RTA_HDRLEN) :: placed (rta + a.size) as

theorem placed_map (rta : Nat) (as : List Attr) : (placed rta as).map Prod.fst = as := by
  induction as generalizing rta with
  | nil => rfl
  | cons a as ih => simp [placed, ih]

theorem placed_append (rta : Nat) (as bs : List Attr) :
    placed rta (as ++ bs) = placed rta as ++ placed (rta + attrsSize as) bs := by
  induction as generalizing rta with
  | nil => rfl
  | cons a as ih =>
      rw [List.cons_append, placed, ih, attrsSize_cons, ← Nat.add_assoc]
      rfl

/-- The payloads stand where they are placed. -/
theorem placed_at {mem : Ptr} {rta : Nat} {as : List Attr}
    (h : BytesAt mem rta (as.flatMap Attr.bytes)) :
    ∀ x ∈ placed rta as, BytesAt mem x.2 x.1.payload := by
  induction as generalizing rta with
  | nil => nofun
  | cons a as ih =>
      rw [List.flatMap_cons] at h
      obtain ⟨ha, has⟩ := bytesAt_append.mp h
      rw [a.bytes_length] at has
      intro x hx
      rcases List.mem_cons.mp hx with rfl | hx
      · exact (Attr.read ha).2.2
      · exact ih has x hx

/-! ## What the copy functions store -/

/-- For each type the member that its copy function fills: its offset and its size, which is
zero for `copy_void`. -/
def members : List (Nat × Nat) :=
  [(0, 0), (ofConnInfo.minfo, 16), (ofConnInfo.info, 280), (ofConnInfo.ccInfo, 16),
    (ofConnInfo.caName, TCP_CA_NAME_MAX), (ofConnInfo.tos, 1), (ofConnInfo.tclass, 1),
    (ofConnInfo.mem, 36), (ofConnInfo.shutdown, 1), (ofConnInfo.ccInfo, 16), (0, 0),
    (ofConnInfo.ipv6only, 1), (0, 0), (0, 0), (0, 0), (0, 0), (ofConnInfo.ccInfo, 20),
    (ofConnInfo.classid, 4), (0, 0), (0, 0), (0, 0), (ofConnInfo.cgroupId, 8),
    (ofConnInfo.inetSockopt, 2)]

def memberOff (type : Nat) : Nat := (members.getD type (0, 0)).1
def memberSize (type : Nat) : Nat := (members.getD type (0, 0)).2

/-- The `j`-th byte that the copy function of a type stores from the payload at `p`. -/
def memberByte (type : Nat) (p : Ptr) (j : Nat) : UInt8 :=
  if type = INET_DIAG_CONG then
    if j = TCP_CA_NAME_MAX - 1 then 0 else (cstr p TCP_CA_NAME_MAX).getD j 0
  else p j

/-- What the copy function of a type stores at byte `i` of the connection. -/
def copyByte (type : Nat) (p : Ptr) (i : Nat) : Option UInt8 :=
  if memberOff type ≤ i ∧ i < memberOff type + memberSize type then
    some (memberByte type p (i - memberOff type))
  else none

theorem copyTo_img {type off n : Nat} (hoff : memberOff type = off) (hsize : memberSize type = n)
    (hcong : type ≠ INET_DIAG_CONG) (ci : ConnInfo) (p : Ptr) :
    (copyTo off n ci p).img = fun i => (copyByte type p i).getD (ci.img i) := by
  funext i
  unfold copyByte memberByte
  rw [hoff, hsize, if_neg hcong]
  show (if off ≤ i ∧ i < off + n then p (i - off) else ci.img i) = _
  split <;> rfl

theorem copyVoid_img {type : Nat} (hsize : memberSize type = 0) (ci : ConnInfo) (p : Ptr) :
    (copyVoid ci p).img = fun i => (copyByte type p i).getD (ci.img i) := by
  funext i
  unfold copyByte
  rw [hsize, if_neg (by omega)]
  rfl

theorem copyCong_img (ci : ConnInfo) (p : Ptr) :
    (copyCong ci p).img = fun i => (copyByte INET_DIAG_CONG p i).getD (ci.img i) := by
  funext i
  unfold copyCong copyByte memberByte
  have hoff : memberOff INET_DIAG_CONG = ofConnInfo.caName := rfl
  have hsize : memberSize INET_DIAG_CONG = TCP_CA_NAME_MAX := rfl
  rw [hoff, hsize, if_pos rfl]
  unfold ConnInfo.write ofConnInfo.caName TCP_CA_NAME_MAX
  dsimp only
  split_ifs <;> first | omega | rfl

/-- **Every copy function** fills its member and leaves the rest alone. -/
theorem copyAttr_img {type : Nat} (h : type < INET_DIAG_MAX) (ci : ConnInfo) (p : Ptr) :
    (copyAttr type ci p).img = fun i => (copyByte type p i).getD (ci.img i) := by
  unfold INET_DIAG_MAX at h
  by_cases hcong : type = INET_DIAG_CONG
  · subst hcong
    exact copyCong_img ci p
  · interval_cases type
    all_goals first
      | exact copyVoid_img rfl ci p
      | exact copyTo_img rfl rfl hcong ci p
      | exact absurd rfl hcong

/-! ## The loop on a well-formed message -/

/-- What the copy function of an attribute placed in memory stores. -/
def storedBy (mem : Ptr) (x : Attr × Nat) : Nat → Option UInt8 :=
  copyByte x.1.type (mem.add x.2)

/-- **The attribute loop** runs the copy function of every attribute on its payload. -/
theorem rtaLoop_attrs {mem : Ptr} {rta : Nat} {as : List Attr} (n : Nat) (ci : ConnInfo)
    (ext : BitVec 32) (h : BytesAt mem rta (as.flatMap Attr.bytes))
    (hlt : attrsSize as < 4294967296) (hn : as.length ≤ n) :
    (rtaLoop mem n rta (attrsSize as) ci ext).how = .done ∧
      (rtaLoop mem n rta (attrsSize as) ci ext).ci.img =
        Writes.run (storedBy mem) (placed rta as) ci.img ∧
      (rtaLoop mem n rta (attrsSize as) ci ext).ext =
        as.foldl (fun ext a => ext ||| bit a.type) ext := by
  induction as generalizing rta n ci ext with
  | nil =>
      have hstop : rtaOk mem rta (attrsSize []) = false := rfl
      rw [rtaLoop_stop n hstop]
      exact ⟨rfl, rfl, rfl⟩
  | cons a as ih =>
      obtain ⟨k, rfl⟩ : ∃ k, n = k + 1 := ⟨n - 1, by rw [List.length_cons] at hn; omega⟩
      rw [List.flatMap_cons] at h
      obtain ⟨ha, has⟩ := bytesAt_append.mp h
      rw [a.bytes_length] at has
      obtain ⟨hlen, htype, -⟩ := Attr.read ha
      rw [attrsSize_cons] at hlt ⊢
      have hsize := a.size_ge
      have hok : rtaOk mem rta (a.size + attrsSize as) = true := by
        rw [rtaOk_iff, hlen]
        omega
      have halign : align4 (rtaLen mem rta) = a.size := by rw [hlen]; rfl
      have hleft : u32sub (a.size + attrsSize as) (align4 (rtaLen mem rta)) = attrsSize as := by
        calc u32sub (a.size + attrsSize as) (align4 (rtaLen mem rta))
            = u32sub (a.size + attrsSize as) a.size := by rw [halign]
          _ = a.size + attrsSize as - a.size := u32sub_of_le (by omega) hlt
          _ = attrsSize as := Nat.add_sub_cancel_left _ _
      obtain ⟨hhow, hci, hext⟩ := ih k
        (copyAttr a.type ci (mem.add (rta + RTA_HDRLEN))) (ext ||| bit a.type)
        has (by omega) (by rw [List.length_cons] at hn; omega)
      rw [rtaLoop_next k hok (by rw [htype]; exact a.type_lt), hleft, halign, htype]
      refine ⟨hhow, ?_, hext⟩
      rw [copyAttr_img a.type_lt] at hci
      exact hci

/-! ## Messages -/

/-- A well-formed diag message that the receive buffer has room for. -/
structure DiagMsg where
  r : List UInt8
  attrs : List Attr
  r_length : r.length = sizeofInetDiagMsg
  fits : NLMSG_HDRLEN + sizeofInetDiagMsg + attrsSize attrs ≤ 32768

namespace DiagMsg

/-- Its `nlmsg_len`. -/
def size (m : DiagMsg) : Nat := NLMSG_HDRLEN + sizeofInetDiagMsg + attrsSize m.attrs

/-- The message stands at `nlh`. -/
structure At (m : DiagMsg) (mem : Ptr) (nlh : Nat) : Prop where
  len : nlmsgLen mem nlh = m.size
  r : BytesAt mem (nlh + NLMSG_HDRLEN) m.r
  attrs : BytesAt mem (nlh + NLMSG_HDRLEN + sizeofInetDiagMsg) (m.attrs.flatMap Attr.bytes)

/-- The bytes of the message, of type `SOCK_DIAG_BY_FAMILY`. -/
def bytes (m : DiagMsg) : List UInt8 :=
  le32 m.size ++ le16 SOCK_DIAG_BY_FAMILY ++ List.replicate 10 0 ++ (m.r ++
    m.attrs.flatMap Attr.bytes)

/-- The message at the start of a memory whose other bytes are `fill`. -/
theorem at_memOf (m : DiagMsg) (fill : UInt8) : m.At (memOf m.bytes fill) 0 := by
  have h := bytesAt_memOf m.bytes fill
  unfold bytes at h
  rw [bytesAt_append, bytesAt_append, bytesAt_append, bytesAt_append] at h
  obtain ⟨⟨⟨hlen, -⟩, -⟩, hr, hattrs⟩ := h
  have hfits := m.fits
  refine ⟨?_, hr, ?_⟩
  · have hsize : m.size < 4294967296 := by unfold size; omega
    exact rdU32_at hlen hsize
  · rw [m.r_length] at hattrs
    exact hattrs

/-- The payload of the last attribute of a type. -/
def last (m : DiagMsg) (type : Nat) : Option (List UInt8) :=
  (m.attrs.reverse.find? fun a => a.type == type).map Attr.payload

/-- An attribute with none of its type behind is the last of its type. -/
theorem last_of_split {m : DiagMsg} {as₁ as₂ : List Attr} {a : Attr}
    (h : m.attrs = as₁ ++ a :: as₂) (hlast : ∀ b ∈ as₂, b.type ≠ a.type) :
    m.last a.type = some a.payload := by
  have hnone : as₂.reverse.find? (fun b => b.type == a.type) = none := by
    rw [List.find?_eq_none]
    intro b hb
    simpa using hlast b (List.mem_reverse.mp hb)
  unfold last
  rw [h, List.reverse_append, List.reverse_cons, List.append_assoc, List.find?_append, hnone]
  simp

end DiagMsg

end Sockmon

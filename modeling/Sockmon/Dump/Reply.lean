import Sockmon.Dump.Copy
import Sockmon.Dump.Walk

set_option autoImplicit false

/-! # The answer of the kernel

The kernel answers a request with messages in datagrams, and `NLMSG_DONE` behind the last
message. However the messages are packed into datagrams, and whatever the receive buffer holds
behind them, `connections_dump` hands over exactly these messages (`Carries.walk`), and the
connection that `diag_dump` makes of each says what the message says (`builtConn_decoded`).
-/

namespace Sockmon

/-! ## Messages in a datagram -/

/-- A message with the part of its header that is not looked at: `nlmsg_flags`, `nlmsg_seq` and
`nlmsg_pid`. -/
structure Framed where
  msg : DiagMsg
  unread : List UInt8
  unread_length : unread.length = 10

def Framed.bytes (m : Framed) : List UInt8 :=
  le32 m.msg.size ++ (le16 SOCK_DIAG_BY_FAMILY ++ (m.unread ++ (m.msg.r ++
    m.msg.attrs.flatMap Attr.bytes)))

/-- The `NLMSG_DONE` that ends the answer. -/
structure Done where
  unread : List UInt8
  payload : List UInt8
  unread_length : unread.length = 10
  payload_length : NLMSG_HDRLEN + payload.length ≤ 32768

def Done.bytes (m : Done) : List UInt8 :=
  le32 (NLMSG_HDRLEN + m.payload.length) ++ (le16 NLMSG_DONE ++ (m.unread ++ m.payload))

/-- Messages laid end to end. -/
def packed (ms : List Framed) : List UInt8 := ms.flatMap Framed.bytes

/-- The datagrams `ds` carry the messages `ms`: each is filled with messages, up to the one that
has `NLMSG_DONE` behind its messages. What stands or comes behind it does not matter. -/
inductive Carries : List (Option Datagram) → List Framed → Prop
  | done (d : Datagram) (ds : List (Option Datagram)) (ms : List Framed) (fin : Done) :
      BytesAt d.mem 0 (packed ms ++ fin.bytes) → (packed ms ++ fin.bytes).length ≤ d.sz →
      Carries (some d :: ds) ms
  | more (d : Datagram) (ds : List (Option Datagram)) (ms ms' : List Framed) :
      BytesAt d.mem 0 (packed ms) → d.sz = (packed ms).length → Carries ds ms' →
      Carries (some d :: ds) (ms ++ ms')

/-! ## Reading a header -/

theorem DiagMsg.size_lt (m : DiagMsg) : m.size < 4294967296 := by
  have hfits := m.fits
  unfold DiagMsg.size
  omega

theorem attrsSize_align (as : List Attr) : attrsSize as % 4 = 0 := by
  induction as with
  | nil => rfl
  | cons a as ih =>
      have ha : a.size % 4 = 0 := by
        unfold Attr.size align4
        omega
      rw [attrsSize_cons]
      omega

/-- A message needs no padding. -/
theorem DiagMsg.align_size (m : DiagMsg) : align4 m.size = m.size := by
  have h := attrsSize_align m.attrs
  unfold DiagMsg.size align4 NLMSG_HDRLEN sizeofInetDiagMsg
  omega

section

variable {mem : Ptr} {nlh : Nat}

theorem Framed.bytes_length (m : Framed) : m.bytes.length = m.msg.size := by
  unfold Framed.bytes DiagMsg.size
  simp only [List.length_append, m.unread_length, m.msg.r_length, attrs_length]
  show 4 + (2 + (10 + (72 + attrsSize m.msg.attrs))) = 16 + 72 + attrsSize m.msg.attrs
  omega

/-- The header of a message, as the walk reads it, and the message behind it. -/
theorem Framed.read {m : Framed} (h : BytesAt mem nlh m.bytes) :
    m.msg.At mem nlh ∧ nlmsgType mem nlh = SOCK_DIAG_BY_FAMILY := by
  unfold Framed.bytes at h
  obtain ⟨hlen, h⟩ := bytesAt_append.mp h
  obtain ⟨htype, h⟩ := bytesAt_append.mp h
  obtain ⟨-, h⟩ := bytesAt_append.mp h
  obtain ⟨hr, hattrs⟩ := bytesAt_append.mp h
  rw [m.unread_length] at hr hattrs
  rw [m.msg.r_length] at hattrs
  exact ⟨⟨rdU32_at hlen m.msg.size_lt, hr, hattrs⟩, rdU16_at htype (by decide)⟩

theorem Done.read {m : Done} (h : BytesAt mem nlh m.bytes) :
    nlmsgLen mem nlh = NLMSG_HDRLEN + m.payload.length ∧ nlmsgType mem nlh = NLMSG_DONE := by
  have hle := m.payload_length
  unfold Done.bytes at h
  obtain ⟨hlen, h⟩ := bytesAt_append.mp h
  obtain ⟨htype, -⟩ := bytesAt_append.mp h
  exact ⟨rdU32_at hlen (by omega), rdU16_at htype (by decide)⟩

theorem Done.bytes_length (m : Done) : m.bytes.length = NLMSG_HDRLEN + m.payload.length := by
  unfold Done.bytes
  simp only [List.length_append, m.unread_length]
  show 4 + (2 + (10 + m.payload.length)) = 16 + m.payload.length
  omega

end

/-! ## Sending -/

/-- A datagram of the bytes `bs`, received over what the buffer holds. -/
def Datagram.over (bs : List UInt8) (old : Ptr) (h : bs.length ≤ 32768) : Datagram where
  sz := bs.length
  mem := fun i => bs.getD i (old i)
  reach := bs.length / 4
  sz_le := h
  reach_ge := le_refl _

theorem bytesAt_over {bs : List UInt8} {old : Ptr} (h : bs.length ≤ 32768) :
    BytesAt (Datagram.over bs old h).mem 0 bs := by
  intro i b hb
  show bs.getD (0 + i) _ = b
  rw [Nat.zero_add, List.getD_eq_getElem?_getD, hb, Option.getD_some]

/-! ## The walk -/

/-- The message stands at the place. -/
structure Stands (m : Framed) (p : Datagram × Nat) : Prop where
  msg : m.msg.At p.1.mem p.2
  inside : p.2 + m.msg.size ≤ p.1.sz

/-- The offsets of messages laid end to end from `nlh` on. -/
def offsets (nlh : Nat) : List Framed → List Nat
  | [] => []
  | m :: ms => nlh :: offsets (nlh + m.msg.size) ms

section

variable {d : Datagram} {nlh k : Nat} {ms : List Framed}

/-- Each stands where it was laid. -/
theorem stands_offsets (h : BytesAt d.mem nlh (packed ms)) (hin : nlh + (packed ms).length ≤ d.sz) :
    List.Forall₂ Stands ms ((offsets nlh ms).map (d, ·)) := by
  induction ms generalizing nlh with
  | nil => exact .nil
  | cons m ms ih =>
      unfold packed at h hin ih
      rw [List.flatMap_cons] at h hin
      rw [List.length_append, m.bytes_length] at hin
      obtain ⟨hm, hms⟩ := bytesAt_append.mp h
      rw [m.bytes_length] at hms
      have hinside : nlh + m.msg.size ≤ d.sz := by omega
      exact .cons ⟨(Framed.read hm).1, hinside⟩ (ih hms (by omega))

/-- **The walk over messages laid end to end** takes them one by one. -/
theorem msgWalk_packed (h : BytesAt d.mem nlh (packed ms))
    (hin : nlh + (packed ms).length ≤ d.sz) :
    msgWalk d (ms.length + k) nlh ((d.sz : Int) - nlh) =
      (offsets nlh ms ++ (msgWalk d k (nlh + (packed ms).length)
          ((d.sz : Int) - (nlh + (packed ms).length : Nat))).1,
        (msgWalk d k (nlh + (packed ms).length)
          ((d.sz : Int) - (nlh + (packed ms).length : Nat))).2) := by
  induction ms generalizing nlh with
  | nil => simp [packed, offsets]
  | cons m ms ih =>
      have hlen : (packed (m :: ms)).length = m.msg.size + (packed ms).length := by
        unfold packed
        rw [List.flatMap_cons, List.length_append, m.bytes_length]
      rw [hlen] at hin ⊢
      unfold packed at h
      rw [List.flatMap_cons] at h
      obtain ⟨hm, hms⟩ := bytesAt_append.mp h
      rw [m.bytes_length] at hms
      obtain ⟨hat, htype⟩ := Framed.read hm
      have hsize : 16 ≤ m.msg.size := by
        unfold DiagMsg.size NLMSG_HDRLEN
        omega
      have hok : nlmsgOk d.mem nlh ((d.sz : Int) - nlh) = true := by
        unfold nlmsgOk NLMSG_HDRLEN
        rw [hat.len]
        simp only [Bool.and_eq_true, decide_eq_true_eq]
        omega
      have hrest := ih hms (by omega)
      rw [List.length_cons, Nat.add_right_comm, msgWalk, hok, Bool.not_true,
        if_neg Bool.false_ne_true, htype, if_neg (by decide), if_neg (by decide), hat.len,
        m.msg.align_size]
      -- `NLMSG_NEXT` takes the padded length off the rest: the walk goes on at the next message
      have hsz : (d.sz : Int) - nlh - (m.msg.size : Nat) =
          (d.sz : Int) - (nlh + m.msg.size : Nat) := by
        push_cast
        omega
      dsimp only
      rw [hsz, hrest, offsets, List.cons_append, Nat.add_assoc]

/-- The messages are fewer than the headers that the datagram has room for. -/
theorem length_packed_ge (ms : List Framed) : 16 * ms.length ≤ (packed ms).length := by
  induction ms with
  | nil => exact Nat.zero_le _
  | cons m ms ih =>
      have hsize : 16 ≤ m.msg.size := by
        unfold DiagMsg.size NLMSG_HDRLEN
        omega
      unfold packed at ih ⊢
      rw [List.flatMap_cons, List.length_append, m.bytes_length, List.length_cons]
      omega

/-- A datagram of messages only is walked to its end. -/
theorem msgWalk_filled (h : BytesAt d.mem 0 (packed ms)) (hsz : d.sz = (packed ms).length) :
    msgWalk d (d.sz / NLMSG_HDRLEN + 1) 0 d.sz = (offsets 0 ms, .next) := by
  have hge := length_packed_ge ms
  obtain ⟨k, hk⟩ : ∃ k, d.sz / NLMSG_HDRLEN + 1 = ms.length + (k + 1) := by
    refine ⟨d.sz / NLMSG_HDRLEN - ms.length, ?_⟩
    unfold NLMSG_HDRLEN
    omega
  have hwalk := msgWalk_packed (k := k + 1) h (by omega)
  have hend : msgWalk d (k + 1) (0 + (packed ms).length)
      ((d.sz : Int) - (0 + (packed ms).length : Nat)) = ([], .next) := by
    have hok : nlmsgOk d.mem (0 + (packed ms).length)
        ((d.sz : Int) - (0 + (packed ms).length : Nat)) = false := by
      unfold nlmsgOk NLMSG_HDRLEN
      simp only [Bool.and_eq_false_iff, decide_eq_false_iff_not]
      omega
    rw [msgWalk, hok]
    rfl
  rw [hend, List.append_nil] at hwalk
  rw [hk]
  simpa using hwalk

/-- In the last one the walk ends at `NLMSG_DONE`. -/
theorem msgWalk_done {fin : Done} (h : BytesAt d.mem 0 (packed ms ++ fin.bytes))
    (hsz : (packed ms ++ fin.bytes).length ≤ d.sz) :
    msgWalk d (d.sz / NLMSG_HDRLEN + 1) 0 d.sz = (offsets 0 ms, .done) := by
  have hge := length_packed_ge ms
  rw [List.length_append, fin.bytes_length] at hsz
  obtain ⟨hms, hfin⟩ := bytesAt_append.mp h
  obtain ⟨hlen, htype⟩ := Done.read hfin
  obtain ⟨k, hk⟩ : ∃ k, d.sz / NLMSG_HDRLEN + 1 = ms.length + (k + 1) := by
    refine ⟨d.sz / NLMSG_HDRLEN - ms.length, ?_⟩
    unfold NLMSG_HDRLEN at hsz ⊢
    omega
  have hwalk := msgWalk_packed (k := k + 1) hms (by omega)
  have hend : msgWalk d (k + 1) (0 + (packed ms).length)
      ((d.sz : Int) - (0 + (packed ms).length : Nat)) = ([], .done) := by
    have hok : nlmsgOk d.mem (0 + (packed ms).length)
        ((d.sz : Int) - (0 + (packed ms).length : Nat)) = true := by
      unfold nlmsgOk
      rw [hlen]
      unfold NLMSG_HDRLEN at hsz ⊢
      simp only [Bool.and_eq_true, decide_eq_true_eq]
      omega
    rw [msgWalk, hok, Bool.not_true, if_neg Bool.false_ne_true, htype, if_pos rfl]
  rw [hend, List.append_nil] at hwalk
  rw [hk]
  simpa using hwalk

end

/-- **Of an answer** exactly its messages are handed over, and the walk ends at `NLMSG_DONE`. -/
theorem Carries.walk {ds : List (Option Datagram)} {ms : List Framed} (h : Carries ds ms) :
    ∃ ps, recvWalk ds = (ps, .done) ∧ List.Forall₂ Stands ms ps := by
  induction h with
  | done d ds ms fin hbytes hsz =>
      refine ⟨(offsets 0 ms).map (d, ·), ?_, ?_⟩
      · rw [recvWalk, msgWalk_done hbytes hsz]
      · rw [List.length_append] at hsz
        exact stands_offsets (bytesAt_append.mp hbytes).1 (by omega)
  | more d ds ms ms' hbytes hsz _ ih =>
      obtain ⟨ps, hwalk, hps⟩ := ih
      refine ⟨(offsets 0 ms).map (d, ·) ++ ps, ?_, ?_⟩
      · rw [recvWalk, msgWalk_filled hbytes hsz, hwalk]
      · exact List.rel_append (stands_offsets hbytes (by omega)) hps

/-! ## What a connection says -/

/-- The connection says what the message and the owner say, and is zero elsewhere. -/
structure Decoded (m : DiagMsg) (owner : Option SkOwner) (ci : ConnInfo) : Prop where
  r : BytesAt ci.img ofConnInfo.r m.r
  /-- Of each type the member has the last payload, as far as it goes. -/
  member : ∀ type payload, m.last type = some payload → type ≠ INET_DIAG_CONG →
    BytesAt ci.img (memberOff type) (payload.take (memberSize type))
  name : ∀ payload, m.last INET_DIAG_CONG = some payload →
    cstr (ci.ptr ofConnInfo.caName) TCP_CA_NAME_MAX =
      (payload.takeWhile (· != 0)).take (TCP_CA_NAME_MAX - 1)
  pid : ∀ o, owner = some o → i32 (rdU32 (ci.ptr ofConnInfo.pid)) = i32 o.pid
  comm : ∀ o, owner = some o → BytesAt ci.img ofConnInfo.comm (o.comm.take TASK_COMM_LEN)
  ext : ∀ j, ci.ext.getLsbD j = true ↔ j = INET_DIAG_NONE ∨ j = INET_DIAG_ADDRESS ∨
    (j = INET_DIAG_PROC ∧ owner.isSome) ∨ (m.last j).isSome
  zero : ∀ i, (i < ofConnInfo.r ∨ ofConnInfo.r + sizeofInetDiagMsg ≤ i) →
    (owner = none ∨ i < ofConnInfo.pid ∨ ofConnInfo.comm + TASK_COMM_LEN ≤ i) →
    (∀ type, (m.last type).isSome → i < memberOff type ∨ memberOff type + memberSize type ≤ i) →
      ci.img i = 0

/-! ## Bytes of the connection -/

/-- No attribute is copied over the `inet_diag_msg` or the owner. -/
theorem members_apart : ∀ type ∈ List.range INET_DIAG_MAX, memberSize type = 0 ∨
    (memberOff type + memberSize type ≤ ofConnInfo.r ∨
      ofConnInfo.r + sizeofInetDiagMsg ≤ memberOff type) ∧
    memberOff type + memberSize type ≤ ofConnInfo.pid := by
  decide +kernel

theorem take_some {bs : List UInt8} {n j : Nat} {b : UInt8} (h : (bs.take n)[j]? = some b) :
    j < n ∧ bs[j]? = some b := by
  rw [List.getElem?_take] at h
  split_ifs at h with hj
  exact ⟨hj, h⟩

/-- A string that fits, with NULs behind it. -/
theorem cstr_eq {p : Ptr} {n : Nat} {name : List UInt8} (hname : ∀ c ∈ name, c ≠ 0)
    (hlen : name.length < n) (h : ∀ k < n, p k = name.getD k 0) : cstr p n = name := by
  have htake : p.take n = name ++ List.replicate (n - name.length) 0 := by
    apply List.ext_getElem?
    intro k
    by_cases hk : k < n
    · have hget : (p.take n)[k]? = some (name.getD k 0) := by
        simp [Ptr.take, hk, h k hk]
      rw [hget, List.getD_eq_getElem?_getD]
      by_cases hin : k < name.length
      · rw [List.getElem?_append_left hin, List.getElem?_eq_getElem hin]
        rfl
      · rw [List.getElem?_append_right (by omega), List.getElem?_eq_none (by omega),
          List.getElem?_replicate, if_pos (by omega)]
        rfl
    · rw [List.getElem?_eq_none (by simp [Ptr.take]; omega), List.getElem?_eq_none]
      rw [List.length_append, List.length_replicate]
      omega
  have hzero : (List.replicate (n - name.length) (0 : UInt8)).takeWhile (· != 0) = [] := by
    obtain ⟨k, hk⟩ : ∃ k, n - name.length = k + 1 := ⟨n - name.length - 1, by omega⟩
    rw [hk, List.replicate_succ, List.takeWhile_cons_of_neg (by decide)]
  unfold cstr
  rw [htake, List.takeWhile_append_of_pos (by simpa using hname), hzero, List.append_nil]

/-- What `copy_cong` copies of a payload that covers is its name. -/
theorem name_covers {payload : List UInt8}
    (hc : 0 ∈ payload ∨ TCP_CA_NAME_MAX - 1 ≤ payload.length) {q : Ptr}
    (hq : BytesAt q 0 payload) {j : Nat} (hj : j < TCP_CA_NAME_MAX - 1) :
    (cstr q TCP_CA_NAME_MAX).getD j 0 = (payload.takeWhile (· != 0)).getD j 0 := by
  rw [cstr_getD (by omega), takeWhile_getD]
  have hget : ∀ k < payload.length, q k = payload.getD k 0 := by
    intro k hk
    rw [bytesAt_get hq hk, List.getD_eq_getElem?_getD, List.getElem?_eq_getElem hk]
    rfl
  by_cases hin : j < payload.length
  · have hiff : (∀ k ≤ j, q k ≠ 0) ↔ ∀ k ≤ j, payload.getD k 0 ≠ 0 :=
      forall₂_congr fun k hk => by rw [hget k (by omega)]
    rw [hget j hin]
    simp only [hiff]
  · -- The payload is shorter than the member, so the name ends in it.
    have hzero : 0 ∈ payload := hc.resolve_right (by omega)
    obtain ⟨k, hk, hk0⟩ := List.getElem_of_mem hzero
    have hq0 : q k = 0 := (bytesAt_get hq hk).trans hk0
    have hend : payload.getD j 0 = 0 := by
      rw [List.getD_eq_getElem?_getD, List.getElem?_eq_none (by omega)]
      rfl
    rw [if_neg fun h => h k (by omega) hq0, hend, ite_self]

section

variable {m : DiagMsg} {mem : Ptr} {nlh : Nat} {owner : Option SkOwner}

/-- A byte that the last payload of a type stores. -/
theorem builtConn_stored (hc : Covered m) (h : m.At mem nlh) {type i : Nat}
    {payload : List UInt8} {q : Ptr} {b : UInt8} (hlast : m.last type = some payload)
    (hq : BytesAt q 0 payload) (hb : copyByte type q i = some b) :
    (builtConn mem nlh owner).img i = b := by
  rcases builtConn_byte h owner i with ⟨hnone, -⟩ | ⟨type', payload', q', hlast', hq', hb'⟩
  · rw [hnone type payload q hlast] at hb
    cases hb
  · exact hc.copyByte hlast hlast' hq hq' hb hb'

/-- A byte that no type of the message stores. -/
theorem builtConn_start (h : m.At mem nlh) {i : Nat}
    (hi : ∀ type, (m.last type).isSome →
      i < memberOff type ∨ memberOff type + memberSize type ≤ i) :
    (builtConn mem nlh owner).img i = startImg mem nlh owner i := by
  rcases builtConn_byte h owner i with ⟨-, hstart⟩ | ⟨type, payload, q, hlast, -, hb⟩
  · exact hstart
  · obtain ⟨-, hlo, hhi, -⟩ := copyByte_some hb
    have hout := hi type (by rw [hlast]; rfl)
    omega

/-- The types of a message are known. -/
theorem DiagMsg.type_lt {type : Nat} (h : (m.last type).isSome) : type < INET_DIAG_MAX := by
  obtain ⟨a, -, rfl⟩ := last_isSome.mp h
  exact a.type_lt

/-- No type stores a byte of the `inet_diag_msg` or of the owner. -/
theorem apart {i : Nat} (hi : ofConnInfo.r ≤ i ∧ i < ofConnInfo.r + sizeofInetDiagMsg ∨
    ofConnInfo.pid ≤ i) (type : Nat) (htype : (m.last type).isSome) :
    i < memberOff type ∨ memberOff type + memberSize type ≤ i := by
  have hmem := members_apart type (List.mem_range.mpr (DiagMsg.type_lt htype))
  omega

end

/-! Before the attributes there are the `inet_diag_msg`, the owner, and zeros. -/

section

variable {mem : Ptr} {nlh off n i : Nat} {owner : Option SkOwner} {o : SkOwner} {ci : ConnInfo}
  {p : Ptr}

theorem write_inside (hi : off ≤ i ∧ i < off + n) : (ci.write off n p).img i = p (i - off) :=
  if_pos hi

theorem write_outside (hi : i < off ∨ off + n ≤ i) : (ci.write off n p).img i = ci.img i :=
  if_neg (by omega)

/-- Outside the owner. -/
theorem startImg_msg
    (hi : owner = none ∨ i < ofConnInfo.pid ∨ ofConnInfo.comm + TASK_COMM_LEN ≤ i) :
    startImg mem nlh owner i =
      (ConnInfo.zero.write ofConnInfo.r sizeofInetDiagMsg
        (mem.add (nlh + NLMSG_HDRLEN))).img i := by
  cases owner with
  | none => rfl
  | some o =>
      have hout : i < ofConnInfo.pid ∨ ofConnInfo.comm + TASK_COMM_LEN ≤ i :=
        hi.resolve_left nofun
      unfold ofConnInfo.pid ofConnInfo.comm TASK_COMM_LEN at hout
      unfold startImg diagStart
      dsimp only
      rw [write_outside (by unfold ofConnInfo.comm TASK_COMM_LEN; omega),
        write_outside (by unfold ofConnInfo.pid; omega)]

theorem startImg_r {j : Nat} (hj : j < sizeofInetDiagMsg) :
    startImg mem nlh owner (ofConnInfo.r + j) = mem (nlh + NLMSG_HDRLEN + j) := by
  have hpid : ofConnInfo.r + j < ofConnInfo.pid := by
    unfold sizeofInetDiagMsg at hj
    unfold ofConnInfo.r ofConnInfo.pid
    omega
  rw [startImg_msg (Or.inr (Or.inl hpid)), write_inside ⟨Nat.le_add_right _ _, by omega⟩,
    Nat.add_sub_cancel_left]
  rfl

theorem startImg_zero (hr : i < ofConnInfo.r ∨ ofConnInfo.r + sizeofInetDiagMsg ≤ i)
    (ho : owner = none ∨ i < ofConnInfo.pid ∨ ofConnInfo.comm + TASK_COMM_LEN ≤ i) :
    startImg mem nlh owner i = 0 := by
  rw [startImg_msg ho, write_outside hr]
  rfl

theorem startImg_pid {j : Nat} (hj : j < 4) :
    startImg mem nlh (some o) (ofConnInfo.pid + j) = leBytes o.pid j := by
  unfold startImg diagStart
  dsimp only
  rw [write_outside (by unfold ofConnInfo.pid ofConnInfo.comm; omega),
    write_inside ⟨Nat.le_add_right _ _, by omega⟩, Nat.add_sub_cancel_left]

theorem startImg_comm {j : Nat} (hj : j < TASK_COMM_LEN) :
    startImg mem nlh (some o) (ofConnInfo.comm + j) = o.comm.getD j 0 := by
  unfold startImg diagStart
  dsimp only
  rw [write_inside ⟨Nat.le_add_right _ _, by omega⟩, Nat.add_sub_cancel_left]

theorem rdU32_congr {p q : Ptr} (h : ∀ j < 4, p j = q j) : rdU32 p = rdU32 q := by
  have h0 := h 0 (by decide)
  have h1 := h 1 (by decide)
  have h2 := h (2 + 0) (by decide)
  have h3 := h (2 + 1) (by decide)
  unfold rdU32 rdU16 Ptr.add
  rw [h0, h1, h2, h3]

/-- The bytes of an `int` in memory. -/
theorem rdU32_leBytes (v : Int) : i32 (rdU32 (leBytes v)) = i32 v := by
  unfold rdU32 rdU16 leBytes Ptr.add i32
  simp only [Nat.toUInt8, UInt8.toNat_ofNat']
  omega

end

/-! ## Messages become connections -/

section

variable {m : DiagMsg} {mem : Ptr} {nlh : Nat} {owner : Option SkOwner}

theorem startExt_bit (j : Nat) : (startExt owner).getLsbD j = true ↔
    j = INET_DIAG_NONE ∨ j = INET_DIAG_ADDRESS ∨ (j = INET_DIAG_PROC ∧ owner.isSome) := by
  have hbit : ∀ k < 32, (bit k).getLsbD j = true ↔ j = k := by
    intro k hk
    rw [getLsbD_bit, decide_eq_true_eq]
    omega
  unfold startExt diagStart
  cases owner with
  | none =>
      dsimp only
      rw [BitVec.getLsbD_or, Bool.or_eq_true, hbit _ (by decide), hbit _ (by decide)]
      simp
  | some o =>
      dsimp only
      rw [BitVec.getLsbD_or, BitVec.getLsbD_or, Bool.or_eq_true, Bool.or_eq_true,
        hbit _ (by decide), hbit _ (by decide), hbit _ (by decide), or_assoc]
      simp

theorem builtConn_ext (h : m.At mem nlh) (j : Nat) :
    (builtConn mem nlh owner).ext.getLsbD j = true ↔ j = INET_DIAG_NONE ∨ j = INET_DIAG_ADDRESS ∨
      (j = INET_DIAG_PROC ∧ owner.isSome) ∨ (m.last j).isSome := by
  have hattrs : (m.attrs.any fun a => (bit a.type).getLsbD j) = true ↔ (m.last j).isSome := by
    rw [last_isSome, List.any_eq_true]
    refine exists_congr fun a => and_congr_right fun _ => ?_
    have hlt := a.type_lt
    unfold INET_DIAG_MAX at hlt
    rw [getLsbD_bit, decide_eq_true_eq]
    omega
  rw [(builtConn_eq h owner).2, foldl_ext, Bool.or_eq_true, hattrs, startExt_bit]
  simp only [or_assoc]

/-- **The connection says what the message says.** -/
theorem builtConn_decoded (hc : Covered m) (h : m.At mem nlh) :
    Decoded m owner (builtConn mem nlh owner) where
  r := by
    intro j b hb
    have hj : j < sizeofInetDiagMsg := by
      rw [← m.r_length]
      exact (List.getElem?_eq_some_iff.mp hb).1
    rw [builtConn_start h (apart (Or.inl ⟨Nat.le_add_right _ _, by omega⟩)), startImg_r hj]
    exact h.r j b hb
  member := by
    intro type payload hlast hcong j b hb
    obtain ⟨hj, hget⟩ := take_some hb
    refine builtConn_stored hc h hlast (bytesAt_memOf payload 0) ?_
    unfold copyByte memberByte
    rw [if_pos (by omega), if_neg hcong, Nat.add_sub_cancel_left]
    have hmem := bytesAt_memOf payload 0 j b hget
    rw [Nat.zero_add] at hmem
    rw [hmem]
  name := by
    intro payload hlast
    have hcov := hc.covers INET_DIAG_CONG payload hlast
    unfold Covers at hcov
    rw [if_pos rfl] at hcov
    -- `strncpy` stores the name up to its NUL and zeroes behind it
    set name := (payload.takeWhile (· != 0)).take (TCP_CA_NAME_MAX - 1) with hname
    have hstored : ∀ k < TCP_CA_NAME_MAX,
        (builtConn mem nlh owner).img (ofConnInfo.caName + k) = name.getD k 0 := by
      intro k hk
      refine builtConn_stored hc h hlast (bytesAt_memOf payload 0) ?_
      have hoff : memberOff INET_DIAG_CONG = ofConnInfo.caName := rfl
      have hsize : memberSize INET_DIAG_CONG = TCP_CA_NAME_MAX := rfl
      unfold copyByte memberByte
      rw [hoff, hsize, if_pos (by omega), if_pos rfl, Nat.add_sub_cancel_left]
      -- the last byte is `copy_cong`'s own terminator, whatever the payload holds there
      by_cases hlast : k = TCP_CA_NAME_MAX - 1
      · rw [if_pos hlast, List.getD_eq_getElem?_getD, List.getElem?_eq_none]
        · rfl
        · rw [hname, List.length_take]
          omega
      · rw [if_neg hlast, name_covers hcov (bytesAt_memOf payload 0) (by omega),
          List.getD_eq_getElem?_getD, List.getD_eq_getElem?_getD,
          List.getElem?_take_of_lt (by omega)]
    refine cstr_eq ?_ ?_ hstored
    · intro c hcmem
      have hmem := List.mem_takeWhile_imp (List.mem_of_mem_take hcmem)
      simpa using hmem
    · rw [hname, List.length_take]
      unfold TCP_CA_NAME_MAX
      omega
  pid := by
    rintro o rfl
    have hbytes : ∀ j < 4, (builtConn mem nlh (some o)).img (ofConnInfo.pid + j) =
        leBytes o.pid j := by
      intro j hj
      rw [builtConn_start h (apart (Or.inr (Nat.le_add_right _ _))), startImg_pid hj]
    have hread : rdU32 ((builtConn mem nlh (some o)).ptr ofConnInfo.pid) =
        rdU32 (leBytes o.pid) := rdU32_congr hbytes
    rw [hread, rdU32_leBytes]
  comm := by
    rintro o rfl j b hb
    obtain ⟨hj, hget⟩ := take_some hb
    rw [builtConn_start h (apart (Or.inr ?_)), startImg_comm hj, List.getD_eq_getElem?_getD, hget]
    · rfl
    · unfold ofConnInfo.pid ofConnInfo.comm
      omega
  ext := builtConn_ext h
  zero := by
    intro i hr ho hi
    rw [builtConn_start h hi, startImg_zero hr ho]

end

end Sockmon

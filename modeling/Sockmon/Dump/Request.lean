import Sockmon.Dump.Message

set_option autoImplicit false

/-! # The bytes of a request

`build_request` stores a request over whatever the buffer holds, all of its 72 bytes, and the
kernel that reads them gets the request (`readRequest_bytes`).
-/

namespace Sockmon

/-- `sizeof(struct inet_diag_sockid)` -/
def sizeofSockId : Nat := 48

/-- A `struct nlmsghdr`, and a `struct inet_diag_req_v2` with its padding and its `id`. -/
def Request.bytes (r : Request) : List UInt8 :=
  le32 r.nlmsgLen ++ (le16 r.nlmsgType ++ (le16 r.nlmsgFlags ++ (le32 0 ++ (le32 0 ++
    ([r.sdiagFamily.toUInt8, r.sdiagProtocol.toUInt8, r.idiagExt.toUInt8, 0] ++
      (le32 r.idiagStates ++ List.replicate sizeofSockId 0))))))

/-- The buffer after `build_request`. -/
def Request.store (r : Request) (buf : Ptr) : Ptr := fun i => r.bytes.getD i (buf i)

/-- What the kernel reads. -/
def readRequest (mem : Ptr) : Request where
  nlmsgLen := rdU32 mem
  nlmsgType := rdU16 (mem.add 4)
  nlmsgFlags := rdU16 (mem.add 6)
  sdiagFamily := (mem 16).toNat
  sdiagProtocol := (mem 17).toNat
  idiagExt := (mem 18).toNat
  idiagStates := rdU32 (mem.add 20)

/-- The bytes that `sendmsg` is given. -/
def Request.sent (r : Request) (buf : Ptr) : List UInt8 := (List.range r.nlmsgLen).map (r.store buf)

/-- A request whose numbers fit their members. -/
structure Request.Fits (r : Request) : Prop where
  len : r.nlmsgLen < 4294967296
  type : r.nlmsgType < 65536
  flags : r.nlmsgFlags < 65536
  family : r.sdiagFamily < 256
  protocol : r.sdiagProtocol < 256
  ext : r.idiagExt < 256
  states : r.idiagStates < 4294967296

theorem toUInt8_toNat {v : Nat} (hv : v < 256) : v.toUInt8.toNat = v := by
  simp only [Nat.toUInt8, UInt8.toNat_ofNat']
  omega

/-- **The kernel gets the request**: from memory with its bytes it reads the numbers stored. -/
theorem readRequest_bytes {r : Request} (hr : r.Fits) {mem : Ptr} (h : BytesAt mem 0 r.bytes) :
    readRequest mem = r := by
  unfold Request.bytes at h
  obtain ⟨hlen, h⟩ := bytesAt_append.mp h
  obtain ⟨htype, h⟩ := bytesAt_append.mp h
  obtain ⟨hflags, h⟩ := bytesAt_append.mp h
  obtain ⟨-, h⟩ := bytesAt_append.mp h
  obtain ⟨-, h⟩ := bytesAt_append.mp h
  obtain ⟨hbytes, h⟩ := bytesAt_append.mp h
  obtain ⟨hstates, -⟩ := bytesAt_append.mp h
  have hfamily : mem 16 = r.sdiagFamily.toUInt8 := hbytes 0 _ rfl
  have hprotocol : mem 17 = r.sdiagProtocol.toUInt8 := hbytes 1 _ rfl
  have hext : mem 18 = r.idiagExt.toUInt8 := hbytes 2 _ rfl
  unfold readRequest
  rw [hfamily, hprotocol, hext, toUInt8_toNat hr.family, toUInt8_toNat hr.protocol,
    toUInt8_toNat hr.ext]
  congr 1
  · exact rdU32_at hlen hr.len
  · exact rdU16_at htype hr.type
  · exact rdU16_at hflags hr.flags
  · exact rdU32_at hstates hr.states

theorem Request.bytes_length (r : Request) : r.bytes.length = 72 := by
  unfold Request.bytes le32 le16
  simp only [List.length_append, List.length_cons, List.length_nil, List.length_replicate]
  rfl

theorem range_map_getD {α : Type*} (bs : List α) (f : Nat → α) :
    (List.range bs.length).map (fun i => bs.getD i (f i)) = bs := by
  refine List.ext_getElem ?_ fun i hi hi' => ?_
  · rw [List.length_map, List.length_range]
  · rw [List.getElem_map, List.getElem_range, List.getD_eq_getElem?_getD,
      List.getElem?_eq_getElem hi', Option.getD_some]

/-- **What is sent** does not depend on what the buffer held, which may be an earlier answer. -/
theorem Request.sent_eq {r : Request} (hlen : r.nlmsgLen = 72) (buf : Ptr) :
    r.sent buf = r.bytes := by
  unfold Request.sent Request.store
  rw [hlen, ← r.bytes_length]
  exact range_map_getD r.bytes buf

/-- The requests of the program fit. -/
theorem buildRequest_fits {n : NmCtx} (hfamily : n.family < 256) (hprotocol : n.protocol < 256) :
    (buildRequest n).Fits where
  len := by
    show 72 < 4294967296
    decide
  type := by
    show SOCK_DIAG_BY_FAMILY < 65536
    decide
  flags := by
    show NLM_F_REQUEST + NLM_F_DUMP < 65536
    decide
  family := hfamily
  protocol := hprotocol
  ext := Nat.mod_lt _ (by decide)
  states := by
    show TCPF_ALL < 4294967296
    decide

end Sockmon

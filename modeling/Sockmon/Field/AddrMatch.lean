import Sockmon.Lib.BitPrefix
import Sockmon.Field.Apply
import Sockmon.Field.AddrLine

set_option autoImplicit false

/-! # The network of an address filter

`fp_addr` turns a prefix length into a mask and `fa_addr` compares bytes under the mask. So a
filter with `=` accepts the addresses of the network that was typed, and one with `!=` the others
(`addrFilter_network`).
-/

namespace Sockmon

open LineScan

/-- The address is one of the network of the first `p` bits of `a`. -/
def InNetwork (family : Nat) (a : List UInt8) (p : Nat) (family' : Nat) (address : Ptr) : Prop :=
  family' = family ∧ ∀ i < p, BitPrefix.bit address i = BitPrefix.bit (fun k => a.getD k 0) i

/-- An answer that under `=` is whether the address is in the network, and under `!=` whether it
is not. -/
def NetworkAnswer (op : CmpOp) (b : Option Bool) (inNetwork : Prop) : Prop :=
  ∃ r, b = some r ∧ (op = .eq → (r = true ↔ inNetwork)) ∧ (op = .ne → (r = true ↔ ¬ inNetwork))

/-! ## Masks -/

/-- The partial byte of a mask. -/
theorem testBit_partByte : ∀ r < 8, ∀ k < 8,
    ((List.range r).foldl (fun (m : UInt8) j => m ||| (128 : UInt8) >>> j.toUInt8) 0).toNat.testBit
      (7 - k) = decide (k < r) := by
  decide +kernel

theorem isMask_prefixMask {n : Nat} (p : Nat) (hn : n ≤ 16) :
    BitPrefix.IsMask (fun i => (prefixMask p).getD i 0) n p := by
  intro i hi
  have hbyte : (prefixMask p).getD (i / 8) 0 =
      if i / 8 < p / 8 then 255
      else if i / 8 = p / 8 then
        (List.range (p % 8)).foldl (fun (m : UInt8) j => m ||| (128 : UInt8) >>> j.toUInt8) 0
      else 0 := by
    have hlt : i / 8 < 16 := by omega
    simp [prefixMask, List.getD_eq_getElem?_getD, hlt]
  unfold BitPrefix.bit
  dsimp only
  rw [hbyte]
  split_ifs with hlt heq
  · have hfull : ∀ k < 8, ((255 : UInt8).toNat.testBit (7 - k)) = true := by decide
    rw [hfull (i % 8) (by omega), decide_eq_true (by omega)]
  · rw [testBit_partByte (p % 8) (by omega) (i % 8) (by omega), decide_eq_decide]
    omega
  · have hzero : ((0 : UInt8).toNat.testBit (7 - i % 8)) = false := by simp
    rw [hzero, decide_eq_false (by omega)]

/-- Without a prefix length the whole address is compared. -/
theorem isMask_whole {n : Nat} (hn : n ≤ 16) :
    BitPrefix.IsMask (fun i => (List.replicate 16 (255 : UInt8)).getD i 0) n (8 * n) := by
  intro i hi
  have hlt : i / 8 < 16 := by omega
  have hfull : ∀ k < 8, ((255 : UInt8).toNat.testBit (7 - k)) = true := by decide
  unfold BitPrefix.bit
  simp only [List.getD_eq_getElem?_getD, List.getElem?_replicate, hlt, if_true, Option.getD_some]
  rw [hfull (i % 8) (by omega), decide_eq_true hi]

/-- `fa_addr` with a mask of `p` ones. -/
theorem faAddr_network {f : Field} {op : CmpOp} {a mask : List UInt8} {family p : Nat}
    (hflt : f.filter = some ⟨op, .addr a mask family⟩)
    (hmask : BitPrefix.IsMask (fun i => mask.getD i 0) (addrLen family) p)
    (hp : p ≤ addrBits family) (family' : Nat) (address : Ptr) :
    NetworkAnswer op (faAddr f family' address) (InNetwork family a p family' address) := by
  obtain ⟨ret, happly, hret⟩ : ∃ ret, faAddr f family' address =
      some (if op = .ne then !ret else ret) ∧
      (ret = true ↔ InNetwork family a p family' address) := by
    unfold faAddr
    rw [hflt]
    refine ⟨_, rfl, ?_⟩
    by_cases hfam : family' = family
    · subst hfam
      rw [if_neg (not_not.mpr rfl)]
      simp only [List.all_eq_true, List.mem_range, beq_iff_eq]
      rw [← addrLen, BitPrefix.masked_eq_iff (b := fun k => a.getD k 0) hmask hp]
      exact (and_iff_right rfl).symm
    · rw [if_pos hfam]
      exact ⟨by simp, fun h => absurd h.1 hfam⟩
  refine ⟨_, happly, ?_, ?_⟩
  · rintro rfl
    rw [if_neg (by decide)]
    exact hret
  · rintro rfl
    rw [if_pos rfl, ← hret]
    simp

/-! ## Filters that were typed -/

/-- The operand is an address with a prefix length of `p` bits, or one without and `p` is all of
its bits. -/
def TypedNetwork (t host : List UInt8) (family p : Nat) : Prop :=
  t = host ∧ p = addrBits family ∨
    ∃ q, t = host ++ 47 :: q ∧ AllDigits q ∧ p = decimal q ∧ p ≤ addrBits family

/-- What such an operand is split into. -/
theorem TypedNetwork.split {t host : List UInt8} {family p : Nat}
    (h : TypedNetwork t host family p) :
    ∃ mask, AddrSplit t host mask ∧
      BitPrefix.IsMask (fun i => mask.getD i 0) (addrLen family) p ∧ p ≤ addrBits family := by
  have hlen := addrLen_le family
  rcases h with ⟨rfl, rfl⟩ | ⟨q, rfl, hq, rfl, hle⟩
  · exact ⟨_, .whole rfl rfl, isMask_whole hlen, le_rfl⟩
  · exact ⟨_, .pfix q rfl hq (hle.trans (addrBits_le family)) rfl,
      isMask_prefixMask _ hlen, hle⟩

/-- An operand of address characters and blanks is part of a line. -/
theorem isLine_addr {bl w : List Key} {op : CmpOp} {t : List UInt8}
    (hbl : ∀ k ∈ bl, isBlank k = true) (hw : unblank w = textKeys t)
    (hchars : ∀ c ∈ t, isAddrChar c.toNat = true) : IsLine isNewline (bl ++ (op.keys ++ w)) := by
  refine isLine_op op hbl (isLine_unblank fun k hk => ?_)
  rw [hw] at hk
  obtain ⟨c, hc, rfl⟩ := List.mem_map.mp hk
  exact hchars c hc

/-- The filter that a typed network installs. -/
theorem installs_network {f : Field} {allocs : List Bool} {bl w rest : List Key} {nl : Key}
    {op : CmpOp} {t host mask a : List UInt8} {family : Nat} {flt : Filter}
    (hbl : ∀ k ∈ bl, isBlank k = true) (hop : op ∈ addrOps) (hw : unblank w = textKeys t)
    (hsplit : AddrSplit t host mask) (ha : inetPton family host = some a)
    (hnl : isNewline nl = true)
    (h : Installs .fpAddr f allocs (bl ++ (op.keys ++ w) ++ nl :: rest) flt) :
    flt = ⟨op, .addr a mask family⟩ := by
  obtain ⟨hread, -⟩ := (installs_addr (isLine_addr hbl hw (hsplit.chars ha)) hnl).mp h
  rw [addrReading_op rfl hbl hop] at hread
  obtain ⟨⟨-, hcap⟩, -, -⟩ := operandReading_new.mp hread
  have hlen : t.length ≤ bufSize := by
    have hle := hcap bufSize rfl
    rw [kept_addr, hw] at hle
    simpa [textKeys] using hle
  rw [operandReading_addr op hw hlen hsplit ha] at hread
  cases hread
  rfl

/-- **Address filters match networks**: `fa_src` and `fa_dst` answer for a filter that `fp_addr`
has installed, in any connection, whether its address is in the network that was typed. -/
theorem addrFilter_network (f : Field) (allocs : List Bool) (bl w rest : List Key) (nl : Key)
    (op : CmpOp) (t host a : List UInt8) (family p : Nat) (flt : Filter)
    (hbl : ∀ k ∈ bl, isBlank k = true) (hop : op ∈ addrOps) (hw : unblank w = textKeys t)
    (ht : TypedNetwork t host family p) (ha : inetPton family host = some a)
    (hnl : isNewline nl = true)
    (h : Installs .fpAddr f allocs (bl ++ (op.keys ++ w) ++ nl :: rest) flt) (ci : ConnInfo) :
    NetworkAnswer op (faSrc { f with filter := some flt } (ci.ptr ofConnInfo.r))
        (InNetwork family a p ci.family
          (ci.ptr (ofConnInfo.r + (ofInetDiagMsg.id + ofInetDiagSockid.idiagSrc)))) ∧
      NetworkAnswer op (faDst { f with filter := some flt } (ci.ptr ofConnInfo.r))
        (InNetwork family a p ci.family
          (ci.ptr (ofConnInfo.r + (ofInetDiagMsg.id + ofInetDiagSockid.idiagDst)))) := by
  obtain ⟨mask, hsplit, hmask, hp⟩ := ht.split
  have hflt := installs_network hbl hop hw hsplit ha hnl h
  have hptr : ∀ n, (ci.ptr ofConnInfo.r).add n = ci.ptr (ofConnInfo.r + n) := by
    intro n
    funext i
    exact congrArg ci.img (by omega)
  unfold faSrc faDst
  rw [hptr, hptr, hptr]
  exact ⟨faAddr_network (by rw [hflt]) hmask hp _ _, faAddr_network (by rw [hflt]) hmask hp _ _⟩

/-- An IPv4 connection from 10.200.0.0 to 10.72.0.0. -/
def ConnInfo.tenNet : ConnInfo :=
  let id := ofConnInfo.r + ofInetDiagMsg.id
  { img := fun i =>
      if i = ofConnInfo.r + ofInetDiagMsg.idiagFamily then 2
      else if i = id + ofInetDiagSockid.idiagSrc then 10
      else if i = id + (ofInetDiagSockid.idiagSrc + 1) then 200
      else if i = id + ofInetDiagSockid.idiagDst then 10
      else if i = id + (ofInetDiagSockid.idiagDst + 1) then 72
      else 0
    ext := 0 }

/-- A network of nine bits, and a connection whose addresses differ from it in the ninth bit or
behind it: `!=` rejects the one and accepts the other. -/
theorem addrFilter_network_nine :
    let f : Field := { tcpFields.getD 1 (heading "" 0) with
      filter := some ⟨.ne, .addr [10, 128, 0, 0] (prefixMask 9) AF_INET⟩ }
    let ci := ConnInfo.tenNet
    let id := ofConnInfo.r + ofInetDiagMsg.id
    faSrc f (ci.ptr ofConnInfo.r) = some false ∧ faDst f (ci.ptr ofConnInfo.r) = some true ∧
      InNetwork AF_INET [10, 128, 0, 0] 9 ci.family (ci.ptr (id + ofInetDiagSockid.idiagSrc)) ∧
      ¬ InNetwork AF_INET [10, 128, 0, 0] 9 ci.family
        (ci.ptr (id + ofInetDiagSockid.idiagDst)) := by
  intro f ci id
  have hsrc : faSrc f (ci.ptr ofConnInfo.r) = some false := by decide +kernel
  have hdst : faDst f (ci.ptr ofConnInfo.r) = some true := by decide +kernel
  obtain ⟨⟨r, hr, -, hin⟩, r', hr', -, hout⟩ :=
    addrFilter_network (tcpFields.getD 1 (heading "" 0)) [] [] (typing "10.128.0.0/9") []
      (key '\n') .ne (bytes "10.128.0.0/9") (bytes "10.128.0.0") [10, 128, 0, 0] AF_INET 9
      ⟨.ne, .addr [10, 128, 0, 0] (prefixMask 9) AF_INET⟩ (by simp) (by decide) (by decide +kernel)
      (Or.inr ⟨bytes "9", by decide +kernel, by decide +kernel, by decide +kernel,
        by decide +kernel⟩) (by decide +kernel) rfl
      ((installs_addr (by decide +kernel) rfl).mpr ⟨by decide +kernel, rfl⟩) ci
  obtain rfl : r = false := Option.some.inj (hr.symm.trans hsrc)
  obtain rfl : r' = true := Option.some.inj (hr'.symm.trans hdst)
  refine ⟨hsrc, hdst, ?_, (hout rfl).mp rfl⟩
  by_contra hno
  exact absurd ((hin rfl).mpr hno) (by decide)

end Sockmon

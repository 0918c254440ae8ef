import Sockmon.System.Netlink

set_option autoImplicit false

/-! # The attribute loop stays inside the message

`diag_dump` reads an `inet_diag_msg` and the attributes behind it, and keeps the bytes left in
an `unsigned int`. All it reads lies inside the message (`AttrsInside`) exactly if the message
is long enough for the `inet_diag_msg` and no accepted attribute, with its padding, is longer
than what is left (`attrsInside_iff`): neither is checked, and either way the count of the bytes
left wraps around.
-/

namespace Sockmon

/-! ## The messages handed to `diag_dump` -/

/-- `connections_dump` gives the message to `diag_dump`. -/
def HandsOn (mem : Ptr) (nlh : Nat) (sz : Int) : Prop :=
  nlmsgOk mem nlh sz = true ∧ nlmsgType mem nlh ≠ NLMSG_DONE ∧ nlmsgType mem nlh ≠ NLMSG_ERROR

/-- The walk over the datagram, as long as `diag_dump` reports no error, comes to the message at
`nlh` with `sz` bytes left. -/
inductive WalksTo (d : Datagram) : Nat → Int → Prop
  | start : WalksTo d 0 d.sz
  | next (nlh : Nat) (sz : Int) : WalksTo d nlh sz → HandsOn d.mem nlh sz →
      WalksTo d (nlh + align4 (nlmsgLen d.mem nlh)) (sz - align4 (nlmsgLen d.mem nlh))

theorem WalksTo.sz_eq {d : Datagram} {nlh : Nat} {sz : Int} (h : WalksTo d nlh sz) :
    nlh + sz = d.sz := by
  induction h with
  | start => simp
  | next nlh sz _ _ ih =>
      push_cast
      omega

/-- A message that is handed on lies inside the datagram. -/
theorem WalksTo.inside {d : Datagram} {nlh : Nat} {sz : Int} (h : WalksTo d nlh sz)
    (hon : HandsOn d.mem nlh sz) : nlh + nlmsgLen d.mem nlh ≤ d.sz := by
  have hsz := h.sz_eq
  have hok := hon.1
  simp only [nlmsgOk, Bool.and_eq_true, decide_eq_true_eq] at hok
  omega

/-! ## The property and its condition -/

/-- What `diag_dump` reads of the message at `nlh` lies inside it, and its loop ends in time. -/
structure AttrsInside (mem : Ptr) (nlh : Nat) (owner : Option SkOwner) : Prop where
  msg : NLMSG_HDRLEN + sizeofInetDiagMsg ≤ nlmsgLen mem nlh
  /-- However far the loop has come. -/
  headers : ∀ n, ∀ rta ∈ (diagAttrs mem nlh owner n).inspected,
    rta + RTA_HDRLEN ≤ nlh + nlmsgLen mem nlh
  ends : (diagAttrs mem nlh owner (nlmsgLen mem nlh / 4)).how ≠ .more

/-- Following the attributes at `rta`, of `len` bytes, one comes to `rta'` with `len'` left. -/
inductive AttrWalk (mem : Ptr) : Nat → Nat → Nat → Nat → Prop
  | here (rta len : Nat) : AttrWalk mem rta len rta len
  | next (rta len rta' len' : Nat) : rtaOk mem rta len = true → rtaType mem rta < INET_DIAG_MAX →
      align4 (rtaLen mem rta) ≤ len →
      AttrWalk mem (rta + align4 (rtaLen mem rta)) (len - align4 (rtaLen mem rta)) rta' len' →
      AttrWalk mem rta len rta' len'

/-- Every attribute that the walk from `rta` on accepts fits with its padding. -/
def PaddingFits (mem : Ptr) (rta len : Nat) : Prop :=
  ∀ rta' len', AttrWalk mem rta len rta' len' → rtaOk mem rta' len' = true →
    rtaType mem rta' < INET_DIAG_MAX → align4 (rtaLen mem rta') ≤ len'

/-- The message has room for an `inet_diag_msg` and for the padding of its attributes. -/
def MessageFits (mem : Ptr) (nlh : Nat) : Prop :=
  NLMSG_HDRLEN + sizeofInetDiagMsg ≤ nlmsgLen mem nlh ∧
    PaddingFits mem (nlh + NLMSG_HDRLEN + sizeofInetDiagMsg)
      (nlmsgLen mem nlh - (NLMSG_HDRLEN + sizeofInetDiagMsg))

/-! ## The loop -/

theorem rtaOk_iff {mem : Ptr} {rta len : Nat} : rtaOk mem rta len = true ↔
    RTA_HDRLEN ≤ len ∧ RTA_HDRLEN ≤ rtaLen mem rta ∧ rtaLen mem rta ≤ len := by
  simp only [rtaOk, Bool.and_eq_true, decide_eq_true_eq, and_assoc]

theorem align4_range (len : Nat) : len ≤ align4 len ∧ align4 len < len + 4 := by
  unfold align4
  omega

theorem u32sub_of_le {a b : Nat} (h : b ≤ a) (ha : a < 4294967296) : u32sub a b = a - b := by
  unfold u32sub
  omega

/-- Beyond zero the `unsigned int` is large. -/
theorem u32sub_of_lt {a b : Nat} (h : a < b) (hb : b ≤ a + 4294967292) : 4 ≤ u32sub a b := by
  unfold u32sub
  omega

section

variable {mem : Ptr} {rta len : Nat} {ci : ConnInfo} {ext : BitVec 32}

theorem PaddingFits.next (h : PaddingFits mem rta len) (hok : rtaOk mem rta len = true)
    (htype : rtaType mem rta < INET_DIAG_MAX) : align4 (rtaLen mem rta) ≤ len ∧
      PaddingFits mem (rta + align4 (rtaLen mem rta)) (len - align4 (rtaLen mem rta)) := by
  have hle : align4 (rtaLen mem rta) ≤ len := h rta len (.here rta len) hok htype
  refine ⟨hle, fun rta' len' hwalk => ?_⟩
  exact h rta' len' (.next rta len rta' len' hok htype hle hwalk)

/-! The four ways a round of the loop goes. -/

theorem rtaLoop_stop (n : Nat) (hok : rtaOk mem rta len = false) :
    rtaLoop mem n rta len ci ext = ⟨.done, ci, ext, if RTA_HDRLEN ≤ len then [rta] else []⟩ := by
  cases n with
  | zero =>
      rw [rtaLoop, hok]
      rfl
  | succ n =>
      rw [rtaLoop, hok]
      rfl

/-- A loop that stops at once has looked at a header among the bytes left, or at none. -/
theorem rtaLoop_stop_inside (n : Nat) (ci : ConnInfo) (ext : BitVec 32)
    (hok : rtaOk mem rta len = false) :
    (∀ a ∈ (rtaLoop mem n rta len ci ext).inspected, a + RTA_HDRLEN ≤ rta + len) ∧
      (rtaLoop mem n rta len ci ext).how ≠ .more := by
  rw [rtaLoop_stop n hok]
  refine ⟨fun a ha => ?_, nofun⟩
  obtain ⟨hlen, rfl⟩ : RTA_HDRLEN ≤ len ∧ a = rta := by simpa using ha
  omega

theorem rtaLoop_more (hok : rtaOk mem rta len = true) :
    rtaLoop mem 0 rta len ci ext = ⟨.more, ci, ext, [rta]⟩ := by
  rw [rtaLoop, hok, if_pos (rtaOk_iff.mp hok).1]
  rfl

theorem rtaLoop_unsupported (n : Nat) (hok : rtaOk mem rta len = true)
    (htype : INET_DIAG_MAX ≤ rtaType mem rta) :
    rtaLoop mem (n + 1) rta len ci ext =
      ⟨.unsupported (rtaType mem rta), ci, ext, [rta]⟩ := by
  rw [rtaLoop, hok, if_pos (rtaOk_iff.mp hok).1]
  dsimp only
  rw [if_neg (by decide), if_pos htype]

theorem rtaLoop_next (n : Nat) (hok : rtaOk mem rta len = true)
    (htype : rtaType mem rta < INET_DIAG_MAX) :
    rtaLoop mem (n + 1) rta len ci ext =
      let r := rtaLoop mem n (rta + align4 (rtaLen mem rta)) (u32sub len (align4 (rtaLen mem rta)))
        (copyAttr (rtaType mem rta) ci (mem.add (rta + RTA_HDRLEN))) (ext ||| bit (rtaType mem rta))
      { r with inspected := rta :: r.inspected } := by
  rw [rtaLoop, hok, if_pos (rtaOk_iff.mp hok).1]
  dsimp only
  rw [if_neg (by decide), if_neg (by omega)]
  rfl

/-- **If the padding fits** the loop reads headers among the `len` bytes only, and ends after
`len / 4` attributes. -/
theorem rtaLoop_inside (n : Nat) (ci : ConnInfo) (ext : BitVec 32)
    (hfits : PaddingFits mem rta len) (hlen : len < 4294967296) :
    (∀ a ∈ (rtaLoop mem n rta len ci ext).inspected, a + RTA_HDRLEN ≤ rta + len) ∧
      (len / 4 ≤ n → (rtaLoop mem n rta len ci ext).how ≠ .more) := by
  induction n generalizing rta len ci ext with
  | zero =>
      cases hok : rtaOk mem rta len with
      | false =>
          have hstop := rtaLoop_stop_inside 0 ci ext hok
          exact ⟨hstop.1, fun _ => hstop.2⟩
      | true =>
          -- Four bytes are left, so `0` rounds were too few.
          have hlen4 : RTA_HDRLEN ≤ len := (rtaOk_iff.mp hok).1
          rw [rtaLoop_more hok]
          refine ⟨fun a ha => ?_, fun hn => ?_⟩
          · rw [List.mem_singleton.mp ha]
            omega
          · unfold RTA_HDRLEN at hlen4
            omega
  | succ n ih =>
      cases hok : rtaOk mem rta len with
      | false =>
          have hstop := rtaLoop_stop_inside (n + 1) ci ext hok
          exact ⟨hstop.1, fun _ => hstop.2⟩
      | true =>
          obtain ⟨hlen4, hrta4, -⟩ := rtaOk_iff.mp hok
          by_cases htype : INET_DIAG_MAX ≤ rtaType mem rta
          · rw [rtaLoop_unsupported n hok htype]
            refine ⟨fun a ha => ?_, fun _ => nofun⟩
            rw [List.mem_singleton.mp ha]
            omega
          · obtain ⟨hle, hnext⟩ := hfits.next hok (by omega)
            have hstep := (align4_range (rtaLen mem rta)).1
            -- The bytes left get fewer by at least the four of the header.
            obtain ⟨hheaders, hends⟩ :=
              ih (copyAttr (rtaType mem rta) ci (mem.add (rta + RTA_HDRLEN)))
                (ext ||| bit (rtaType mem rta)) hnext (by omega)
            rw [rtaLoop_next n hok (by omega), u32sub_of_le hle hlen]
            refine ⟨fun a ha => ?_, fun hn => hends ?_⟩
            · rcases List.mem_cons.mp ha with rfl | ha
              · omega
              · calc a + RTA_HDRLEN ≤ rta + align4 (rtaLen mem rta) +
                      (len - align4 (rtaLen mem rta)) := hheaders a ha
                  _ = rta + len := by omega
            · unfold RTA_HDRLEN at hrta4
              omega

/-- **If some padding does not fit** the loop reads a header that is not all among the `len`
bytes. -/
theorem rtaLoop_outside {rta' len' : Nat} (ci : ConnInfo) (ext : BitVec 32)
    (hwalk : AttrWalk mem rta len rta' len') (hlen : len < 4294967296)
    (hok : rtaOk mem rta' len' = true)
    (htype : rtaType mem rta' < INET_DIAG_MAX) (hlt : len' < align4 (rtaLen mem rta')) :
    ∃ n, ∃ a ∈ (rtaLoop mem n rta len ci ext).inspected, rta + len < a + RTA_HDRLEN := by
  induction hwalk generalizing ci ext with
  | here rta len =>
      have hle : rtaLen mem rta ≤ len := (rtaOk_iff.mp hok).2.2
      have hround := (align4_range (rtaLen mem rta)).2
      have hleft : RTA_HDRLEN ≤ u32sub len (align4 (rtaLen mem rta)) :=
        u32sub_of_lt hlt (by omega)
      refine ⟨1, rta + align4 (rtaLen mem rta), ?_, by omega⟩
      rw [rtaLoop_next 0 hok htype]
      refine List.mem_cons_of_mem _ ?_
      rw [rtaLoop, if_pos hleft]
      split <;> exact List.mem_singleton_self _
  | next rta len rta' len' hok' htype' hle _ ih =>
      obtain ⟨n, a, ha, hout⟩ := ih (copyAttr (rtaType mem rta) ci (mem.add (rta + RTA_HDRLEN)))
        (ext ||| bit (rtaType mem rta)) (by omega) hok htype hlt
      refine ⟨n + 1, a, ?_, by omega⟩
      rw [rtaLoop_next n hok' htype', u32sub_of_le hle hlen]
      exact List.mem_cons_of_mem _ ha

end

/-! ## The message -/

theorem nlmsgLen_lt (mem : Ptr) (nlh : Nat) : nlmsgLen mem nlh < 4294967296 := by
  have h16 : ∀ p : Ptr, rdU16 p < 65536 := by
    intro p
    have h0 := (p 0).toNat_lt
    have h1 := (p 1).toNat_lt
    unfold rdU16
    omega
  have hlow := h16 (mem.add nlh)
  have hhigh := h16 ((mem.add nlh).add 2)
  unfold nlmsgLen rdU32
  omega

/-- The loop of a message that is long enough. -/
theorem diagAttrs_eq {mem : Ptr} {nlh : Nat} (owner : Option SkOwner)
    (hlen : NLMSG_HDRLEN + sizeofInetDiagMsg ≤ nlmsgLen mem nlh) (n : Nat) :
    diagAttrs mem nlh owner n = rtaLoop mem n (nlh + NLMSG_HDRLEN + sizeofInetDiagMsg)
      (nlmsgLen mem nlh - (NLMSG_HDRLEN + sizeofInetDiagMsg))
      (diagStart owner (mem.add (nlh + NLMSG_HDRLEN))).1
      (diagStart owner (mem.add (nlh + NLMSG_HDRLEN))).2 := by
  unfold diagAttrs
  dsimp only
  rw [u32sub_of_le hlen (nlmsgLen_lt mem nlh)]

/-- What the loop reads of a message that fits, and that it ends. -/
theorem MessageFits.inside {mem : Ptr} {nlh : Nat} (h : MessageFits mem nlh)
    (owner : Option SkOwner) (n : Nat) :
    (∀ rta ∈ (diagAttrs mem nlh owner n).inspected,
      rta + RTA_HDRLEN ≤ nlh + nlmsgLen mem nlh) ∧
    (nlmsgLen mem nlh / 4 ≤ n → (diagAttrs mem nlh owner n).how ≠ .more) := by
  obtain ⟨hmsg, hfits⟩ := h
  have hlen := nlmsgLen_lt mem nlh
  obtain ⟨hheaders, hends⟩ := rtaLoop_inside n (diagStart owner (mem.add (nlh + NLMSG_HDRLEN))).1
    (diagStart owner (mem.add (nlh + NLMSG_HDRLEN))).2 hfits (by omega)
  rw [diagAttrs_eq owner hmsg]
  refine ⟨fun rta hrta => ?_, fun hn => hends (by omega)⟩
  calc rta + RTA_HDRLEN ≤ nlh + NLMSG_HDRLEN + sizeofInetDiagMsg +
        (nlmsgLen mem nlh - (NLMSG_HDRLEN + sizeofInetDiagMsg)) := hheaders rta hrta
    _ = nlh + nlmsgLen mem nlh := by omega

/-- **What `diag_dump` reads lies inside the message** exactly if the message has room for an
`inet_diag_msg` and for the padding of its attributes. -/
theorem attrsInside_iff (d : Datagram) (nlh : Nat) (sz : Int) (owner : Option SkOwner)
    (hwalk : WalksTo d nlh sz) (hon : HandsOn d.mem nlh sz) :
    nlh + nlmsgLen d.mem nlh ≤ d.sz ∧
      (AttrsInside d.mem nlh owner ↔ MessageFits d.mem nlh) := by
  refine ⟨hwalk.inside hon, ?_, ?_⟩
  · rintro ⟨hmsg, hheaders, -⟩
    have hlen := nlmsgLen_lt d.mem nlh
    refine ⟨hmsg, fun rta' len' hattr hok htype => ?_⟩
    by_contra hlt
    obtain ⟨n, a, ha, hout⟩ :=
      rtaLoop_outside (diagStart owner (d.mem.add (nlh + NLMSG_HDRLEN))).1
        (diagStart owner (d.mem.add (nlh + NLMSG_HDRLEN))).2 hattr (by omega) hok htype (by omega)
    rw [← diagAttrs_eq owner hmsg] at ha
    have := hheaders n a ha
    omega
  · intro hfits
    exact ⟨hfits.1, fun n => (hfits.inside owner n).1, (hfits.inside owner _).2 (le_refl _)⟩

/-- A message of 93 bytes: an `inet_diag_msg` of zeros and one attribute, whose five bytes end
the message, in a datagram of 96. -/
def Datagram.oneByte : Datagram where
  sz := 96
  mem := fun i =>
    if i = 0 then 93 else if i = 4 then 20 else if i = 88 then 5 else if i = 90 then 8 else 0
  reach := 24
  sz_le := by decide
  reach_ge := by decide

/-- Behind that attribute the loop goes on: it reads the header at 96. -/
theorem oneByte_outside : ¬ ∀ (d : Datagram) (nlh : Nat) (sz : Int) (owner : Option SkOwner),
    WalksTo d nlh sz → HandsOn d.mem nlh sz → AttrsInside d.mem nlh owner := by
  intro h
  have hinside := h Datagram.oneByte 0 96 none .start (by unfold HandsOn; decide +kernel)
  have hread : 96 ∈ (diagAttrs Datagram.oneByte.mem 0 none 1).inspected := by decide +kernel
  have hbound := hinside.headers 1 96 hread
  revert hbound
  decide +kernel

/-- The same message with the padding counted in its length. -/
def Datagram.padded : Datagram where
  sz := 96
  mem := fun i =>
    if i = 0 then 96 else if i = 4 then 20 else if i = 88 then 5 else if i = 90 then 8 else 0
  reach := 24
  sz_le := by decide
  reach_ge := by decide

theorem attrsInside_padded :
    0 + nlmsgLen Datagram.padded.mem 0 ≤ 96 ∧
      (AttrsInside Datagram.padded.mem 0 none ↔ MessageFits Datagram.padded.mem 0) :=
  attrsInside_iff Datagram.padded 0 96 none .start (by unfold HandsOn; decide +kernel)

end Sockmon

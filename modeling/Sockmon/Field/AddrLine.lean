import Sockmon.Field.AddrText

set_option autoImplicit false

/-! # The lines that `fp_addr` accepts

An operator, an address and perhaps the length of a prefix, with blanks anywhere, would be what
one expects (`AddrLine`). `fp_addr` also takes an empty length, and one of up to 128 bits whatever
the family, does not look for blanks inside `!=`, has room for 80 characters, and does not
complain of an operator without an address (`addrLine_iff`).
-/

namespace Sockmon

open LineScan

/-- The number of bits of an address. -/
def addrBits (family : Nat) : Nat := 8 * addrLen family

/-- The line without its blanks. -/
def unblank (line : List Key) : List Key := line.filter fun k => !isBlank k

/-- An address, or an address, a slash and a decimal number of at most the bits it has. -/
def AddrText (t : List UInt8) : Prop :=
  ∃ host family a, inetPton family host = some a ∧
    (t = host ∨ ∃ p, t = host ++ 47 :: p ∧ p ≠ [] ∧ AllDigits p ∧ decimal p ≤ addrBits family)

/-- Without its blanks the line is `=` or `!=` and such a text. -/
def AddrLine (line : List Key) : Prop :=
  ∃ op ∈ addrOps, ∃ t, unblank line = op.keys ++ textKeys t ∧ AddrText t

/-- `fp_addr` installs a filter for such a line and rejects any other. -/
structure KeepsAddr (f : Field) (line : List Key) : Prop where
  /-- A filter is installed exactly for such a line, if there is memory for it. -/
  installs : ∀ allocs nl rest, isNewline nl = true →
    ((∃ flt, Installs .fpAddr f allocs (line ++ nl :: rest) flt) ↔
      AddrLine line ∧ allocs.getD 0 true = true)
  /-- Any other line that is not blank is an error. -/
  rejects : ∀ allocs nl rest r, isNewline nl = true → ¬ AddrLine line →
    (∃ k ∈ line, isBlank k = false) →
    fpAddr f allocs (line ++ nl :: rest) = some r → r.err = true

/-- The lines that `fp_addr` treats so. -/
structure PlainAddrLine (line : List Key) : Prop where
  /-- There is no blank inside the operator of such a line. -/
  together : ∀ bl bl' w t, line = bl ++ key '!' :: (bl' ++ key '=' :: w) →
    (∀ k ∈ bl, isBlank k = true) → (∀ k ∈ bl', isBlank k = true) →
    unblank w = textKeys t → AddrText t → bl' = []
  /-- There is something behind an operator. -/
  given : ∀ bl op w, line = bl ++ (op.keys ++ w) → (∀ k ∈ bl, isBlank k = true) →
    op ∈ addrOps → ∃ k ∈ w, isBlank k = false
  /-- The address and the length have room in the buffer. -/
  short : ∀ bl op w t, line = bl ++ (op.keys ++ w) → (∀ k ∈ bl, isBlank k = true) →
    op ∈ addrOps → unblank w = textKeys t → AddrText t → t.length ≤ bufSize
  /-- Behind the slash of an address stands a number, which is not above the bits the address has
  if it is at most 128. -/
  pfix : ∀ bl op w host p family a, line = bl ++ (op.keys ++ w) →
    (∀ k ∈ bl, isBlank k = true) → op ∈ addrOps →
    unblank w = textKeys (host ++ 47 :: p) → (host ++ 47 :: p).length ≤ bufSize →
    inetPton family host = some a → AllDigits p → decimal p ≤ 128 →
    p ≠ [] ∧ decimal p ≤ addrBits family

/-! ## The operand -/

theorem isAddrChar_of_inet {c : UInt8} (h : isInetChar c = true) : isAddrChar c.toNat = true := by
  have hcolon : c = 58 → ((c.toNat : Key) == key ':') = true := by
    rintro rfl
    rfl
  have hdot : c = 46 → ((c.toNat : Key) == key '.') = true := by
    rintro rfl
    rfl
  unfold isInetChar at h
  unfold isAddrChar
  simp only [Bool.or_eq_true, beq_iff_eq] at h
  rcases h with (hx | hc) | hd
  · rw [hx]
    rfl
  · rw [hcolon hc]
    simp
  · rw [hdot hd]
    simp

/-- An address, with or without digits behind a slash, consists of characters that are stored. -/
theorem AddrSplit.chars {t host mask a : List UInt8} {family : Nat} (h : AddrSplit t host mask)
    (ha : inetPton family host = some a) : ∀ c ∈ t, isAddrChar c.toNat = true := by
  have hhost : ∀ c ∈ host, isAddrChar c.toNat = true :=
    fun c hc => isAddrChar_of_inet ((inetPton_spec ha).2.1 c hc)
  cases h with
  | whole h hmask => rwa [h]
  | pfix p h hp hle hmask =>
      rw [h, List.forall_mem_append, List.forall_mem_cons]
      refine ⟨hhost, by decide, fun c hc => ?_⟩
      simp [isAddrChar, isxdigit, hp c hc]

theorem addrLen_le (family : Nat) : addrLen family ≤ 16 := by
  unfold addrLen
  split_ifs <;> omega

theorem addrBits_le (family : Nat) : addrBits family ≤ 128 := by
  have hlen := addrLen_le family
  unfold addrBits
  omega

/-- The text of an address is split where it should be. -/
theorem AddrText.split {t : List UInt8} (h : AddrText t) :
    ∃ host mask family a, AddrSplit t host mask ∧ inetPton family host = some a := by
  obtain ⟨host, family, a, ha, htext⟩ := h
  rcases htext with rfl | ⟨p, rfl, -, hp, hle⟩
  · exact ⟨t, _, family, a, .whole rfl rfl, ha⟩
  · exact ⟨host, _, family, a, .pfix p rfl hp (hle.trans (addrBits_le family)) rfl, ha⟩

section

variable {line w : List Key} {bl : List Key} {op : CmpOp}

theorem kept_addr (w : List Key) : addrReader.kept w = unblank w := rfl

/-- Characters of an address and blanks are part of a line. -/
theorem isLine_unblank (h : ∀ k ∈ unblank w, isAddrChar k = true) : IsLine isNewline w := by
  have hkind : isAddrChar 10 = false ∧ isAddrChar 13 = false := by decide
  refine isLine_of_kind hkind fun k hk => ?_
  cases hb : isBlank k with
  | true => exact Or.inl rfl
  | false => exact Or.inr (h k (List.mem_filter.mpr ⟨hk, by rw [hb]; rfl⟩))

theorem unblank_blanks (h : ∀ k ∈ bl, isBlank k = true) : unblank (bl ++ w) = unblank w := by
  unfold unblank
  rw [List.filter_append, List.filter_eq_nil_iff.mpr (by simpa using h), List.nil_append]

theorem unblank_cons {k : Key} (h : isBlank k = false) : unblank (k :: w) = k :: unblank w :=
  List.filter_cons_of_pos (by simp [h])

theorem unblank_op (hop : op ∈ addrOps) : unblank (op.keys ++ w) = op.keys ++ unblank w := by
  rcases mem_addrOps.mp hop with rfl | rfl
  · exact (unblank_cons rfl).trans (congrArg _ (unblank_cons rfl))
  · exact unblank_cons rfl

/-- Taking an operand and reading it as an address. -/
theorem operandReading_addr (op : CmpOp) {t : List UInt8} {host mask a : List UInt8} {family : Nat}
    (hw : unblank w = textKeys t) (hlen : t.length ≤ bufSize) (hsplit : AddrSplit t host mask)
    (ha : inetPton family host = some a) :
    operandReading addrReader
      (fun ks => (parseAddr (ks.map keyByte)).map fun arg => ⟨op, arg⟩) w =
        .new ⟨op, .addr a mask family⟩ := by
  have hchars := hsplit.chars ha
  have hne : t ≠ [] := by
    rintro rfl
    cases hsplit with
    | whole h hmask => exact inetPton_ne_nil ha h.symm
    | pfix p h hp hle hmask => simp at h
  refine operandReading_new.mpr ⟨⟨?_, ?_⟩, ?_, ?_⟩
  · rw [kept_addr, hw]
    intro k hk
    obtain ⟨c, hc, rfl⟩ := List.mem_map.mp hk
    exact hchars c hc
  · rintro n ⟨⟩
    rw [kept_addr, hw]
    simpa [textKeys] using hlen
  · rw [kept_addr, hw]
    simpa [textKeys] using hne
  · rw [kept_addr, hw, map_keyByte_textKeys,
      (parseAddr_some_iff hchars).mpr ⟨host, mask, family, a, hsplit, ha, rfl⟩]
    rfl

/-- What is read as a filter is an address, with or without digits behind a slash. -/
theorem operandReading_addr_inv {flt : Filter}
    (h : operandReading addrReader
      (fun ks => (parseAddr (ks.map keyByte)).map fun arg => ⟨op, arg⟩) w = .new flt) :
    ∃ t host mask family a, unblank w = textKeys t ∧ t.length ≤ bufSize ∧
      AddrSplit t host mask ∧ inetPton family host = some a ∧
      flt = ⟨op, .addr a mask family⟩ := by
  obtain ⟨⟨hok, hcap⟩, -, hmake⟩ := operandReading_new.mp h
  rw [kept_addr] at hok hcap hmake
  have hkeys : textKeys ((unblank w).map keyByte) = unblank w := by
    refine textKeys_map_keyByte fun k hk => ?_
    have hrange := addrChar_range (hok k hk)
    exact ⟨le_trans (by decide) hrange.1, lt_of_le_of_lt hrange.2 (by decide)⟩
  obtain ⟨arg, hparse, rfl⟩ := Option.map_eq_some_iff.mp hmake
  have hchars : ∀ c ∈ (unblank w).map keyByte, isAddrChar c.toNat = true := by
    intro c hc
    have hmem : (c.toNat : Key) ∈ textKeys ((unblank w).map keyByte) :=
      List.mem_map.mpr ⟨c, hc, rfl⟩
    rw [hkeys] at hmem
    exact hok _ hmem
  obtain ⟨host, mask, family, a, hsplit, ha, rfl⟩ := (parseAddr_some_iff hchars).mp hparse
  refine ⟨_, host, mask, family, a, hkeys.symm, ?_, hsplit, ha, rfl⟩
  simpa using hcap bufSize rfl

/-- An operator is read as it stands. -/
theorem readOp_addr (hop : op ∈ addrOps) : readOp addrOps (op.keys ++ w) = some (op, w) := by
  rcases mem_addrOps.mp hop with rfl | rfl <;>
    simp [readOp, addrOps, CmpOp.keys, key, List.isPrefixOf]

theorem noBlank_addr (hop : op ∈ addrOps) : NoBlank (op.keys ++ w) := by
  rcases mem_addrOps.mp hop with rfl | rfl
  · rintro c ⟨⟩
    rfl
  · rintro c ⟨⟩
    rfl

/-- The reading of an operator and an operand. -/
theorem addrReading_op (hl : line = bl ++ (op.keys ++ w)) (hbl : ∀ k ∈ bl, isBlank k = true)
    (hop : op ∈ addrOps) :
    addrReading line = operandReading addrReader
      (fun ks => (parseAddr (ks.map keyByte)).map fun arg => ⟨op, arg⟩) w := by
  rw [hl]
  exact lineReading_of_split hbl (noBlank_addr hop) (readOp_addr hop)

/-- A line that is read as more than blanks or an error is an operator and an operand. -/
theorem addrReading_split {a : Reading} (h : addrReading line = a) (hblank : a ≠ .blank)
    (hbad : a ≠ .bad) :
    ∃ bl op w, line = bl ++ (op.keys ++ w) ∧ (∀ k ∈ bl, isBlank k = true) ∧ op ∈ addrOps ∧
      operandReading addrReader
        (fun ks => (parseAddr (ks.map keyByte)).map fun arg => ⟨op, arg⟩) w = a := by
  rw [← h] at hblank hbad
  obtain ⟨bl, op, w, hl, hbl, hop, -, -⟩ := lineReading_split hblank hbad
  exact ⟨bl, op, w, hl, hbl, hop, (addrReading_op hl hbl hop).symm.trans h⟩

end

/-! ## Such lines -/

section

variable {f : Field} {line : List Key}

theorem unblank_eq_cons {k : Key} {ks : List Key} (h : unblank line = k :: ks) :
    ∃ bl w, line = bl ++ k :: w ∧ (∀ k ∈ bl, isBlank k = true) ∧ unblank w = ks := by
  obtain ⟨bl, w, hl, hbl, -, hw⟩ := List.filter_eq_cons_iff.mp h
  exact ⟨bl, w, hl, by simpa using hbl, hw⟩

/-- Such a line is an operator and the text of an address, perhaps with blanks inside `!=`. -/
theorem AddrLine.split (h : AddrLine line) :
    ∃ bl t, (∀ k ∈ bl, isBlank k = true) ∧ AddrText t ∧
      ((∃ w, line = bl ++ (CmpOp.eq.keys ++ w) ∧ unblank w = textKeys t) ∨
        ∃ bl' w, line = bl ++ key '!' :: (bl' ++ key '=' :: w) ∧
          (∀ k ∈ bl', isBlank k = true) ∧ unblank w = textKeys t) := by
  obtain ⟨op, hop, t, hl, htext⟩ := h
  rcases mem_addrOps.mp hop with rfl | rfl
  · obtain ⟨bl, w, hl, hbl, hw⟩ := unblank_eq_cons hl
    obtain ⟨bl', w', rfl, hbl', hw'⟩ := unblank_eq_cons hw
    exact ⟨bl, t, hbl, htext, Or.inr ⟨bl', w', hl, hbl', hw'⟩⟩
  · obtain ⟨bl, w, hl, hbl, hw⟩ := unblank_eq_cons hl
    exact ⟨bl, t, hbl, htext, Or.inl ⟨w, hl, hw⟩⟩

/-- An operator and the text of an address are such a line. -/
theorem AddrLine.of_op {bl w : List Key} {op : CmpOp} {t : List UInt8}
    (hl : line = bl ++ (op.keys ++ w)) (hbl : ∀ k ∈ bl, isBlank k = true) (hop : op ∈ addrOps)
    (hw : unblank w = textKeys t) (ht : AddrText t) : AddrLine line :=
  ⟨op, hop, t, by rw [hl, unblank_blanks hbl, unblank_op hop, hw], ht⟩

section

variable (h : PlainAddrLine line)

include h

theorem PlainAddrLine.new_of_addrLine (hadv : AddrLine line) :
    ∃ flt, addrReading line = .new flt := by
  obtain ⟨bl, t, hbl, htext, hcase⟩ := hadv.split
  obtain ⟨op, w, hop, hl, hw⟩ : ∃ op w, op ∈ addrOps ∧ line = bl ++ (op.keys ++ w) ∧
      unblank w = textKeys t := by
    rcases hcase with ⟨w, hl, hw⟩ | ⟨bl', w, hl, hbl', hw⟩
    · exact ⟨.eq, w, by decide, hl, hw⟩
    · have hnil := h.together bl bl' w t hl hbl hbl' hw htext
      rw [hnil] at hl
      exact ⟨.ne, w, by decide, hl, hw⟩
  obtain ⟨host, mask, family, a, hsplit, ha⟩ := htext.split
  have hlen := h.short bl op w t hl hbl hop hw htext
  exact ⟨_, (addrReading_op hl hbl hop).trans (operandReading_addr op hw hlen hsplit ha)⟩

theorem PlainAddrLine.addrLine_of_new {flt : Filter} (hread : addrReading line = .new flt) :
    AddrLine line := by
  obtain ⟨bl, op, w, hl, hbl, hop, hnew⟩ := addrReading_split hread (by simp) (by simp)
  obtain ⟨t, host, mask, family, a, hw, hlen, hsplit, ha, -⟩ := operandReading_addr_inv hnew
  refine AddrLine.of_op hl hbl hop hw ⟨host, family, a, ha, ?_⟩
  cases hsplit with
  | whole ht hmask => exact Or.inl ht
  | pfix p ht hp hle hmask =>
      rw [ht] at hw hlen
      obtain ⟨hne, hbits⟩ := h.pfix bl op w host p family a hl hbl hop hw hlen ha hp hle
      exact Or.inr ⟨p, ht, hne, hp, hbits⟩

theorem PlainAddrLine.not_bare : addrReading line ≠ .bare := by
  intro hread
  obtain ⟨bl, op, w, hl, hbl, hop, hbare⟩ := addrReading_split hread (by simp) (by simp)
  obtain ⟨-, hk⟩ := operandReading_bare.mp hbare
  obtain ⟨k, hkw, hnb⟩ := h.given bl op w hl hbl hop
  exact absurd hk (List.ne_nil_of_mem (List.mem_filter.mpr ⟨hkw, by simpa [addrReader] using hnb⟩))

end

theorem KeepsAddr.of_plain (hline : IsLine isNewline line) (h : PlainAddrLine line) :
    KeepsAddr f line where
  installs allocs nl rest hnl := by
    constructor
    · rintro ⟨flt, hinst⟩
      obtain ⟨hread, hmem⟩ := (installs_addr hline hnl).mp hinst
      exact ⟨h.addrLine_of_new hread, hmem⟩
    · rintro ⟨hadv, hmem⟩
      obtain ⟨flt, hread⟩ := h.new_of_addrLine hadv
      exact ⟨flt, (installs_addr hline hnl).mpr ⟨hread, hmem⟩⟩
  rejects allocs nl rest r hnl hadv hkey hr := by
    rw [fpAddr_line hline hnl] at hr
    cases hr
    cases hread : addrReading line with
    | bad => rfl
    | bare => exact absurd hread h.not_bare
    | new flt => exact absurd (h.addrLine_of_new hread) hadv
    | blank =>
        obtain ⟨k, hk, hnb⟩ := hkey
        have hall := blank_of_lineReading hread k hk
        rw [hnb] at hall
        cases hall

/-- The blanks in front of a line are determined. -/
theorem blanks_unique {bl bl' w w' : List Key} (hbl : ∀ k ∈ bl, isBlank k = true)
    (hbl' : ∀ k ∈ bl', isBlank k = true) (hw : NoBlank w) (hw' : NoBlank w')
    (h : bl ++ w = bl' ++ w') : w = w' := by
  rw [← dropWhile_blanks hbl hw, h, dropWhile_blanks hbl' hw']

/-- A line has one operator and one text behind it. -/
theorem addrLine_unique {op op' : CmpOp} {t t' : List UInt8} (hop : op ∈ addrOps)
    (hop' : op' ∈ addrOps) (h : op.keys ++ textKeys t = op'.keys ++ textKeys t') : t = t' := by
  rcases mem_addrOps.mp hop with rfl | rfl <;> rcases mem_addrOps.mp hop' with rfl | rfl
  · exact textKeys_injective (List.append_cancel_left h)
  · exact absurd (List.cons_eq_cons.mp h).1 (by decide)
  · exact absurd (List.cons_eq_cons.mp h).1 (by decide)
  · exact textKeys_injective (List.append_cancel_left h)

/-- What stands around the last slash in the text of an address. -/
theorem AddrText.pfix_inv {host p a : List UInt8} {family : Nat}
    (h : AddrText (host ++ 47 :: p)) (ha : inetPton family host = some a) (hp : AllDigits p) :
    p ≠ [] ∧ decimal p ≤ addrBits family := by
  obtain ⟨host', family', a', ha', htext⟩ := h
  rcases htext with hwhole | ⟨p', heq, hne, hp', hbits⟩
  · exact absurd (by rw [← hwhole]; simp) (slash_not_host ha')
  · have hsplit : splitSlash (host ++ 47 :: p) = some (host, p) :=
      splitSlash_append (slash_not_digits hp)
    rw [heq, splitSlash_append (slash_not_digits hp')] at hsplit
    cases hsplit
    by_cases hfam : family' = family
    · rw [← hfam]
      exact ⟨hne, hbits⟩
    · rw [inetPton_family ha hfam] at ha'
      cases ha'

section

variable (hline : IsLine isNewline line) (h : KeepsAddr f line)

include hline

theorem installs_iff_newAddr (flt : Filter) :
    Installs .fpAddr f [] (line ++ key '\n' :: []) flt ↔ addrReading line = .new flt := by
  rw [installs_addr hline rfl]
  exact and_iff_left rfl

include h

theorem KeepsAddr.new_iff : (∃ flt, addrReading line = .new flt) ↔ AddrLine line := by
  rw [← and_iff_left (a := AddrLine line) (b := ([] : List Bool).getD 0 true = true) rfl,
    ← h.installs [] (key '\n') [] rfl]
  exact exists_congr fun flt => (installs_iff_newAddr hline flt).symm

/-- An operator with nothing behind it is no error, so it would have to install a filter. -/
theorem KeepsAddr.not_bare (hkey : ∃ k ∈ line, isBlank k = false) :
    addrReading line ≠ .bare := by
  intro hbare
  have hadv : ¬ AddrLine line := by
    rw [← h.new_iff hline]
    rintro ⟨flt, hread⟩
    rw [hbare] at hread
    cases hread
  have herr := h.rejects [] (key '\n') [] _ rfl hadv hkey (fpAddr_line hline rfl)
  rw [hbare] at herr
  cases herr

theorem KeepsAddr.plain : PlainAddrLine line where
  together bl bl' w t hl hbl hbl' hw ht := by
    have hun : unblank line = CmpOp.ne.keys ++ textKeys t := by
      rw [hl, unblank_blanks hbl, unblank_cons rfl, unblank_blanks hbl', unblank_cons rfl, hw]
      rfl
    obtain ⟨flt, hread⟩ := (h.new_iff hline).mpr ⟨.ne, by decide, t, hun, ht⟩
    obtain ⟨bl₂, op, w₂, hl₂, hbl₂, hop, -⟩ := addrReading_split hread (by simp) (by simp)
    have hbang : NoBlank (key '!' :: (bl' ++ key '=' :: w)) := by
      rintro c ⟨⟩
      rfl
    -- What is read as the operator is `!=`, so `!` and `=` stand together.
    have heq := blanks_unique hbl hbl₂ hbang (noBlank_addr hop) (hl.symm.trans hl₂)
    rcases mem_addrOps.mp hop with rfl | rfl
    · cases bl' with
      | nil => rfl
      | cons b bl' =>
          have hb := hbl' b List.mem_cons_self
          have hbeq : b = key '=' := (List.cons_eq_cons.mp (List.cons_eq_cons.mp heq).2).1
          rw [hbeq] at hb
          cases hb
    · exact absurd (List.cons_eq_cons.mp heq).1 (by decide)
  given bl op w hl hbl hop := by
    by_contra hblank
    have hw : unblank w = [] := by
      refine List.filter_eq_nil_iff.mpr fun k hk => ?_
      have hb : isBlank k ≠ false := fun hb => hblank ⟨k, hk, hb⟩
      simpa using hb
    -- Such a line is read as a bare operator, which is no error.
    have hbare : addrReading line = .bare := by
      rw [addrReading_op hl hbl hop]
      refine operandReading_bare.mpr ⟨⟨?_, ?_⟩, hw⟩
      · rw [kept_addr, hw]
        simp
      · rw [kept_addr, hw]
        simp
    refine h.not_bare hline ?_ hbare
    cases op with
    | eq => exact ⟨key '=', by rw [hl]; simp [CmpOp.keys], rfl⟩
    | ne => exact ⟨key '!', by rw [hl]; simp [CmpOp.keys], rfl⟩
    | gt | ge | lt | le | ct | nc | other => exact absurd hop (by decide)
  short bl op w t hl hbl hop hw ht := by
    obtain ⟨flt, hread⟩ := (h.new_iff hline).mpr (AddrLine.of_op hl hbl hop hw ht)
    rw [addrReading_op hl hbl hop] at hread
    obtain ⟨⟨-, hcap⟩, -, -⟩ := operandReading_new.mp hread
    have hlen := hcap bufSize rfl
    rw [kept_addr, hw] at hlen
    simpa [textKeys] using hlen
  pfix bl op w host p family a hl hbl hop hw hlen ha hp hle := by
    have hread := (addrReading_op hl hbl hop).trans
      (operandReading_addr op hw hlen (.pfix p rfl hp hle rfl) ha)
    obtain ⟨op', hop', t, hun, ht⟩ := (h.new_iff hline).mp ⟨_, hread⟩
    rw [hl, unblank_blanks hbl, unblank_op hop, hw] at hun
    rw [← addrLine_unique hop hop' hun] at ht
    exact ht.pfix_inv ha hp

end

/-- **What `fp_addr` accepts**: addresses and prefix lengths, for the plain lines. -/
theorem addrLine_iff (f : Field) (line : List Key) (hline : IsLine isNewline line) :
    KeepsAddr f line ↔ PlainAddrLine line :=
  ⟨KeepsAddr.plain hline, KeepsAddr.of_plain hline⟩

end

/-- A network, with blanks around it. -/
theorem addrLine_iff_network :
    KeepsAddr (tcpFields.getD 1 (heading "" 0)) (typing " != 10.0.0.0/ 8") ↔
      PlainAddrLine (typing " != 10.0.0.0/ 8") :=
  addrLine_iff _ _ (by decide)

/-- A length of 33 bits is accepted for an IPv4 address. -/
theorem addrLine_wide :
    ¬ ∀ (f : Field) (line : List Key), f ∈ tcpFields → f.filterParse = some .fpAddr →
      IsLine isNewline line → KeepsAddr f line := by
  intro h
  have hkeep := h (tcpFields.getD 1 (heading "" 0)) (typing "=1.2.3.4/33") (by decide +kernel)
    (by decide +kernel) (by decide)
  obtain ⟨-, hbits⟩ := (hkeep.plain (by decide)).pfix [] .eq (typing "1.2.3.4/33")
    (bytes "1.2.3.4") (bytes "33") AF_INET [1, 2, 3, 4] (by decide +kernel) (by simp) (by decide)
    (by decide +kernel) (by decide +kernel) (by decide +kernel) (by decide +kernel)
    (by decide +kernel)
  exact absurd hbits (by decide +kernel)

end Sockmon

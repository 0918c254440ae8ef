import Sockmon.Basic.Inet

set_option autoImplicit false

/-! # The texts that `inet_pton` accepts

An accepted text has only characters of an address and gives the bytes of its family
(`inetPton_spec`), and no text is accepted for both families (`inetPton6_of_inetPton4`).
-/

namespace Sockmon

/-- A character of an address without a prefix length. -/
def isInetChar (ch : UInt8) : Bool := isxdigit ch.toNat || ch == 58 || ch == 46

/-! ## Dotted quads -/

/-- A character of a dotted quad. -/
def isQuadChar (ch : UInt8) : Bool := isdigit ch.toNat || ch == 46

theorem isInetChar_of_quad {ch : UInt8} (h : isQuadChar ch = true) : isInetChar ch = true := by
  unfold isQuadChar at h
  unfold isInetChar isxdigit
  rcases Bool.or_eq_true_iff.mp h with hd | hdot
  · simp [hd]
  · simp [hdot]

/-- The octets that `inet_pton4` has counted and stored, the one it is reading not among the
latter. -/
structure QuadState (sawDigit : Bool) (octets : Nat) (tmp : List UInt8) : Prop where
  reading : sawDigit = true → tmp.length + 1 = octets ∧ octets ≤ 4
  between : sawDigit = false → tmp.length = octets ∧ octets < 4

theorem inetPton4Loop_spec {src tmp out : List UInt8} {sawDigit : Bool} {octets cur : Nat}
    (hq : QuadState sawDigit octets tmp)
    (h : inetPton4Loop src sawDigit octets tmp cur = some out) :
    (∀ ch ∈ src, isQuadChar ch = true) ∧ out.length = 4 := by
  induction src generalizing sawDigit octets tmp cur with
  | nil =>
      rw [inetPton4Loop] at h
      split_ifs at h with hlt
      cases h
      refine ⟨by simp, ?_⟩
      cases sawDigit with
      | true =>
          have hr := hq.reading rfl
          rw [List.length_append, List.length_singleton]
          omega
      | false =>
          have hb := hq.between rfl
          omega
  | cons ch src ih =>
      rw [inetPton4Loop] at h
      dsimp only at h
      by_cases hd : isdigit ch.toNat = true
      · have hch : isQuadChar ch = true := by simp [isQuadChar, hd]
        rw [if_pos hd] at h
        split_ifs at h with h0 hbig hsaw hfull
        -- a further digit of the octet that is read
        · obtain ⟨hsrc, hlen⟩ := ih ⟨fun _ => hq.reading hsaw, by simp⟩ h
          exact ⟨List.forall_mem_cons.mpr ⟨hch, hsrc⟩, hlen⟩
        -- the first digit: a new octet, of which there may be four
        · have hb := hq.between (Bool.eq_false_iff.mpr hsaw)
          obtain ⟨hsrc, hlen⟩ := ih ⟨fun _ => by omega, by simp⟩ h
          exact ⟨List.forall_mem_cons.mpr ⟨hch, hsrc⟩, hlen⟩
      · rw [if_neg hd] at h
        split_ifs at h with hdot hfull
        rw [Bool.and_eq_true] at hdot
        have hr := hq.reading hdot.2
        have hne : octets ≠ 4 := by simpa using hfull
        have hch : isQuadChar ch = true := by simp [isQuadChar, hdot.1]
        have hnext : QuadState false octets (tmp ++ [cur.toUInt8]) := by
          refine ⟨by simp, fun _ => ⟨?_, by omega⟩⟩
          rw [List.length_append, List.length_singleton]
          exact hr.1
        obtain ⟨hsrc, hlen⟩ := ih hnext h
        exact ⟨List.forall_mem_cons.mpr ⟨hch, hsrc⟩, hlen⟩

theorem inetPton4_spec {src out : List UInt8} (h : inetPton4 src = some out) :
    (∀ ch ∈ src, isQuadChar ch = true) ∧ out.length = 4 := by
  have hq : QuadState false 0 [] := ⟨by simp, fun _ => ⟨rfl, by omega⟩⟩
  exact inetPton4Loop_spec hq h

/-! ## Groups -/

theorem length_group (val : Nat) : (group val).length = 2 := rfl

theorem isInetChar_of_hex {ch : UInt8} {digit : Nat} (h : hexDigitValue ch = some digit) :
    isInetChar ch = true := by
  unfold hexDigitValue at h
  unfold isInetChar isxdigit isdigit
  simp only [Bool.and_eq_true, decide_eq_true_eq, UInt8.le_iff_toNat_le] at h
  simp only [Bool.or_eq_true, Bool.and_eq_true, decide_eq_true_eq]
  split_ifs at h with h1 h2 h3
  · simp at h1
    omega
  · simp at h2
    omega
  · simp at h3
    omega

theorem inetPton6Loop_spec {src curtok out out' : List UInt8} {xdigits val xdigits' val' : Nat}
    {colonp colonp' : Option Nat} (hsuffix : src <:+ curtok) (hout : out.length ≤ 16)
    (h : inetPton6Loop src curtok xdigits val out colonp = some (xdigits', val', out', colonp')) :
    (∀ ch ∈ src, isInetChar ch = true) ∧ out'.length ≤ 16 := by
  induction src generalizing curtok xdigits val out colonp with
  | nil =>
      rw [inetPton6Loop] at h
      cases h
      exact ⟨by simp, hout⟩
  | cons ch src ih =>
      have htail : src <:+ curtok := (List.suffix_cons ch src).trans hsuffix
      rw [inetPton6Loop] at h
      cases hhex : hexDigitValue ch with
      | some digit =>
          rw [hhex] at h
          dsimp only at h
          split_ifs at h
          obtain ⟨hsrc, hlen⟩ := ih htail hout h
          exact ⟨List.forall_mem_cons.mpr ⟨isInetChar_of_hex hhex, hsrc⟩, hlen⟩
      | none =>
          rw [hhex] at h
          dsimp only at h
          split_ifs at h with hcolon hx hsome hnil hfull hdot
          · have hch : isInetChar ch = true := by simp [isInetChar, hcolon]
            obtain ⟨hsrc, hlen⟩ := ih (List.suffix_refl src) hout h
            exact ⟨List.forall_mem_cons.mpr ⟨hch, hsrc⟩, hlen⟩
          · have hch : isInetChar ch = true := by simp [isInetChar, hcolon]
            obtain ⟨hsrc, hlen⟩ := ih (List.suffix_refl src)
              (by rw [List.length_append, length_group]; omega) h
            exact ⟨List.forall_mem_cons.mpr ⟨hch, hsrc⟩, hlen⟩
          · -- What is left of the text is part of the dotted quad.
            obtain ⟨v4, hv4, heq⟩ := Option.map_eq_some_iff.mp h
            obtain ⟨hchars, hlen⟩ := inetPton4_spec hv4
            simp only [Bool.and_eq_true, decide_eq_true_eq] at hdot
            cases heq
            refine ⟨fun c hc => isInetChar_of_quad (hchars c (hsuffix.mem hc)), ?_⟩
            rw [List.length_append]
            omega

theorem inetPton6End_length {xdigits val : Nat} {out a : List UInt8} {colonp : Option Nat}
    (hout : out.length ≤ 16) (h : inetPton6End (xdigits, val, out, colonp) = some a) :
    a.length = 16 := by
  unfold inetPton6End at h
  dsimp only at h
  split at h
  · cases h
  · rename_i hguard
    obtain ⟨ys, hys, hlen⟩ : ∃ ys, (if 0 < xdigits then out ++ group val else out) = ys ∧
        ys.length ≤ 16 := by
      refine ⟨_, rfl, ?_⟩
      split_ifs with hx
      · simp only [hx, decide_true, Bool.true_and, decide_eq_true_eq] at hguard
        rw [List.length_append, length_group]
        omega
      · exact hout
    rw [hys] at h
    cases colonp with
    | none =>
        dsimp only at h
        split_ifs at h with h16
        cases h
        exact h16
    | some c =>
        dsimp only at h
        split_ifs at h with h16
        cases h
        simp only [List.length_append, List.length_take, List.length_replicate,
          List.length_drop]
        omega

theorem inetPton6_spec {src a : List UInt8} (h : inetPton6 src = some a) :
    (∀ ch ∈ src, isInetChar ch = true) ∧ a.length = 16 := by
  have hloop : ∀ {src curtok : List UInt8}, src <:+ curtok →
      (inetPton6Loop src curtok 0 0 [] none).bind inetPton6End = some a →
      (∀ ch ∈ src, isInetChar ch = true) ∧ a.length = 16 := by
    intro src curtok hsuffix h
    obtain ⟨⟨xdigits, val, out, colonp⟩, hl, hend⟩ := Option.bind_eq_some_iff.mp h
    obtain ⟨hchars, hlen⟩ := inetPton6Loop_spec hsuffix (by simp) hl
    exact ⟨hchars, inetPton6End_length hlen hend⟩
  unfold inetPton6 at h
  cases src with
  | nil => cases h
  | cons ch rest =>
      dsimp only at h
      split_ifs at h with hcolon hsecond
      · obtain ⟨hchars, hlen⟩ := hloop (List.suffix_refl rest) h
        exact ⟨List.forall_mem_cons.mpr ⟨by simp [isInetChar, hcolon], hchars⟩, hlen⟩
      · exact hloop (List.suffix_refl _) h

/-! ## Either family -/

/-- The number of bytes of an address. -/
def addrLen (family : Nat) : Nat := if family = AF_INET then 4 else 16

/-- **An accepted text** consists of characters of an address and gives one of its family. -/
theorem inetPton_spec {family : Nat} {src a : List UInt8} (h : inetPton family src = some a) :
    (family = AF_INET ∨ family = AF_INET6) ∧ (∀ ch ∈ src, isInetChar ch = true) ∧
      a.length = addrLen family := by
  unfold inetPton at h
  split_ifs at h with h4 h6
  · obtain ⟨hchars, hlen⟩ := inetPton4_spec h
    refine ⟨Or.inl h4, fun ch hch => isInetChar_of_quad (hchars ch hch), ?_⟩
    rw [hlen, addrLen, if_pos h4]
  · obtain ⟨hchars, hlen⟩ := inetPton6_spec h
    refine ⟨Or.inr h6, hchars, ?_⟩
    rw [hlen, addrLen, if_neg h4]

theorem inetPton_ne_nil {family : Nat} {src a : List UInt8} (h : inetPton family src = some a) :
    src ≠ [] := by
  rintro rfl
  rcases (inetPton_spec h).1 with rfl | rfl <;> cases h

/-- Without a colon there is at most a dotted quad. -/
theorem inetPton6Loop_noColon {src curtok out out' : List UInt8}
    {xdigits val xdigits' val' : Nat} {colonp colonp' : Option Nat} (hno : 58 ∉ src)
    (h : inetPton6Loop src curtok xdigits val out colonp = some (xdigits', val', out', colonp')) :
    out'.length ≤ out.length + 4 ∧ colonp' = colonp := by
  induction src generalizing xdigits val with
  | nil =>
      rw [inetPton6Loop] at h
      cases h
      exact ⟨by omega, rfl⟩
  | cons ch src ih =>
      have hch := List.ne_of_not_mem_cons hno
      have hsrc := List.not_mem_of_not_mem_cons hno
      rw [inetPton6Loop] at h
      cases hhex : hexDigitValue ch with
      | some digit =>
          rw [hhex] at h
          dsimp only at h
          split_ifs at h
          exact ih hsrc h
      | none =>
          rw [hhex] at h
          dsimp only at h
          rw [if_neg (by simpa using Ne.symm hch)] at h
          split_ifs at h
          obtain ⟨v4, hv4, heq⟩ := Option.map_eq_some_iff.mp h
          cases heq
          rw [List.length_append, (inetPton4_spec hv4).2]
          exact ⟨le_rfl, rfl⟩

/-- **No text is accepted twice.** -/
theorem inetPton6_of_inetPton4 {src a : List UInt8} (h : inetPton4 src = some a) :
    inetPton6 src = none := by
  have hquad := (inetPton4_spec h).1
  have hno : 58 ∉ src := fun hmem => absurd (hquad 58 hmem) (by decide)
  unfold inetPton6
  cases src with
  | nil => rfl
  | cons ch rest =>
      have hch := List.ne_of_not_mem_cons hno
      dsimp only
      rw [if_neg (by simpa using Ne.symm hch)]
      rw [Option.bind_eq_none_iff]
      rintro ⟨xdigits, val, out, colonp⟩ hl
      obtain ⟨hlen, rfl⟩ := inetPton6Loop_noColon hno hl
      rw [List.length_nil] at hlen
      unfold inetPton6End
      dsimp only
      split
      · rfl
      · refine if_neg ?_
        split_ifs
        · rw [List.length_append, length_group]
          omega
        · omega

/-- A text that is accepted for one family is not accepted for another. -/
theorem inetPton_family {family family' : Nat} {src a : List UInt8}
    (h : inetPton family src = some a) (hne : family' ≠ family) :
    inetPton family' src = none := by
  cases h' : inetPton family' src with
  | none => rfl
  | some a' =>
      rcases (inetPton_spec h).1 with rfl | rfl <;> rcases (inetPton_spec h').1 with rfl | rfl
      · exact absurd rfl hne
      · have h6 : inetPton6 src = some a' := h'
        rw [inetPton6_of_inetPton4 h] at h6
        cases h6
      · have h6 : inetPton6 src = some a := h
        rw [inetPton6_of_inetPton4 h'] at h6
        cases h6
      · exact absurd rfl hne

end Sockmon

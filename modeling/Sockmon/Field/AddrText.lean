import Sockmon.Basic.InetText
import Sockmon.Field.Reading

set_option autoImplicit false

/-! # The operand of an address filter

`fp_addr` splits what was typed at the last slash, has `strtol` read the prefix length and tries
the two families. It accepts an address, or an address, a slash and digits whose value is at most
128 (`parseAddr_some_iff`).
-/

namespace Sockmon

open LineScan

/-! ## Keys and characters -/

/-- The keys that type a text. -/
def textKeys (t : List UInt8) : List Key := t.map fun b => (b.toNat : Key)

theorem keyByte_toNat (b : UInt8) : keyByte (b.toNat : Key) = b := by
  have hlt := b.toNat_lt
  unfold keyByte
  rw [Int.toNat_natCast, Nat.mod_eq_of_lt (by omega)]
  simp

theorem toNat_keyByte {k : Key} (h : 0 ≤ k ∧ k < 256) : ((keyByte k).toNat : Key) = k := by
  obtain ⟨n, rfl⟩ := Int.eq_ofNat_of_zero_le h.1
  have hn : n < 256 := by exact_mod_cast h.2
  unfold keyByte
  rw [Int.toNat_natCast, Nat.mod_eq_of_lt hn]
  simp [Nat.mod_eq_of_lt hn]

theorem map_keyByte_textKeys (t : List UInt8) : (textKeys t).map keyByte = t := by
  rw [textKeys, List.map_map]
  exact List.map_id'' keyByte_toNat t

theorem textKeys_map_keyByte {ks : List Key} (h : ∀ k ∈ ks, 0 ≤ k ∧ k < 256) :
    textKeys (ks.map keyByte) = ks := by
  rw [textKeys, List.map_map]
  exact (List.map_congr_left fun k hk => toNat_keyByte (h k hk)).trans (List.map_id _)

theorem textKeys_injective {t t' : List UInt8} (h : textKeys t = textKeys t') : t = t' := by
  rw [← map_keyByte_textKeys t, h, map_keyByte_textKeys]

/-! ## The split at the slash -/

theorem splitSlash_none {t : List UInt8} (h : 47 ∉ t) : splitSlash t = none := by
  unfold splitSlash
  exact if_neg h

theorem splitSlash_append {host p : List UInt8} (h : 47 ∉ p) :
    splitSlash (host ++ 47 :: p) = some (host, p) := by
  have hp : ∀ c ∈ p.reverse, (c != 47) = true := by
    intro c hc
    rw [bne_iff_ne]
    rintro rfl
    exact h (List.mem_reverse.mp hc)
  have hrev : (host ++ 47 :: p).reverse = p.reverse ++ (47 :: host.reverse) := by simp
  unfold splitSlash
  dsimp only
  rw [if_pos (by simp), hrev, List.dropWhile_append_of_pos hp, List.takeWhile_append_of_pos hp]
  simp

/-- The last slash of a text. -/
theorem exists_lastSlash {t : List UInt8} (h : 47 ∈ t) :
    ∃ host p, t = host ++ 47 :: p ∧ 47 ∉ p := by
  obtain ⟨r, s, hr, hno⟩ := List.eq_append_cons_of_mem (List.mem_reverse.mpr h)
  refine ⟨s.reverse, r.reverse, ?_, by simpa using hno⟩
  rw [← List.reverse_reverse t, hr]
  simp

/-! ## The prefix length -/

/-- The text consists of decimal digits. -/
def AllDigits (p : List UInt8) : Prop := ∀ c ∈ p, isdigit c.toNat = true

instance (p : List UInt8) : Decidable (AllDigits p) :=
  inferInstanceAs (Decidable (∀ c ∈ p, isdigit c.toNat = true))

theorem addrChar_range {k : Int} (h : isAddrChar k = true) : 46 ≤ k ∧ k ≤ 102 := by
  simp only [isAddrChar, isxdigit, isdigit, key, Bool.or_eq_true, Bool.and_eq_true,
    decide_eq_true_eq, beq_iff_eq] at h
  rcases h with ((((h | h) | h) | rfl) | rfl) | rfl
  · omega
  · omega
  · omega
  all_goals decide

/-- `strtol` of a text without blanks and signs. -/
theorem strtol_unsigned {p : List UInt8} (h : ∀ c ∈ p, isAddrChar c.toNat = true) :
    strtol p =
      if p.takeWhile (fun c => isdigit c.toNat) = [] then (0, p)
      else (min (decimal (p.takeWhile fun c => isdigit c.toNat) : Int) 9223372036854775807,
        p.dropWhile fun c => isdigit c.toNat) := by
  have hchar : ∀ c : UInt8, isAddrChar c.toNat = true →
      (c == 32 || (9 ≤ c && c ≤ 13)) = false ∧ c ≠ 45 ∧ c ≠ 43 := by
    intro c hc
    have hge : 46 ≤ c.toNat := by exact_mod_cast (addrChar_range hc).1
    simp only [Bool.or_eq_false_iff, beq_eq_false_iff_ne, Bool.and_eq_false_iff,
      decide_eq_false_iff_not, UInt8.le_iff_toNat_le, ne_eq, ← UInt8.toNat_inj,
      UInt8.toNat_ofNat]
    omega
  have hdrop : p.dropWhile (fun c : UInt8 => c == 32 || (9 ≤ c && c ≤ 13)) = p := by
    cases p with
    | nil => rfl
    | cons c p =>
        exact List.dropWhile_cons_of_neg (by simp [(hchar c (h c List.mem_cons_self)).1])
  have hminus : p.head? ≠ some 45 := by
    cases p with
    | nil => simp
    | cons c p => simpa using (hchar c (h c List.mem_cons_self)).2.1
  have hplus : p.head? ≠ some 43 := by
    cases p with
    | nil => simp
    | cons c p => simpa using (hchar c (h c List.mem_cons_self)).2.2
  unfold strtol
  simp only [hdrop, beq_eq_false_iff_ne.mpr hminus, beq_eq_false_iff_ne.mpr hplus, Bool.or_self,
    Bool.false_eq_true, if_false]

theorem strtol_digits {p : List UInt8} (h : AllDigits p) :
    strtol p = (min (decimal p : Int) 9223372036854775807, []) := by
  have hchars : ∀ c ∈ p, isAddrChar c.toNat = true := by
    intro c hc
    have hd := h c hc
    simp [isAddrChar, isxdigit, hd]
  have htake : p.takeWhile (fun c => isdigit c.toNat) = p := List.takeWhile_eq_self_iff.mpr h
  have hdrop : p.dropWhile (fun c => isdigit c.toNat) = [] := List.dropWhile_eq_nil_iff.mpr h
  rw [strtol_unsigned hchars, htake, hdrop]
  cases p with
  | nil => rfl
  | cons c p => exact if_neg (by simp)

/-- `strtol` stops at the end of a text of digits only. -/
theorem allDigits_of_strtol {p : List UInt8} (h : ∀ c ∈ p, isAddrChar c.toNat = true)
    (hend : (strtol p).2 = []) : AllDigits p := by
  rw [strtol_unsigned h] at hend
  split_ifs at hend with hds
  · rw [show p = [] from hend]
    exact nofun
  · exact List.dropWhile_eq_nil_iff.mp hend

/-! ## The whole operand -/

/-- The operand `t` is `host`, or `host`, a slash and digits whose value is at most 128; `mask` is
the mask for it. -/
inductive AddrSplit (t host mask : List UInt8) : Prop
  | whole (h : t = host) (hmask : mask = List.replicate 16 255)
  | pfix (p : List UInt8) (h : t = host ++ 47 :: p) (hp : AllDigits p)
      (hle : decimal p ≤ 128) (hmask : mask = prefixMask (decimal p))

/-- The two families are tried in order. -/
def tryFamilies (host mask : List UInt8) : Option FilterArg :=
  match inetPton AF_INET host with
  | some addr => some (.addr addr mask AF_INET)
  | none => (inetPton AF_INET6 host).map fun addr => .addr addr mask AF_INET6

theorem parseAddr_whole {t : List UInt8} (h : 47 ∉ t) :
    parseAddr t = tryFamilies t (List.replicate 16 255) := by
  unfold parseAddr tryFamilies
  rw [splitSlash_none h]
  dsimp only [Option.bind_eq_bind, Option.bind_some]
  cases inetPton AF_INET t with
  | some a => rfl
  | none => cases inetPton AF_INET6 t <;> rfl

theorem parseAddr_pfix {host p : List UInt8} (hno : 47 ∉ p) :
    parseAddr (host ++ 47 :: p) =
      if (strtol p).2 ≠ [] ∨ (strtol p).1 < 0 ∨ 128 < (strtol p).1 then none
      else tryFamilies host (prefixMask (strtol p).1.toNat) := by
  unfold parseAddr tryFamilies
  rw [splitSlash_append hno]
  dsimp only
  split
  · rfl
  · dsimp only [Option.bind_eq_bind, Option.bind_some]
    cases inetPton AF_INET host with
    | some a => rfl
    | none => cases inetPton AF_INET6 host <;> rfl

/-- At most one of the families fits. -/
theorem tryFamilies_iff {host mask : List UInt8} {arg : FilterArg} :
    tryFamilies host mask = some arg ↔
      ∃ family a, inetPton family host = some a ∧ arg = .addr a mask family := by
  unfold tryFamilies
  constructor
  · intro h
    cases h4 : inetPton AF_INET host with
    | some a =>
        rw [h4] at h
        cases h
        exact ⟨AF_INET, a, h4, rfl⟩
    | none =>
        rw [h4] at h
        obtain ⟨a, h6, rfl⟩ := Option.map_eq_some_iff.mp h
        exact ⟨AF_INET6, a, h6, rfl⟩
  · rintro ⟨family, a, ha, rfl⟩
    rcases (inetPton_spec ha).1 with rfl | rfl
    · rw [ha]
    · rw [inetPton_family ha (by decide), ha]
      rfl

theorem slash_not_digits {p : List UInt8} (h : AllDigits p) : 47 ∉ p :=
  fun hmem => absurd (h 47 hmem) (by decide)

theorem slash_not_host {family : Nat} {host a : List UInt8}
    (h : inetPton family host = some a) : 47 ∉ host :=
  fun hmem => absurd ((inetPton_spec h).2.1 47 hmem) (by decide)

/-- **What `fp_addr` accepts as an operand**, among the texts it stores. -/
theorem parseAddr_some_iff {t : List UInt8} {arg : FilterArg}
    (hchars : ∀ c ∈ t, isAddrChar c.toNat = true) :
    parseAddr t = some arg ↔ ∃ host mask family a, AddrSplit t host mask ∧
      inetPton family host = some a ∧ arg = .addr a mask family := by
  constructor
  · intro h
    by_cases hslash : 47 ∈ t
    · -- `strtol` went to the end, so there are digits behind the last slash.
      obtain ⟨host, p, rfl, hno⟩ := exists_lastSlash hslash
      have hp : ∀ c ∈ p, isAddrChar c.toNat = true := fun c hc => hchars c (by simp [hc])
      rw [parseAddr_pfix hno] at h
      split_ifs at h with hbad
      obtain ⟨hend, hrange⟩ := not_or.mp hbad
      have hdigits := allDigits_of_strtol hp (not_ne_iff.mp hend)
      rw [strtol_digits hdigits] at h hrange
      have hle : decimal p ≤ 128 := by omega
      have hmin : (min (decimal p : Int) 9223372036854775807).toNat = decimal p := by omega
      rw [hmin] at h
      obtain ⟨family, a, ha, harg⟩ := tryFamilies_iff.mp h
      exact ⟨host, _, family, a, .pfix p rfl hdigits hle rfl, ha, harg⟩
    · rw [parseAddr_whole hslash] at h
      obtain ⟨family, a, ha, harg⟩ := tryFamilies_iff.mp h
      exact ⟨t, _, family, a, .whole rfl rfl, ha, harg⟩
  · rintro ⟨host, mask, family, a, hsplit, ha, harg⟩
    have htry := tryFamilies_iff.mpr ⟨family, a, ha, harg⟩
    cases hsplit with
    | whole h hmask =>
        rw [h, parseAddr_whole (slash_not_host ha), ← hmask]
        exact htry
    | pfix p h hp hle hmask =>
        have hmin : (min (decimal p : Int) 9223372036854775807).toNat = decimal p := by omega
        rw [h, parseAddr_pfix (slash_not_digits hp), strtol_digits hp, hmin, ← hmask, if_neg]
        · exact htry
        · simp
          omega

end Sockmon

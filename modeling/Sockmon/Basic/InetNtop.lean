import Sockmon.Basic.InetText

set_option autoImplicit false

/-! # The texts that `inet_ntop` writes

`inet_pton` reads every text that `inet_ntop` writes back as the address it was written for
(`inetPton_inetNtop`). For IPv6 the text is a list of words with a run of zeros left out
(`ntop6Words_run`), or ends with a dotted quad.
-/

namespace Sockmon

/-! ## Digits -/

/-- The character of a digit. -/
def digitByte (d : Nat) : UInt8 := d.digitChar.toNat.toUInt8

theorem digits_of_lt {n : Nat} (h : n < 10) : digits n = [digitByte n] := by
  rw [digits, Nat.toDigits_of_lt_base h]
  rfl

theorem digits_append {m k : Nat} (hk : k < 10) (hm : 0 < m) :
    digits (10 * m + k) = digits m ++ [digitByte k] := by
  have hdiv : (10 * m + k) / 10 = m := by omega
  have hmod : (10 * m + k) % 10 = k := by omega
  rw [digits, Nat.toDigits_of_base_le (by omega) (by omega), hdiv, hmod, List.map_append]
  rfl

theorem hexDigits_of_lt {n : Nat} (h : n < 16) : hexDigits n = [digitByte n] := by
  rw [hexDigits, Nat.toDigits_of_lt_base h]
  rfl

theorem hexDigits_append {m k : Nat} (hk : k < 16) (hm : 0 < m) :
    hexDigits (16 * m + k) = hexDigits m ++ [digitByte k] := by
  have hdiv : (16 * m + k) / 16 = m := by omega
  have hmod : (16 * m + k) % 16 = k := by omega
  rw [hexDigits, Nat.toDigits_of_base_le (by omega) (by omega), hdiv, hmod, List.map_append]
  rfl

theorem digits_ne_nil (n : Nat) : digits n ≠ [] := by simp [digits]

theorem hexDigits_ne_nil (n : Nat) : hexDigits n ≠ [] := by simp [hexDigits]

theorem length_digits_le {n k : Nat} (hk : 0 < k) : (digits n).length ≤ k ↔ n < 10 ^ k := by
  rw [digits, List.length_map]
  exact Nat.length_toDigits_le_iff (by omega) hk

theorem length_hexDigits_le {n k : Nat} (hk : 0 < k) :
    (hexDigits n).length ≤ k ↔ n < 16 ^ k := by
  rw [hexDigits, List.length_map]
  exact Nat.length_toDigits_le_iff (by omega) hk

theorem toNat_digitByte : ∀ d < 10, (digitByte d).toNat = 48 + d := by decide

theorem hexDigitValue_digitByte : ∀ d < 16, hexDigitValue (digitByte d) = some d := by decide

/-! ## Dotted quads -/

section

variable {tmp rest : List UInt8} {octets : Nat}

/-- One more digit of an octet. -/
theorem inetPton4Loop_digit {d cur : Nat} {sawDigit : Bool} (hd : d < 10)
    (hzero : sawDigit = true → cur ≠ 0) (hle : cur * 10 + d ≤ 255)
    (ho : sawDigit = false → octets < 4) :
    inetPton4Loop (digitByte d :: rest) sawDigit octets tmp cur =
      inetPton4Loop rest true (if sawDigit then octets else octets + 1) tmp (cur * 10 + d) := by
  have hdigit : isdigit (digitByte d).toNat = true := by
    simp only [isdigit, toNat_digitByte d hd, Bool.and_eq_true, decide_eq_true_eq]
    omega
  have hval : (digitByte d).toNat - 48 = d := by
    rw [toNat_digitByte d hd]
    omega
  rw [inetPton4Loop, if_pos hdigit, hval]
  dsimp only
  cases sawDigit with
  | true =>
      have hne : (cur == 0) = false := beq_eq_false_iff_ne.mpr (hzero rfl)
      simp [hne, Nat.not_lt.mpr hle]
  | false =>
      have hlt := ho rfl
      simp [Nat.not_lt.mpr hle, Nat.not_lt.mpr (Nat.succ_le_of_lt hlt)]

/-- The digits of an octet. -/
theorem inetPton4Loop_digits {b : Nat} (hb : b ≤ 255) (ho : octets < 4) :
    inetPton4Loop (digits b ++ rest) false octets tmp 0 =
      inetPton4Loop rest true (octets + 1) tmp b := by
  induction b using Nat.base_induction 10 (by omega) generalizing rest with
  | single d hd =>
      rw [digits_of_lt hd, List.singleton_append,
        inetPton4Loop_digit hd (by simp) (by omega) (fun _ => ho)]
      simp
  | digit m k hk hm ih =>
      rw [digits_append hk hm, List.append_assoc, List.singleton_append, ih (by omega),
        inetPton4Loop_digit hk (by omega) (by omega) (by simp), if_pos rfl, Nat.mul_comm]

theorem inetPton4Loop_dot {cur : Nat} (ho : octets < 4) :
    inetPton4Loop (46 :: rest) true octets tmp cur =
      inetPton4Loop rest false octets (tmp ++ [cur.toUInt8]) 0 := by
  have hne : (octets == 4) = false := beq_eq_false_iff_ne.mpr (by omega)
  rw [inetPton4Loop, if_neg (by decide), if_pos (by decide), hne, if_neg (by decide)]

end

theorem inetNtop4_eq (w x y z : UInt8) :
    inetNtop4 [w, x, y, z] =
      digits w.toNat ++
        46 :: (digits x.toNat ++ 46 :: (digits y.toNat ++ 46 :: digits z.toNat)) := by
  simp [inetNtop4, List.intercalate, List.intersperse]

theorem inetPton4_inetNtop4 (w x y z : UInt8) :
    inetPton4 (inetNtop4 [w, x, y, z]) = some [w, x, y, z] := by
  have hb : ∀ b : UInt8, b.toNat ≤ 255 := fun b => Nat.le_of_lt_succ b.toNat_lt
  have hnil : digits z.toNat = digits z.toNat ++ [] := (List.append_nil _).symm
  rw [inetNtop4_eq, inetPton4, inetPton4Loop_digits (hb w) (by omega), inetPton4Loop_dot (by omega),
    inetPton4Loop_digits (hb x) (by omega), inetPton4Loop_dot (by omega),
    inetPton4Loop_digits (hb y) (by omega), inetPton4Loop_dot (by omega), hnil,
    inetPton4Loop_digits (hb z) (by omega)]
  simp [inetPton4Loop]

/-! ## Reading words -/

/-- The bytes of words. -/
def groups (ws : List Nat) : List UInt8 := ws.flatMap group

theorem length_groups (ws : List Nat) : (groups ws).length = 2 * ws.length := by
  induction ws with
  | nil => rfl
  | cons w ws ih =>
      rw [groups, List.flatMap_cons, List.length_append, length_group, List.length_cons]
      rw [groups] at ih
      omega

theorem groups_append (ws ws' : List Nat) : groups (ws ++ ws') = groups ws ++ groups ws' :=
  List.flatMap_append

theorem groups_drop {ws : List Nat} {n : Nat} (h : n ≤ ws.length) :
    groups (ws.drop n) = (groups ws).drop (2 * n) := by
  have hlen : (groups (ws.take n)).length = 2 * n := by
    rw [length_groups, List.length_take, Nat.min_eq_left h]
  conv_rhs => rw [← List.take_append_drop n ws, groups_append, ← hlen, List.drop_left]

/-- Words with colons between them, and one in front but for the first word of all. -/
def joinFrom : Nat → List Nat → List UInt8
  | _, [] => []
  | i, w :: ws => (if i ≠ 0 then [58] else []) ++ hexDigits w ++ joinFrom (i + 1) ws

theorem joinFrom_cons {i : Nat} (hi : i ≠ 0) (w : Nat) (ws : List Nat) :
    joinFrom i (w :: ws) = 58 :: (hexDigits w ++ joinFrom (i + 1) ws) := by
  rw [joinFrom, if_pos hi, List.append_assoc, List.singleton_append]

section

variable {rest curtok out : List UInt8} {colonp : Option Nat} {xdigits val : Nat}

/-- The digits of a word. -/
theorem inetPton6Loop_hex {w : Nat} (hw : w < 65536) :
    inetPton6Loop (hexDigits w ++ rest) curtok 0 0 out colonp =
      inetPton6Loop rest curtok (hexDigits w).length w out colonp := by
  induction w using Nat.base_induction 16 (by omega) generalizing rest with
  | single d hd =>
      rw [hexDigits_of_lt hd, List.singleton_append, inetPton6Loop, hexDigitValue_digitByte d hd]
      simp
  | digit m k hk hm ih =>
      have hlen : (hexDigits m).length ≠ 4 := by
        have hle := (length_hexDigits_le (n := m) (k := 3) (by omega)).mpr (by omega)
        omega
      rw [hexDigits_append hk hm, List.append_assoc, List.singleton_append, ih (by omega),
        inetPton6Loop, hexDigitValue_digitByte k hk]
      simp only [hlen, if_false, List.length_append, List.length_singleton]
      rw [Nat.mul_comm]

/-- The colon behind a word. -/
theorem inetPton6Loop_colon (hx : xdigits ≠ 0) (hrest : rest ≠ []) (hout : out.length + 2 ≤ 16) :
    inetPton6Loop (58 :: rest) curtok xdigits val out colonp =
      inetPton6Loop rest rest 0 0 (out ++ group val) colonp := by
  rw [inetPton6Loop]
  simp [hexDigitValue, hx, hrest, Nat.not_lt.mpr hout]

/-- The second colon of the run that is left out. -/
theorem inetPton6Loop_run :
    inetPton6Loop (58 :: rest) curtok 0 val out none =
      inetPton6Loop rest rest 0 val out (some out.length) := by
  rw [inetPton6Loop]
  simp [hexDigitValue]

/-- Words behind a word: all but the last are stored. -/
theorem inetPton6Loop_words (rest curtok out : List UInt8) (colonp : Option Nat)
    {xdigits i w : Nat} {ps : List Nat} (hi : i ≠ 0) (hx : xdigits ≠ 0)
    (hps : ∀ p ∈ ps, p < 65536) (hout : out.length + 2 * ps.length ≤ 16) :
    ∃ curtok' xdigits' ws last, groups ws ++ group last = group w ++ groups ps ∧
      xdigits' ≠ 0 ∧ ws.length = ps.length ∧
      inetPton6Loop (joinFrom i ps ++ rest) curtok xdigits w out colonp =
        inetPton6Loop rest curtok' xdigits' last (out ++ groups ws) colonp := by
  induction ps generalizing i w out xdigits curtok with
  | nil => exact ⟨curtok, xdigits, [], w, by simp [groups], hx, rfl, by simp [joinFrom, groups]⟩
  | cons p ps ih =>
      obtain ⟨hp, hps⟩ := List.forall_mem_cons.mp hps
      rw [List.length_cons] at hout
      have hne : hexDigits p ++ (joinFrom (i + 1) ps ++ rest) ≠ [] := by
        simp [hexDigits_ne_nil]
      have hlen : (hexDigits p).length ≠ 0 := by simp [hexDigits_ne_nil]
      obtain ⟨curtok', xdigits', ws, last, hws, hx', hwl, heq⟩ :=
        ih (hexDigits p ++ (joinFrom (i + 1) ps ++ rest)) (out ++ group w) (i := i + 1) (w := p)
          (by omega) hlen hps
          (by rw [List.length_append, length_group]; omega)
      refine ⟨curtok', xdigits', w :: ws, last, ?_, hx', by simp [hwl], ?_⟩
      · simp only [groups, List.flatMap_cons, List.append_assoc] at hws ⊢
        rw [hws]
      · rw [joinFrom_cons hi, List.cons_append, List.append_assoc,
          inetPton6Loop_colon hx hne (by omega), inetPton6Loop_hex hp, heq]
        simp [groups]

/-- The end of the text behind a word. -/
theorem inetPton6End_word (hx : xdigits ≠ 0) (hout : out.length + 2 ≤ 16) :
    inetPton6End (xdigits, val, out, colonp) = inetPton6End (0, 0, out ++ group val, colonp) := by
  have hpos : 0 < xdigits := Nat.pos_of_ne_zero hx
  unfold inetPton6End
  simp [hpos, Nat.not_lt.mpr hout]

/-- A word and words behind it, up to the end of the text. -/
theorem inetPton6Loop_end {i w : Nat} {ps : List Nat} (hi : i ≠ 0) (hw : w < 65536)
    (hps : ∀ p ∈ ps, p < 65536) (hout : out.length + 2 * (ps.length + 1) ≤ 16) :
    (inetPton6Loop (hexDigits w ++ joinFrom i ps) curtok 0 0 out colonp).bind inetPton6End =
      inetPton6End (0, 0, out ++ groups (w :: ps), colonp) := by
  have hlen : (hexDigits w).length ≠ 0 := by simp [hexDigits_ne_nil]
  obtain ⟨curtok', xdigits', ws, last, hws, hx, hwl, heq⟩ :=
    inetPton6Loop_words [] curtok out colonp (w := w) hi hlen hps (by omega)
  rw [List.append_nil] at heq
  rw [inetPton6Loop_hex hw, heq, inetPton6Loop, Option.bind_some,
    inetPton6End_word hx (by rw [List.length_append, length_groups]; omega), List.append_assoc, hws]
  rfl

end

/-- What follows the first colon of the run: the words behind it, each with a colon in front, or
one more colon at the end of the text. -/
def runTail (i : Nat) (post : List Nat) : List UInt8 :=
  if post = [] then [58] else joinFrom i post

/-- The run of zeros is filled in. -/
theorem inetPton6Loop_runTail (pre : List Nat) (curtok : List UInt8) {i : Nat} {post : List Nat}
    (hi : i ≠ 0) (hpost : ∀ p ∈ post, p < 65536) (hlen : pre.length + post.length < 8) :
    (inetPton6Loop (runTail i post) curtok 0 0 (groups pre) none).bind inetPton6End =
      some (groups pre ++ List.replicate (16 - 2 * (pre.length + post.length)) 0 ++
        groups post) := by
  have hpre := length_groups pre
  have hfill : inetPton6End (0, 0, groups pre ++ groups post, some (groups pre).length) =
      some (groups pre ++ List.replicate (16 - 2 * (pre.length + post.length)) 0 ++
        groups post) := by
    have hall : (groups pre ++ groups post).length = 2 * (pre.length + post.length) := by
      rw [List.length_append, length_groups, length_groups]
      omega
    unfold inetPton6End
    simp only [Nat.lt_irrefl, decide_false, Bool.false_and, Bool.false_eq_true, if_false, hall]
    rw [if_neg (by omega), List.take_left, List.drop_left]
  cases post with
  | nil =>
      rw [runTail, if_pos rfl, inetPton6Loop_run, inetPton6Loop, Option.bind_some, ← hfill]
      simp [groups]
  | cons p ps =>
      obtain ⟨hp, hps⟩ := List.forall_mem_cons.mp hpost
      rw [List.length_cons] at hlen
      rw [runTail, if_neg (by simp), joinFrom_cons hi, inetPton6Loop_run,
        inetPton6Loop_end (by omega) hp hps (by omega), hfill]

theorem ne_colon_of_mem_hexDigits {w : Nat} : ∀ c ∈ hexDigits w, c ≠ 58 := by
  have hdigit : ∀ d < 16, digitByte d ≠ 58 := by decide
  induction w using Nat.base_induction 16 (by omega) with
  | single d hd =>
      rw [hexDigits_of_lt hd]
      simpa using hdigit d hd
  | digit m k hk hm ih =>
      rw [hexDigits_append hk hm, List.forall_mem_append]
      exact ⟨ih, by simpa using hdigit k hk⟩

/-- A text that begins with a word. -/
theorem inetPton6_hex (w : Nat) (rest : List UInt8) :
    inetPton6 (hexDigits w ++ rest) =
      (inetPton6Loop (hexDigits w ++ rest) (hexDigits w ++ rest) 0 0 [] none).bind
        inetPton6End := by
  obtain ⟨c, cs, hc⟩ := List.exists_cons_of_ne_nil (hexDigits_ne_nil w)
  have hne : (c == 58) = false :=
    beq_eq_false_iff_ne.mpr (ne_colon_of_mem_hexDigits c (by rw [hc]; exact List.mem_cons_self))
  rw [hc, List.cons_append, inetPton6]
  simp only [hne, Bool.false_eq_true, if_false]

/-- All words, without a run. -/
theorem inetPton6_join {ws : List Nat} (hws : ∀ w ∈ ws, w < 65536) (hlen : ws.length = 8) :
    inetPton6 (joinFrom 0 ws) = some (groups ws) := by
  cases ws with
  | nil => cases hlen
  | cons w ps =>
      obtain ⟨hw, hps⟩ := List.forall_mem_cons.mp hws
      have hall := length_groups (w :: ps)
      rw [hlen] at hall
      rw [List.length_cons] at hlen
      rw [joinFrom, if_neg (by simp), List.nil_append, inetPton6_hex,
        inetPton6Loop_end (by omega) hw hps (by simp; omega), List.nil_append]
      unfold inetPton6End
      simp [hall]

/-- The words around a run. -/
theorem inetPton6_run {i : Nat} {pre post : List Nat} (hi : i ≠ 0)
    (hpre : ∀ p ∈ pre, p < 65536) (hpost : ∀ p ∈ post, p < 65536)
    (hlen : pre.length + post.length < 8) :
    inetPton6 (joinFrom 0 pre ++ 58 :: runTail i post) =
      some (groups pre ++ List.replicate (16 - 2 * (pre.length + post.length)) 0 ++
        groups post) := by
  have hcolon : ∃ rest, runTail i post = 58 :: rest := by
    cases post with
    | nil => exact ⟨[], rfl⟩
    | cons p ps => exact ⟨_, by rw [runTail, if_neg (by simp), joinFrom_cons hi]⟩
  obtain ⟨rest, hrest⟩ := hcolon
  cases pre with
  | nil =>
      have htail := inetPton6Loop_runTail [] (runTail i post) hi hpost hlen
      rw [← htail, hrest]
      rfl
  | cons p ps =>
      obtain ⟨hp, hps⟩ := List.forall_mem_cons.mp hpre
      rw [List.length_cons] at hlen
      have hne : runTail i post ≠ [] := by simp [hrest]
      have hlen' : (hexDigits p).length ≠ 0 := by simp [hexDigits_ne_nil]
      obtain ⟨curtok', xdigits', ws, last, hws, hx, hwl, heq⟩ :=
        inetPton6Loop_words (58 :: runTail i post)
          (hexDigits p ++ (joinFrom 1 ps ++ 58 :: runTail i post)) [] none (w := p)
          Nat.one_ne_zero hlen' hps (by simp; omega)
      rw [joinFrom, if_neg (by simp), List.nil_append, List.append_assoc, inetPton6_hex,
        inetPton6Loop_hex hp, heq, List.nil_append,
        inetPton6Loop_colon hx hne (by rw [length_groups]; omega), hws]
      exact inetPton6Loop_runTail (p :: ps) _ hi hpost (by simpa using hlen)

/-! ## Reading a dotted quad at the end -/

section

variable {rest curtok out : List UInt8} {colonp : Option Nat}

/-- The digits of an octet are read as those of a word first. -/
theorem inetPton6Loop_octet (rest curtok out : List UInt8) (colonp : Option Nat) {b : Nat}
    (hb : b ≤ 255) :
    ∃ val, inetPton6Loop (digits b ++ rest) curtok 0 0 out colonp =
      inetPton6Loop rest curtok (digits b).length val out colonp := by
  induction b using Nat.base_induction 10 (by omega) generalizing rest with
  | single d hd =>
      rw [digits_of_lt hd, List.singleton_append, inetPton6Loop,
        hexDigitValue_digitByte d (by omega)]
      exact ⟨d, by simp⟩
  | digit m k hk hm ih =>
      have hlen : (digits m).length ≠ 4 := by
        have hle := (length_digits_le (n := m) (k := 3) (by omega)).mpr (by omega)
        omega
      obtain ⟨val, hval⟩ := ih (digitByte k :: rest) (by omega)
      refine ⟨val * 16 + k, ?_⟩
      rw [digits_append hk hm, List.append_assoc, List.singleton_append, hval, inetPton6Loop,
        hexDigitValue_digitByte k (by omega)]
      simp [hlen]

/-- At the first dot `inet_pton4` takes over, from where the quad began. -/
theorem inetPton6Loop_quad {w x y z : UInt8} {quad : List UInt8} (hout : out.length + 4 ≤ 16)
    (hquad : inetPton4 curtok = some quad) :
    inetPton6Loop (inetNtop4 [w, x, y, z]) curtok 0 0 out colonp =
      some (0, 0, out ++ quad, colonp) := by
  obtain ⟨val, hval⟩ := inetPton6Loop_octet
    (46 :: (digits x.toNat ++ 46 :: (digits y.toNat ++ 46 :: digits z.toNat))) curtok out colonp
    (Nat.le_of_lt_succ w.toNat_lt)
  rw [inetNtop4_eq, hval, inetPton6Loop]
  simp [hexDigitValue, hout, hquad]

end

/-! ## Writing words -/

section

variable {addr : List UInt8} {words : List Nat}

theorem ntop6Words_none (ws : List Nat) (i : Nat) :
    ntop6Words addr words none ws i = joinFrom i ws := by
  induction ws generalizing i with
  | nil => rfl
  | cons w ws ih =>
      rw [ntop6Words]
      simp [ih, joinFrom]

/-- The address is not one that ends with a dotted quad. -/
def NoQuad (words : List Nat) (best : Nat × Nat) : Prop :=
  best ≠ (0, 6) ∧ (best = (0, 5) → words[5]? ≠ some 0xffff)

variable {base len : Nat}

theorem NoQuad.cond (h : NoQuad words (base, len)) (i : Nat) :
    (i == 6 && (some (base, len) == some (0, 6) ||
      (some (base, len) == some (0, 5) && words[5]? == some 0xffff))) = false := by
  have h6 : (some (base, len) == some ((0, 6) : Nat × Nat)) = false := by
    simpa using fun hb hl => h.1 (by rw [hb, hl])
  have h5 : (some (base, len) == some ((0, 5) : Nat × Nat) &&
      words[5]? == some 0xffff) = false := by
    rw [Bool.and_eq_false_iff]
    by_cases heq : (base, len) = (0, 5)
    · exact Or.inr (by simpa using h.2 heq)
    · exact Or.inl (by simpa using fun hb hl => heq (by rw [hb, hl]))
  rw [h6, h5]
  simp

/-- The words behind the run. -/
theorem ntop6Words_post (hq : NoQuad words (base, len)) (ws : List Nat) {i : Nat}
    (hi : base + len ≤ i) :
    ntop6Words addr words (some (base, len)) ws i =
      joinFrom i ws ++ if base + len = 8 then [58] else [] := by
  induction ws generalizing i with
  | nil => rfl
  | cons w ws ih =>
      have hrun : (some (base, len)).any (fun b => b.1 ≤ i && i < b.1 + b.2) = false := by
        simp [Nat.not_lt.mpr hi]
      rw [ntop6Words]
      dsimp only
      rw [hrun, hq.cond i, ih (by omega), joinFrom]
      simp

/-- The run itself. -/
theorem ntop6Words_inRun (k : Nat) {ws : List Nat} {i : Nat} (hk : k ≤ ws.length) (hi : base < i)
    (hend : i + k = base + len) :
    ntop6Words addr words (some (base, len)) ws i =
      ntop6Words addr words (some (base, len)) (ws.drop k) (base + len) := by
  induction k generalizing ws i with
  | zero => rw [List.drop_zero, ← hend, Nat.add_zero]
  | succ k ih =>
      cases ws with
      | nil => simp at hk
      | cons w ws =>
          rw [List.length_cons] at hk
          have hrun : (some (base, len)).any (fun b => b.1 ≤ i && i < b.1 + b.2) = true := by
            simp only [Option.any_some, Bool.and_eq_true, decide_eq_true_eq]
            omega
          have hfirst : (some (base, len)).any (·.1 == i) = false := by
            simpa using Nat.ne_of_lt hi
          rw [ntop6Words]
          dsimp only
          rw [hrun, hfirst, ih (by omega) (by omega) (by omega)]
          simp

/-- The words before the run. -/
theorem ntop6Words_pre (hq : NoQuad words (base, len)) (k : Nat) {ws : List Nat} {i : Nat}
    (hk : k ≤ ws.length) (hend : i + k = base) :
    ntop6Words addr words (some (base, len)) ws i =
      joinFrom i (ws.take k) ++ ntop6Words addr words (some (base, len)) (ws.drop k) base := by
  induction k generalizing ws i with
  | zero => simp [joinFrom, ← hend]
  | succ k ih =>
      cases ws with
      | nil => simp at hk
      | cons w ws =>
          rw [List.length_cons] at hk
          have hrun : (some (base, len)).any (fun b => b.1 ≤ i && i < b.1 + b.2) = false := by
            simp only [Option.any_some, Bool.and_eq_false_iff, decide_eq_false_iff_not]
            omega
          rw [ntop6Words]
          dsimp only
          rw [hrun, hq.cond i, ih (by omega) (by omega), List.take_succ_cons, joinFrom]
          simp

/-- The first colon of the run, and what follows the run. -/
theorem ntop6Words_atRun (addr : List UInt8) (words : List Nat) (base : Nat) {len : Nat}
    (hlen : 0 < len) (hend : base + len ≤ words.length) :
    ntop6Words addr words (some (base, len)) (words.drop base) base =
      58 :: ntop6Words addr words (some (base, len)) (words.drop (base + len)) (base + len) := by
  have hrun : (some (base, len)).any (fun b => b.1 ≤ base && base < b.1 + b.2) = true := by
    simp only [Option.any_some, Bool.and_eq_true, decide_eq_true_eq]
    omega
  have hfirst : (some (base, len)).any (·.1 == base) = true := by simp
  have hdrop : base + 1 + (len - 1) = base + len := by omega
  rw [List.drop_eq_getElem_cons (by omega), ntop6Words]
  dsimp only
  rw [hrun, hfirst, ntop6Words_inRun (len - 1) (by rw [List.length_drop]; omega) (by omega)
    (by omega), List.drop_drop, hdrop, if_pos rfl, if_pos rfl]
  rfl

/-- **The text around a run.** -/
theorem ntop6Words_run (hq : NoQuad words (base, len)) (hwords : words.length = 8)
    (hlen : 0 < len) (hend : base + len ≤ 8) :
    ntop6Words addr words (some (base, len)) words 0 =
      joinFrom 0 (words.take base) ++ 58 :: runTail (base + len) (words.drop (base + len)) := by
  have htail : joinFrom (base + len) (words.drop (base + len)) ++
      (if base + len = 8 then [58] else []) = runTail (base + len) (words.drop (base + len)) := by
    unfold runTail
    by_cases h8 : base + len = 8
    · have hnil : words.drop (base + len) = [] := List.drop_eq_nil_iff.mpr (by omega)
      rw [if_pos h8, hnil, if_pos rfl]
      rfl
    · have hne : words.drop (base + len) ≠ [] := by
        rw [Ne, List.drop_eq_nil_iff]
        omega
      rw [if_neg h8, if_neg hne, List.append_nil]
  rw [ntop6Words_pre hq base (by omega) (Nat.zero_add base),
    ntop6Words_atRun addr words base hlen (by omega), ntop6Words_post hq _ le_rfl, htail]

end

/-! ## The run that is left out -/

/-- The words of the run `r` are zero. -/
structure IsRun (words : List Nat) (r : Nat × Nat) : Prop where
  inside : r.1 + r.2 ≤ words.length
  zero : ∀ j, r.1 ≤ j → j < r.1 + r.2 → words[j]? = some 0

theorem longer_cases {cur best : Option (Nat × Nat)} {r : Nat × Nat}
    (h : r ∈ bestRun.longer cur best) : r ∈ cur ∨ r ∈ best := by
  cases cur with
  | none => exact Or.inr h
  | some c =>
      cases best with
      | none => exact Or.inl h
      | some b =>
          unfold bestRun.longer at h
          dsimp only at h
          split_ifs at h
          · exact Or.inl h
          · exact Or.inr h

theorem isRun_longer {words : List Nat} {cur best : Option (Nat × Nat)}
    (hcur : ∀ c ∈ cur, IsRun words c) (hbest : ∀ b ∈ best, IsRun words b) :
    ∀ r ∈ bestRun.longer cur best, IsRun words r := by
  intro r hr
  rcases longer_cases hr with hc | hb
  · exact hcur r hc
  · exact hbest r hb

/-- `inet_ntop` finds a run of zeros, if any. -/
theorem bestRun_isRun (words ws : List Nat) {i : Nat}
    {cur best : Option (Nat × Nat)} (hws : words.drop i = ws) (hi : i ≤ words.length)
    (hcur : ∀ c ∈ cur, IsRun words c ∧ c.1 + c.2 = i) (hbest : ∀ b ∈ best, IsRun words b) :
    ∀ r ∈ bestRun ws i cur best, IsRun words r := by
  induction ws generalizing i cur best with
  | nil => exact isRun_longer (fun c hc => (hcur c hc).1) hbest
  | cons w ws ih =>
      have hlt : i < words.length := by
        by_contra hge
        rw [List.drop_eq_nil_iff.mpr (by omega)] at hws
        cases hws
      rw [List.drop_eq_getElem_cons hlt] at hws
      obtain ⟨hw, hws⟩ := List.cons_eq_cons.mp hws
      have hget : words[i]? = some w := by rw [List.getElem?_eq_getElem hlt, hw]
      -- a run that ends at `i` is open; `best` is kept from the ones that are closed
      have hnext : ∀ c, IsRun words c → c.1 + c.2 = i + 1 →
          ∀ r ∈ bestRun ws (i + 1) (some c) best, IsRun words r := by
        intro c hrun hend
        refine ih hws (by omega) ?_ hbest
        rintro c ⟨⟩
        exact ⟨hrun, hend⟩
      unfold bestRun
      split
      · rename_i hzero
        rw [hzero] at hget
        cases cur with
        | none =>
            refine hnext (i, 1) ⟨by simp; omega, fun j hj hj' => ?_⟩ rfl
            have hji : j = i := by
              simp only at hj hj'
              omega
            rw [hji, hget]
        | some c =>
            obtain ⟨base, len⟩ := c
            obtain ⟨hc, hend⟩ := hcur (base, len) rfl
            simp only at hend
            refine hnext (base, len + 1) ⟨by simp; omega, fun j hj hj' => ?_⟩ (by simp; omega)
            simp only at hj hj'
            by_cases hji : j = i
            · rw [hji, hget]
            · exact hc.zero j hj (by simp; omega)
      · exact ih hws (by omega) (by simp) (isRun_longer (fun c hc => (hcur c hc).1) hbest)

/-- Words with the run filled in. -/
theorem groups_run {words : List Nat} {base len : Nat} (h : IsRun words (base, len)) :
    groups words = groups (words.take base) ++ List.replicate (2 * len) 0 ++
      groups (words.drop (base + len)) := by
  have hinside := h.inside
  simp only at hinside
  have hzeros : (words.drop base).take len = List.replicate len 0 := by
    refine List.ext_getElem? fun j => ?_
    rw [List.getElem?_take, List.getElem?_replicate, List.getElem?_drop]
    split_ifs with hj
    · exact h.zero (base + j) (by simp) (by simp; omega)
    · rfl
  have hgroups : groups (List.replicate len 0) = List.replicate (2 * len) 0 := by
    have hmem : ∀ c ∈ groups (List.replicate len 0), c = 0 := by
      intro c hc
      obtain ⟨w, hw, hcw⟩ := List.mem_flatMap.mp hc
      rw [List.eq_of_mem_replicate hw] at hcw
      simpa [group] using hcw
    rw [List.eq_replicate_of_mem hmem, length_groups, List.length_replicate]
  calc groups words
      = groups (words.take base ++ ((words.drop base).take len ++
          (words.drop base).drop len)) := by
        rw [List.take_append_drop, List.take_append_drop]
    _ = _ := by
        rw [hzeros, groups_append, groups_append, hgroups, List.drop_drop, List.append_assoc]

/-! ## The round trip -/

/-- The words of an address. -/
def wordsOf (addr : List UInt8) : List Nat :=
  (List.range 8).map fun i =>
    256 * (addr.getD (2 * i) 0).toNat + (addr.getD (2 * i + 1) 0).toNat

theorem inetNtop6_eq (addr : List UInt8) :
    inetNtop6 addr = ntop6Words addr (wordsOf addr)
      ((bestRun (wordsOf addr) 0 none none).filter fun b => 2 ≤ b.2) (wordsOf addr) 0 := rfl

theorem length_wordsOf (addr : List UInt8) : (wordsOf addr).length = 8 := by simp [wordsOf]

theorem wordsOf_lt (addr : List UInt8) : ∀ w ∈ wordsOf addr, w < 65536 := by
  intro w hw
  obtain ⟨i, -, rfl⟩ := List.mem_map.mp hw
  have h0 := (addr.getD (2 * i) 0).toNat_lt
  have h1 := (addr.getD (2 * i + 1) 0).toNat_lt
  omega

theorem group_word (x y : UInt8) : group (256 * x.toNat + y.toNat) = [x, y] := by
  have hx := x.toNat_lt
  have hy := y.toNat_lt
  have hdiv : (256 * x.toNat + y.toNat) / 256 = x.toNat := by omega
  have hmod : (256 * x.toNat + y.toNat) % 256 = y.toNat := by omega
  rw [group, hdiv, hmod]
  simp

theorem groups_wordsOf {addr : List UInt8} (h : addr.length = 16) :
    groups (wordsOf addr) = addr := by
  match addr, h with
  | [a, b, c, d, e, f, g, i, j, k, l, m, n, o, p, q], _ =>
      simp [wordsOf, List.range, List.range.loop, groups, group_word]

/-- The dotted quad that is written for the last two words. -/
theorem ntop6Words_quad {addr : List UInt8} {words ws : List Nat} {w : Nat} {best : Nat × Nat}
    (hq : best = (0, 6) ∨ best = (0, 5) ∧ words[5]? = some 0xffff) :
    ntop6Words addr words (some best) (w :: ws) 6 = 58 :: inetNtop4 (addr.drop 12) := by
  rw [ntop6Words]
  rcases hq with rfl | ⟨rfl, h5⟩
  · rfl
  · simp [h5]

/-- What is read of a run at the start and words before a dotted quad. -/
theorem inetPton6_colons_quad {w x y z : UInt8} :
    inetPton6 (58 :: 58 :: inetNtop4 [w, x, y, z]) =
      some (List.replicate 12 0 ++ [w, x, y, z]) := by
  have hloop : inetPton6 (58 :: 58 :: inetNtop4 [w, x, y, z]) =
      (inetPton6Loop (58 :: inetNtop4 [w, x, y, z]) (58 :: inetNtop4 [w, x, y, z]) 0 0 []
        none).bind inetPton6End := rfl
  rw [hloop, inetPton6Loop_run, inetPton6Loop_quad (by simp) (inetPton4_inetNtop4 w x y z)]
  rfl

theorem inetPton6_mapped_quad {w x y z : UInt8} :
    inetPton6 (58 :: 58 :: (hexDigits 0xffff ++ 58 :: inetNtop4 [w, x, y, z])) =
      some (List.replicate 10 0 ++ [255, 255] ++ [w, x, y, z]) := by
  have hloop : ∀ t, inetPton6 (58 :: 58 :: t) =
      (inetPton6Loop (58 :: t) (58 :: t) 0 0 [] none).bind inetPton6End := fun _ => rfl
  have hne : inetNtop4 [w, x, y, z] ≠ [] := by simp [inetNtop4_eq]
  rw [hloop, inetPton6Loop_run, inetPton6Loop_hex (by omega),
    inetPton6Loop_colon (by simp [hexDigits_ne_nil]) hne (by simp),
    inetPton6Loop_quad (by simp [group]) (inetPton4_inetNtop4 w x y z)]
  rfl

/-- An address with a dotted quad at its end. -/
theorem inetPton6_quad {addr : List UInt8} {best : Nat × Nat} (h : addr.length = 16)
    (hrun : IsRun (wordsOf addr) best) (hq : ¬ NoQuad (wordsOf addr) best) :
    inetPton6 (ntop6Words addr (wordsOf addr) (some best) (wordsOf addr) 0) = some addr := by
  have hwords := length_wordsOf addr
  have hlen : (addr.drop 12).length = 4 := by rw [List.length_drop, h]
  obtain ⟨w, x, y, z, hquad⟩ : ∃ w x y z, addr.drop 12 = [w, x, y, z] := by
    match addr.drop 12, hlen with
    | [w, x, y, z], _ => exact ⟨w, x, y, z, rfl⟩
  have hcases : best = (0, 6) ∨ best = (0, 5) ∧ (wordsOf addr)[5]? = some 0xffff := by
    unfold NoQuad at hq
    by_cases h6 : best = (0, 6)
    · exact Or.inl h6
    · refine Or.inr ?_
      by_contra hne
      exact hq ⟨h6, fun h5 hw => hne ⟨h5, hw⟩⟩
  have hstart : ∀ {len : Nat}, best = (0, len) → 0 < len → len ≤ 8 →
      ntop6Words addr (wordsOf addr) (some best) (wordsOf addr) 0 =
        58 :: ntop6Words addr (wordsOf addr) (some best) ((wordsOf addr).drop len) len := by
    rintro len rfl hpos hle
    have hrun := ntop6Words_atRun addr (wordsOf addr) 0 hpos (by omega)
    simpa using hrun
  have haddr := groups_wordsOf h
  have hdrop : addr.drop 12 = groups ((wordsOf addr).drop 6) := by
    rw [groups_drop (by omega), haddr]
  have hne : (wordsOf addr).drop 6 ≠ [] := by
    rw [Ne, List.drop_eq_nil_iff]
    omega
  obtain ⟨w6, ws, h6⟩ := List.exists_cons_of_ne_nil hne
  rw [groups_run hrun] at haddr
  rcases hcases with rfl | ⟨rfl, h5⟩
  · -- `::` and the quad
    rw [hstart rfl (by omega) (by omega), h6, ntop6Words_quad (Or.inl rfl), hquad,
      inetPton6_colons_quad, ← hquad, hdrop]
    exact congrArg some haddr
  · -- `::ffff:` and the quad
    have hlt : 5 < (wordsOf addr).length := by omega
    have hget : (wordsOf addr)[5] = 0xffff := by
      rw [List.getElem?_eq_getElem hlt] at h5
      exact Option.some.inj h5
    have h5' : (wordsOf addr).drop 5 = 0xffff :: (wordsOf addr).drop 6 := by
      rw [List.drop_eq_getElem_cons hlt, hget]
    rw [Nat.zero_add, h5'] at haddr
    have hword : ntop6Words addr (wordsOf addr) (some (0, 5)) ((wordsOf addr).drop 5) 5 =
        58 :: (hexDigits 0xffff ++ 58 :: inetNtop4 (addr.drop 12)) := by
      rw [h5', ntop6Words, h6, ntop6Words_quad (Or.inr ⟨rfl, h5⟩)]
      rfl
    rw [hstart rfl (by omega) (by omega), hword, hquad, inetPton6_mapped_quad, ← hquad, hdrop]
    exact congrArg some haddr

theorem inetPton6_inetNtop6 {addr : List UInt8} (h : addr.length = 16) :
    inetPton6 (inetNtop6 addr) = some addr := by
  have hlt := wordsOf_lt addr
  have hwords := length_wordsOf addr
  rw [inetNtop6_eq]
  cases hbest : (bestRun (wordsOf addr) 0 none none).filter fun b => 2 ≤ b.2 with
  | none => rw [ntop6Words_none, inetPton6_join hlt hwords, groups_wordsOf h]
  | some best =>
      obtain ⟨hmem, hlen⟩ := Option.filter_eq_some_iff.mp hbest
      have hrun := bestRun_isRun (wordsOf addr) (wordsOf addr) (i := 0) rfl (by omega)
        (by simp) (by simp) best hmem
      by_cases hq : NoQuad (wordsOf addr) best
      · obtain ⟨base, len⟩ := best
        have hinside := hrun.inside
        simp only [decide_eq_true_eq] at hinside hlen
        have hcount : 16 - 2 * (((wordsOf addr).take base).length +
            ((wordsOf addr).drop (base + len)).length) = 2 * len := by
          rw [List.length_take, List.length_drop]
          omega
        rw [ntop6Words_run hq hwords (by omega) (by omega),
          inetPton6_run (by omega) (fun p hp => hlt p (List.mem_of_mem_take hp))
            (fun p hp => hlt p (List.mem_of_mem_drop hp))
            (by rw [List.length_take, List.length_drop]; omega),
          hcount, ← groups_run hrun, groups_wordsOf h]
      · exact inetPton6_quad h hrun hq

/-- **`inet_pton` inverts `inet_ntop`.** -/
theorem inetPton_inetNtop {family : Nat} {addr : List UInt8}
    (hfam : family = AF_INET ∨ family = AF_INET6) (hlen : addr.length = addrLen family) :
    ∃ t, inetNtop family addr = some t ∧ inetPton family t = some addr := by
  rcases hfam with rfl | rfl
  · match addr, hlen with
    | [w, x, y, z], _ => exact ⟨_, rfl, inetPton4_inetNtop4 w x y z⟩
  · exact ⟨_, rfl, inetPton6_inetNtop6 hlen⟩

/-! ## Lengths -/

theorem length_inetNtop4 (w x y z : UInt8) : (inetNtop4 [w, x, y, z]).length ≤ 15 := by
  have hlen : ∀ b : UInt8, (digits b.toNat).length ≤ 3 := by
    intro b
    have hlt := b.toNat_lt
    exact (length_digits_le (by omega)).mpr (by omega)
  have hw := hlen w
  have hx := hlen x
  have hy := hlen y
  have hz := hlen z
  rw [inetNtop4_eq]
  simp only [List.length_append, List.length_cons]
  omega

theorem length_ntop6Words {addr : List UInt8} (words : List Nat) (best : Option (Nat × Nat))
    (ws : List Nat) (i : Nat) (hws : ∀ w ∈ ws, w < 65536)
    (hquad : (inetNtop4 (addr.drop 12)).length ≤ 15) :
    (ntop6Words addr words best ws i).length ≤ 5 * ws.length + 16 := by
  induction ws generalizing i with
  | nil =>
      cases best with
      | none => simp [ntop6Words]
      | some b =>
          unfold ntop6Words
          dsimp only
          split_ifs <;> simp
  | cons w ws ih =>
      obtain ⟨hw, hws⟩ := List.forall_mem_cons.mp hws
      have hrest := ih (i + 1) hws
      have hhex : (hexDigits w).length ≤ 4 := (length_hexDigits_le (by omega)).mpr (by omega)
      rw [ntop6Words, List.length_cons]
      dsimp only
      split_ifs <;> simp only [List.length_append, List.length_singleton, List.length_nil] <;>
        omega

/-- The text of an address fits in the buffers it is written to. -/
theorem length_inetNtop {family : Nat} {addr t : List UInt8} (hlen : addr.length = addrLen family)
    (h : inetNtop family addr = some t) : t.length ≤ 56 := by
  unfold inetNtop at h
  unfold addrLen at hlen
  split_ifs at h hlen with h4 h6
  · cases h
    match addr, hlen with
    | [w, x, y, z], _ => exact (length_inetNtop4 w x y z).trans (by omega)
  · cases h
    have hdrop : (addr.drop 12).length = 4 := by rw [List.length_drop, hlen]
    have hquad : (inetNtop4 (addr.drop 12)).length ≤ 15 := by
      match addr.drop 12, hdrop with
      | [w, x, y, z], _ => exact length_inetNtop4 w x y z
    have hwords := length_ntop6Words (wordsOf addr)
      ((bestRun (wordsOf addr) 0 none none).filter fun b => 2 ≤ b.2) (wordsOf addr) 0
      (wordsOf_lt addr) hquad
    rw [length_wordsOf] at hwords
    exact hwords

end Sockmon

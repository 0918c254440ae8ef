import Mathlib.Data.UInt
import Sockmon.Lib.StringBuffer
import Sockmon.Field.AddrLine
import Sockmon.Field.CommonLine

set_option autoImplicit false

/-! # The buffer of the operand

`fp_common` and `fp_addr` store the operand in `buf` and read it from there. Both look for room
before they store a character, and neither does before it stores the terminator. So all is well
unless the operand has exactly as many characters as `buf` (`buffers_safe_iff`).
-/

namespace Sockmon

open LineScan StringBuffer

/-! ## Traces -/

/-- The stores of the operand loop of `fp_common`; `s` is the place of the pointer in `buf`. -/
def fpCommonStores (str : Bool) : List Key → Nat → List (Event UInt8)
  | [], _ => []
  | ch :: keys, s =>
      if !str && isBlank ch then fpCommonStores str keys s
      else if isNewline ch then if str then [.store s 0] else []
      else if str then
        if isprint ch then
          if bufSize ≤ s then [] else .store s (keyByte ch) :: fpCommonStores str keys (s + 1)
        else []
      else if isdigit ch then fpCommonStores str keys s
      else []

/-- The stores of the operand loop of `fp_addr`. -/
def fpAddrStores : List Key → Nat → List (Event UInt8)
  | [], _ => []
  | ch :: keys, s =>
      if isBlank ch then fpAddrStores keys s
      else if isNewline ch then [.store s 0]
      else if isAddrChar ch then
        if bufSize ≤ s then [] else .store s (keyByte ch) :: fpAddrStores keys (s + 1)
      else []

/-- `strdup(buf)`, if the first allocation succeeds. -/
def fpCommonReads (allocs : List Bool) (str : Bool) (r : Operand) : List (Event UInt8) :=
  if (!r.err && r.seenNl && r.seenInput) && allocs.getD 0 true && str then [.read 0 r.buf] else []

/-- `strrchr(buf, '/')`, the terminator at the slash, `strtol(slash)` and `inet_pton(buf)`. -/
def fpAddrReads (r : Operand) : List (Event UInt8) :=
  if !r.err && r.seenNl && r.seenInput then
    .read 0 r.buf ::
      match splitSlash r.buf with
      | some (host, slash) =>
          .store host.length 0 :: .read (host.length + 1) slash ::
            if (strtol slash).2 ≠ [] ∨ (strtol slash).1 < 0 ∨ 128 < (strtol slash).1 then []
            else [.read 0 host]
      | none => [.read 0 r.buf]
  else []

/-- What `fp_common` does with `buf`. -/
def fpCommonTrace (type : FieldType) (allocs : List Bool) (keys : List Key) :
    List (Event UInt8) :=
  match fpCommonOp keys with
  | some (.op _ keys) =>
      fpCommonStores (type = .string) keys 0 ++
        ((fpCommonOperand (type = .string) keys false 0 []).elim []
          (fpCommonReads allocs (type = .string)))
  | _ => []

/-- What `fp_addr` does with `buf`. -/
def fpAddrTrace (keys : List Key) : List (Event UInt8) :=
  match fpAddrOp keys with
  | some (.op _ keys) =>
      fpAddrStores keys 0 ++ ((fpAddrOperand keys false []).elim [] fpAddrReads)
  | _ => []

/-- The keys are an operator and a string as long as the buffer. -/
def CommonFills (type : FieldType) (keys : List Key) : Prop :=
  type = .string ∧ ∃ bl op w nl rest, keys = bl ++ (op.keys ++ (w ++ nl :: rest)) ∧
    (∀ k ∈ bl, isBlank k = true) ∧ op ∈ commonOps ∧
    (op = .gt ∨ op = .lt → w.head? ≠ some (key '=')) ∧
    (∀ k ∈ w, isprint k = true) ∧ w.length = bufSize ∧ isNewline nl = true

/-- The keys are an operator and characters of an address, as many as the buffer has room for. -/
def AddrFills (keys : List Key) : Prop :=
  ∃ bl op w nl rest, keys = bl ++ (op.keys ++ (w ++ nl :: rest)) ∧
    (∀ k ∈ bl, isBlank k = true) ∧ op ∈ addrOps ∧
    (∀ k ∈ unblank w, isAddrChar k = true) ∧ (unblank w).length = bufSize ∧ isNewline nl = true

/-! ## The loops -/

/-- The stores of a reader that terminates what it has stored. -/
def scanStores (c : Reader Key) : List Key → Nat → List (Event UInt8)
  | [], _ => []
  | k :: keys, s =>
      if c.skip k then scanStores c keys s
      else if c.stop k then [.store s 0]
      else if c.ok k then
        if c.cap.any (· ≤ s) then [] else .store s (keyByte k) :: scanStores c keys (s + 1)
      else []

theorem fpCommonStores_string (keys : List Key) (s : Nat) :
    fpCommonStores true keys s = scanStores (commonReader true) keys s := by
  induction keys generalizing s with
  | nil => rfl
  | cons k keys ih =>
      rw [fpCommonStores, scanStores, ih s, ih (s + 1)]
      simp [commonReader]

/-- A numeric field stores nothing. -/
theorem fpCommonStores_number (keys : List Key) (s : Nat) :
    fpCommonStores false keys s = [] := by
  induction keys generalizing s with
  | nil => rfl
  | cons k keys ih =>
      rw [fpCommonStores, ih]
      simp

theorem fpAddrStores_eq (keys : List Key) (s : Nat) :
    fpAddrStores keys s = scanStores addrReader keys s := by
  induction keys generalizing s with
  | nil => rfl
  | cons k keys ih =>
      rw [fpAddrStores, scanStores, ih s, ih (s + 1)]
      simp [addrReader]

section

variable {c : Reader Key} {n s : Nat} {k : Key} {keys stored : List Key}

theorem scanStores_skip (h : c.skip k = true) :
    scanStores c (k :: keys) s = scanStores c keys s := by
  rw [scanStores, if_pos h]

theorem scanStores_stop (hskip : c.skip k = false) (h : c.stop k = true) :
    scanStores c (k :: keys) s = [.store s 0] := by
  rw [scanStores, hskip, if_neg (by decide), if_pos h]

theorem scanStores_error (hskip : c.skip k = false) (hk : c.stop k = false) (h : c.ok k = false) :
    scanStores c (k :: keys) s = [] := by
  rw [scanStores, hskip, if_neg (by decide), hk, if_neg (by decide), h, if_neg (by decide)]

theorem scanStores_full (hskip : c.skip k = false) (hk : c.stop k = false) (hok : c.ok k = true)
    (hcap : c.cap = some n) (h : n ≤ s) : scanStores c (k :: keys) s = [] := by
  rw [scanStores, hskip, if_neg (by decide), hk, if_neg (by decide), if_pos hok, hcap,
    if_pos (by simpa using h)]

theorem scanStores_store (hskip : c.skip k = false) (hk : c.stop k = false) (hok : c.ok k = true)
    (hcap : c.cap = some n) (h : s < n) :
    scanStores c (k :: keys) s = .store s (keyByte k) :: scanStores c keys (s + 1) := by
  rw [scanStores, hskip, if_neg (by decide), hk, if_neg (by decide), if_pos hok, hcap,
    if_neg (by simpa using h)]

/-- The reader takes no line, and stores no more than there is room for. -/
def StoresPart (c : Reader Key) (n : Nat) (keys stored : List Key) : Prop :=
  ∃ t : List UInt8, stored.length + t.length ≤ n ∧
    scanStores c keys stored.length = pushes stored.length t ∧
    ∀ r, scan c keys stored = some r → r.good = false

/-- The reader takes a line, and stores it with its terminator. -/
def StoresLine (c : Reader Key) (keys stored : List Key) : Prop :=
  ∃ w nl rest, keys = w ++ nl :: rest ∧ IsLine c.stop w ∧ c.stop nl = true ∧ c.Takes stored w ∧
    scanStores c keys stored.length = pushes stored.length ((c.kept w).map keyByte) ++
      [.store (stored.length + (c.kept w).length) 0]

/-- A reader that stores nothing more. -/
theorem StoresPart.nil (hlen : stored.length ≤ n) (hes : scanStores c keys stored.length = [])
    (hscan : ∀ r, scan c keys stored = some r → r.good = false) : StoresPart c n keys stored :=
  ⟨[], by simpa, hes, hscan⟩

theorem StoresPart.skip (hskip : c.skip k = true) (h : StoresPart c n keys stored) :
    StoresPart c n (k :: keys) stored := by
  obtain ⟨t, ht, hes, hbad⟩ := h
  exact ⟨t, ht, (scanStores_skip hskip).trans hes, by rwa [scan_skip hskip]⟩

/-- Nothing is stored for a character that is skipped, but it belongs to the line. -/
theorem StoresLine.skip (hstop : ∀ k, c.stop k = true → c.skip k = false)
    (hskip : c.skip k = true) (h : StoresLine c keys stored) : StoresLine c (k :: keys) stored := by
  obtain ⟨w, nl, rest, rfl, hw, hnl, ht, hes⟩ := h
  have hk : c.stop k = false := by
    cases hk : c.stop k with
    | false => rfl
    | true =>
        rw [hstop k hk] at hskip
        cases hskip
  refine ⟨k :: w, nl, rest, rfl, isLine_cons.mpr ⟨hk, hw⟩, hnl,
    (Reader.takes_cons_skip hskip).mpr ht, ?_⟩
  rw [Reader.kept_cons_skip hskip]
  exact (scanStores_skip hskip).trans hes

theorem StoresPart.store (hskip : c.skip k = false) (hk : c.stop k = false) (hok : c.ok k = true)
    (hcap : c.cap = some n) (hroom : stored.length < n) (h : StoresPart c n keys (stored ++ [k])) :
    StoresPart c n (k :: keys) stored := by
  have hfull : c.full stored = false := (Reader.full_eq_false_iff hcap).mpr hroom
  obtain ⟨t, ht, hes, hbad⟩ := h
  rw [List.length_append, List.length_singleton] at ht hes
  refine ⟨keyByte k :: t, ?_, ?_, by rwa [scan_store hskip hk hok hfull]⟩
  · rw [List.length_cons]
    omega
  · rw [scanStores_store hskip hk hok hcap hroom, hes]
    rfl

theorem StoresLine.store (hskip : c.skip k = false) (hk : c.stop k = false) (hok : c.ok k = true)
    (hcap : c.cap = some n) (hroom : stored.length < n) (h : StoresLine c keys (stored ++ [k])) :
    StoresLine c (k :: keys) stored := by
  have hfull : c.full stored = false := (Reader.full_eq_false_iff hcap).mpr hroom
  obtain ⟨w, nl, rest, rfl, hw, hnl, ht, hes⟩ := h
  rw [List.length_append, List.length_singleton] at hes
  refine ⟨k :: w, nl, rest, rfl, isLine_cons.mpr ⟨hk, hw⟩, hnl,
    (Reader.takes_cons hskip).mpr ⟨hok, hfull, ht⟩, ?_⟩
  have hplace : stored.length + 1 + (c.kept w).length =
      stored.length + ((c.kept w).length + 1) := by omega
  rw [scanStores_store hskip hk hok hcap hroom, hes, Reader.kept_cons hskip, List.length_cons,
    List.map_cons, hplace]
  rfl

/-- **A reader either takes no line**, and stores no more than there is room for, **or takes one**,
and stores it with its terminator. -/
theorem scanStores_cases (hcap : c.cap = some n) (hstop : ∀ k, c.stop k = true → c.skip k = false)
    (keys : List Key) {stored : List Key} (hstored : stored.length ≤ n) :
    StoresPart c n keys stored ∨ StoresLine c keys stored := by
  induction keys generalizing stored with
  | nil => exact Or.inl (.nil hstored rfl (by simp [scan]))
  | cons k keys ih =>
      cases hskip : c.skip k with
      | true => exact (ih hstored).imp (.skip hskip) (.skip hstop hskip)
      | false =>
          cases hk : c.stop k with
          | true =>
              -- The end of the line: the terminator is stored without a look at the room.
              refine Or.inr ⟨[], k, keys, rfl, isLine_nil, hk, ⟨by simp [Reader.kept], ?_⟩,
                scanStores_stop hskip hk⟩
              intro m hm
              rw [hcap] at hm
              cases hm
              simpa [Reader.kept] using hstored
          | false =>
              cases hok : c.ok k with
              | false =>
                  refine Or.inl (.nil hstored (scanStores_error hskip hk hok) ?_)
                  rw [scan_error hskip hk hok]
                  rintro r ⟨⟩
                  rfl
              | true =>
                  rcases Nat.lt_or_ge stored.length n with hroom | hroom
                  · have hfits : (stored ++ [k]).length ≤ n := by
                      rw [List.length_append, List.length_singleton]
                      omega
                    exact (ih hfits).imp (.store hskip hk hok hcap hroom)
                      (.store hskip hk hok hcap hroom)
                  · refine Or.inl (.nil hstored (scanStores_full hskip hk hok hcap hroom) ?_)
                    rw [scan_full hskip hk hok ((Reader.full_iff hcap).mpr hroom)]
                    rintro r ⟨⟩
                    rfl

/-- Storing a string and its terminator, and reading it, is safe if there is room for both. -/
theorem safe_string_iff {size : Nat} {t : List UInt8} {es : List (Event UInt8)}
    (ht : t.length ≤ size) (hes : ∀ m, IsString size m 0 t → SafeFrom size m es)
    (hne : ∀ b ∈ t, b ≠ 0) :
    Safe size (pushes 0 t ++ .store t.length 0 :: es) ↔ t.length < size := by
  have hlen : 0 + t.length ≤ size := by omega
  constructor
  · intro h
    have hsafe := (safeFrom_pushes hlen).mp (h fun _ => 0)
    exact hsafe.1
  · intro hlt m
    refine (safeFrom_pushes hlen).mpr ⟨hlt, hes _ ?_⟩
    have hstring : IsString size (Function.update (pushed m 0 t) (0 + t.length) 0) 0 t :=
      isString_pushed hne (by omega)
    rwa [Nat.zero_add] at hstring

/-- Characters without a terminator, and nothing read. -/
theorem safe_pushes {size : Nat} {t : List UInt8} (ht : t.length ≤ size) :
    Safe size (pushes 0 t) := by
  intro m
  rw [← List.append_nil (pushes 0 t)]
  exact (safeFrom_pushes (by omega)).mpr trivial

/-- The stream is a line that is taken, with as much stored as there is room for. -/
def Fills (c : Reader Key) (n : Nat) (ks : List Key) : Prop :=
  ∃ w nl rest, ks = w ++ nl :: rest ∧ IsLine c.stop w ∧ c.stop nl = true ∧
    (∀ k ∈ c.kept w, c.ok k = true) ∧ (c.kept w).length = n

/-- A character that is not the terminator. -/
theorem keyByte_ne_zero {k : Key} (h : 0 < k ∧ k < 256) : keyByte k ≠ 0 := by
  intro he
  have hk := toNat_keyByte ⟨h.1.le, h.2⟩
  rw [he] at hk
  exact absurd h.1 (by rw [← hk]; decide)

/-- **A reader with a buffer** is safe unless the line fills it: then the terminator has no room.
What is done with the string (`reads`) is safe once it is there. -/
theorem scan_safe_iff (hcap : c.cap = some n)
    (hstop : ∀ k, c.stop k = true → c.skip k = false)
    (hok : ∀ k, c.ok k = true → 0 < k ∧ k < 256) {reads : Result Key → List (Event UInt8)}
    (hbad : ∀ r, r.good = false → reads r = [])
    (hgood : ∀ t rest m, (∀ k ∈ t, c.ok k = true) → IsString n m 0 (t.map keyByte) →
      SafeFrom n m (reads ⟨true, t, rest⟩)) (ks : List Key) :
    Safe n (scanStores c ks 0 ++ (scan c ks []).elim [] reads) ↔ ¬ Fills c n ks := by
  have hscan : ∀ {w rest : List Key} {nl : Key}, ks = w ++ nl :: rest → IsLine c.stop w →
      c.stop nl = true → (∀ k ∈ c.kept w, c.ok k = true) → (c.kept w).length ≤ n →
      scan c ks [] = some ⟨true, c.kept w, rest⟩ := by
    rintro w rest nl rfl hw hnl hkept hlen
    refine scan_good hstop hw hnl ⟨hkept, fun m hm => ?_⟩
    rw [hcap] at hm
    cases hm
    exact hlen
  rcases scanStores_cases hcap hstop ks (List.length_nil.trans_le (Nat.zero_le n)) with
    ⟨t, ht, hes, hno⟩ | ⟨w, nl, rest, hks, hw, hnl, htakes, hes⟩
  · have hreads : (scan c ks []).elim [] reads = [] := by
      cases hr : scan c ks [] with
      | none => rfl
      | some r => exact hbad r (hno r hr)
    rw [List.length_nil] at hes ht
    rw [hes, hreads, List.append_nil]
    refine iff_of_true (safe_pushes (by omega)) ?_
    rintro ⟨w, nl, rest, hks, hw, hnl, hkept, hlen⟩
    have htrue := hno _ (hscan hks hw hnl hkept hlen.le)
    cases htrue
  · have hlen : (c.kept w).length ≤ n := htakes.2 n hcap
    have hbytes : ∀ b ∈ (c.kept w).map keyByte, b ≠ 0 := by
      intro b hb
      obtain ⟨k, hk, rfl⟩ := List.mem_map.mp hb
      exact keyByte_ne_zero (hok k (htakes.1 k hk))
    have hread : ∀ m, IsString n m 0 ((c.kept w).map keyByte) →
        SafeFrom n m (reads ⟨true, c.kept w, rest⟩) := fun m hm => hgood _ rest m htakes.1 hm
    have hsafe := safe_string_iff (by simpa using hlen) hread hbytes
    rw [List.length_map] at hsafe
    rw [List.length_nil, Nat.zero_add] at hes
    rw [hes, hscan hks hw hnl htakes.1 hlen, List.append_assoc, List.singleton_append]
    refine hsafe.trans ⟨?_, fun hfull => ?_⟩
    · -- Another line that the stream might be would be read the same.
      rintro hlt ⟨w', nl', rest', hks', hw', hnl', hkept', hlen'⟩
      have heq := hscan hks hw hnl htakes.1 hlen
      rw [hscan hks' hw' hnl' hkept' hlen'.le] at heq
      injection heq with heq
      injection heq with _ hkw
      rw [← hkw] at hlt
      omega
    · by_contra hge
      exact hfull ⟨w, nl, rest, hks, hw, hnl, htakes.1, by omega⟩

end

/-! ## Safe buffers -/

theorem notDoubled_line {op : CmpOp} {w rest : List Key} {nl : Key} (hnl : isNewline nl = true) :
    NotDoubled op (w ++ nl :: rest) ↔ (op = .gt ∨ op = .lt → w.head? ≠ some (key '=')) := by
  refine forall_congr' fun _ => ?_
  cases w with
  | nil => exact iff_of_true ⟨nl, rest, rfl, ne_eq_of_blank (Or.inr hnl)⟩ (by simp)
  | cons c w =>
      constructor
      · rintro ⟨d, cs, heq, hne⟩ hhead
        cases heq
        exact hne (Option.some.inj hhead)
      · exact fun hne => ⟨c, w ++ nl :: rest, rfl, fun he => hne (congrArg some he)⟩

/-- A string as long as the buffer, behind an operator. -/
theorem commonFills_iff {keys ks : List Key} {op : CmpOp}
    (hop : fpCommonOp keys = some (.op op ks)) :
    CommonFills .string keys ↔ Fills (commonReader true) bufSize ks := by
  constructor
  · rintro ⟨-, bl, op', w, nl, rest, rfl, hbl, hmem, hdouble, hw, hlen, hnl⟩
    rw [fpCommonOp_of_split hbl hmem ((notDoubled_line hnl).mpr hdouble)] at hop
    cases hop
    refine ⟨w, nl, rest, rfl, fun k hk => isNewline_of_print (hw k hk), hnl, ?_, ?_⟩
    · rw [kept_string]
      exact hw
    · rw [kept_string]
      exact hlen
  · rintro ⟨w, nl, rest, rfl, -, hnl, hw, hlen⟩
    obtain ⟨bl, hkeys, hbl, hmem, hdouble⟩ := fpCommonOp_split hop
    rw [kept_string] at hw hlen
    exact ⟨rfl, bl, op, w, nl, rest, hkeys, hbl, hmem, (notDoubled_line hnl).mp hdouble, hw, hlen,
      hnl⟩

/-- `buf` in `fp_common`. -/
theorem fpCommonTrace_safe_iff (type : FieldType) (allocs : List Bool) (keys : List Key) :
    Safe bufSize (fpCommonTrace type allocs keys) ↔ ¬ CommonFills type keys := by
  unfold fpCommonTrace
  split
  · rename_i op ks hop
    by_cases hstr : type = .string
    · -- The string is read if the first allocation succeeds, by `strdup`.
      subst hstr
      rw [commonFills_iff hop, decide_eq_true rfl, fpCommonStores_string, fpCommonOperand_scan,
        Option.elim_map]
      refine scan_safe_iff rfl (fun _ _ => rfl) (fun k hk => print_range hk) ?_ ?_ ks
      · intro r hr
        simp [fpCommonReads, commonOperand, hr]
      · intro t rest m ht hm
        dsimp only [Function.comp_apply, fpCommonReads]
        split_ifs
        · exact ⟨hm, trivial⟩
        · exact trivial
    · have hreads : (fpCommonOperand false ks false 0 []).elim [] (fpCommonReads allocs false) =
          [] := by
        cases fpCommonOperand false ks false 0 [] with
        | none => rfl
        | some r => simp [fpCommonReads]
      rw [decide_eq_false hstr, fpCommonStores_number, hreads]
      exact iff_of_true (fun _ => trivial) fun hfull => hstr hfull.1
  · rename_i hno
    refine iff_of_true (fun _ => trivial) ?_
    rintro ⟨-, bl, op, w, nl, rest, rfl, hbl, hmem, hdouble, -, -, hnl⟩
    exact hno op _ (fpCommonOp_of_split hbl hmem ((notDoubled_line hnl).mpr hdouble))

theorem splitSlash_some {t host p : List UInt8} (h : splitSlash t = some (host, p)) :
    t = host ++ 47 :: p := by
  by_cases hslash : 47 ∈ t
  · obtain ⟨host', p', rfl, hno⟩ := exists_lastSlash hslash
    rw [splitSlash_append hno] at h
    cases h
    rfl
  · rw [splitSlash_none hslash] at h
    cases h

/-- What `fp_addr` does with the string is safe: it is cut at the slash. -/
theorem fpAddrReads_safe {r : Operand} {n : Nat} {m : Nat → UInt8}
    (hm : IsString n m 0 r.buf) : SafeFrom n m (fpAddrReads r) := by
  unfold fpAddrReads
  split_ifs
  · refine ⟨hm, ?_⟩
    cases hsplit : splitSlash r.buf with
    | none => exact ⟨hm, trivial⟩
    | some p =>
        obtain ⟨host, slash⟩ := p
        rw [splitSlash_some hsplit] at hm
        have hinside := hm.inside
        have hlen : (host ++ 47 :: slash).length = host.length + (slash.length + 1) := by simp
        obtain ⟨hhost, hslash⟩ := hm.split
        rw [Nat.zero_add] at hhost hslash
        refine ⟨by omega, hslash, ?_⟩
        split_ifs
        · exact trivial
        · exact ⟨hhost, trivial⟩
  · exact trivial

/-- An address text as long as the buffer, behind an operator. -/
theorem addrFills_iff {keys ks : List Key} {op : CmpOp} (hop : fpAddrOp keys = some (.op op ks)) :
    AddrFills keys ↔ Fills addrReader bufSize ks := by
  constructor
  · rintro ⟨bl, op', w, nl, rest, rfl, hbl, hmem, hw, hlen, hnl⟩
    rw [fpAddrOp_of_split hbl hmem] at hop
    cases hop
    exact ⟨w, nl, rest, rfl, isLine_unblank hw, hnl, hw, hlen⟩
  · rintro ⟨w, nl, rest, rfl, -, hnl, hw, hlen⟩
    obtain ⟨bl, hkeys, hbl, hmem⟩ := fpAddrOp_split hop
    exact ⟨bl, op, w, nl, rest, hkeys, hbl, hmem, hw, hlen, hnl⟩

/-- `buf` in `fp_addr`. -/
theorem fpAddrTrace_safe_iff (keys : List Key) :
    Safe bufSize (fpAddrTrace keys) ↔ ¬ AddrFills keys := by
  unfold fpAddrTrace
  split
  · rename_i op ks hop
    rw [addrFills_iff hop, fpAddrStores_eq, fpAddrOperand_scan, Option.elim_map]
    refine scan_safe_iff rfl (fun _ hk => not_blank_of_newline hk) (fun k hk => ?_) ?_ ?_ ks
    · obtain ⟨hge, hle⟩ := addrChar_range hk
      exact ⟨lt_of_lt_of_le (by decide) hge, lt_of_le_of_lt hle (by decide)⟩
    · intro r hr
      simp [fpAddrReads, addrOperand, hr]
    · intro t rest m ht hm
      exact fpAddrReads_safe (r := addrOperand ⟨true, t, rest⟩) hm
  · rename_i hno
    refine iff_of_true (fun _ => trivial) ?_
    rintro ⟨bl, op, w, nl, rest, rfl, hbl, hmem, -, -, hnl⟩
    exact hno op _ (fpAddrOp_of_split hbl hmem)

/-- **The buffer of `fp_common` and of `fp_addr`** is written and read inside, and what is read
ends inside, for all streams of keys but those with an operand as long as the buffer. -/
theorem buffers_safe_iff (type : FieldType) (allocs : List Bool) (keys : List Key) :
    (Safe bufSize (fpCommonTrace type allocs keys) ↔ ¬ CommonFills type keys) ∧
      (Safe bufSize (fpAddrTrace keys) ↔ ¬ AddrFills keys) :=
  ⟨fpCommonTrace_safe_iff type allocs keys, fpAddrTrace_safe_iff keys⟩

/-- The terminator of a string of 80 characters is stored behind the buffer. -/
theorem eighty_overflows :
    ¬ ∀ (type : FieldType) (allocs : List Bool) (keys : List Key),
      Safe bufSize (fpCommonTrace type allocs keys) ∧ Safe bufSize (fpAddrTrace keys) := by
  intro h
  have hfills : CommonFills .string (key '=' :: (List.replicate 80 (key 'a') ++ [key '\n'])) :=
    ⟨rfl, [], .eq, List.replicate 80 (key 'a'), key '\n', [], rfl, by simp, by decide,
      by decide, by decide, by decide, rfl⟩
  exact (fpCommonTrace_safe_iff .string [] _).mp (h .string [] _).1 hfills

end Sockmon

import Mathlib.Data.List.TakeWhile
import Mathlib.Tactic

set_option autoImplicit false

/-! # The C types and library functions the program rests on

The program is read as compiled for x86-64 Linux with glibc and the "C" locale: `int` has 32
bits and wraps, `char` is signed, multi-byte integers and bit-fields are little-endian.

Unsigned quantities are natural numbers with their `% 2 ^ w` written out, `int`s are
integers kept in range by `i32`, and bit masks are `BitVec 32`. What C leaves undefined and
the machine does not (a read through a null or wild pointer, a shift by the width of its
operand or more) has no result: the functions of the model then return `none`.
-/

namespace Sockmon

/-- A computation with a result went through its first part. -/
theorem bind_some {α β : Type} {x : Option α} {f : α → Option β} {b : β}
    (h : (x >>= f) = some b) : ∃ a, x = some a ∧ f a = some b :=
  Option.bind_eq_some_iff.mp h

/-! ## Integers -/

def INT_MAX : Int := 2147483647

/-- The `int` that the mathematical integer `x` is stored as. -/
def i32 (x : Int) : Int := (x + 2147483648) % 4294967296 - 2147483648

theorem i32_of_range {x : Int} (h : -2147483648 ≤ x ∧ x ≤ INT_MAX) : i32 x = x := by
  simp only [i32, INT_MAX] at *; omega

theorem i32_range (x : Int) : -2147483648 ≤ i32 x ∧ i32 x ≤ INT_MAX := by
  simp only [i32, INT_MAX]; omega

theorem i32_i32 (x : Int) : i32 (i32 x) = i32 x := i32_of_range (i32_range x)

/-- Counting down. -/
theorem i32_sub_one (nr : Int) (k : Nat) : i32 (i32 (nr - 1) - k) = i32 (nr - (k + 1 : Nat)) := by
  unfold i32
  push_cast
  omega

/-- `1U << k` -/
def bit (k : Nat) : BitVec 32 := 1#32 <<< k

/-- `x & (1U << k)` as a truth value. -/
def hasBit (x : BitVec 32) (k : Nat) : Bool := x &&& bit k != 0#32

@[simp] theorem getLsbD_bit (j k : Nat) : (bit j).getLsbD k = decide (k < 32 ∧ k = j) := by
  unfold bit
  by_cases hk : k < 32
  · rcases Nat.lt_trichotomy k j with h | h | h
    · simp [hk, h, Nat.ne_of_lt h]
    · subst h; simp [hk]
    · have hne : k - j ≠ 0 := by omega
      simp [hk, hne, Nat.ne_of_gt h]
  · simp [hk]

/-- Testing a bit reads it. -/
theorem hasBit_eq (x : BitVec 32) (k : Nat) : hasBit x k = x.getLsbD k := by
  unfold hasBit
  rw [Bool.eq_iff_iff, bne_iff_ne]
  constructor
  · intro h
    by_contra hk
    refine h (BitVec.eq_of_getLsbD_eq fun i hi => ?_)
    rw [BitVec.getLsbD_and, getLsbD_bit, BitVec.getLsbD_zero]
    by_cases hik : i = k
    · subst hik; simp [hk]
    · simp [hik]
  · intro h hzero
    have hk : k < 32 := BitVec.lt_of_getLsbD h
    have hbit : (x &&& bit k).getLsbD k = (0#32).getLsbD k := by rw [hzero]
    rw [BitVec.getLsbD_and, h, getLsbD_bit, BitVec.getLsbD_zero] at hbit
    simp [hk] at hbit

@[simp] theorem hasBit_or (x y : BitVec 32) (k : Nat) :
    hasBit (x ||| y) k = (hasBit x k || hasBit y k) := by
  simp [hasBit_eq]

@[simp] theorem hasBit_bit (j k : Nat) : hasBit (bit j) k = decide (k < 32 ∧ k = j) := by
  rw [hasBit_eq, getLsbD_bit]

@[simp] theorem hasBit_zero (k : Nat) : hasBit 0 k = false := by simp [hasBit_eq]

theorem hasBit_ext {x y : BitVec 32} (h : ∀ k, hasBit x k = hasBit y k) : x = y := by
  refine BitVec.eq_of_getLsbD_eq fun k _ => ?_
  rw [← hasBit_eq, ← hasBit_eq, h k]

/-! ## Bytes in memory -/

/-- The bytes a pointer points at: `p i` is the `i`-th byte from it on. -/
abbrev Ptr : Type := Nat → UInt8

/-- `p + n` -/
def Ptr.add (p : Ptr) (n : Nat) : Ptr := fun i => p (n + i)

def rdU8 (p : Ptr) : Nat := (p 0).toNat
def rdU16 (p : Ptr) : Nat := (p 0).toNat + 256 * (p 1).toNat
def rdU32 (p : Ptr) : Nat := rdU16 p + 65536 * rdU16 (p.add 2)
def rdU64 (p : Ptr) : Nat := rdU32 p + 4294967296 * rdU32 (p.add 4)

/-- The bit-field of `n` bits that starts at bit `lo` of the first byte. -/
def rdBits (p : Ptr) (lo n : Nat) : Nat := rdU8 p / 2 ^ lo % 2 ^ n

theorem rdBits_lt (p : Ptr) (lo n : Nat) : rdBits p lo n < 2 ^ n :=
  Nat.mod_lt _ (Nat.two_pow_pos n)

/-- `ntohs` of the 16-bit word at `p`. -/
def rdBe16 (p : Ptr) : Nat := 256 * (p 0).toNat + (p 1).toNat

/-- `ntohl` of the 32-bit word at `p`. -/
def rdBe32 (p : Ptr) : Nat := 65536 * rdBe16 p + rdBe16 (p.add 2)

/-- The value of a byte read as a (signed) `char`. -/
def schar (b : UInt8) : Int := if b.toNat < 128 then b.toNat else b.toNat - 256

/-- The first `n` bytes at `p`. -/
def Ptr.take (p : Ptr) (n : Nat) : List UInt8 := (List.range n).map p

/-- The string at `p`, read up to its NUL or to the `n`-th byte. -/
def cstr (p : Ptr) (n : Nat) : List UInt8 := (p.take n).takeWhile (· != 0)

theorem cstr_ne_zero {p : Ptr} {n : Nat} : ∀ c ∈ cstr p n, c ≠ 0 := by
  intro c hc
  have := List.mem_takeWhile_imp hc
  simpa using this

/-! ## Characters -/

/-- What `wgetch` returns: a character code, a key code or `ERR`. -/
abbrev Key : Type := Int

/-- The code of the character `c`. -/
def key (c : Char) : Key := c.toNat

/-- The bytes of a string literal. -/
def bytes (s : String) : List UInt8 := s.toList.map fun c => c.toNat.toUInt8

def isdigit (ch : Int) : Bool := 48 ≤ ch && ch ≤ 57
def isxdigit (ch : Int) : Bool := isdigit ch || (65 ≤ ch && ch ≤ 70) || (97 ≤ ch && ch ≤ 102)
def isprint (ch : Int) : Bool := 32 ≤ ch && ch ≤ 126

/-- A space or a tab. -/
def isBlank (ch : Key) : Bool := ch == 32 || ch == 9

/-- A newline or a carriage return. -/
def isNewline (ch : Key) : Bool := ch == 10 || ch == 13

/-! ## Numerals -/

/-- The value of a string of decimal digits. -/
def decimal (s : List UInt8) : Nat := s.foldl (fun v c => v * 10 + (c.toNat - 48)) 0

/-- `strtol(s, &endp, 10)`: the value and the rest of the string at `endp`. Without a digit
`endp` is `s`; a value out of range is clamped to the range of `long`. -/
def strtol (s : List UInt8) : Int × List UInt8 :=
  let isspace := fun c : UInt8 => c == 32 || (9 ≤ c && c ≤ 13)
  let isdig := fun c : UInt8 => isdigit c.toNat
  let t := s.dropWhile isspace
  let neg := t.head? == some 45
  let t := if neg || t.head? == some 43 then t.tail else t
  let ds := t.takeWhile isdig
  if ds = [] then (0, s)
  else
    let v : Int := decimal ds
    ((if neg then max (-v) (-9223372036854775808) else min v 9223372036854775807),
      t.dropWhile isdig)

/-- The decimal digits of `v`, as `printf` writes them. -/
def digits (v : Nat) : List UInt8 := (Nat.toDigits 10 v).map fun c => c.toNat.toUInt8

/-- The lower-case hexadecimal digits of `v`. -/
def hexDigits (v : Nat) : List UInt8 := (Nat.toDigits 16 v).map fun c => c.toNat.toUInt8

end Sockmon

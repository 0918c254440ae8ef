import Mathlib.Tactic

set_option autoImplicit false

/-! # Prefixes of bit strings

Bytes are read as one string of bits, the highest bit of a byte first. Two strings agree in their
first `p` bits if their bytes agree under a mask of `p` ones (`masked_eq_iff`).
-/

namespace BitPrefix

/-- The `i`-th bit of the bytes `a`. -/
def bit (a : Nat → UInt8) (i : Nat) : Bool := (a (i / 8)).toNat.testBit (7 - i % 8)

/-- In the first `n` bytes, `m` has `p` ones and then zeros. -/
def IsMask (m : Nat → UInt8) (n p : Nat) : Prop := ∀ i < 8 * n, bit m i = decide (i < p)

variable {a b m : Nat → UInt8} {n p : Nat}

/-- A byte is its eight bits. -/
theorem byte_ext {x y : UInt8} (h : ∀ j < 8, x.toNat.testBit j = y.toNat.testBit j) : x = y := by
  refine UInt8.toNat_inj.mp (Nat.eq_of_testBit_eq fun j => ?_)
  by_cases hj : j < 8
  · exact h j hj
  · have hpow : 2 ^ 8 ≤ 2 ^ j := Nat.pow_le_pow_right (by omega) (by omega)
    have hx := x.toNat_lt
    have hy := y.toNat_lt
    rw [Nat.testBit_lt_two_pow (by omega), Nat.testBit_lt_two_pow (by omega)]

/-- The bit `j` of the byte `i`, the lowest one being 0. -/
theorem bit_byte (i : Nat) {j : Nat} (hj : j < 8) :
    bit a (8 * i + (7 - j)) = (a i).toNat.testBit j := by
  have hdiv : (8 * i + (7 - j)) / 8 = i := by omega
  have hmod : 7 - (8 * i + (7 - j)) % 8 = j := by omega
  unfold bit
  rw [hdiv, hmod]

/-- Bytes are equal if their bits are. -/
theorem bytes_eq_iff : (∀ i < n, a i = b i) ↔ ∀ i < 8 * n, bit a i = bit b i := by
  constructor
  · intro h i hi
    unfold bit
    rw [h (i / 8) (by omega)]
  · intro h i hi
    refine byte_ext fun j hj => ?_
    rw [← bit_byte i hj, ← bit_byte i hj]
    exact h _ (by omega)

@[simp] theorem bit_and (i : Nat) : bit (fun k => a k &&& b k) i = (bit a i && bit b i) := by
  simp [bit]

/-- **Equality under a mask** is agreement of the first bits. -/
theorem masked_eq_iff (hm : IsMask m n p) (hp : p ≤ 8 * n) :
    (∀ i < n, a i &&& m i = b i &&& m i) ↔ ∀ i < p, bit a i = bit b i := by
  rw [bytes_eq_iff (a := fun k => a k &&& m k) (b := fun k => b k &&& m k)]
  constructor
  · intro h i hi
    have hbit := h i (by omega)
    rw [bit_and, bit_and, hm i (by omega), decide_eq_true hi, Bool.and_true, Bool.and_true] at hbit
    exact hbit
  · intro h i hi
    rw [bit_and, bit_and, hm i hi]
    by_cases hip : i < p
    · rw [h i hip]
    · rw [decide_eq_false hip, Bool.and_false, Bool.and_false]

end BitPrefix

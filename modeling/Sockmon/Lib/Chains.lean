import Mathlib.Data.Nat.Log
import Mathlib.Tactic

set_option autoImplicit false

/-! # Hash tables with chains

A table is the list of its buckets, and a bucket the list of its entries. `total` counts the
entries. A table of `2 ^ k` buckets is indexed by the upper `k` bits of a word
(`index_lt`), and the least such size for `n` entries has `k = Nat.clog 2 n`.
-/

namespace Chains

variable {α : Type*}

/-- The number of entries. -/
def total (hb : List (List α)) : Nat := (hb.map List.length).sum

@[simp] theorem total_cons (c : List α) (hb : List (List α)) :
    total (c :: hb) = c.length + total hb := by
  simp [total]

@[simp] theorem total_replicate (n : Nat) : total (List.replicate n ([] : List α)) = 0 := by
  simp [total]

/-- Emptying every bucket. -/
@[simp] theorem total_clear (hb : List (List α)) :
    total (hb.map fun _ => ([] : List α)) = 0 := by
  induction hb with
  | nil => rfl
  | cons c hb ih => simp

/-- Adding an entry behind the others of its bucket. -/
theorem total_set {hb : List (List α)} {h : Nat} {c : List α} (o : α) (hc : hb[h]? = some c) :
    total (hb.set h (c ++ [o])) = total hb + 1 := by
  induction hb generalizing h with
  | nil => simp at hc
  | cons d hb ih =>
      cases h with
      | zero =>
          obtain rfl : d = c := by simpa using hc
          calc total ((d ++ [o]) :: hb) = d.length + 1 + total hb := by simp
            _ = total (d :: hb) + 1 := by rw [total_cons]; omega
      | succ h =>
          have hrest : total (hb.set h (c ++ [o])) = total hb + 1 := ih (by simpa using hc)
          calc total (d :: hb.set h (c ++ [o])) = d.length + (total hb + 1) := by
                rw [total_cons, hrest]
            _ = total (d :: hb) + 1 := by rw [total_cons]; omega

/-- The upper `k` bits of a `w`-bit word index a table of `2 ^ k` buckets. -/
theorem index_lt {w k x : Nat} (hk : k ≤ w) : x % 2 ^ w / 2 ^ (w - k) < 2 ^ k := by
  have hx : x % 2 ^ w < 2 ^ (w - k) * 2 ^ k := by
    calc x % 2 ^ w < 2 ^ w := Nat.mod_lt x (Nat.two_pow_pos w)
      _ = 2 ^ (w - k) * 2 ^ k := by rw [← Nat.pow_add, Nat.sub_add_cancel hk]
  exact Nat.div_lt_of_lt_mul hx

end Chains

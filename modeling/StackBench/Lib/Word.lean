import Mathlib.Data.Nat.Bitwise
import Mathlib.Data.UInt
import StackBench.Lib.Circular

/-!
# Machine words as numbers

Sums and differences of 32-bit words that stay in the word, the larger of two
words, the advance of a position, and words that pack a byte above 24 bits.
-/

namespace Word

theorem add_toNat {a b : UInt32} (h : a.toNat + b.toNat < 2 ^ 32) :
    (a + b).toNat = a.toNat + b.toNat := by
  rw [UInt32.toNat_add]
  exact Nat.mod_eq_of_lt h

theorem sub_toNat {a b : UInt32} (h : b.toNat ≤ a.toNat) : (a - b).toNat = a.toNat - b.toNat :=
  UInt32.toNat_sub_of_le a b (UInt32.le_iff_toNat_le.mpr h)

variable (a b : UInt32)

theorem add_cases : (a.toNat + b.toNat < 2 ^ 32 ∧ (a + b).toNat = a.toNat + b.toNat) ∨
      (2 ^ 32 ≤ a.toNat + b.toNat ∧ (a + b).toNat + 2 ^ 32 = a.toNat + b.toNat) := by
  have ha := a.toNat_lt
  have hb := b.toNat_lt
  rw [UInt32.toNat_add]
  omega

theorem sub_cases : (b.toNat ≤ a.toNat ∧ (a - b).toNat + b.toNat = a.toNat) ∨
      (a.toNat < b.toNat ∧ (a - b).toNat + b.toNat = a.toNat + 2 ^ 32) := by
  have ha := a.toNat_lt
  have hb := b.toNat_lt
  rw [UInt32.toNat_sub]
  omega

theorem ite_lt_toNat : (if a < b then b else a).toNat = max a.toNat b.toNat := by
  by_cases hlt : a < b
  · rw [if_pos hlt, max_eq_right (UInt32.lt_iff_toNat_lt.mp hlt).le]
  · rw [if_neg hlt, max_eq_left (Nat.le_of_not_lt (mt UInt32.lt_iff_toNat_lt.mpr hlt))]

theorem wrap_toNat {len pos d : UInt32} {n : ℕ} (hlen : 0 < len.toNat)
    (hpos : pos.toNat = n % len.toNat) (hd : d.toNat ≤ len.toNat)
    (hsum : pos.toNat + d.toNat < 2 ^ 32) :
    (if pos + d ≥ len then pos + d - len else pos + d).toNat = (n + d.toNat) % len.toNat := by
  have hadd := add_toNat hsum
  rw [← Circular.wrap_add hlen hd, ← hpos, ← hadd]
  by_cases h : len.toNat ≤ (pos + d).toNat
  · rw [if_pos (UInt32.le_iff_toNat_le.mpr h), if_pos h, sub_toNat h]
  · rw [if_neg (mt UInt32.le_iff_toNat_le.mp h), if_neg h]

theorem unwrap_toNat {len pos d : UInt32} {n : ℕ} (hlen : 0 < len.toNat)
    (hpos : pos.toNat = n % len.toNat) (hd : d.toNat ≤ len.toNat) (hdn : d.toNat ≤ n) :
    (if pos ≥ d then pos - d else len - (d - pos)).toNat = (n - d.toNat) % len.toNat := by
  rw [← Circular.wrap_sub hlen hd hdn, ← hpos]
  by_cases h : d.toNat ≤ pos.toNat
  · rw [if_pos (UInt32.le_iff_toNat_le.mpr h), if_pos h, sub_toNat h]
  · have hsub : (d - pos).toNat = d.toNat - pos.toNat := sub_toNat (by omega)
    rw [if_neg (mt UInt32.le_iff_toNat_le.mp h), if_neg h, sub_toNat (by omega), hsub]

theorem high_toNat (x : UInt32) : (x &&& 0xFF000000).toNat = 2 ^ 24 * (x.toNat / 2 ^ 24) := by
  rw [UInt32.toNat_and]
  apply Nat.eq_of_testBit_eq
  intro i
  have hmask : (0xFF000000 : UInt32).toNat = (2 ^ 8 - 1) <<< 24 := rfl
  rw [hmask, Nat.testBit_and, Nat.testBit_shiftLeft, Nat.testBit_two_pow_sub_one,
    ← Nat.shiftRight_eq_div_pow, Nat.mul_comm, ← Nat.shiftLeft_eq, Nat.testBit_shiftLeft,
    Nat.testBit_shiftRight]
  by_cases hlow : 24 ≤ i
  · by_cases hhigh : i < 32
    · simp [hlow, show i - 24 < 8 by omega]
    · have hzero : x.toNat.testBit i = false :=
        Nat.testBit_lt_two_pow (x.toNat_lt.trans_le (Nat.pow_le_pow_right (by decide) (by omega)))
      simp [hlow, hzero]
  · simp [hlow]

theorem low_toNat (x : UInt32) : (x &&& 0xFFFFFF).toNat = x.toNat % 2 ^ 24 := by
  rw [UInt32.toNat_and]
  exact Nat.and_two_pow_sub_one_eq_mod x.toNat 24

theorem pack_toNat {x y : UInt32} {a : ℕ} (hx : x.toNat = 2 ^ 24 * a) (hy : y.toNat < 2 ^ 24) :
    (x ||| y).toNat = 2 ^ 24 * a + y.toNat := by
  rw [UInt32.toNat_or, hx, Nat.two_pow_add_eq_or_of_lt hy]

end Word

import Mathlib.Data.UInt

/-!
# Sequence numbers in mTCP

The macros of `tcp_in.h` and `GetMinSeq` and `GetMaxSeq` of
`tcp_ring_buffer.c`, on positions in a byte stream less than half the number
space apart.
-/

namespace StackBench.Mtcp

/-- The conversion `(int32_t) x`. -/
def int32 (x : UInt32) : ℤ := if x.toNat < 2 ^ 31 then x.toNat else (x.toNat : ℤ) - 2 ^ 32

def tcpSeqLt (a b : UInt32) : Bool := int32 (a - b) < 0

def tcpSeqLeq (a b : UInt32) : Bool := int32 (a - b) ≤ 0

def tcpSeqGt (a b : UInt32) : Bool := int32 (a - b) > 0

def tcpSeqGeq (a b : UInt32) : Bool := int32 (a - b) ≥ 0

def tcpSeqBetween (a b c : UInt32) : Bool := tcpSeqGeq a b && tcpSeqLeq a c

def halfSeq : UInt32 := 0x7FFFFFFF

def getMinSeq (a b : UInt32) : UInt32 :=
  if a = b then a
  else if a < b then (if b - a ≤ halfSeq then a else b)
  else if a - b ≤ halfSeq then b else a

def getMaxSeq (a b : UInt32) : UInt32 :=
  if a = b then a
  else if a < b then (if b - a ≤ halfSeq then b else a)
  else if a - b ≤ halfSeq then a else b

theorem int32_lt_zero_iff (x : UInt32) : int32 x < 0 ↔ 2 ^ 31 ≤ x.toNat := by
  have hx := x.toNat_lt
  unfold int32
  split <;> omega

theorem int32_le_zero_iff (x : UInt32) : int32 x ≤ 0 ↔ x.toNat = 0 ∨ 2 ^ 31 ≤ x.toNat := by
  have hx := x.toNat_lt
  unfold int32
  split <;> omega

variable (a b : UInt32)

theorem tcpSeqLt_iff : tcpSeqLt a b = true ↔ 2 ^ 31 ≤ (a - b).toNat := by
  rw [tcpSeqLt, decide_eq_true_iff, int32_lt_zero_iff]

theorem tcpSeqLeq_iff : tcpSeqLeq a b = true ↔ (a - b).toNat = 0 ∨ 2 ^ 31 ≤ (a - b).toNat := by
  rw [tcpSeqLeq, decide_eq_true_iff, int32_le_zero_iff]

theorem tcpSeqGt_iff : tcpSeqGt a b = true ↔ (a - b).toNat ≠ 0 ∧ (a - b).toNat < 2 ^ 31 := by
  have h := int32_le_zero_iff (a - b)
  rw [tcpSeqGt, decide_eq_true_iff]
  omega

theorem tcpSeqGeq_iff : tcpSeqGeq a b = true ↔ (a - b).toNat < 2 ^ 31 := by
  have h := int32_lt_zero_iff (a - b)
  rw [tcpSeqGeq, decide_eq_true_iff]
  omega

/-- The number of the stream position `n`, where position 0 has the number `base`. -/
def seqAt (base : UInt32) (n : ℕ) : UInt32 := base + UInt32.ofNat n

theorem seqAt_zero (base : UInt32) : seqAt base 0 = base := by
  simp [seqAt]

theorem seqAt_add (base : UInt32) (n : ℕ) (k : UInt32) :
    seqAt base n + k = seqAt base (n + k.toNat) := by
  rw [← UInt32.toNat_inj]
  simp only [seqAt, UInt32.toNat_add, UInt32.toNat_ofNat']
  omega

theorem seqAt_sub_toNat (base : UInt32) (m n : ℕ) :
    (((seqAt base m - seqAt base n).toNat : ℕ) : ℤ) = ((m : ℤ) - n) % 2 ^ 32 := by
  simp only [seqAt, UInt32.toNat_sub, UInt32.toNat_add, UInt32.toNat_ofNat']
  omega

theorem seqAt_sub_of_le {base : UInt32} {m n : ℕ} (hle : n ≤ m) (hlt : m - n < 2 ^ 32) :
    (seqAt base m - seqAt base n).toNat = m - n := by
  have h := seqAt_sub_toNat base m n
  omega

theorem seqAt_inj {base : UInt32} {m n : ℕ} (h : seqAt base m = seqAt base n)
    (hm : m < n + 2 ^ 32) (hn : n < m + 2 ^ 32) : m = n := by
  have hd := seqAt_sub_toNat base m n
  rw [h, UInt32.sub_self, UInt32.toNat_zero] at hd
  omega

/-- `GetMinSeq` takes its first number only where the second one is at most
half the space ahead. -/
theorem le_of_getMinSeq_eq {a b : UInt32} (h : getMinSeq a b = a) : (b - a).toNat ≤ 2 ^ 31 := by
  have hhalf : halfSeq.toNat = 2 ^ 31 - 1 := rfl
  have hab := a.toNat_lt
  have hba := b.toNat_lt
  have hsub : (b - a).toNat = (2 ^ 32 - a.toNat + b.toNat) % 2 ^ 32 := UInt32.toNat_sub b a
  have hsub' : (a - b).toNat = (2 ^ 32 - b.toNat + a.toNat) % 2 ^ 32 := UInt32.toNat_sub a b
  unfold getMinSeq at h
  simp only [UInt32.le_iff_toNat_le, UInt32.lt_iff_toNat_lt, ← UInt32.toNat_inj, hhalf] at h
  split at h
  · omega
  split at h
  · split at h
    · omega
    · omega
  · split at h
    · omega
    · omega

section Near

variable {base : UInt32} {m n : ℕ}

theorem getMinSeq_seqAt (hm : m < n + 2 ^ 31) (hn : n < m + 2 ^ 31) :
    getMinSeq (seqAt base m) (seqAt base n) = seqAt base (min m n) := by
  have h := seqAt_sub_toNat base m n
  have h' := seqAt_sub_toNat base n m
  have hhalf : halfSeq.toNat = 2 ^ 31 - 1 := rfl
  unfold getMinSeq
  split
  · next heq =>
    rw [seqAt_inj heq (by omega) (by omega), min_self]
  next hne =>
  have hmn : m ≠ n := fun hcon => hne (by rw [hcon])
  simp only [UInt32.le_iff_toNat_le, hhalf]
  rcases Nat.lt_or_gt_of_ne hmn with hlt | hgt
  · rw [min_eq_left hlt.le]
    split
    · rw [if_pos (by omega)]
    · rw [if_neg (by omega)]
  rw [min_eq_right hgt.le]
  split
  · rw [if_neg (by omega)]
  · rw [if_pos (by omega)]

theorem getMaxSeq_eq (a b : UInt32) : getMaxSeq a b = if getMinSeq a b = a then b else a := by
  unfold getMaxSeq getMinSeq
  split
  · next heq => rw [if_pos rfl, heq]
  next hne =>
  split <;> split
  · rw [if_pos rfl]
  · rw [if_neg (Ne.symm hne)]
  · rw [if_neg (Ne.symm hne)]
  · rw [if_pos rfl]

theorem getMaxSeq_seqAt (hm : m < n + 2 ^ 31) (hn : n < m + 2 ^ 31) :
    getMaxSeq (seqAt base m) (seqAt base n) = seqAt base (max m n) := by
  rw [getMaxSeq_eq, getMinSeq_seqAt hm hn]
  split
  · next heq =>
    have hmin := seqAt_inj heq (by omega) (by omega)
    rw [max_eq_right (min_eq_left_iff.mp hmin)]
  next hne =>
  have hle : n ≤ m := by
    by_contra hcon
    exact hne (by rw [min_eq_left (by omega)])
  rw [max_eq_left hle]

end Near

end StackBench.Mtcp

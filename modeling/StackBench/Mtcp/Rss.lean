import Mathlib.Data.List.Basic
import Mathlib.Data.Nat.Bitwise

/-!
# The core that gets the packets of an mTCP connection

All bytes of the RSS key are the same, so the hash is the exclusive or of what the bytes of the
addresses and ports contribute, in any order.
-/

namespace StackBench.Mtcp.Rss

open List

/-- `key_cache` of `BuildKeyCache`, whose key bytes are all `rss_hkey`. -/
def keyCache (hkey : UInt8) : ℕ → UInt32
  | 0 =>
    (hkey.toUInt32 <<< 24) ||| (hkey.toUInt32 <<< 16) ||| (hkey.toUInt32 <<< 8) ||| hkey.toUInt32
  | i + 1 =>
    let shift := UInt32.ofNat ((32 + i) % 8)
    let bit : UInt32 := if (hkey.toUInt32 <<< shift) &&& 0x80 ≠ 0 then 1 else 0
    (keyCache hkey i <<< 1) ||| bit

/-- A loop of `GetRSSHash`: the bits of a word of `width` bits, from the highest on. -/
def hashLoop (cache : ℕ → UInt32) (width off v : ℕ) (res : UInt32) : UInt32 :=
  (range width).foldl
    (fun res i => if v.testBit (width - 1 - i) then res ^^^ cache (off + i) else res) res

/-- The arguments of `GetRSSHash`. -/
structure RssArgs where
  sip : UInt32
  dip : UInt32
  sp : UInt16
  dp : UInt16

def getRSSHash (hkey : UInt8) (a : RssArgs) : UInt32 :=
  let cache := keyCache hkey
  hashLoop cache 16 80 a.dp.toNat (hashLoop cache 16 64 a.sp.toNat
    (hashLoop cache 32 32 a.dip.toNat (hashLoop cache 32 0 a.sip.toNat 0)))

def getRSSCPUCore (hkey : UInt8) (rssBitMask : UInt32) (a : RssArgs) (numQueues : UInt32)
    (endianCheck : Bool) : UInt32 :=
  let masked := getRSSHash hkey a &&& rssBitMask
  let off := if endianCheck then [3, 1, -1, -3].getD (masked &&& 3).toNat 0 else 0
  (masked + off) % numQueues

/-- The lowest `n` bytes in the other order, behind `acc`. -/
def reverseBytes : ℕ → ℕ → ℕ → ℕ
  | 0, _, acc => acc
  | n + 1, v, acc => reverseBytes n (v / 2 ^ 8) (acc * 2 ^ 8 + v % 2 ^ 8)

def swap16 (x : UInt16) : UInt16 := UInt16.ofNat (reverseBytes 2 x.toNat 0)

def swap32 (x : UInt32) : UInt32 := UInt32.ofNat (reverseBytes 4 x.toNat 0)

theorem keyCache_add (hkey : UInt8) (k i : ℕ) : keyCache hkey (8 * k + i) = keyCache hkey i := by
  have hbase : ∀ n : Fin 256, keyCache (UInt8.ofNat n) 8 = keyCache (UInt8.ofNat n) 0 := by
    decide +kernel
  have hzero : keyCache hkey 8 = keyCache hkey 0 := by
    simpa using hbase ⟨hkey.toNat, hkey.toNat_lt⟩
  have hstep : ∀ i, keyCache hkey (i + 8) = keyCache hkey i := by
    intro i
    induction i with
    | zero => exact hzero
    | succ i ih =>
      rw [Nat.add_right_comm]
      conv_lhs => rw [keyCache, ih, show (32 + (i + 8)) % 8 = (32 + i) % 8 by omega]
      rfl
  induction k with
  | zero => simp
  | succ k ih => rw [Nat.mul_succ, Nat.add_right_comm, hstep, ih]

variable {hkey : UInt8}

/-- What a byte contributes. -/
def byteHash (hkey : UInt8) (b : ℕ) : UInt32 := hashLoop (keyCache hkey) 8 0 b 0

theorem foldl_xor (l : List ℕ) (p : ℕ → Bool) (c : ℕ → UInt32) (res : UInt32) :
    l.foldl (fun res i => if p i then res ^^^ c i else res) res =
      res ^^^ l.foldl (fun res i => if p i then res ^^^ c i else res) 0 := by
  induction l generalizing res with
  | nil => simp
  | cons i l ih =>
    rw [foldl_cons, ih, foldl_cons, ih (if p i then 0 ^^^ c i else 0)]
    cases p i <;> simp [UInt32.xor_assoc]

/-- What a word of `n` bytes contributes. -/
def bytesHash (hkey : UInt8) : ℕ → ℕ → UInt32
  | 0, _ => 0
  | n + 1, v => bytesHash hkey n (v / 2 ^ 8) ^^^ byteHash hkey (v % 2 ^ 8)

theorem hashLoop_eq (n k v : ℕ) (res : UInt32) :
    hashLoop (keyCache hkey) (8 * n) (8 * k) v res = res ^^^ bytesHash hkey n v := by
  induction n generalizing v with
  | zero => exact UInt32.xor_zero.symm
  | succ n ih =>
    have hhigh : (range (8 * n)).foldl (fun res i => if v.testBit (8 * n + 8 - 1 - i) then
        res ^^^ keyCache hkey (8 * k + i) else res) res = res ^^^ bytesHash hkey n (v / 2 ^ 8) := by
      rw [← ih, hashLoop]
      refine foldl_ext _ _ _ fun res i hi => ?_
      rw [mem_range] at hi
      rw [Nat.testBit_div_two_pow, show 8 * n + 8 - 1 - i = 8 * n - 1 - i + 8 by omega]
    rw [hashLoop, Nat.mul_succ, range_add, foldl_append, foldl_map, hhigh, bytesHash,
      ← UInt32.xor_assoc, byteHash, hashLoop, ← foldl_xor]
    refine foldl_ext _ _ _ fun res i hi => ?_
    rw [mem_range] at hi
    rw [Nat.testBit_mod_two_pow, decide_eq_true (by omega), Bool.true_and, ← Nat.add_assoc,
      ← Nat.mul_add, keyCache_add, Nat.zero_add,
      show 8 * n + 8 - 1 - (8 * n + i) = 8 - 1 - i by omega]

theorem bytesHash_reverseBytes (n m v acc : ℕ) : bytesHash hkey (m + n) (reverseBytes n v acc) =
    bytesHash hkey m acc ^^^ bytesHash hkey n v := by
  induction n generalizing m v acc with
  | zero => exact UInt32.xor_zero.symm
  | succ n ih =>
    have hrest := ih (m + 1) (v / 2 ^ 8) (acc * 2 ^ 8 + v % 2 ^ 8)
    rw [bytesHash, show (acc * 2 ^ 8 + v % 2 ^ 8) / 2 ^ 8 = acc by omega,
      show (acc * 2 ^ 8 + v % 2 ^ 8) % 2 ^ 8 = v % 2 ^ 8 by omega, Nat.add_right_comm] at hrest
    rw [bytesHash, UInt32.xor_comm (bytesHash hkey n _), ← UInt32.xor_assoc]
    exact hrest

theorem bytesHash_swap16 (x : UInt16) :
    bytesHash hkey 2 (swap16 x).toNat = bytesHash hkey 2 x.toNat := by
  have hlt : reverseBytes 2 x.toNat 0 < 2 ^ 16 := by
    simp only [reverseBytes]
    omega
  rw [swap16, UInt16.toNat_ofNat', Nat.mod_eq_of_lt hlt]
  exact (bytesHash_reverseBytes 2 0 _ _).trans UInt32.zero_xor

theorem bytesHash_swap32 (x : UInt32) :
    bytesHash hkey 4 (swap32 x).toNat = bytesHash hkey 4 x.toNat := by
  have hlt : reverseBytes 4 x.toNat 0 < 2 ^ 32 := by
    simp only [reverseBytes]
    omega
  rw [swap32, UInt32.toNat_ofNat', Nat.mod_eq_of_lt hlt]
  exact (bytesHash_reverseBytes 4 0 _ _).trans UInt32.zero_xor

theorem getRSSHash_eq (a : RssArgs) : getRSSHash hkey a =
    bytesHash hkey 4 a.sip.toNat ^^^ bytesHash hkey 4 a.dip.toNat ^^^
      (bytesHash hkey 2 a.sp.toNat ^^^ bytesHash hkey 2 a.dp.toNat) := by
  rw [getRSSHash, hashLoop_eq 4 0, hashLoop_eq 4 4, hashLoop_eq 2 8, hashLoop_eq 2 10,
    UInt32.zero_xor, UInt32.xor_assoc]

/-- The same connection in the other direction, or with bytes in another order. -/
inductive SameConn (a : RssArgs) : RssArgs → Prop
  | refl : SameConn a a
  | exchange {b} : SameConn a b → SameConn a ⟨b.dip, b.sip, b.dp, b.sp⟩
  | address {b} : SameConn a b → SameConn a { b with sip := swap32 b.sip }
  | port {b} : SameConn a b → SameConn a { b with sp := swap16 b.sp }

/-- The hash and the core are the same in every order, and the core has a queue. -/
theorem rss_symmetric (hkey : UInt8) (a b : RssArgs) (h : SameConn a b) :
    getRSSHash hkey b = getRSSHash hkey a ∧ ∀ (k : ℕ) (n : UInt32) (endian : Bool), 2 ≤ k → 0 < n →
      getRSSCPUCore hkey (2 ^ k - 1) b n endian = getRSSCPUCore hkey (2 ^ k - 1) a n endian ∧
        getRSSCPUCore hkey (2 ^ k - 1) a n endian < n := by
  have hhash : getRSSHash hkey b = getRSSHash hkey a := by
    induction h with
    | refl => rfl
    | exchange _ ih =>
      rw [← ih, getRSSHash_eq, getRSSHash_eq, UInt32.xor_comm (bytesHash _ 4 _),
        UInt32.xor_comm (bytesHash _ 2 _)]
    | address _ ih => rw [← ih, getRSSHash_eq, getRSSHash_eq, bytesHash_swap32]
    | port _ ih => rw [← ih, getRSSHash_eq, getRSSHash_eq, bytesHash_swap16]
  refine ⟨hhash, fun k n endian _ hn => ⟨?_, UInt32.mod_lt _ hn⟩⟩
  simp only [getRSSCPUCore, hhash]

theorem rss_symmetric_reply :
    getRSSHash 5 ⟨0x100000a, 0x200000a, 80, 99⟩ = getRSSHash 5 ⟨0x200000a, 0x100000a, 99, 80⟩ :=
  (rss_symmetric 5 ⟨0x200000a, 0x100000a, 99, 80⟩ _ (.exchange .refl)).1

end StackBench.Mtcp.Rss

import StackBench.Lib.Slots
import StackBench.Lib.Word

/-!
# Entries of the queues between application and fast path

Both sides keep byte offsets into the queue and wrap them by one conditional
subtraction, and an entry is free while its type is zero. The producer counts
free bytes and finds freed entries by a scan.
-/

namespace StackBench.Tas

open Function

structure Entry (μ : Type) where
  type : UInt8
  msg : μ
deriving DecidableEq

namespace Entry

variable {μ : Type}

/-- The entry at a byte offset of a queue with entries of `size` bytes. -/
def read (mem : ℕ → Entry μ) (size pos : UInt32) : Entry μ := mem (pos.toNat / size.toNat)

def put (mem : ℕ → Entry μ) (size pos : UInt32) (e : Entry μ) : ℕ → Entry μ :=
  update mem (pos.toNat / size.toNat) e

/-- The consumer frees the entry at a byte offset. -/
def free (mem : ℕ → Entry μ) (size pos : UInt32) : ℕ → Entry μ :=
  put mem size pos { read mem size pos with type := 0 }

def slot (mem : ℕ → Entry μ) (i : ℕ) : Option (Entry μ) :=
  if (mem i).type = 0 then none else some (mem i)

theorem slot_eq_none {mem : ℕ → Entry μ} {i : ℕ} : slot mem i = none ↔ (mem i).type = 0 := by
  unfold slot
  split <;> simp_all

theorem slot_of_type_ne {mem : ℕ → Entry μ} {i : ℕ} (h : (mem i).type ≠ 0) :
    slot mem i = some (mem i) := if_neg h

theorem slot_update (mem : ℕ → Entry μ) (i : ℕ) (e : Entry μ) :
    slot (update mem i e) =
      update (slot mem) i (if e.type = 0 then none else some e) := by
  funext j
  by_cases hj : j = i
  · subst hj
    simp [slot]
  · simp [slot, update_of_ne hj]

end Entry

/-- The offset of the next entry. -/
def nextEntry (size len pos : UInt32) : UInt32 :=
  if pos + size ≥ len then pos + size - len else pos + size

/-- The variables of the loop that looks for freed entries. -/
structure Scan where
  pos : UInt32
  avail : UInt32
  i : UInt32
deriving DecidableEq

/-- The scan of `txq_probe` and `fast_actx_rxq_probe` starts behind the `avail`
bytes after `head`. -/
def scanStart (len head avail : UInt32) : Scan :=
  { pos := if head + avail ≥ len then head + avail - len else head + avail, avail := avail, i := 0 }

/-- One iteration of the loop, `none` when it is left. -/
def scanStep {μ : Type} (size len limit : UInt32) (mem : ℕ → Entry μ) (s : Scan) : Option Scan :=
  if s.avail < len ∧ s.i < limit ∧ (Entry.read mem size s.pos).type = 0 then
    some { pos := nextEntry size len s.pos, avail := s.avail + size, i := s.i + 1 }
  else
    none

/-- The number of entries of a queue that are free. -/
def freeEntries {μ : Type} (n : ℕ) (mem : ℕ → Entry μ) : ℕ :=
  ((Finset.range n).filter fun i => (mem i).type = 0).card

/-- The length of a queue is a positive multiple of the entry size. -/
structure Layout (size len : UInt32) (n : ℕ) : Prop where
  size_pos : 0 < size.toNat
  pos : 0 < n
  len : len.toNat = size.toNat * n

/-- The offset `pos` is that of the entry `p` of the stream of entries. -/
def At (size len pos : UInt32) (p : ℕ) : Prop := pos.toNat = size.toNat * p % len.toNat

/-- The offsets are those of successive entries from `p` on. -/
def Ats (size len : UInt32) : ℕ → List UInt32 → Prop
  | _, [] => True
  | p, x :: xs => At size len x p ∧ Ats size len (p + 1) xs

section
variable {μ : Type} {size len pos : UInt32} {n p : ℕ} {mem : ℕ → Entry μ}

theorem Layout.len_pos (h : Layout size len n) : 0 < len.toNat := by
  rw [h.len]
  exact Nat.mul_pos h.size_pos h.pos

theorem Layout.size_le (h : Layout size len n) : size.toNat ≤ len.toNat := by
  rw [h.len]
  exact Nat.le_mul_of_pos_right _ h.pos

section

variable (hat : At size len pos p) (h : Layout size len n)
include hat h

theorem At.index : pos.toNat / size.toNat = p % n := by
  rw [hat, h.len, Nat.mul_mod_mul_left, Nat.mul_div_cancel_left _ h.size_pos]

theorem At.add_size_le : pos.toNat + size.toNat ≤ len.toNat := by
  have hmod : p % n < n := Nat.mod_lt p h.pos
  rw [hat, h.len, Nat.mul_mod_mul_left, ← Nat.mul_succ]
  exact Nat.mul_le_mul_left _ hmod

theorem At.next : At size len (nextEntry size len pos) (p + 1) := by
  have hsum : pos.toNat + size.toNat < 2 ^ 32 := (hat.add_size_le h).trans_lt len.toNat_lt
  have hwrap := Word.wrap_toNat h.len_pos hat h.size_le hsum
  rw [At, Nat.mul_succ, ← hwrap]
  rfl

end

theorem at_zero (size len : UInt32) : At size len 0 0 := (Nat.zero_mod len.toNat).symm

theorem Ats.concat {xs : List UInt32} {x : UInt32} (h : Ats size len p xs)
    (hx : At size len x (p + xs.length)) : Ats size len p (xs ++ [x]) := by
  induction xs generalizing p with
  | nil => exact ⟨hx, trivial⟩
  | cons y ys ih =>
    refine ⟨h.1, ih h.2 ?_⟩
    rw [List.length_cons, Nat.add_comm ys.length, ← Nat.add_assoc] at hx
    exact hx

section

variable (hat : At size len pos p)
include hat

section

variable (h : Layout size len n)
include h

theorem At.read_type_eq_zero :
    (Entry.read mem size pos).type = 0 ↔ Entry.slot mem (p % n) = none := by
  rw [Entry.slot_eq_none, ← hat.index h]
  rfl

theorem At.slot_eq_read (htype : (Entry.read mem size pos).type ≠ 0) :
    Entry.slot mem (p % n) = some (Entry.read mem size pos) := by
  rw [← hat.index h]
  exact Entry.slot_of_type_ne htype

theorem At.slot_put {e : Entry μ} (he : e.type ≠ 0) :
    Entry.slot (Entry.put mem size pos e) = update (Entry.slot mem) (p % n) (some e) := by
  rw [Entry.put, Entry.slot_update, if_neg he, hat.index h]

theorem At.slot_free :
    Entry.slot (Entry.free mem size pos) = update (Entry.slot mem) (p % n) none := by
  rw [Entry.free, Entry.put, Entry.slot_update, if_pos rfl, hat.index h]

end

end

end

section
variable {μ : Type} {size len limit head avail : UInt32} {n c a : ℕ} {mem : ℕ → Entry μ}
  {log : List (Entry μ)} {s s' : Scan}

/-- What the producer knows in the loop: `a` entries after the written ones. -/
structure Scans (size len : UInt32) (n : ℕ) (mem : ℕ → Entry μ) (log : List (Entry μ)) (c a : ℕ)
    (s : Scan) : Prop where
  ring : Slots.Ring n (Entry.slot mem) log c log.length a
  pos : At size len s.pos (log.length + a)
  avail : s.avail.toNat = size.toNat * a

theorem scans_start (h : Layout size len n) (hhalf : len.toNat + len.toNat / 2 < 2 ^ 32)
    (hring : Slots.Ring n (Entry.slot mem) log c log.length a)
    (hhead : At size len head log.length) (havail : avail.toNat = size.toNat * a)
    (hlow : ¬avail > len / 2) : Scans size len n mem log c a (scanStart len head avail) where
  ring := hring
  pos := by
    have hle : ¬(len / 2).toNat < avail.toNat := mt UInt32.lt_iff_toNat_lt.mpr hlow
    rw [UInt32.toNat_div, show (2 : UInt32).toNat = 2 from rfl] at hle
    have hfirst := hhead.add_size_le h
    have hwrap := Word.wrap_toNat (d := avail) h.len_pos hhead (by omega) (by omega)
    rw [At, Nat.mul_add, ← havail, ← hwrap]
    rfl
  avail := havail

theorem Scans.step (h : Scans size len n mem log c a s) (hlay : Layout size len n)
    (hstep : scanStep size len limit mem s = some s') : Scans size len n mem log c (a + 1) s' := by
  unfold scanStep at hstep
  split at hstep
  · next hgo =>
    obtain ⟨hlt, -, hfree⟩ := hgo
    cases hstep
    have hle : size.toNat * a < size.toNat * n := by
      rw [← h.avail, ← hlay.len]
      exact UInt32.lt_iff_toNat_lt.mp hlt
    have ha : a < n := Nat.lt_of_mul_lt_mul_left hle
    have hring := h.ring.discover rfl ha ((h.pos.read_type_eq_zero hlay).mp hfree)
    refine ⟨hring, h.pos.next hlay, ?_⟩
    have hbound : size.toNat * a + size.toNat ≤ len.toNat := by
      rw [hlay.len, ← Nat.mul_succ]
      exact Nat.mul_le_mul_left _ ha
    have hlen := len.toNat_lt
    rw [Word.add_toNat (by rw [h.avail]; omega), h.avail, Nat.mul_succ]
  · cases hstep

theorem Scans.avail_ne_zero (h : Scans size len n mem log log.length a s)
    (hlay : Layout size len n) (hlimit : limit ≠ 0) (hi : a = 0 → s.i = 0)
    (hnone : scanStep size len limit mem s = none) : s.avail ≠ 0 := by
  intro hzero
  have hbytes : size.toNat * a = 0 := h.avail.symm.trans (congrArg UInt32.toNat hzero)
  have ha : a = 0 := (Nat.mul_eq_zero.mp hbytes).resolve_left hlay.size_pos.ne'
  have hfree : (Entry.read mem size s.pos).type = 0 :=
    (h.pos.read_type_eq_zero hlay).mpr (h.ring.free_of_drained rfl (Nat.mod_lt _ hlay.pos))
  have hgo : s.avail < len ∧ s.i < limit ∧ (Entry.read mem size s.pos).type = 0 := by
    rw [hzero, hi ha]
    exact ⟨UInt32.lt_iff_toNat_lt.mpr hlay.len_pos, UInt32.pos_iff_ne_zero.mpr hlimit, hfree⟩
  rw [scanStep, if_pos hgo] at hnone
  cases hnone

theorem freeEntries_ge {r : ℕ} (h : Slots.Ring n (Entry.slot mem) log c r a) :
    a + (r - log.length) ≤ freeEntries n mem :=
  h.le_card_free fun _ hi => Entry.slot_eq_none.mp hi

end

end StackBench.Tas

import Mathlib.Data.List.GetD
import StackBench.Mtcp.SendBuffer

/-!
# The mTCP send buffer as a queue

A send buffer represents a list of bytes: `SBPut` appends to it and `SBRemove`
drops from its front.
-/

open List

namespace StackBench.Mtcp

/-- The bytes between head and tail are `xs`. -/
structure SendBuffer.Queue (buf : SendBuffer) (xs : List UInt8) : Prop where
  len : buf.len.toNat = xs.length
  offsets : buf.headOff.toNat + xs.length = buf.tailOff.toNat
  inside : buf.tailOff.toNat ≤ buf.size.toNat
  bytes : ∀ i < xs.length, buf.data (buf.headOff.toNat + i) = xs.getD i 0

section Queue

variable {buf : SendBuffer} {xs data : List UInt8}

theorem sbInit_queue (chunk : ℕ → UInt8) (size initSeq : UInt32) :
    (sbInit chunk size initSeq).Queue [] :=
  ⟨rfl, rfl, Nat.zero_le _, fun i hi => absurd hi (Nat.not_lt_zero i)⟩

theorem SendBuffer.Queue.length_le (h : buf.Queue xs) : xs.length ≤ buf.size.toNat := by
  have hoff := h.offsets
  have hin := h.inside
  omega

theorem SendBuffer.Queue.room (h : buf.Queue xs) :
    (buf.size - buf.len).toNat = buf.size.toNat - xs.length := by
  have hle : buf.len ≤ buf.size := by
    rw [UInt32.le_iff_toNat_le, h.len]
    exact h.length_le
  rw [UInt32.toNat_sub_of_le _ _ hle, h.len]

theorem sbRead_length (buf : SendBuffer) (pos n : ℕ) : (sbRead buf pos n).length = n := by
  simp [sbRead]

theorem SendBuffer.Queue.read (h : buf.Queue xs) {pos n : ℕ} (hle : pos + n ≤ xs.length) :
    sbRead buf pos n = (xs.drop pos).take n := by
  apply ext_getElem
  · simp only [sbRead, length_map, length_range, length_take, length_drop]
    omega
  · intro i hi _
    simp only [sbRead, length_map, length_range] at hi
    have hbyte := h.bytes (pos + i) (by omega)
    rw [getD_eq_getElem _ _ (by omega : pos + i < xs.length), ← Nat.add_assoc] at hbyte
    simp only [sbRead, getElem_map, getElem_range, getElem_take, getElem_drop, hbyte]

theorem memcpy_behind {mem : ℕ → UInt8} {pos : ℕ} {xs : List UInt8} (data : List UInt8)
    (hbytes : ∀ i < xs.length, mem (pos + i) = xs.getD i 0) :
    ∀ i < (xs ++ data).length,
      memcpy mem ((pos + xs.length : ℕ) : ℤ) data (pos + i) = (xs ++ data).getD i 0 := by
  intro i hi
  rw [length_append] at hi
  unfold memcpy
  split
  · rw [getD_append_right _ _ _ _ (by omega)]
    congr 1
    omega
  · rw [getD_append _ _ _ _ (by omega), hbytes i (by omega)]

theorem sbPut_frame (buf : SendBuffer) (data : List UInt8) :
    (sbPut buf data).1.size = buf.size ∧ (sbPut buf data).1.headSeq = buf.headSeq := by
  unfold sbPut
  split
  · exact ⟨rfl, rfl⟩
  dsimp only
  split
  · exact ⟨rfl, rfl⟩
  split <;> exact ⟨rfl, rfl⟩

theorem SendBuffer.Queue.sbPut (h : buf.Queue xs) (hne : data ≠ [])
    (hroom : xs.length + data.length ≤ buf.size.toNat) :
    (Mtcp.sbPut buf data).1.Queue (xs ++ data) ∧ (Mtcp.sbPut buf data).2 = data.length := by
  have hlen := h.len
  have hoff := h.offsets
  have hin := h.inside
  have hpos : 0 < data.length := length_pos_of_ne_nil hne
  have hsize := buf.size.toNat_lt
  have hput : min data.length (buf.size - buf.len).toNat = data.length := by
    rw [h.room]
    omega
  have hofNat : (UInt32.ofNat data.length).toNat = data.length := by
    rw [UInt32.toNat_ofNat']
    omega
  have hadd : ∀ x : UInt32, x.toNat + data.length ≤ buf.size.toNat →
      (x + UInt32.ofNat data.length).toNat = x.toNat + data.length := by
    intro x hx
    rw [UInt32.toNat_add, hofNat]
    omega
  unfold Mtcp.sbPut
  rw [if_neg (by omega)]
  rw [hput, if_neg (by omega), take_length]
  refine ⟨?_, rfl⟩
  split
  · next hfits =>
    refine ⟨?_, ?_, ?_, ?_⟩
    · rw [hadd buf.len (by omega), hlen, length_append]
    · rw [hadd buf.tailOff (by omega), length_append]
      dsimp only
      omega
    · rw [hadd buf.tailOff (by omega)]
      exact hfits.le
    · rw [← hoff]
      exact memcpy_behind data h.bytes
  refine ⟨?_, ?_, ?_, ?_⟩
  · rw [hadd buf.len (by omega), hlen, length_append]
  · rw [hadd buf.len (by omega), length_append]
    rw [UInt32.toNat_zero]
    omega
  · rw [hadd buf.len (by omega), hlen]
    exact hroom
  · -- the bytes are at the front of the chunk now
    have hmoved : ∀ i < xs.length,
        memmove buf.data 0 buf.headOff.toNat buf.len.toNat (0 + i) = xs.getD i 0 := by
      intro i hi
      rw [memmove, if_pos (by omega), Nat.zero_add, Nat.sub_zero, h.bytes i hi]
    have hcopy := memcpy_behind data hmoved
    rw [Nat.zero_add, ← hlen] at hcopy
    exact hcopy

theorem SendBuffer.Queue.sbRemove (h : buf.Queue xs) (n : ℕ) :
    (Mtcp.sbRemove buf n).1.Queue (xs.drop n) ∧
      (Mtcp.sbRemove buf n).1.size = buf.size ∧
      (Mtcp.sbRemove buf n).1.headSeq = seqAt buf.headSeq (min n xs.length) := by
  have hlen := h.len
  have hoff := h.offsets
  have hin := h.inside
  have hsize := buf.size.toNat_lt
  unfold Mtcp.sbRemove
  split
  · next hzero =>
    rw [hzero, drop_zero, Nat.zero_min, seqAt_zero]
    exact ⟨h, rfl, rfl⟩
  dsimp only
  rw [hlen]
  split
  · next hnone =>
    have hnil : xs = [] := length_eq_zero_iff.mp (by omega)
    rw [hnone, seqAt_zero, hnil, drop_nil]
    exact ⟨hnil ▸ h, rfl, rfl⟩
  next hpos =>
    have hofNat : (UInt32.ofNat (min n xs.length)).toNat = min n xs.length := by
      rw [UInt32.toNat_ofNat']
      omega
    have hhead : (buf.headOff + UInt32.ofNat (min n xs.length)).toNat =
        buf.headOff.toNat + min n xs.length := by
      rw [UInt32.toNat_add, hofNat]
      omega
    have hrest :
        (buf.len - UInt32.ofNat (min n xs.length)).toNat = xs.length - min n xs.length := by
      rw [UInt32.toNat_sub_of_le _ _ (by rw [UInt32.le_iff_toNat_le, hofNat]; omega), hofNat, hlen]
    split
    · next hempty =>
      have hdrop : xs.drop n = [] := by
        rw [hempty.1, UInt32.toNat_zero] at hrest
        exact drop_eq_nil_of_le (by omega)
      rw [hdrop]
      refine ⟨⟨?_, rfl, Nat.zero_le _, fun i hi => absurd hi (Nat.not_lt_zero i)⟩, rfl, rfl⟩
      exact congrArg UInt32.toNat hempty.1
    refine ⟨⟨?_, ?_, hin, ?_⟩, rfl, rfl⟩
    · rw [length_drop]
      exact hrest.trans (by omega)
    · dsimp only
      rw [hhead, length_drop]
      omega
    · intro i hi
      rw [length_drop] at hi
      rw [hhead, Nat.add_assoc, h.bytes _ (by omega), Nat.min_eq_left (by omega : n ≤ xs.length),
        getD_eq_getElem?_getD, getD_eq_getElem?_getD, getElem?_drop]

end Queue

end StackBench.Mtcp

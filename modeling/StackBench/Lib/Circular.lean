import Mathlib.Data.List.Basic
import Mathlib.Data.Nat.ModEq

/-!
# Circular buffers that hold a window of a stream

A stream is a list, and a buffer of `L` positions keeps its element with offset
`i` at position `i % L`. Plain stores and loads, cut in two at the end of the
buffer, are related to offsets of the stream.
-/

open List

namespace Circular

variable {α : Type*}

/-- One conditional subtraction brings an advanced position back into the
buffer. -/
theorem wrap_add {L n d : ℕ} (hL : 0 < L) (hd : d ≤ L) :
    (if L ≤ n % L + d then n % L + d - L else n % L + d) = (n + d) % L := by
  have hn : n % L < L := Nat.mod_lt n hL
  rw [← Nat.mod_add_mod n L d]
  generalize n % L = m at hn
  split
  · next h =>
    rw [Nat.mod_eq_sub_mod h, Nat.mod_eq_of_lt (by omega)]
  · next h =>
    exact (Nat.mod_eq_of_lt (by omega)).symm

theorem wrap_sub {L n d : ℕ} (hL : 0 < L) (hd : d ≤ L) (hdn : d ≤ n) :
    (if d ≤ n % L then n % L - d else L - (d - n % L)) = (n - d) % L := by
  obtain ⟨m, rfl⟩ := Nat.exists_eq_add_of_le' hdn
  have hm : m % L < L := Nat.mod_lt m hL
  rw [Nat.add_sub_cancel, ← wrap_add hL hd]
  generalize m % L = r at hm
  split <;> split <;> omega

/-- Two offsets less than a buffer apart share a position only when equal. -/
theorem mod_inj_of_window (lo : ℕ) {L i j : ℕ} (hi : lo ≤ i) (hi' : i < lo + L) (hj : lo ≤ j)
    (hj' : j < lo + L) (h : i % L = j % L) : i = j :=
  Nat.ModEq.eq_of_abs_lt h (by rw [abs_lt]; omega)

/-- The memory after the list `bytes` was stored from position `pos` on. -/
def store (mem : ℕ → α) (pos : ℕ) (bytes : List α) : ℕ → α :=
  fun i => if pos ≤ i then (bytes[i - pos]?).getD (mem i) else mem i

variable {L : ℕ} (mem : ℕ → α)

@[simp]
theorem store_nil (pos : ℕ) : store mem pos [] = mem := by
  funext i
  simp [store]

variable {a k : ℕ} {bytes S : List α} {mem' : ℕ → α}

theorem store_add (pos : ℕ) (hk : k < bytes.length) :
    some (store mem pos bytes (pos + k)) = bytes[k]? := by
  simp [store, hk]

theorem store_of_notMem {pos : ℕ} {i : ℕ}
    (hi : i < pos ∨ pos + bytes.length ≤ i) : store mem pos bytes i = mem i := by
  unfold store
  split
  · rw [getElem?_eq_none (by omega)]
    rfl
  · rfl

def storeAll (mem : ℕ → α) (ps : List (ℕ × List α)) : ℕ → α :=
  ps.foldl (fun m p => store m p.1 p.2) mem

theorem storeAll_of_notMem {ps : List (ℕ × List α)} {i : ℕ}
    (hi : ∀ q ∈ ps, ¬ (q.1 ≤ i ∧ i < q.1 + q.2.length)) : storeAll mem ps i = mem i := by
  induction ps generalizing mem with
  | nil => rfl
  | cons q ps ih =>
    have hq := hi q (by simp)
    calc
      storeAll mem (q :: ps) i = storeAll (store mem q.1 q.2) ps i := rfl
      _ = store mem q.1 q.2 i := ih _ fun r hr => hi r (by simp [hr])
      _ = mem i := store_of_notMem mem (by omega)

/-- `bytes` replaced what the buffer held at the stream offsets `a, a + 1, …`, and nothing else. -/
structure Written (L : ℕ) (mem mem' : ℕ → α) (a : ℕ) (bytes : List α) : Prop where
  new : ∀ k < bytes.length, bytes[k]? = some (mem' ((a + k) % L))
  frame : ∀ j, (∀ k < bytes.length, (a + k) % L ≠ j) → mem' j = mem j

/-- The stores of a circular write from `pos` on: one, or two across the end of the buffer. -/
def pieces (L pos : ℕ) (bytes : List α) : List (ℕ × List α) :=
  if pos + bytes.length ≤ L then [(pos, bytes)]
  else [(pos, bytes.take (L - pos)), (0, bytes.drop (L - pos))]

theorem mod_add_low (hk : a % L + k < L) : (a + k) % L = a % L + k := by
  rw [← Nat.mod_add_mod]
  exact Nat.mod_eq_of_lt hk

theorem mod_add_high (hk : L ≤ a % L + k) (hk' : a % L + k < 2 * L) :
    (a + k) % L = a % L + k - L := by
  rw [← Nat.mod_add_mod, Nat.mod_eq_sub_mod hk, Nat.mod_eq_of_lt (by omega)]

/-- A circular write stays in the buffer and touches no position but those of
its own offsets. -/
theorem pieces_touch (hL : 0 < L) (hlen : bytes.length ≤ L)
    {q : ℕ × List α} (hq : q ∈ pieces L (a % L) bytes) :
    q.1 + q.2.length ≤ L ∧
      ∀ j, q.1 ≤ j → j < q.1 + q.2.length → ∃ k < bytes.length, (a + k) % L = j := by
  have ha : a % L < L := Nat.mod_lt a hL
  unfold pieces at hq
  split at hq
  · next hfit =>
    rw [mem_singleton] at hq
    subst hq
    dsimp only
    refine ⟨hfit, fun j hj hj' => ⟨j - a % L, by omega, ?_⟩⟩
    rw [mod_add_low (by omega)]
    omega
  next hfit =>
  rw [mem_cons, mem_singleton] at hq
  rcases hq with rfl | rfl
  · simp only [length_take]
    refine ⟨by omega, fun j hj hj' => ⟨j - a % L, by omega, ?_⟩⟩
    rw [mod_add_low (by omega)]
    omega
  simp only [length_drop]
  refine ⟨by omega, fun j hj hj' => ⟨j + (L - a % L), by omega, ?_⟩⟩
  rw [mod_add_high (by omega) (by omega)]
  omega

theorem written_store (h : a % L + bytes.length ≤ L) :
    Written L mem (store mem (a % L) bytes) a bytes := by
  refine ⟨fun k hk => ?_, fun j hj => store_of_notMem mem ?_⟩
  · rw [mod_add_low (by omega)]
    exact (store_add mem (a % L) hk).symm
  · by_contra hin
    apply hj (j - a % L) (by omega)
    rw [mod_add_low (by omega)]
    omega

theorem written_update (L : ℕ) (mem : ℕ → α) (a : ℕ) (x : α) :
    Written L mem (Function.update mem (a % L) x) a [x] where
  new := by simp
  frame := by
    intro j hj
    have hne : a % L ≠ j := by simpa using hj 0
    exact Function.update_of_ne hne.symm x mem

theorem written_pieces (hL : 0 < L) (hlen : bytes.length ≤ L) :
    Written L mem (storeAll mem (pieces L (a % L) bytes)) a bytes := by
  have ha : a % L < L := Nat.mod_lt a hL
  refine ⟨fun k hk => ?_, fun j hj => ?_⟩
  · unfold pieces
    split
    · next hfit => exact (written_store mem hfit).new k hk
    simp only [storeAll, foldl_cons, foldl_nil]
    rcases Nat.lt_or_ge k (L - a % L) with hk' | hk'
    · rw [mod_add_low (by omega), store_of_notMem _ (by simp; omega),
        store_add _ _ (by simp; omega)]
      exact (getElem?_take_of_lt hk').symm
    have hk₀ : k - (L - a % L) < (bytes.drop (L - a % L)).length := by
      rw [length_drop]
      omega
    rw [mod_add_high (by omega) (by omega),
      show a % L + k - L = 0 + (k - (L - a % L)) by omega, store_add _ _ hk₀,
      getElem?_drop]
    congr 1
    omega
  · have hout : ∀ q ∈ pieces L (a % L) bytes, ¬ (q.1 ≤ j ∧ j < q.1 + q.2.length) := by
      rintro q hq ⟨hqj, hjq⟩
      obtain ⟨k, hk, hkj⟩ := (pieces_touch hL hlen hq).2 j hqj hjq
      exact hj k hk hkj
    exact storeAll_of_notMem mem hout

/-- The list `bytes` is the part of the stream that starts at offset `o`. -/
def SliceAt (S : List α) (o : ℕ) (bytes : List α) : Prop :=
  ∀ k < bytes.length, S[o + k]? = bytes[k]?

theorem SliceAt.length_le {o : ℕ} (h : SliceAt S o bytes)
    (hne : bytes ≠ []) : o + bytes.length ≤ S.length := by
  have hpos : 0 < bytes.length := length_pos_iff.mpr hne
  have hlast := h (bytes.length - 1) (by omega)
  rw [getElem?_eq_getElem (by omega : bytes.length - 1 < bytes.length)] at hlast
  have := (List.getElem?_eq_some_iff.mp hlast).1
  omega

/-- The buffer holds the stream at the offsets from `a` up to `b`. -/
def Holds (S : List α) (L : ℕ) (mem : ℕ → α) (a b : ℕ) : Prop :=
  ∀ i, a ≤ i → i < b → S[i]? = some (mem (i % L))

theorem Holds.empty (S : List α) (L : ℕ) (mem : ℕ → α) (a : ℕ) : Holds S L mem a a := by
  intro i hi hi'
  omega

section

variable {mem}

theorem Holds.mono {b a' b' : ℕ} (h : Holds S L mem a b)
    (ha : a ≤ a') (hb : b' ≤ b) : Holds S L mem a' b' :=
  fun i hi hi' => h i (ha.trans hi) (hi'.trans_le hb)

theorem Holds.append {b c : ℕ} (h : Holds S L mem a b)
    (h' : Holds S L mem b c) : Holds S L mem a c := by
  intro i hi hi'
  rcases Nat.lt_or_ge i b with hib | hib
  · exact h i hi hib
  · exact h' i hib hi'

theorem Written.holds
    (hw : Written L mem mem' a bytes) (hs : SliceAt S a bytes) :
    Holds S L mem' a (a + bytes.length) := by
  intro i hi hi'
  obtain ⟨k, rfl⟩ := Nat.exists_eq_add_of_le hi
  rw [hs k (by omega), hw.new k (by omega)]

/-- A write keeps every part of the stream that lies with it in one window of the buffer's size. -/
theorem Holds.written {lo : ℕ} {x y : ℕ}
    (h : Holds S L mem x y) (hw : Written L mem mem' a bytes) (hs : SliceAt S a bytes)
    (hlo : lo ≤ a) (hhi : a + bytes.length ≤ lo + L) (hx : lo ≤ x) (hy : y ≤ lo + L) :
    Holds S L mem' x y := by
  intro i hi hi'
  by_cases hin : a ≤ i ∧ i < a + bytes.length
  · exact hw.holds hs i hin.1 hin.2
  rw [h i hi hi', hw.frame]
  intro k hk heq
  have := mod_inj_of_window lo (by omega) (by omega) (by omega) (by omega) heq
  omega

/-- The next elements of the stream are written behind those that the buffer holds. -/
theorem Holds.append_written {c : ℕ} (h : Holds S L mem c S.length)
    (hw : Written L mem mem' S.length bytes) (hc : c ≤ S.length)
    (hroom : S.length + bytes.length ≤ c + L) :
    Holds (S ++ bytes) L mem' c (S ++ bytes).length := by
  have hslice : SliceAt (S ++ bytes) S.length bytes := by
    intro k hk
    rw [getElem?_append_right (by omega), Nat.add_sub_cancel_left]
  have hold : Holds (S ++ bytes) L mem c S.length := by
    intro i hi hi'
    rw [getElem?_append_left hi']
    exact h i hi hi'
  rw [length_append]
  exact (hold.written hw hslice hc hroom le_rfl (by omega)).append (hw.holds hslice)

end

/-- The `n` elements the buffer holds from position `pos` on. -/
def read (L : ℕ) (mem : ℕ → α) (pos n : ℕ) : List α :=
  (List.range n).map fun i => mem ((pos + i) % L)

section

variable (L) (pos n : ℕ)

@[simp]
theorem length_read : (read L mem pos n).length = n := by
  simp [read]

theorem read_mod : read L mem (pos % L) n = read L mem pos n := by
  simp [read]

theorem read_succ : read L mem pos (n + 1) = mem (pos % L) :: read L mem (pos + 1) n := by
  simp [read, range_succ_eq_map, Function.comp_def, Nat.add_assoc, Nat.add_comm 1]

end

theorem read_append_written {mem : ℕ → α} {pos n : ℕ}
    (hw : Written L mem mem' (pos + n) bytes) (h : n + bytes.length ≤ L) :
    read L mem' pos (n + bytes.length) = read L mem pos n ++ bytes := by
  rw [read, range_add, map_append, map_map]
  congr 1
  · apply map_congr_left
    intro i hi
    rw [mem_range] at hi
    apply hw.frame
    intro k hk heq
    have := mod_inj_of_window pos (by omega) (by omega) (by omega) (by omega) heq
    omega
  · apply ext_getElem?
    intro k
    rcases Nat.lt_or_ge k bytes.length with hk | hk
    · rw [hw.new k hk]
      simp [hk, Nat.add_assoc]
    · rw [getElem?_eq_none (by simpa using hk), getElem?_eq_none hk]

theorem read_of_le {pos n : ℕ} (h : pos + n ≤ L) :
    (List.range n).map (fun i => mem (pos + i)) = read L mem pos n := by
  apply map_congr_left
  intro i hi
  rw [mem_range] at hi
  rw [Nat.mod_eq_of_lt (by omega)]

/-- A read that meets the end of the buffer goes on from its start. -/
theorem read_split {pos n : ℕ} (hpos : pos < L) (h : L ≤ pos + n) (hn : n ≤ L) :
    (List.range (L - pos)).map (fun i => mem (pos + i)) ++ (List.range (n - (L - pos))).map mem =
      read L mem pos n := by
  obtain ⟨m, rfl⟩ := Nat.exists_eq_add_of_le (show L - pos ≤ n by omega)
  rw [read, range_add, map_append, read_of_le mem (by omega : pos + (L - pos) ≤ L)]
  simp only [Nat.add_sub_cancel_left, map_map, read]
  congr 1
  apply map_congr_left
  intro i hi
  rw [mem_range] at hi
  have hi' : pos + (L - pos + i) = L + i := by omega
  simp only [Function.comp_apply, hi', Nat.add_mod_left]
  rw [Nat.mod_eq_of_lt (by omega)]

theorem holds_append_read {mem : ℕ → α} {n : ℕ} (h : Holds S L mem a S.length) :
    Holds (S ++ read L mem (S.length % L) n) L mem a (S.length + n) := by
  intro i hi hi'
  rcases Nat.lt_or_ge i S.length with hlt | hge
  · rw [getElem?_append_left hlt]
    exact h i hi hlt
  · obtain ⟨k, rfl⟩ := Nat.exists_eq_add_of_le hge
    simp [read, show k < n by omega]

theorem Holds.read_eq {mem : ℕ → α} {n : ℕ}
    (h : Holds S L mem a (a + n)) : read L mem (a % L) n = (S.drop a).take n := by
  apply ext_getElem?
  intro k
  rcases Nat.lt_or_ge k n with hk | hk
  · rw [getElem?_take_of_lt hk, getElem?_drop, h (a + k) (by omega) (by omega)]
    simp [read, hk]
  · rw [getElem?_eq_none (by simpa using hk), getElem?_eq_none]
    simp
    omega

end Circular

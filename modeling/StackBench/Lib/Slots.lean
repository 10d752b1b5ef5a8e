import Mathlib.Order.Interval.Finset.Nat
import StackBench.Lib.Circular

/-!
# Rings whose slots tell whether they are in use

A ring of `n` slots carries a log from one writer to one reader, element `p` in
slot `p % n`. A slot with `none` is free. The reader empties slots and tells
nobody; the writer finds them by looking at the slots behind those that it
knows.
-/

namespace Slots

open Function

variable {α : Type*} {n : ℕ} {slot : ℕ → Option α} {log : List α} {c r a : ℕ}

/-- The `n` positions from `c` on are in the ring as they are in the log. -/
def Stores (n : ℕ) (slot : ℕ → Option α) (log : List α) (c : ℕ) : Prop :=
  ∀ p, c ≤ p → p < c + n → slot (p % n) = log[p]?

/-- The reader emptied the first `c` slots, the writer reserved the first `r` and knows `a` more. -/
structure Ring (n : ℕ) (slot : ℕ → Option α) (log : List α) (c r a : ℕ) : Prop where
  stores : Stores n slot log c
  cleared : c ≤ log.length
  reserved : log.length ≤ r
  room : r + a ≤ c + n

theorem ring_empty (n : ℕ) {slot : ℕ → Option α} (h : ∀ i, slot i = none) :
    Ring n slot [] 0 0 n where
  stores p _ _ := h (p % n)
  cleared := Nat.le_refl 0
  reserved := Nat.le_refl 0
  room := Nat.le_refl (0 + n)

theorem Ring.reserve (h : Ring n slot log c r (a + 1)) : Ring n slot log c (r + 1) a where
  stores := h.stores
  cleared := h.cleared
  reserved := h.reserved.trans (Nat.le_succ r)
  room := by
    have hroom := h.room
    omega

section

variable (h : Ring n slot log c r a)
include h

theorem Ring.free_next (hr : log.length < r) : slot (log.length % n) = none := by
  have hroom := h.room
  rw [h.stores log.length h.cleared (by omega)]
  exact List.getElem?_eq_none (Nat.le_refl _)

theorem Ring.write (hr : log.length < r) (x : α) :
    Ring n (update slot (log.length % n) (some x)) (log ++ [x]) c r a where
  stores p hc hn := by
    have hroom := h.room
    by_cases hp : p = log.length
    · subst hp
      rw [update_self, List.getElem?_concat_length]
    have hslot : p % n ≠ log.length % n := fun hmod =>
      hp (Circular.mod_inj_of_window c hc hn h.cleared (by omega) hmod)
    rw [update_of_ne hslot, h.stores p hc hn]
    by_cases hlt : p < log.length
    · exact (List.getElem?_append_left hlt).symm
    · rw [List.getElem?_eq_none (by omega), List.getElem?_eq_none (by simp; omega)]
  cleared := by
    rw [List.length_append]
    exact h.cleared.trans (Nat.le_add_right _ _)
  reserved := by
    rw [List.length_append]
    exact hr
  room := h.room

theorem Ring.clear (hc : c < log.length) : Ring n (update slot (c % n) none) log (c + 1) r a where
  stores p hp hn := by
    have hroom := h.room
    have hlen := h.reserved
    by_cases hlast : p = c + n
    · subst hlast
      rw [Nat.add_mod_right, update_self]
      exact (List.getElem?_eq_none (by omega)).symm
    have hslot : p % n ≠ c % n := fun hmod =>
      absurd (Circular.mod_inj_of_window c (by omega) (by omega) (Nat.le_refl c) (by omega) hmod)
        (by omega)
    rw [update_of_ne hslot]
    exact h.stores p (by omega) (by omega)
  cleared := hc
  reserved := h.reserved
  room := by
    have hroom := h.room
    omega

/-- The writer looks at the next slot. If its element `c + n` is not cleared yet, the slot is not
free. -/
theorem Ring.discover (hr : r = log.length) (ha : a < n)
    (hfree : slot ((r + a) % n) = none) : Ring n slot log c r (a + 1) where
  stores := h.stores
  cleared := h.cleared
  reserved := h.reserved
  room := by
    have hroom := h.room
    have hcleared := h.cleared
    by_contra hfull
    have hlast : r + a = c + n := by omega
    rw [hlast, Nat.add_mod_right, h.stores c (Nat.le_refl c) (by omega)] at hfree
    have hnone := List.getElem?_eq_none_iff.mp hfree
    omega

theorem Ring.free_of_drained (hc : c = log.length) {i : ℕ} (hi : i < n) : slot i = none := by
  -- the position of the window from `c` on that lies in slot `i`
  obtain ⟨p, hp, hn, rfl⟩ : ∃ p, c ≤ p ∧ p < c + n ∧ p % n = i := by
    refine ⟨c + (i + n - c % n) % n, Nat.le_add_right _ _, ?_, ?_⟩
    · exact Nat.add_lt_add_left (Nat.mod_lt _ (by omega)) c
    · have hmod : c % n < n := Nat.mod_lt c (by omega)
      rw [Nat.add_mod, Nat.mod_mod, ← Nat.add_mod, ← Nat.mod_add_mod,
        show c % n + (i + n - c % n) = i + n by omega, Nat.add_mod_right, Nat.mod_eq_of_lt hi]
  rw [h.stores p hp hn]
  exact List.getElem?_eq_none (by omega)

/-- The slots that the writer knows or has reserved are free until they are
written. -/
theorem Ring.le_card_free {free : ℕ → Prop} [DecidablePred free]
    (hfree : ∀ i, slot i = none → free i) :
    a + (r - log.length) ≤ ((Finset.range n).filter free).card := by
  have hroom := h.room
  have hreserved := h.reserved
  have hcleared := h.cleared
  have hcard : (Finset.Ico log.length (r + a)).card ≤ ((Finset.range n).filter free).card := by
    apply Finset.card_le_card_of_injOn (· % n)
    · intro p hp
      obtain ⟨hlow, hhigh⟩ := Finset.mem_Ico.mp hp
      refine Finset.mem_filter.mpr ⟨Finset.mem_range.mpr (Nat.mod_lt p (by omega)), hfree _ ?_⟩
      rw [h.stores p (by omega) (by omega)]
      exact List.getElem?_eq_none hlow
    · intro p hp q hq hmod
      obtain ⟨hp₁, hp₂⟩ := Finset.mem_Ico.mp hp
      obtain ⟨hq₁, hq₂⟩ := Finset.mem_Ico.mp hq
      exact Circular.mod_inj_of_window c (by omega) (by omega) (by omega) (by omega) hmod
  rw [Nat.card_Ico] at hcard
  omega

end

end Slots

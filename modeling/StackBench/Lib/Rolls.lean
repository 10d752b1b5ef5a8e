import Mathlib.Data.Int.Init
import Mathlib.Data.List.Nodup
import Mathlib.Data.List.Perm.Basic

/-!
# Lists with membership flags and counters

There is a list for each place. An element has a flag that tells whether it is
on the list of its home, and each list has a counter. A roll is consistent when
they agree.
-/

open List
open Function (update update_of_ne update_self)

namespace Roll

/-- The element that follows `a` on a list. -/
def next {α : Type*} [DecidableEq α] (l : List α) (a : α) : Option α := (l.after (· = a)).head?

theorem mem_of_next {α : Type*} [DecidableEq α] {l : List α} {a b : α} (h : next l a = some b) :
    b ∈ l := by
  unfold next at h
  induction l with
  | nil => cases h
  | cons x rest ih =>
    rw [List.after] at h
    by_cases hxa : x = a
    · rw [decide_eq_true hxa, cond_true] at h
      exact mem_cons_of_mem x (mem_of_head? h)
    · rw [decide_eq_false hxa, cond_false] at h
      exact mem_cons_of_mem x (ih h)

theorem next_ne {α : Type*} [DecidableEq α] {l : List α} {a b : α} (hl : l.Nodup)
    (h : next l a = some b) : b ≠ a := by
  unfold next at h
  induction l with
  | nil => cases h
  | cons x rest ih =>
    obtain ⟨hx, hrest⟩ := nodup_cons.mp hl
    rw [List.after] at h
    by_cases hxa : x = a
    · rw [decide_eq_true hxa, cond_true] at h
      rintro rfl
      exact hx (hxa ▸ mem_of_head? h)
    · rw [decide_eq_false hxa, cond_false] at h
      exact ih hrest h

end Roll

structure Roll (ι α : Type*) where
  list : ι → List α
  cnt : ι → ℤ
  on : α → Bool

namespace Roll

section Operations

variable {ι α : Type*} [DecidableEq ι] [DecidableEq α]

def unlink (r : Roll ι α) (i : ι) (a : α) : Roll ι α :=
  { r with list := update r.list i ((r.list i).erase a) }

def insertTail (r : Roll ι α) (i : ι) (a : α) : Roll ι α :=
  { r with list := update r.list i (r.list i ++ [a]) }

def insertHead (r : Roll ι α) (i : ι) (a : α) : Roll ι α :=
  { r with list := update r.list i (a :: r.list i) }

def count (r : Roll ι α) (i : ι) (d : ℤ) : Roll ι α :=
  { r with cnt := update r.cnt i (r.cnt i + d) }

def flag (r : Roll ι α) (a : α) (b : Bool) : Roll ι α :=
  { r with on := update r.on a b }

end Operations

/-- The flags tell the members of the lists, and the counters their number. -/
structure Consistent {ι α : Type*} (home : α → ι) (r : Roll ι α) : Prop where
  nodup : ∀ i, (r.list i).Nodup
  mem : ∀ i a, a ∈ r.list i ↔ r.on a = true ∧ home a = i
  cnt : ∀ i, r.cnt i = (r.list i).length

variable {ι α : Type*} {home : α → ι} {r : Roll ι α} {i : ι} {a : α}

theorem Consistent.on_of_mem (h : r.Consistent home) (ha : a ∈ r.list i) : r.on a = true :=
  ((h.mem i a).mp ha).1

theorem Consistent.notMem (h : r.Consistent home) (ha : r.on a = false) (i : ι) : a ∉ r.list i := by
  intro hmem
  rw [h.on_of_mem hmem] at ha
  cases ha

variable [DecidableEq ι] [DecidableEq α]

section

variable (h : r.Consistent home)
include h

theorem Consistent.drop (ha : a ∈ r.list i) :
    (((r.unlink i a).count i (-1)).flag a false).Consistent home where
  nodup j := by
    show (update r.list i _ j).Nodup
    by_cases hj : j = i
    · subst hj
      rw [update_self]
      exact (h.nodup j).erase a
    · rw [update_of_ne hj]
      exact h.nodup j
  mem j b := by
    obtain ⟨hon, hhome⟩ := (h.mem i a).mp ha
    have hiff := h.mem j b
    show b ∈ update r.list i _ j ↔ update r.on a false b = true ∧ home b = j
    by_cases hb : b = a
    · subst hb
      rw [update_self]
      refine iff_of_false ?_ (by simp)
      by_cases hj : j = i
      · subst hj
        rw [update_self]
        exact (h.nodup j).not_mem_erase
      · rw [update_of_ne hj, hiff]
        exact fun hmem => hj (hmem.2.symm.trans hhome)
    rw [update_of_ne hb, ← hiff]
    by_cases hj : j = i
    · subst hj
      rw [update_self, mem_erase_of_ne hb]
    · rw [update_of_ne hj]
  cnt j := by
    have hcnt := h.cnt j
    show update r.cnt i _ j = (update r.list i _ j).length
    by_cases hj : j = i
    · subst hj
      have hpos := length_pos_of_mem ha
      rw [update_self, update_self, length_erase_of_mem ha]
      show r.cnt j + -1 = _
      omega
    · rw [update_of_ne hj, update_of_ne hj, hcnt]

theorem Consistent.join (ha : r.on a = false) (hi : home a = i)
    {l : List α} (hl : l.Perm (a :: r.list i)) :
    (({ r with list := update r.list i l } : Roll ι α).count i 1 |>.flag a
      true).Consistent home where
  nodup j := by
    show (update r.list i l j).Nodup
    by_cases hj : j = i
    · subst hj
      rw [update_self, hl.nodup_iff]
      exact nodup_cons.mpr ⟨h.notMem ha j, h.nodup j⟩
    · rw [update_of_ne hj]
      exact h.nodup j
  mem j b := by
    have hiff := h.mem j b
    show b ∈ update r.list i l j ↔ update r.on a true b = true ∧ home b = j
    by_cases hj : j = i
    · subst hj
      rw [update_self, hl.mem_iff, mem_cons, hiff]
      by_cases hb : b = a
      · subst hb
        simp [hi]
      · simp [hb]
    rw [update_of_ne hj, hiff]
    by_cases hb : b = a
    · subst hb
      simp [ha, hi, Ne.symm hj]
    · simp [update_of_ne hb]
  cnt j := by
    have hcnt := h.cnt j
    show update r.cnt i _ j = (update r.list i l j).length
    by_cases hj : j = i
    · subst hj
      rw [update_self, update_self, hl.length_eq, length_cons]
      show r.cnt j + 1 = _
      omega
    · rw [update_of_ne hj, update_of_ne hj, hcnt]

theorem Consistent.requeue (ha : a ∈ r.list i) :
    ((r.unlink i a).insertTail i a).Consistent home := by
  have hlist : ∀ j, (((r.unlink i a).insertTail i a).list j).Perm (r.list j) := by
    intro j
    show (update (update r.list i _) i _ j).Perm _
    by_cases hj : j = i
    · subst hj
      rw [update_self]
      show (update r.list j _ j ++ [a]).Perm _
      rw [update_self]
      exact (perm_append_singleton a _).trans (perm_cons_erase ha).symm
    · rw [update_of_ne hj, update_of_ne hj]
  exact ⟨fun j => (hlist j).nodup_iff.mpr (h.nodup j),
    fun j b => (hlist j).mem_iff.trans (h.mem j b),
    fun j => (h.cnt j).trans (by rw [(hlist j).length_eq])⟩

/-- The element goes to the end of the list of its home, unless it is there. -/
def add (home : α → ι) (r : Roll ι α) (a : α) : Roll ι α :=
  if r.on a then r else ((r.insertTail (home a) a).count (home a) 1).flag a true

def remove (home : α → ι) (r : Roll ι α) (a : α) : Roll ι α :=
  if r.on a then ((r.unlink (home a) a).count (home a) (-1)).flag a false else r

omit h in
@[simp]
theorem on_add (a : α) : (r.add home a).on a = true := by
  unfold Roll.add
  split
  · assumption
  · exact update_self ..

omit h in
@[simp]
theorem on_remove (a : α) : (r.remove home a).on a = false := by
  unfold Roll.remove
  split
  · exact update_self ..
  · next ha => exact Bool.not_eq_true _ ▸ ha

theorem Consistent.add (a : α) : (r.add home a).Consistent home := by
  unfold Roll.add
  split
  · exact h
  · next ha =>
    exact h.join (Bool.not_eq_true _ ▸ ha) rfl (perm_append_singleton a _)

theorem Consistent.remove (a : α) : (r.remove home a).Consistent home := by
  unfold Roll.remove
  split
  · next ha => exact h.drop ((h.mem _ a).mpr ⟨ha, rfl⟩)
  · exact h

end

end Roll

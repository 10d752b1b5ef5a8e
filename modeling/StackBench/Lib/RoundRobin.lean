import Mathlib.Data.Finset.Card

/-!
# Round robin with lazy removal

A queue is scanned from its front: an item that is still ready is reported and
goes to the back, any other one is removed.
-/

open List

namespace RoundRobin

variable {ι : Type*}

/-- Scan at most `k` items and report at most `room` of them: the items reported, and
the queue afterwards. -/
def scan (ready : ι → Bool) : ℕ → ℕ → List ι → List ι × List ι
  | 0, _, xs => ([], xs)
  | _ + 1, 0, xs => ([], xs)
  | _ + 1, _ + 1, [] => ([], [])
  | k + 1, room + 1, x :: xs =>
    if ready x then (x :: (scan ready k room (xs ++ [x])).1, (scan ready k room (xs ++ [x])).2)
    else scan ready k (room + 1) xs

section Scan

variable {ready : ι → Bool} {k room : ℕ} {xs : List ι} {x : ι}

theorem scan_cons_ready (h : ready x = true) :
    scan ready (k + 1) (room + 1) (x :: xs) =
      (x :: (scan ready k room (xs ++ [x])).1, (scan ready k room (xs ++ [x])).2) := by
  rw [scan, if_pos h]

theorem scan_cons_unready (h : ready x = false) :
    scan ready (k + 1) (room + 1) (x :: xs) = scan ready k (room + 1) xs := by
  rw [scan, if_neg (by simp [h])]

theorem mem_reported (h : x ∈ (scan ready k room xs).1) : ready x = true ∧ x ∈ xs := by
  induction k, room, xs using scan.induct ready with
  | case1 room xs => cases h
  | case2 k xs => cases h
  | case3 k room => cases h
  | case4 k room y ys hy ih =>
    rw [scan_cons_ready hy] at h
    rcases mem_cons.mp h with rfl | hx
    · exact ⟨hy, mem_cons_self⟩
    · obtain ⟨hx, hmem⟩ := ih hx
      refine ⟨hx, ?_⟩
      simpa [or_comm] using hmem
  | case5 k room y ys hy ih =>
    rw [scan_cons_unready (by simpa using hy)] at h
    obtain ⟨hx, hmem⟩ := ih h
    exact ⟨hx, mem_cons_of_mem _ hmem⟩

theorem length_reported_le : (scan ready k room xs).1.length ≤ room := by
  induction k, room, xs using scan.induct ready with
  | case1 room xs => exact Nat.zero_le _
  | case2 k xs => exact Nat.zero_le _
  | case3 k room => exact Nat.zero_le _
  | case4 k room y ys hy ih =>
    rw [scan_cons_ready hy]
    exact Nat.succ_le_succ ih
  | case5 k room y ys hy ih =>
    rw [scan_cons_unready (by simpa using hy)]
    exact ih

end Scan

variable [DecidableEq ι]

/-- The place of an item among the items of the queue that pass the test. -/
def place (stays : ι → Bool) (r : ι) (xs : List ι) : ℕ := (xs.filter stays).idxOf r

section Place

variable {stays ready : ι → Bool} {k room c : ℕ} {xs ys : List ι} {r x : ι}

theorem place_lt_card {R : Finset ι} (hnodup : xs.Nodup) (hr : r ∈ xs) (hR : r ∈ R) :
    place (fun x => decide (x ∈ R)) r xs < R.card := by
  have hmem : r ∈ xs.filter (fun x => decide (x ∈ R)) := mem_filter.mpr ⟨hr, by simpa using hR⟩
  calc place (fun x => decide (x ∈ R)) r xs
      < (xs.filter (fun x => decide (x ∈ R))).length := idxOf_lt_length_of_mem hmem
    _ = (xs.filter (fun x => decide (x ∈ R))).toFinset.card :=
        (toFinset_card_of_nodup (hnodup.filter _)).symm
    _ ≤ R.card := by
        apply Finset.card_le_card
        intro y hy
        simpa using (mem_filter.mp (mem_toFinset.mp hy)).2

theorem place_lt_length (hr : r ∈ xs) (hs : stays r = true) : place stays r xs < xs.length :=
  Nat.lt_of_lt_of_le (idxOf_lt_length_of_mem (mem_filter.mpr ⟨hr, hs⟩))
    (length_filter_le _ _)

theorem place_eq_of_sublist (h : xs.Sublist ys) (hnodup : ys.Nodup)
    (hstay : ∀ x ∈ ys, stays x = true → x ∈ xs) : place stays r xs = place stays r ys := by
  have hsub := h.filter stays
  have hlen : (ys.filter stays).length ≤ (xs.filter stays).length := by
    apply ((hnodup.filter stays).subperm ?_).length_le
    intro x hx
    obtain ⟨hmem, hs⟩ := mem_filter.mp hx
    exact mem_filter.mpr ⟨hstay x hmem hs, hs⟩
  rw [place, place, hsub.eq_of_length_le hlen]

theorem place_back (hr : r ∈ xs) (hs : stays r = true) :
    place stays r (xs ++ [x]) = place stays r xs := by
  have hmem : r ∈ xs.filter stays := mem_filter.mpr ⟨hr, hs⟩
  rw [place, filter_append, idxOf_append_of_mem hmem]
  rfl

theorem place_cons (hne : x ≠ r) :
    place stays r (x :: xs) = place stays r xs + if stays x then 1 else 0 := by
  by_cases hs : stays x = true
  · simp [place, hs, idxOf_cons_ne _ hne]
  · simp [place, hs]

variable (hready : ∀ x ∈ xs, stays x = true → ready x = true) (hr : r ∈ xs)
include hready hr

/-- An item that stays ready is reported or keeps its place; where all items do, it moves up by as
many places as are scanned. -/
theorem scan_place (hs : stays r = true) (hc : c ≤ min k room)
    (hall : c = 0 ∨ ∀ x ∈ xs, stays x = true) :
    r ∈ (scan ready k room xs).1 ∨
      place stays r (scan ready k room xs).2 + c ≤ place stays r xs := by
  induction k, room, xs using scan.induct ready generalizing c with
  | case1 | case2 =>
    right
    have hzero : c = 0 := by omega
    rw [hzero]
    exact Nat.le_refl _
  | case3 k room => cases hr
  | case4 k room y ys hy ih =>
    rw [scan_cons_ready hy]
    by_cases hyr : y = r
    · left
      rw [hyr]
      exact mem_cons_self
    have hmem : r ∈ ys := (mem_cons.mp hr).resolve_left (Ne.symm hyr)
    have hrest := ih (c := c - 1) (fun x hx => hready x (by simpa [or_comm] using hx))
      (mem_append_left _ hmem) (by omega)
      (hall.imp (by omega) fun h x hx => h x (by simpa [or_comm] using hx))
    rcases hrest with hrep | hplace
    · exact Or.inl (mem_cons_of_mem _ hrep)
    right
    rw [place_back hmem hs] at hplace
    rw [place_cons hyr]
    rcases hall with rfl | hall
    · dsimp only
      omega
    · rw [if_pos (hall y mem_cons_self)]
      dsimp only
      omega
  | case5 k room y ys hy ih =>
    have hys : stays y = false := by
      by_contra hcon
      exact hy (hready y mem_cons_self (by simpa using hcon))
    have hyr : y ≠ r := by
      rintro rfl
      rw [hs] at hys
      cases hys
    rw [scan_cons_unready (by simpa using hy)]
    have hzero : c = 0 := by
      rcases hall with hc | hall
      · exact hc
      · rw [hall y mem_cons_self] at hys
        cases hys
    have hmem : r ∈ ys := (mem_cons.mp hr).resolve_left (Ne.symm hyr)
    rw [place_cons hyr, if_neg (by simp [hys]), hzero]
    exact ih (fun x hx => hready x (mem_cons_of_mem _ hx)) hmem (Nat.zero_le _) (Or.inl rfl)

/-- In a queue of ready items a scan for `m` items or more moves each one up by `m` places or
reports it. -/
theorem scan_moves_up {m : ℕ} (hall : ∀ x ∈ xs, stays x = true) (hm : m ≤ room) :
    r ∈ (scan ready xs.length room xs).1 ∨
      place stays r (scan ready xs.length room xs).2 + m ≤ place stays r xs := by
  have hlt := place_lt_length hr (hall r hr)
  have hc : min m xs.length ≤ min xs.length room := by omega
  rcases scan_place hready hr (hall r hr) hc (Or.inr hall) with hrep | hplace
  · exact Or.inl hrep
  · right
    omega

end Place

end RoundRobin

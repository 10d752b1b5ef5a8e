import Mathlib.Algebra.BigOperators.Group.Finset.Piecewise
import Mathlib.Algebra.Order.BigOperators.Group.Finset

/-!
# Totals over the cells of an array

A measure `f` of the cells `q` is summed over a finite set of indices. Storing
one cell changes the total by that cell.
-/

namespace Total

open Function

variable {ι α : Type*} [DecidableEq ι]

/-- The sum of the measure `f` over the cells of `q` with index in `s`. -/
def total (s : Finset ι) (f : α → ℕ) (q : ι → α) : ℕ := ∑ i ∈ s, f (q i)

theorem total_update {s : Finset ι} {k : ι} (hk : k ∈ s) (f : α → ℕ) (q : ι → α) (x : α) :
    total s f (update q k x) + f (q k) = total s f q + f x := by
  have hsum : total s f (update q k x) =
      ∑ i ∈ s, update (fun i => f (q i)) k (f x) i := by
    refine Finset.sum_congr rfl fun i _ => ?_
    exact apply_update (fun _ c => f c) q k x i
  rw [hsum, Finset.sum_update_of_mem hk, total, ← Finset.add_sum_erase s _ hk,
    ← Finset.sdiff_singleton_eq_erase]
  omega

theorem total_update_same (s : Finset ι) (k : ι) {f : α → ℕ} {q : ι → α} {x : α}
    (hx : f x = f (q k)) : total s f (update q k x) = total s f q := by
  refine Finset.sum_congr rfl fun i _ => ?_
  by_cases hi : i = k
  · subst hi
    rw [update_self, hx]
  · rw [update_of_ne hi]

omit [DecidableEq ι] in
theorem le_total {s : Finset ι} {k : ι} (hk : k ∈ s) (f : α → ℕ) (q : ι → α) :
    f (q k) ≤ total s f q :=
  Finset.single_le_sum (f := fun i => f (q i)) (fun _ _ => Nat.zero_le _) hk

omit [DecidableEq ι] in
theorem total_eq_zero {s : Finset ι} {f : α → ℕ} {q : ι → α} (h : ∀ i ∈ s, f (q i) = 0) :
    total s f q = 0 :=
  Finset.sum_eq_zero h

end Total

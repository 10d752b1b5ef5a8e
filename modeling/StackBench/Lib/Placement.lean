import Mathlib.Tactic.Common

/-!
# Tables that keep each element near its home

The elements of a set are placed when every cell of the table holds an element
of the set that may lie there, as `near` says, or none, and every element lies
in exactly one cell.
-/

variable {ι κ : Type*}

/-- The elements of `live` are placed in the cells. -/
structure Placement (near : κ → ι → Prop) (live : κ → Prop) (cell : ι → Option κ) : Prop where
  sound : ∀ {p : ι} {x : κ}, cell p = some x → live x ∧ near x p
  complete : ∀ {x : κ}, live x → ∃ p, cell p = some x
  unique : ∀ {p q : ι} {x : κ}, cell p = some x → cell q = some x → p = q

namespace Placement

open Function

variable {near : κ → ι → Prop} {live live' : κ → Prop} {cell : ι → Option κ} {p q : ι} {x : κ}

theorem empty (near : κ → ι → Prop) {live : κ → Prop} {cell : ι → Option κ}
    (hlive : ∀ x, ¬ live x) (hcell : ∀ p, cell p = none) : Placement near live cell where
  sound h := by
    rw [hcell] at h
    cases h
  complete h := absurd h (hlive _)
  unique h := by
    rw [hcell] at h
    cases h

variable [DecidableEq ι]

variable (h : Placement near live cell)
include h

theorem place (hfree : cell p = none) (hnew : ¬ live x)
    (hnear : near x p) (hlive : ∀ y, live' y ↔ y = x ∨ live y) :
    Placement near live' (update cell p (some x)) where
  sound {r y} hr := by
    by_cases hrp : r = p
    · subst hrp
      rw [update_self] at hr
      cases hr
      exact ⟨(hlive _).mpr (Or.inl rfl), hnear⟩
    · rw [update_of_ne hrp] at hr
      exact ⟨(hlive _).mpr (Or.inr (h.sound hr).1), (h.sound hr).2⟩
  complete {y} hy := by
    rcases (hlive y).mp hy with rfl | hold
    · exact ⟨p, update_self ..⟩
    obtain ⟨r, hr⟩ := h.complete hold
    have hrp : r ≠ p := by
      rintro rfl
      rw [hfree] at hr
      cases hr
    exact ⟨r, (update_of_ne hrp _ _).trans hr⟩
  unique {r s y} hr hs := by
    -- the new element lies in no old cell
    by_cases hy : y = x
    · subst hy
      have hold : ∀ t, update cell p (some y) t = some y → t = p := by
        intro t ht
        by_contra htp
        rw [update_of_ne htp] at ht
        exact hnew (h.sound ht).1
      rw [hold r hr, hold s hs]
    have hold : ∀ t, update cell p (some x) t = some y → cell t = some y := by
      intro t ht
      by_cases htp : t = p
      · subst htp
        rw [update_self] at ht
        cases ht
        exact absurd rfl hy
      · rwa [update_of_ne htp] at ht
    exact h.unique (hold r hr) (hold s hs)

theorem remove (hcell : cell p = some x)
    (hlive : ∀ y, live' y ↔ y ≠ x ∧ live y) : Placement near live' (update cell p none) where
  sound {r y} hr := by
    have hrp : r ≠ p := by
      rintro rfl
      rw [update_self] at hr
      cases hr
    rw [update_of_ne hrp] at hr
    refine ⟨(hlive y).mpr ⟨?_, (h.sound hr).1⟩, (h.sound hr).2⟩
    rintro rfl
    exact hrp (h.unique hr hcell)
  complete {y} hy := by
    obtain ⟨hne, hold⟩ := (hlive y).mp hy
    obtain ⟨r, hr⟩ := h.complete hold
    have hrp : r ≠ p := by
      rintro rfl
      rw [hcell] at hr
      exact hne (Option.some.inj hr).symm
    exact ⟨r, (update_of_ne hrp _ _).trans hr⟩
  unique {r s y} hr hs := by
    have hold : ∀ t, update cell p none t = some y → cell t = some y := by
      intro t ht
      by_cases htp : t = p
      · subst htp
        rw [update_self] at ht
        cases ht
      · rwa [update_of_ne htp] at ht
    exact h.unique (hold r hr) (hold s hs)

theorem move (hcell : cell p = some x) (hfree : cell q = none)
    (hnear : near x q) : Placement near live (update (update cell q (some x)) p none) := by
  have hne : p ≠ q := by
    rintro rfl
    rw [hcell] at hfree
    cases hfree
  have hgone : Placement near (fun y => y ≠ x ∧ live y) (update cell p none) :=
    h.remove hcell fun _ => Iff.rfl
  have hfree' : update cell p none q = none := by
    rw [update_of_ne hne.symm]
    exact hfree
  have hback : Placement near live (update (update cell p none) q (some x)) :=
    hgone.place hfree' (fun hx => hx.1 rfl) hnear fun y => by
      by_cases hy : y = x
      · subst hy
        exact ⟨fun _ => Or.inl rfl, fun _ => (h.sound hcell).1⟩
      · exact ⟨fun hl => Or.inr ⟨hy, hl⟩, fun hl => hl.elim (absurd · hy) And.right⟩
  rwa [update_comm hne] at hback

end Placement

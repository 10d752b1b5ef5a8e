import StackBench.Lib.Spans

/-!
# Spans that tile a span

Every point of the span lies in exactly one of the list, and no other point in
any. Cutting a span in two and joining two that meet keep a tiling.
-/

namespace Spans

variable {α : Type*} [LinearOrder α]

instance (s : Span α) (x : α) : Decidable (s.Mem x) := inferInstanceAs (Decidable (_ ∧ _))

/-- The number of spans that contain the point. -/
def layers (l : List (Span α)) (x : α) : ℕ := l.countP fun s => decide (s.Mem x)

/-- Every point of `whole` is in one span of the list, and every other point in none. -/
def Tiles (whole : Span α) (l : List (Span α)) : Prop :=
  ∀ x, layers l x = if whole.Mem x then 1 else 0

section Tiles

variable {whole s : Span α} {l l' : List (Span α)} {a m b : α}

theorem tiles_singleton (s : Span α) : Tiles s [s] := by
  intro x
  simp [layers, List.countP_cons]

theorem Tiles.perm (h : Tiles whole l) (hp : l.Perm l') : Tiles whole l' := by
  intro x
  rw [← h x]
  exact (hp.countP_eq _).symm

/-- A point of a span that is cut in two is in exactly one of the parts. -/
theorem layers_cut (ham : a ≤ m) (hmb : m ≤ b) (l : List (Span α)) (x : α) :
    layers (⟨a, m⟩ :: ⟨m, b⟩ :: l) x = layers (⟨a, b⟩ :: l) x := by
  have hcut : (⟨a, b⟩ : Span α).Mem x ↔ (⟨a, m⟩ : Span α).Mem x ∨ (⟨m, b⟩ : Span α).Mem x := by
    constructor
    · rintro ⟨hax, hxb⟩
      rcases lt_or_ge x m with hxm | hmx
      · exact Or.inl ⟨hax, hxm⟩
      · exact Or.inr ⟨hmx, hxb⟩
    · rintro (⟨hax, hxm⟩ | ⟨hmx, hxb⟩)
      · exact ⟨hax, lt_of_lt_of_le hxm hmb⟩
      · exact ⟨ham.trans hmx, hxb⟩
  have honce : ¬((⟨a, m⟩ : Span α).Mem x ∧ (⟨m, b⟩ : Span α).Mem x) :=
    fun h => absurd h.1.2 (not_lt.mpr h.2.1)
  simp only [layers, List.countP_cons, decide_eq_true_eq]
  by_cases hl : (⟨a, m⟩ : Span α).Mem x <;> by_cases hr : (⟨m, b⟩ : Span α).Mem x
  · exact absurd ⟨hl, hr⟩ honce
  · simp [hcut, hl, hr]
  · simp [hcut, hl, hr]
  · simp [hcut, hl, hr]

theorem tiles_cut (ham : a ≤ m) (hmb : m ≤ b) :
    Tiles whole (⟨a, m⟩ :: ⟨m, b⟩ :: l) ↔ Tiles whole (⟨a, b⟩ :: l) := by
  simp only [Tiles, layers_cut ham hmb]

variable (h : Tiles whole l)
include h

theorem Tiles.mem_iff (x : α) : whole.Mem x ↔ Covers l x := by
  have hx := h x
  constructor
  · intro hw
    rw [if_pos hw] at hx
    obtain ⟨s, hs, hmem⟩ := List.countP_pos_iff.mp (Nat.lt_of_lt_of_eq Nat.zero_lt_one hx.symm)
    exact ⟨s, hs, by simpa using hmem⟩
  · rintro ⟨s, hs, hmem⟩
    by_contra hw
    rw [if_neg hw] at hx
    exact absurd hmem (by simpa using List.countP_eq_zero.mp hx s hs)

theorem Tiles.disjoint : l.Pairwise fun s t => ∀ x, s.Mem x → ¬t.Mem x := by
  have hle : ∀ x, layers l x ≤ 1 := by
    intro x
    rw [h x]
    split <;> omega
  clear h
  induction l with
  | nil => exact List.Pairwise.nil
  | cons s l ih =>
    refine List.pairwise_cons.mpr ⟨fun t ht x hs htx => ?_, ih fun x => ?_⟩
    · have hpos : 0 < layers l x := List.countP_pos_iff.mpr ⟨t, ht, by simpa using htx⟩
      have hx := hle x
      rw [layers, List.countP_cons_of_pos (by simpa using hs)] at hx
      rw [layers] at hpos
      omega
    · exact le_trans (List.Sublist.countP_le (List.sublist_cons_self s l)) (hle x)

/-- A tiling without gaps that could be closed is one span. -/
theorem Tiles.eq_whole (hsep : Separated l) (hne : whole.lo < whole.hi) : l = [whole] := by
  have hwhole : whole.Mem whole.lo := ⟨le_rfl, hne⟩
  have hlo : ∀ s ∈ l, whole.Mem s.lo := fun s hs =>
    (h.mem_iff _).mpr ⟨s, hs, le_rfl, hsep.nonempty s hs⟩
  cases l with
  | nil =>
    obtain ⟨s, hs, -⟩ := (h.mem_iff _).mp hwhole
    cases hs
  | cons r rest =>
    obtain ⟨happ, -⟩ := List.pairwise_cons.mp hsep.apart
    have hr := hlo r List.mem_cons_self
    have hrne := hsep.nonempty r List.mem_cons_self
    -- the point where the first span ends is in no span of the list
    have hend : ¬whole.Mem r.hi := by
      intro hw
      obtain ⟨s, hs, hmem⟩ := (h.mem_iff _).mp hw
      rcases List.mem_cons.mp hs with rfl | hs
      · exact lt_irrefl _ hmem.2
      · exact absurd (happ s hs) (not_lt.mpr hmem.1)
    have hrest : rest = [] := by
      cases rest with
      | nil => rfl
      | cons s rest =>
        have hs := hlo s (by simp)
        refine absurd ⟨hr.1.trans hrne.le, lt_trans (happ s (by simp)) hs.2⟩ hend
    subst hrest
    have hmem : ∀ x, whole.Mem x ↔ r.Mem x := by
      intro x
      rw [h.mem_iff, Covers]
      simp
    have hlo_eq : r.lo = whole.lo := le_antisymm ((hmem _).mp hwhole).1 hr.1
    have hhi_eq : r.hi = whole.hi := by
      apply le_antisymm
      · by_contra hlt
        exact lt_irrefl _ ((hmem whole.hi).mpr
          ⟨hlo_eq.le.trans hne.le, not_le.mp hlt⟩).2
      · by_contra hlt
        exact hend ⟨hr.1.trans hrne.le, not_le.mp hlt⟩
    have hrw : r = whole := by
      obtain ⟨lo, hi⟩ := r
      obtain ⟨lo', hi'⟩ := whole
      obtain rfl : lo = lo' := hlo_eq
      obtain rfl : hi = hi' := hhi_eq
      rfl
    rw [hrw]

end Tiles

end Spans

import Mathlib.Data.List.Pairwise
import Mathlib.Order.Lattice

/-!
# Sorted lists in fenced blocks

A sorted list of entries is kept in blocks, each with a fence: no entry of the
block is below it, and all entries of the blocks before it are. Cutting a block
in two and moving a cut keep the list and the fences.
-/

open List

namespace Fences

variable {κ α : Type*}

def entries (X : List (κ × List (κ × α))) : List (κ × α) := X.flatMap Prod.snd

section Entries

variable {X Y : List (κ × List (κ × α))}

@[simp]
theorem entries_cons (x : κ × List (κ × α)) : entries (x :: X) = x.2 ++ entries X := rfl

@[simp]
theorem entries_append : entries (X ++ Y) = entries X ++ entries Y := flatMap_append

end Entries

/-- Nothing changed, a block was cut in two, or the cut between two blocks was moved. -/
inductive Recut : List (κ × List (κ × α)) → List (κ × List (κ × α)) → Prop
  | same (X : List (κ × List (κ × α))) : Recut X X
  | cut {X Y : List (κ × List (κ × α))} {lo k : κ} {v : α} {C₁ C₂ : List (κ × α)} (h : C₁ ≠ []) :
      Recut (X ++ (lo, C₁ ++ (k, v) :: C₂) :: Y) (X ++ (lo, C₁) :: (k, (k, v) :: C₂) :: Y)
  | move {X Y : List (κ × List (κ × α))} {lo lo' k : κ} {v : α} {C C' C₁ C₂ : List (κ × α)}
      (h : C ++ C' = C₁ ++ (k, v) :: C₂) (hne : C₁ ≠ []) :
      Recut (X ++ (lo, C) :: (lo', C') :: Y) (X ++ (lo, C₁) :: (k, (k, v) :: C₂) :: Y)

theorem Recut.entries_eq {X X' : List (κ × List (κ × α))} (h : Recut X X') :
    entries X' = entries X := by
  cases h with
  | same => rfl
  | cut h => simp
  | @move X Y lo lo' k v C C' C₁ C₂ h hne =>
    have happ := congrArg (· ++ entries Y) h
    simp only [append_assoc] at happ
    simp [happ]

section Fenced

variable [LinearOrder κ]

/-- The entries of a block are in order and not below its fence. -/
def BlockOk (x : κ × List (κ × α)) : Prop :=
  x.2.Pairwise (fun a b => a.1 < b.1) ∧ ∀ e ∈ x.2, x.1 ≤ e.1

/-- The fence of the block `y` is above the block `x`. -/
def Below (x y : κ × List (κ × α)) : Prop := x.1 < y.1 ∧ ∀ e ∈ x.2, e.1 < y.1

/-- The blocks are in order, with the fences between them. -/
structure Fenced (X : List (κ × List (κ × α))) : Prop where
  block : ∀ x ∈ X, BlockOk x
  below : X.Pairwise Below

variable {X Y : List (κ × List (κ × α))} {lo lo' k : κ} {v : α} {C C' C₁ C₂ : List (κ × α)}

theorem fenced_middle {x : κ × List (κ × α)} :
    Fenced (X ++ x :: Y) ↔ Fenced X ∧ BlockOk x ∧ Fenced Y ∧ (∀ a ∈ X, Below a x) ∧
      (∀ b ∈ Y, Below x b) ∧ ∀ a ∈ X, ∀ b ∈ Y, Below a b := by
  constructor
  · rintro ⟨hblock, hbelow⟩
    rw [pairwise_append, pairwise_cons] at hbelow
    obtain ⟨hX, ⟨hxY, hY⟩, hcross⟩ := hbelow
    refine ⟨⟨fun a ha => hblock a (by simp [ha]), hX⟩, hblock x (by simp),
      ⟨fun b hb => hblock b (by simp [hb]), hY⟩, fun a ha => hcross a ha x (by simp), hxY,
      fun a ha b hb => hcross a ha b (by simp [hb])⟩
  · rintro ⟨⟨hbX, hX⟩, hx, ⟨hbY, hY⟩, hXx, hxY, hXY⟩
    refine ⟨fun a ha => ?_, ?_⟩
    · rcases mem_append.mp ha with ha | ha
      · exact hbX a ha
      · rcases mem_cons.mp ha with rfl | ha
        · exact hx
        · exact hbY a ha
    · rw [pairwise_append, pairwise_cons]
      refine ⟨hX, ⟨hxY, hY⟩, fun a ha b hb => ?_⟩
      rcases mem_cons.mp hb with rfl | hb
      · exact hXx a ha
      · exact hXY a ha b hb

/-- Blocks that begin at their fences and hold a list in order are fenced. -/
theorem Fenced.of_entries (hsorted : (entries X).Pairwise fun a b => a.1 < b.1)
    (hhead : ∀ x ∈ X, ∃ e E, x.2 = e :: E ∧ e.1 = x.1) : Fenced X := by
  obtain ⟨hblocks, hcross⟩ := pairwise_flatMap.mp hsorted
  refine ⟨fun x hx => ⟨hblocks x hx, fun e he => ?_⟩, hcross.imp_of_mem fun hx hy hxy => ?_⟩
  · obtain ⟨f, E, hE, hf⟩ := hhead x hx
    have hx := hblocks x hx
    rw [hE] at hx he
    rcases mem_cons.mp he with rfl | he
    · exact le_of_eq hf.symm
    · exact hf ▸ le_of_lt ((pairwise_cons.mp hx).1 e he)
  · obtain ⟨e, E, hE, he⟩ := hhead _ hx
    obtain ⟨f, F, hF, hf⟩ := hhead _ hy
    have hfirst : f ∈ _ := hF ▸ mem_cons_self
    exact ⟨he ▸ hf ▸ hxy e (hE ▸ mem_cons_self) f hfirst, fun g hg => hf ▸ hxy g hg f hfirst⟩

theorem Fenced.cut (h : Fenced (X ++ (lo, C₁ ++ (k, v) :: C₂) :: Y)) (hne : C₁ ≠ []) :
    Fenced (X ++ (lo, C₁) :: (k, (k, v) :: C₂) :: Y) := by
  obtain ⟨hX, ⟨hsorted, hlower⟩, hY, hbefore, hbehind, hcross⟩ := fenced_middle.mp h
  rw [pairwise_append] at hsorted
  obtain ⟨hs₁, hs₂, hs⟩ := hsorted
  have hcut : ∀ e ∈ C₁, e.1 < k := fun e he => hs e he (k, v) mem_cons_self
  have hlo : lo < k := by
    obtain ⟨e, he⟩ := exists_mem_of_ne_nil C₁ hne
    exact lt_of_le_of_lt (hlower e (mem_append_left _ he)) (hcut e he)
  have hright : BlockOk (k, (k, v) :: C₂) := by
    refine ⟨hs₂, fun e he => ?_⟩
    rcases mem_cons.mp he with rfl | he
    · exact le_refl _
    · exact le_of_lt ((pairwise_cons.mp hs₂).1 e he)
  have hrest : Fenced ((k, (k, v) :: C₂) :: Y) := by
    refine (fenced_middle (X := [])).mpr ⟨⟨by simp, by simp⟩, hright, hY, by simp, ?_, by simp⟩
    intro b hb
    obtain ⟨-, hb⟩ := hbehind b hb
    exact ⟨hb (k, v) (by simp), fun e he => hb e (mem_append_right _ he)⟩
  refine fenced_middle.mpr ⟨hX, ⟨hs₁, fun e he => hlower e (mem_append_left _ he)⟩, hrest,
    hbefore, fun b hb => ?_, fun a ha b hb => ?_⟩
  · rcases mem_cons.mp hb with rfl | hb
    · exact ⟨hlo, hcut⟩
    · exact ⟨(hbehind b hb).1, fun e he => (hbehind b hb).2 e (mem_append_left _ he)⟩
  · rcases mem_cons.mp hb with rfl | hb
    · obtain ⟨halo, ha⟩ := hbefore a ha
      exact ⟨halo.trans hlo, fun e he => (ha e he).trans hlo⟩
    · exact hcross a ha b hb

theorem Fenced.merge (h : Fenced (X ++ (lo, C) :: (lo', C') :: Y)) :
    Fenced (X ++ (lo, C ++ C') :: Y) := by
  obtain ⟨hX, ⟨hs, hlower⟩, hrest, hbefore, hbehind, hcross⟩ := fenced_middle.mp h
  obtain ⟨-, ⟨hs', hlower'⟩, hY, -, hbehind', -⟩ := (fenced_middle (X := [])).mp hrest
  obtain ⟨hlo, hC⟩ := hbehind (lo', C') mem_cons_self
  refine fenced_middle.mpr ⟨hX, ⟨?_, fun e he => ?_⟩, hY, hbefore, fun b hb => ⟨?_, fun e he => ?_⟩,
    fun a ha b hb => hcross a ha b (mem_cons_of_mem _ hb)⟩
  · rw [pairwise_append]
    exact ⟨hs, hs', fun a ha b hb => lt_of_lt_of_le (hC a ha) (hlower' b hb)⟩
  · rcases mem_append.mp he with he | he
    · exact hlower e he
    · exact le_trans (le_of_lt hlo) (hlower' e he)
  · exact (hbehind b (mem_cons_of_mem _ hb)).1
  · rcases mem_append.mp he with he | he
    · exact (hbehind b (mem_cons_of_mem _ hb)).2 e he
    · exact (hbehind' b hb).2 e he

theorem Fenced.recut {X X' : List (κ × List (κ × α))} (h : Fenced X) (hr : Recut X X') :
    Fenced X' := by
  cases hr with
  | same => exact h
  | cut hne => exact h.cut hne
  | move heq hne =>
    have hmerged := h.merge
    rw [heq] at hmerged
    exact hmerged.cut hne

theorem Fenced.mono (h : Fenced (X ++ (lo, C) :: Y)) (hC : C'.Sublist C) :
    Fenced (X ++ (lo, C') :: Y) := by
  obtain ⟨hX, ⟨hsorted, hlower⟩, hY, hbefore, hbehind, hcross⟩ := fenced_middle.mp h
  exact fenced_middle.mpr ⟨hX, ⟨hsorted.sublist hC, fun e he => hlower e (hC.subset he)⟩, hY,
    hbefore, fun b hb => ⟨(hbehind b hb).1, fun e he => (hbehind b hb).2 e (hC.subset he)⟩, hcross⟩

/-- A new entry goes into the block whose fences enclose it. -/
theorem Fenced.insert (h : Fenced (X ++ (lo, C₁ ++ C₂) :: Y)) (hlo : lo ≤ k)
    (h₁ : ∀ e ∈ C₁, e.1 < k) (h₂ : ∀ e ∈ C₂, k < e.1) (hhi : ∀ y ∈ Y, k < y.1) :
    Fenced (X ++ (lo, C₁ ++ (k, v) :: C₂) :: Y) := by
  obtain ⟨hX, ⟨hsorted, hlower⟩, hY, hbefore, hbehind, hcross⟩ := fenced_middle.mp h
  rw [pairwise_append] at hsorted
  obtain ⟨hs₁, hs₂, hs⟩ := hsorted
  refine fenced_middle.mpr ⟨hX, ⟨?_, fun e he => ?_⟩, hY, hbefore, fun b hb => ⟨(hbehind b hb).1,
    fun e he => ?_⟩, hcross⟩
  · rw [pairwise_append, pairwise_cons]
    refine ⟨hs₁, ⟨h₂, hs₂⟩, fun a ha b hb => ?_⟩
    rcases mem_cons.mp hb with rfl | hb
    · exact h₁ a ha
    · exact hs a ha b hb
  · rcases mem_append.mp he with he | he
    · exact hlower e (mem_append_left _ he)
    · rcases mem_cons.mp he with rfl | he
      · exact hlo
      · exact hlower e (mem_append_right _ he)
  · rcases mem_append.mp he with he | he
    · exact (hbehind b hb).2 e (mem_append_left _ he)
    · rcases mem_cons.mp he with rfl | he
      · exact hhi b hb
      · exact (hbehind b hb).2 e (mem_append_right _ he)

end Fenced

end Fences

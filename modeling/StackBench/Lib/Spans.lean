import Mathlib.Order.MinMax
import Mathlib.Tactic.Common

/-!
# Lists of spans with gaps between them

A list of spans is separated when they are in order and no two touch. Inserting
a span swallows every span that it touches, and keeps the list separated.
-/

open List

namespace Spans

/-- The points from `lo` up to `hi`, without `hi`. -/
structure Span (α : Type*) where
  lo : α
  hi : α
deriving DecidableEq

variable {α : Type*} [LinearOrder α]

def Span.Mem (s : Span α) (x : α) : Prop := s.lo ≤ x ∧ x < s.hi

/-- `a` ends before `b` starts, with a gap between them. -/
def Apart (a b : Span α) : Prop := a.hi < b.lo
deriving Decidable

/-- Neither span ends before the other starts. -/
def Touch (a b : Span α) : Prop := ¬Apart a b ∧ ¬Apart b a
deriving Decidable

/-- The least span around two spans. -/
def hull (a b : Span α) : Span α := ⟨min a.lo b.lo, max a.hi b.hi⟩

/-- In order, with gaps, and no span is empty. -/
structure Separated (l : List (Span α)) : Prop where
  apart : l.Pairwise Apart
  nonempty : ∀ s ∈ l, s.lo < s.hi

def Covers (l : List (Span α)) (x : α) : Prop := ∃ s ∈ l, s.Mem x

/-- Let `cur` swallow the spans at the front of the list that it touches. -/
def absorb (cur : Span α) : List (Span α) → List (Span α)
  | [] => [cur]
  | s :: ss => if Touch cur s then absorb (hull cur s) ss else cur :: s :: ss

/-- Insert a span, merging it with all spans that it touches. -/
def insert (new : Span α) : List (Span α) → List (Span α)
  | [] => [new]
  | s :: ss =>
    if Touch new s then absorb (hull new s) ss
    else if Apart new s then new :: s :: ss
    else s :: insert new ss

theorem hull_mem_iff {a b : Span α} (h : Touch a b) (x : α) :
    (hull a b).Mem x ↔ a.Mem x ∨ b.Mem x := by
  obtain ⟨h₁, h₂⟩ := h
  simp only [Apart, not_lt] at h₁ h₂
  simp only [hull, Span.Mem, min_le_iff, lt_max_iff]
  constructor
  · rintro ⟨ha | hb, ha' | hb'⟩
    · exact Or.inl ⟨ha, ha'⟩
    · rcases lt_or_ge x a.hi with hlt | hge
      · exact Or.inl ⟨ha, hlt⟩
      · exact Or.inr ⟨h₁.trans hge, hb'⟩
    · rcases lt_or_ge x b.hi with hlt | hge
      · exact Or.inr ⟨hb, hlt⟩
      · exact Or.inl ⟨h₂.trans hge, ha'⟩
    · exact Or.inr ⟨hb, hb'⟩
  · rintro (⟨ha, ha'⟩ | ⟨hb, hb'⟩)
    · exact ⟨Or.inl ha, Or.inl ha'⟩
    · exact ⟨Or.inr hb, Or.inr hb'⟩

theorem hull_nonempty {a b : Span α} (ha : a.lo < a.hi) : (hull a b).lo < (hull a b).hi :=
  lt_of_le_of_lt (min_le_left _ _) (lt_of_lt_of_le ha (le_max_left _ _))

@[simp]
theorem covers_cons (s : Span α) (ss : List (Span α)) (x : α) :
    Covers (s :: ss) x ↔ s.Mem x ∨ Covers ss x := by
  simp [Covers]

variable {ss : List (Span α)} {new : Span α} {b : α}

theorem Separated.tail {s : Span α} (h : Separated (s :: ss)) : Separated ss :=
  ⟨(pairwise_cons.mp h.apart).2, fun t ht => h.nonempty t (mem_cons_of_mem _ ht)⟩

theorem absorb_covers (cur : Span α) (ss : List (Span α)) (x : α) :
    Covers (absorb cur ss) x ↔ cur.Mem x ∨ Covers ss x := by
  induction ss generalizing cur with
  | nil => simp [absorb, Covers]
  | cons s ss ih =>
    unfold absorb
    split
    · next htouch => rw [ih, hull_mem_iff htouch, covers_cons, or_assoc]
    · rw [covers_cons]

theorem insert_covers (new : Span α) (ss : List (Span α)) (x : α) :
    Covers (insert new ss) x ↔ new.Mem x ∨ Covers ss x := by
  induction ss with
  | nil => simp [insert, Covers]
  | cons s ss ih =>
    unfold insert
    split
    · next htouch => rw [absorb_covers, hull_mem_iff htouch, covers_cons, or_assoc]
    split
    · rw [covers_cons]
    · rw [covers_cons, ih, covers_cons, or_left_comm]

/-- A property of both spans that goes over to their hull holds of all spans
after an insertion. -/
theorem absorb_forall {P : Span α → Prop} (hhull : ∀ a b, P a → P b → P (hull a b))
    {cur : Span α} (hcur : P cur) (hss : ∀ s ∈ ss, P s) : ∀ s ∈ absorb cur ss, P s := by
  induction ss generalizing cur with
  | nil => simpa [absorb] using hcur
  | cons s ss ih =>
    have hs := hss s mem_cons_self
    have hrest := fun t ht => hss t (mem_cons_of_mem _ ht)
    unfold absorb
    split
    · exact ih (hhull _ _ hcur hs) hrest
    intro t ht
    rcases mem_cons.mp ht with rfl | ht
    · exact hcur
    · exact hss t ht

theorem insert_forall {P : Span α → Prop} (hhull : ∀ a b, P a → P b → P (hull a b))
    (hnew : P new) (hss : ∀ s ∈ ss, P s) : ∀ s ∈ insert new ss, P s := by
  induction ss with
  | nil => simpa [insert] using hnew
  | cons s ss ih =>
    have hs := hss s mem_cons_self
    have hrest := fun t ht => hss t (mem_cons_of_mem _ ht)
    unfold insert
    split
    · exact absorb_forall hhull (hhull _ _ hnew hs) hrest
    split
    · intro t ht
      rcases mem_cons.mp ht with rfl | ht
      · exact hnew
      · exact hss t ht
    intro t ht
    rcases mem_cons.mp ht with rfl | ht
    · exact hs
    · exact ih hrest t ht

theorem insert_append (hne : new.lo < new.hi) {front : List (Span α)}
    (hfront : ∀ s ∈ front, s.lo < s.hi ∧ Apart s new) (ss : List (Span α)) :
    insert new (front ++ ss) = front ++ insert new ss := by
  induction front with
  | nil => rfl
  | cons s front ih =>
    obtain ⟨hs, hbefore⟩ := hfront s mem_cons_self
    have hafter : ¬Apart new s := fun hcon => lt_asymm (lt_trans hs hbefore) (lt_trans hne hcon)
    rw [cons_append, insert, if_neg fun htouch => htouch.2 hbefore, if_neg hafter,
      ih fun t ht => hfront t (mem_cons_of_mem _ ht)]
    rfl

theorem insert_before (h : ∀ s ∈ ss.head?, Apart new s) : insert new ss = new :: ss := by
  cases ss with
  | nil => rfl
  | cons s ss =>
    have hs := h s rfl
    rw [insert, if_neg fun htouch => htouch.1 hs, if_pos hs]

theorem hull_lo_gt (s t : Span α) (hs : b < s.lo) (ht : b < t.lo) : b < (hull s t).lo :=
  lt_min hs ht

theorem hull_hi_le (s t : Span α) (hs : s.hi ≤ b) (ht : t.hi ≤ b) : (hull s t).hi ≤ b :=
  max_le hs ht

theorem absorb_separated {cur : Span α} (h : Separated ss)
    (hne : cur.lo < cur.hi) (hafter : ∀ s ∈ ss, ¬Apart s cur) : Separated (absorb cur ss) := by
  induction ss generalizing cur with
  | nil => exact ⟨pairwise_singleton _ _, by simpa [absorb] using hne⟩
  | cons s ss ih =>
    have hapart := (pairwise_cons.mp h.apart).1
    have hs := h.nonempty s mem_cons_self
    unfold absorb
    split
    · apply ih h.tail (hull_nonempty hne)
      intro t ht
      have hst : s.hi < t.lo := hapart t ht
      have htne := h.nonempty t (mem_cons_of_mem _ ht)
      simp only [Apart, hull, not_lt]
      exact (min_le_right _ _).trans (hs.trans (hst.trans htne)).le
    next htouch =>
    have hbefore : cur.hi < s.lo := by
      by_contra hcon
      exact htouch ⟨hcon, hafter s mem_cons_self⟩
    refine ⟨pairwise_cons.mpr ⟨?_, h.apart⟩, ?_⟩
    · intro t ht
      rcases mem_cons.mp ht with rfl | ht
      · exact hbefore
      · exact (hbefore.trans hs).trans (hapart t ht)
    · intro t ht
      rcases mem_cons.mp ht with rfl | ht
      · exact hne
      · exact h.nonempty t ht

theorem insert_separated (h : Separated ss)
    (hne : new.lo < new.hi) : Separated (insert new ss) := by
  induction ss with
  | nil => exact ⟨pairwise_singleton _ _, by simpa [insert] using hne⟩
  | cons s ss ih =>
    have hapart := (pairwise_cons.mp h.apart).1
    have hs := h.nonempty s mem_cons_self
    unfold insert
    split
    · apply absorb_separated h.tail (hull_nonempty hne)
      intro t ht
      have hst : s.hi < t.lo := hapart t ht
      have htne := h.nonempty t (mem_cons_of_mem _ ht)
      simp only [Apart, hull, not_lt]
      exact (min_le_right _ _).trans (hs.trans (hst.trans htne)).le
    next htouch =>
    split
    · next hbefore =>
      refine ⟨pairwise_cons.mpr ⟨?_, h.apart⟩, ?_⟩
      · intro t ht
        rcases mem_cons.mp ht with rfl | ht
        · exact hbefore
        · exact (lt_trans hbefore hs).trans (hapart t ht)
      · intro t ht
        rcases mem_cons.mp ht with rfl | ht
        · exact hne
        · exact h.nonempty t ht
    next hbefore =>
    have hafter : s.hi < new.lo := by
      by_contra hcon
      exact htouch ⟨hbefore, hcon⟩
    have hrest := ih h.tail
    refine ⟨pairwise_cons.mpr ⟨?_, hrest.apart⟩, ?_⟩
    · exact insert_forall (fun a b => hull_lo_gt a b) hafter hapart
    · intro t ht
      rcases mem_cons.mp ht with rfl | ht
      · exact hs
      · exact hrest.nonempty t ht

/-- Where the run of points that starts at `b` ends. -/
def runEnd (b : α) : List (Span α) → α
  | [] => b
  | s :: _ => if s.lo = b then s.hi else b

theorem covers_of_lt_runEnd {x : α} {l : List (Span α)} (hb : b ≤ x) (hx : x < runEnd b l) :
    Covers l x := by
  cases l with
  | nil => exact absurd hx (not_lt.mpr hb)
  | cons s ss =>
    rw [runEnd] at hx
    split at hx
    · next hlo => exact ⟨s, mem_cons_self, hlo ▸ hb, hx⟩
    · exact absurd hx (not_lt.mpr hb)

theorem Separated.not_covers_runEnd {l : List (Span α)} (h : Separated l)
    (hb : ∀ s ∈ l, b ≤ s.lo) : ¬Covers l (runEnd b l) := by
  cases l with
  | nil => rintro ⟨s, hs, -⟩; cases hs
  | cons s ss =>
    have hapart := (pairwise_cons.mp h.apart).1
    have hs := h.nonempty s mem_cons_self
    have hbs := hb s mem_cons_self
    rintro ⟨t, ht, hlo, hhi⟩
    rw [runEnd] at hlo hhi
    by_cases heq : s.lo = b
    · rw [if_pos heq] at hlo hhi
      rcases mem_cons.mp ht with rfl | ht
      · exact lt_irrefl _ hhi
      · exact absurd hlo (not_le.mpr (hapart t ht))
    rw [if_neg heq] at hlo hhi
    rcases mem_cons.mp ht with rfl | ht
    · exact heq (le_antisymm hlo hbs)
    · exact absurd (hlo.trans hbs) (not_le.mpr (hs.trans (hapart t ht)))

theorem Separated.length_le {l : List (Span ℕ)} {b n : ℕ} (h : Separated l)
    (hlo : ∀ s ∈ l, b ≤ s.lo) (hhi : ∀ s ∈ l, s.hi ≤ n) (hb : b ≤ n) : l.length + b ≤ n := by
  induction l generalizing b with
  | nil => simpa using hb
  | cons s ss ih =>
    have hapart := (pairwise_cons.mp h.apart).1
    have hs := h.nonempty s mem_cons_self
    have hslo := hlo s mem_cons_self
    have hlen := ih (b := s.hi) h.tail (fun t ht => (hapart t ht).le)
      (fun t ht => hhi t (mem_cons_of_mem _ ht)) (hhi s mem_cons_self)
    rw [length_cons]
    omega

/-- The part of a span from `n` on, counted from `n`. -/
def lower (n : ℕ) (s : Span ℕ) : Span ℕ := ⟨s.lo - n, s.hi - n⟩

theorem covers_lower (n : ℕ) (l : List (Span ℕ)) (i : ℕ) :
    Covers (l.map (lower n)) i ↔ Covers l (n + i) := by
  simp only [Covers, mem_map, exists_exists_and_eq_and]
  refine exists_congr fun s => and_congr_right fun _ => ?_
  simp only [lower, Span.Mem]
  omega

theorem Separated.lower {l : List (Span ℕ)} {n : ℕ} (h : Separated l) (hn : ∀ s ∈ l, n < s.hi) :
    Separated (l.map (lower n)) := by
  refine ⟨pairwise_map.mpr ?_, ?_⟩
  · refine h.apart.imp_of_mem ?_
    intro a b ha _ hab
    have hna := hn a ha
    simp only [Apart, Spans.lower] at hab ⊢
    omega
  · intro t ht
    obtain ⟨s, hs, rfl⟩ := mem_map.mp ht
    have hne := h.nonempty s hs
    have hns := hn s hs
    simp only [Spans.lower]
    omega

end Spans

import Mathlib.Data.List.Nodup
import StackBench.Lib.Linked

/-!
# Doubly linked lists

Many lists in one memory of cells, each cell with links in both directions and
in one list at most.
-/

namespace Doubly

open Function List

/-- The links of all cells. -/
structure Links (ι : Type*) where
  next : ι → ι
  prev : ι → ι

/-- From `h` on the forward links run through `xs` and end at `nil`, and the backward
links run back to `p`. -/
def Segment {ι : Type*} (L : Links ι) (nil : ι) : ι → ι → List ι → Prop
  | _, h, [] => h = nil
  | p, h, x :: xs => h = x ∧ x ≠ nil ∧ L.prev x = p ∧ Segment L nil x (L.next x) xs

namespace Segment

variable {ι : Type*} {L L' : Links ι} {nil p h q : ι} {xs as bs : List ι}

section

variable (hs : Segment L nil p h xs)
include hs

theorem congr (heq : ∀ x ∈ xs, L'.next x = L.next x ∧ L'.prev x = L.prev x) :
    Segment L' nil p h xs := by
  induction xs generalizing p h with
  | nil => exact hs
  | cons x xs ih =>
    obtain ⟨rfl, hne, hprev, htail⟩ := hs
    have hx := heq h mem_cons_self
    refine ⟨rfl, hne, hx.2.trans hprev, ?_⟩
    rw [hx.1]
    exact ih htail fun y hy => heq y (mem_cons_of_mem _ hy)

theorem chain : Linked.Chain L.next nil h xs := by
  induction xs generalizing p h with
  | nil => exact hs
  | cons x xs ih =>
    obtain ⟨rfl, hne, -, htail⟩ := hs
    exact ⟨rfl, hne, ih htail⟩

theorem ne_nil (hq : q ∈ xs) : q ≠ nil := hs.chain.ne_nil hq

theorem head_eq : h = xs.headD nil := hs.chain.head_eq

end

theorem prev_eq (hs : Segment L nil p h (as ++ q :: bs)) : L.prev q = as.getLastD p := by
  induction as generalizing p h with
  | nil => exact hs.2.2.1
  | cons a as ih =>
    obtain ⟨rfl, -, -, htail⟩ := hs
    rw [ih htail, getLastD_cons]

theorem next_eq (hs : Segment L nil p h (as ++ q :: bs)) : L.next q = bs.headD nil :=
  hs.chain.next_eq

theorem ne_next {b c : ι} (hs : Segment L nil p h (as ++ b :: bs)) (hc : c ≠ nil)
    (hcs : c ∉ bs) : c ≠ L.next b := by
  rw [hs.next_eq]
  cases bs with
  | nil => exact hc
  | cons d ds =>
    rintro rfl
    exact hcs mem_cons_self

end Segment

section Operations

variable {ι : Type*} [DecidableEq ι]

def Links.unlink (L : Links ι) (nil q : ι) : Links ι where
  next := if L.prev q = nil then L.next else update L.next (L.prev q) (L.next q)
  prev := if L.next q = nil then L.prev else update L.prev (L.next q) (L.prev q)

def Links.pushFront (L : Links ι) (nil h q : ι) : Links ι where
  next := update L.next q h
  prev := if h = nil then update L.prev q nil
    else update (update L.prev q nil) h q

def Links.pushBack (L : Links ι) (nil last q : ι) : Links ι where
  next := if last = nil then update L.next q nil
    else update (update L.next q nil) last q
  prev := update L.prev q last

def Links.insertAfter (L : Links ι) (nil b q : ι) : Links ι where
  next := update (update L.next q (L.next b)) b q
  prev := if L.next b = nil then update L.prev q b
    else update (update L.prev q b) (L.next b) q

variable {L : Links ι} {nil p h q x : ι} {xs as bs : List ι}

variable {b last : ι}

theorem Links.insertAfter_next (hxq : x ≠ q) (hxb : x ≠ b) :
    (L.insertAfter nil b q).next x = L.next x := by
  simp only [insertAfter, update_of_ne hxb, update_of_ne hxq]

theorem Links.insertAfter_next_self : (L.insertAfter nil b q).next b = q := update_self _ _ _

theorem Links.insertAfter_next_new (hqb : q ≠ b) : (L.insertAfter nil b q).next q = L.next b := by
  simp only [insertAfter, update_of_ne hqb, update_self]

theorem Links.insertAfter_prev_next (hnext : L.next b ≠ nil) :
    (L.insertAfter nil b q).prev (L.next b) = q := by
  unfold insertAfter
  dsimp only
  rw [if_neg hnext, update_self]

theorem Links.insertAfter_prev (hxq : x ≠ q) (hxn : x ≠ L.next b) :
    (L.insertAfter nil b q).prev x = L.prev x := by
  unfold insertAfter
  dsimp only
  split
  · exact update_of_ne hxq _ _
  · rw [update_of_ne hxn, update_of_ne hxq]

theorem Links.insertAfter_prev_self (hqn : q ≠ L.next b) : (L.insertAfter nil b q).prev q = b := by
  unfold insertAfter
  dsimp only
  split
  · exact update_self _ _ _
  · rw [update_of_ne hqn, update_self]

theorem Links.pushFront_prev_self (hh : h ≠ q) : (L.pushFront nil h q).prev q = nil := by
  unfold pushFront
  dsimp only
  split
  · exact update_self _ _ _
  · rw [update_of_ne (Ne.symm hh), update_self]

theorem Links.pushFront_prev (hxq : x ≠ q) (hxh : x ≠ h) :
    (L.pushFront nil h q).prev x = L.prev x := by
  unfold pushFront
  dsimp only
  split
  · exact update_of_ne hxq _ _
  · rw [update_of_ne hxh, update_of_ne hxq]

theorem Links.pushBack_next_self (hl : last ≠ q) : (L.pushBack nil last q).next q = nil := by
  unfold pushBack
  dsimp only
  split
  · exact update_self _ _ _
  · rw [update_of_ne (Ne.symm hl), update_self]

theorem Links.pushBack_next (hxq : x ≠ q) (hxl : x ≠ last) :
    (L.pushBack nil last q).next x = L.next x := by
  unfold pushBack
  dsimp only
  split
  · exact update_of_ne hxq _ _
  · rw [update_of_ne hxl, update_of_ne hxq]

theorem Links.unlink_next (hx : x ≠ L.prev q) : (L.unlink nil q).next x = L.next x := by
  unfold unlink
  split
  · rfl
  · exact update_of_ne hx _ _

theorem Links.unlink_prev (hx : x ≠ L.next q) : (L.unlink nil q).prev x = L.prev x := by
  unfold unlink
  dsimp only
  split
  · rfl
  · exact update_of_ne hx _ _

theorem Segment.unlink (hs : Segment L nil p h (as ++ q :: bs)) (hnodup : (as ++ q :: bs).Nodup)
    (hp : p ∉ as ++ q :: bs) :
    Segment (L.unlink nil q) nil p (if as = [] then L.next q else h) (as ++ bs) := by
  have hprev := hs.prev_eq
  have hnext := hs.next_eq
  induction as generalizing p h with
  | nil =>
    obtain ⟨rfl, hne, hprevh, htail⟩ := hs
    rw [nil_append, nodup_cons] at hnodup
    simp only [nil_append, mem_cons, not_or] at hp
    cases bs with
    | nil => exact hnext
    | cons b bs =>
      obtain ⟨hb, hbne, hbprev, hrest⟩ := htail
      have hbs := (nodup_cons.mp hnodup.2).1
      refine ⟨hb, hbne, ?_, ?_⟩
      · simp only [Links.unlink, hb, if_neg hbne, update_self]
        exact hprevh
      · have hbp : b ≠ L.prev h := by
          rw [hprevh]
          rintro rfl
          exact hp.2 mem_cons_self
        rw [Links.unlink_next hbp]
        refine hrest.congr fun y hy => ⟨Links.unlink_next ?_, Links.unlink_prev ?_⟩
        · rw [hprevh]
          rintro rfl
          exact hp.2 (mem_cons_of_mem _ hy)
        · rw [hb]
          rintro rfl
          exact hbs hy
  | cons a as ih =>
    obtain ⟨rfl, hne, hprevh, htail⟩ := hs
    rw [cons_append, nodup_cons] at hnodup
    rw [getLastD_cons] at hprev
    have hrest := ih htail hnodup.2 hnodup.1 hprev
    have hnotnext : h ≠ L.next q := by
      rw [hnext]
      rcases Linked.headD_mem_or bs nil with hnil | hmem
      · rw [hnil]
        exact hne
      · intro hcon
        rw [← hcon] at hmem
        exact hnodup.1 (by simp [hmem])
    refine ⟨rfl, hne, (Links.unlink_prev hnotnext).trans hprevh, ?_⟩
    by_cases has : as = []
    · subst has
      have hself : (L.unlink nil q).next h = L.next q := by
        have hq : L.prev q = h := hprev
        simp only [Links.unlink, hq, if_neg hne, update_self]
      rw [hself]
      exact hrest
    have hother : h ≠ L.prev q := by
      rw [hprev]
      rcases Linked.getLastD_mem_or as h with hcon | hmem
      · intro _
        obtain ⟨ys, y, rfl⟩ := (eq_nil_or_concat as).resolve_left has
        rw [concat_eq_append, getLastD_concat] at hcon
        exact hnodup.1 (by simp [← hcon])
      · intro hcon
        rw [← hcon] at hmem
        exact hnodup.1 (by simp [hmem])
    rw [Links.unlink_next hother]
    rw [if_neg has] at hrest
    exact hrest

theorem Segment.insertAfter (hs : Segment L nil p h (as ++ b :: bs))
    (hnodup : (as ++ b :: bs).Nodup) (hq : q ∉ as ++ b :: bs) (hne : q ≠ nil) :
    Segment (L.insertAfter nil b q) nil p h (as ++ b :: q :: bs) := by
  have hnb : b ≠ nil := hs.ne_nil (by simp)
  have hqn : q ≠ L.next b :=
    hs.ne_next hne fun hmem => hq (mem_append_right _ (mem_cons_of_mem _ hmem))
  induction as generalizing p h with
  | nil =>
    have hbn : b ≠ L.next b := hs.ne_next hnb (nodup_cons.mp hnodup).1
    obtain ⟨rfl, -, hprev, htail⟩ := hs
    simp only [nil_append, mem_cons, not_or] at hq
    rw [nil_append, nodup_cons] at hnodup
    refine ⟨rfl, hnb, (Links.insertAfter_prev (Ne.symm hq.1) hbn).trans hprev, ?_⟩
    rw [Links.insertAfter_next_self]
    refine ⟨rfl, hne, Links.insertAfter_prev_self hqn, ?_⟩
    rw [Links.insertAfter_next_new hq.1]
    cases bs with
    | nil => exact htail
    | cons c cs =>
      obtain ⟨hc, hcne, -, hrest⟩ := htail
      rw [mem_cons, not_or] at hq
      have hcs := nodup_cons.mp hnodup.2
      have hch : c ≠ h := by
        rintro rfl
        exact hnodup.1 mem_cons_self
      refine ⟨hc, hcne, ?_, ?_⟩
      · simp only [Links.insertAfter, hc, if_neg hcne, update_self]
      · rw [Links.insertAfter_next (Ne.symm hq.2.1) hch]
        refine hrest.congr fun y hy => ?_
        have hyq : y ≠ q := by
          rintro rfl
          exact hq.2.2 hy
        have hyh : y ≠ h := by
          rintro rfl
          exact hnodup.1 (mem_cons_of_mem _ hy)
        have hyc : y ≠ L.next h := by
          rw [hc]
          rintro rfl
          exact hcs.1 hy
        exact ⟨Links.insertAfter_next hyq hyh, Links.insertAfter_prev hyq hyc⟩
  | cons a as ih =>
    obtain ⟨rfl, hane, hprev, htail⟩ := hs
    rw [cons_append, mem_cons, not_or] at hq
    rw [cons_append, nodup_cons] at hnodup
    have hab : h ≠ b := by
      rintro rfl
      exact hnodup.1 (by simp)
    have han : h ≠ L.next b := htail.ne_next hane fun hmem => hnodup.1 (by simp [hmem])
    refine ⟨rfl, hane, (Links.insertAfter_prev (Ne.symm hq.1) han).trans hprev, ?_⟩
    rw [Links.insertAfter_next (Ne.symm hq.1) hab]
    exact ih htail hnodup.2 hq.2

theorem Segment.pushFront (hs : Segment L nil nil h xs) (hnodup : xs.Nodup) (hq : q ∉ xs)
    (hne : q ≠ nil) : Segment (L.pushFront nil h q) nil nil q (q :: xs) := by
  have hhq : h ≠ q := by
    rw [hs.head_eq]
    rcases Linked.headD_mem_or xs nil with hnil | hmem
    · rw [hnil]
      exact Ne.symm hne
    · rintro rfl
      exact hq hmem
  refine ⟨rfl, hne, Links.pushFront_prev_self hhq, ?_⟩
  have hnext : (L.pushFront nil h q).next q = h := update_self _ _ _
  rw [hnext]
  cases xs with
  | nil => exact hs
  | cons x xs =>
    obtain ⟨rfl, hhne, -, htail⟩ := hs
    rw [mem_cons, not_or] at hq
    rw [nodup_cons] at hnodup
    refine ⟨rfl, hhne, ?_, ?_⟩
    · simp only [Links.pushFront, if_neg hhne, update_self]
    · have hkeep : (L.pushFront nil h q).next h = L.next h := update_of_ne hhq _ _
      rw [hkeep]
      refine htail.congr fun y hy => ?_
      have hyq : y ≠ q := by
        rintro rfl
        exact hq.2 hy
      have hyh : y ≠ h := by
        rintro rfl
        exact hnodup.1 hy
      exact ⟨update_of_ne hyq _ _, Links.pushFront_prev hyq hyh⟩

theorem Segment.pushBack (hs : Segment L nil p h xs) (hnodup : xs.Nodup) (hq : q ∉ xs)
    (hne : q ≠ nil) (hp : p ≠ q) (hlast : last = xs.getLastD p) :
    Segment (L.pushBack nil last q) nil p (if xs = [] then q else h) (xs ++ [q]) := by
  induction xs generalizing p h with
  | nil =>
    have hlp : last = p := hlast
    refine ⟨rfl, hne, ?_, Links.pushBack_next_self (hlp ▸ hp)⟩
    rw [hlp]
    exact update_self _ _ _
  | cons x xs ih =>
    obtain ⟨rfl, hhne, hprev, htail⟩ := hs
    rw [mem_cons, not_or] at hq
    rw [nodup_cons] at hnodup
    rw [getLastD_cons] at hlast
    have hhq : h ≠ q := Ne.symm hq.1
    have hrest := ih htail hnodup.2 hq.2 hhq hlast
    refine ⟨rfl, hhne, ?_, ?_⟩
    · exact (update_of_ne hhq _ _).trans hprev
    · have hnext : (L.pushBack nil last q).next h = if xs = [] then q else L.next h := by
        by_cases hxs : xs = []
        · subst hxs
          have hlast' : last = h := hlast
          simp only [Links.pushBack, hlast', if_neg hhne, update_self, if_true]
        rw [if_neg hxs]
        refine Links.pushBack_next hhq ?_
        rw [hlast]
        obtain ⟨ys, y, rfl⟩ := (eq_nil_or_concat xs).resolve_left hxs
        rw [concat_eq_append, getLastD_concat]
        rintro rfl
        exact hnodup.1 (by simp)
      rw [hnext]
      exact hrest

end Operations

/-- The lists `xs k` from the cells `head k` on. -/
structure Family {ι κ : Type*} (L : Links ι) (nil : ι) (head : κ → ι) (xs : κ → List ι) : Prop where
  segment : ∀ k, Segment L nil nil (head k) (xs k)
  nodup : ∀ k, (xs k).Nodup
  apart : ∀ {j k : κ} {x : ι}, x ∈ xs j → x ∈ xs k → j = k

namespace Family

variable {ι κ : Type*} {L : Links ι} {nil q : ι} {head : κ → ι} {xs : κ → List ι} {k : κ}

section

variable (h : Family L nil head xs)
include h

theorem nil_notMem (k : κ) : nil ∉ xs k :=
  fun hmem => (h.segment k).ne_nil hmem rfl

theorem congr {L' : Links ι}
    (heq : ∀ k, ∀ x ∈ xs k, L'.next x = L.next x ∧ L'.prev x = L.prev x) : Family L' nil head xs :=
  ⟨fun k => (h.segment k).congr (heq k), h.nodup, h.apart⟩

theorem prev_eq_nil_iff (hq : q ∈ xs k) : L.prev q = nil ↔ head k = q := by
  obtain ⟨as, bs, hxs⟩ := append_of_mem hq
  have hseg := h.segment k
  have hnodup := h.nodup k
  rw [hxs] at hseg hnodup
  rw [hseg.prev_eq, hseg.head_eq]
  cases as with
  | nil => simp
  | cons a as =>
    rw [getLastD_cons, cons_append, headD_cons]
    have hne : (as.getLastD a) ≠ nil := by
      rcases Linked.getLastD_mem_or as a with hl | hl
      · rw [hl]
        exact hseg.ne_nil (by simp)
      · exact hseg.ne_nil (mem_append_left _ (mem_cons_of_mem _ hl))
    refine ⟨fun hcon => absurd hcon hne, ?_⟩
    rintro rfl
    exact absurd (by simp) (nodup_cons.mp hnodup).1

theorem getLastD_erase [DecidableEq ι] (hq : q ∈ xs k) : ((xs k).erase q).getLastD nil =
      if L.next q = nil then L.prev q else (xs k).getLastD nil := by
  obtain ⟨as, bs, hxs⟩ := append_of_mem hq
  have hseg := h.segment k
  have hnodup := h.nodup k
  rw [hxs] at hseg hnodup ⊢
  have has : q ∉ as := fun hmem =>
    (nodup_append.mp hnodup).2.2 q hmem q mem_cons_self rfl
  rw [erase_append_right _ has, erase_cons_head, hseg.next_eq, hseg.prev_eq]
  cases bs with
  | nil => simp
  | cons b bs =>
    have hb : b ≠ nil := hseg.ne_nil (by simp)
    rw [headD_cons, if_neg hb]
    simp [getLastD_eq_getLast?, getLast?_append, getLast?_cons]

end

variable [DecidableEq ι] [DecidableEq κ]

section

variable (h : Family L nil head xs)
include h

omit [DecidableEq ι] in
/-- One list is replaced, and the links of the cells of the other lists are kept. -/
theorem replace {L' : Links ι} {hd : ι} {ys : List ι}
    (hys : Segment L' nil nil hd ys) (hnodup : ys.Nodup) (hnew : ∀ x ∈ ys, ∀ j, x ∈ xs j → j = k)
    (hother : ∀ j ≠ k, ∀ x ∈ xs j, L'.next x = L.next x ∧ L'.prev x = L.prev x) :
    Family L' nil (update head k hd) (update xs k ys) := by
  refine ⟨fun j => ?_, fun j => ?_, fun {i j x} hi hj => ?_⟩
  · by_cases hj : j = k
    · subst hj
      rw [update_self, update_self]
      exact hys
    · rw [update_of_ne hj, update_of_ne hj]
      exact (h.segment j).congr (hother j hj)
  · by_cases hj : j = k
    · subst hj
      rw [update_self]
      exact hnodup
    · rw [update_of_ne hj]
      exact h.nodup j
  · by_cases hik : i = k <;> by_cases hjk : j = k
    · rw [hik, hjk]
    · rw [hik, update_self] at hi
      rw [update_of_ne hjk] at hj
      rw [hik, hnew x hi j hj]
    · rw [hjk, update_self] at hj
      rw [update_of_ne hik] at hi
      rw [hjk, hnew x hj i hi]
    · rw [update_of_ne hik] at hi
      rw [update_of_ne hjk] at hj
      exact h.apart hi hj

theorem unlink (hq : q ∈ xs k) :
    Family (L.unlink nil q) nil
      (update head k (if L.prev q = nil then L.next q else head k))
      (update xs k ((xs k).erase q)) := by
  obtain ⟨as, bs, hxs⟩ := append_of_mem hq
  have hseg := h.segment k
  have hnodup := h.nodup k
  have hnil := h.nil_notMem k
  have hfirst := h.prev_eq_nil_iff hq
  rw [hxs] at hseg hnodup hnil
  have has : q ∉ as := fun hmem =>
    (nodup_append.mp hnodup).2.2 q hmem q mem_cons_self rfl
  have herase : (xs k).erase q = as ++ bs := by
    rw [hxs, erase_append_right _ has, erase_cons_head]
  have hhead : as = [] ↔ L.prev q = nil := by
    rw [hfirst, hseg.head_eq]
    cases as with
    | nil => simp
    | cons a as =>
      refine ⟨fun hcon => absurd hcon (cons_ne_nil _ _), fun hcon => ?_⟩
      have haq : a = q := hcon
      exact absurd (haq ▸ mem_cons_self) has
  refine h.replace ?_ ((h.nodup k).erase q) ?_ ?_
  · rw [herase]
    simpa only [hhead] using hseg.unlink hnodup hnil
  · intro x hx j hj
    exact h.apart hj (mem_of_mem_erase hx)
  · intro j hj x hx
    have hxk : x ∉ as ++ q :: bs := fun hcon => hj (h.apart hx (hxs ▸ hcon))
    have hxnil := (h.segment j).ne_nil hx
    refine ⟨Links.unlink_next ?_, Links.unlink_prev ?_⟩
    · rw [hseg.prev_eq]
      rcases Linked.getLastD_mem_or as nil with hl | hl
      · rw [hl]
        exact hxnil
      · rintro rfl
        exact hxk (mem_append_left _ hl)
    · rw [hseg.next_eq]
      rcases Linked.headD_mem_or bs nil with hl | hl
      · rw [hl]
        exact hxnil
      · rintro rfl
        exact hxk (mem_append_right _ (mem_cons_of_mem _ hl))

variable (hq : ∀ j, q ∉ xs j) (hne : q ≠ nil)
include hq hne

theorem pushFront (k : κ) :
    Family (L.pushFront nil (head k) q) nil (update head k q)
      (update xs k (q :: xs k)) := by
  refine h.replace ((h.segment k).pushFront (h.nodup k) (hq k) hne) ?_ ?_ ?_
  · exact nodup_cons.mpr ⟨hq k, h.nodup k⟩
  · intro x hx j hj
    rcases mem_cons.mp hx with rfl | hx
    · exact absurd hj (hq j)
    · exact h.apart hj hx
  · intro j hj x hx
    have hxq : x ≠ q := by
      rintro rfl
      exact hq j hx
    have hxh : x ≠ head k := by
      rw [(h.segment k).head_eq]
      rcases Linked.headD_mem_or (xs k) nil with hl | hl
      · rw [hl]
        exact (h.segment j).ne_nil hx
      · rintro rfl
        exact hj (h.apart hx hl)
    exact ⟨update_of_ne hxq _ _, Links.pushFront_prev hxq hxh⟩

theorem pushBack {last : ι} (hlast : last = (xs k).getLastD nil) :
    Family (L.pushBack nil last q) nil
      (update head k (if last = nil then q else head k))
      (update xs k (xs k ++ [q])) := by
  have hempty : xs k = [] ↔ last = nil := by
    rw [hlast]
    rcases eq_nil_or_concat (xs k) with hxs | ⟨ys, y, hxs⟩
    · simp [hxs]
    · have hy : y ≠ nil := (h.segment k).ne_nil (by simp [hxs])
      simp [hxs, hy]
  refine h.replace ?_ ?_ ?_ ?_
  · simpa only [hempty] using (h.segment k).pushBack (h.nodup k) (hq k) hne (Ne.symm hne)
      hlast
  · rw [nodup_append]
    refine ⟨h.nodup k, nodup_singleton q, ?_⟩
    rintro x hx y hy rfl
    exact hq k (mem_singleton.mp hy ▸ hx)
  · intro x hx j hj
    rcases mem_append.mp hx with hx | hx
    · exact h.apart hj hx
    · exact absurd hj (mem_singleton.mp hx ▸ hq j)
  · intro j hj x hx
    have hxq : x ≠ q := by
      rintro rfl
      exact hq j hx
    have hxl : x ≠ last := by
      rw [hlast]
      rcases Linked.getLastD_mem_or (xs k) nil with hl | hl
      · rw [hl]
        exact (h.segment j).ne_nil hx
      · rintro rfl
        exact hj (h.apart hx hl)
    exact ⟨Links.pushBack_next hxq hxl, update_of_ne hxq _ _⟩

end

end Family

end Doubly

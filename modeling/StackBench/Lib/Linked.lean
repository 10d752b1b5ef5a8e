import Mathlib.Data.List.Basic
import Mathlib.Data.List.TakeWhile

/-!
# Singly linked lists in an array

`Chain next nil h xs` says that the list which starts at `h` runs through the
cells `xs`, along the links `next` and up to `nil`.
-/

open List

namespace Linked

variable {ι : Type*} {next next' : ι → ι} {nil h p q x v : ι} {xs ys as bs cs : List ι} {fuel : ℕ}

/-- From `h` on the links run through `xs` and end at `nil`. -/
def Chain (next : ι → ι) (nil : ι) : ι → List ι → Prop
  | h, [] => h = nil
  | h, x :: xs => h = x ∧ x ≠ nil ∧ Chain next nil (next x) xs

/-- A field that is the same in the new value of a cell is the same in all cells. -/
theorem apply_update_same {α β : Type*} [DecidableEq ι] (f : α → β) {g : ι → α} {i : ι} {a : α}
    (ha : f a = f (g i)) (j : ι) : f (Function.update g i a j) = f (g j) := by
  by_cases hj : j = i
  · rw [hj, Function.update_self, ha]
  · rw [Function.update_of_ne hj]

theorem headD_mem_or (xs : List ι) (d : ι) : xs.headD d = d ∨ xs.headD d ∈ xs := by
  cases xs with
  | nil => exact Or.inl rfl
  | cons x xs => exact Or.inr mem_cons_self

theorem getLastD_mem_or (xs : List ι) (d : ι) : xs.getLastD d = d ∨ xs.getLastD d ∈ xs := by
  rcases eq_nil_or_concat xs with rfl | ⟨ys, y, rfl⟩
  · exact Or.inl rfl
  · refine Or.inr ?_
    simp

section

variable (hc : Chain next nil h xs)
include hc

theorem Chain.congr (heq : ∀ x ∈ xs, next' x = next x) : Chain next' nil h xs := by
  induction xs generalizing h with
  | nil => exact hc
  | cons x xs ih =>
    obtain ⟨hx, hne, htail⟩ := hc
    refine ⟨hx, hne, ?_⟩
    rw [heq x (by simp)]
    exact ih htail fun y hy => heq y (by simp [hy])

theorem Chain.ne_nil (hx : x ∈ xs) : x ≠ nil := by
  induction xs generalizing h with
  | nil => cases hx
  | cons y xs ih =>
    rcases mem_cons.mp hx with rfl | hmem
    · exact hc.2.1
    · exact ih hc.2.2 hmem

theorem Chain.eq_nil_iff : h = nil ↔ xs = [] := by
  cases xs with
  | nil => exact ⟨fun _ => rfl, fun _ => hc⟩
  | cons x xs =>
    refine ⟨fun hn => absurd (hc.1.symm.trans hn) hc.2.1, fun hn => by cases hn⟩

omit hc in
theorem Chain.drop (hc : Chain next nil h (xs ++ x :: ys)) : Chain next nil x (x :: ys) := by
  induction xs generalizing h with
  | nil =>
    obtain ⟨rfl, hne, htail⟩ := hc
    exact ⟨rfl, hne, htail⟩
  | cons y xs ih => exact ih hc.2.2

theorem Chain.head_eq : h = xs.headD nil := by
  cases xs with
  | nil => exact hc
  | cons x xs => exact hc.1

omit hc in
theorem Chain.next_eq (hc : Chain next nil h (xs ++ x :: ys)) : next x = ys.headD nil :=
  hc.drop.2.2.head_eq

theorem Chain.head_mem : h = nil ∨ h ∈ xs := by
  cases xs with
  | nil => exact Or.inl hc
  | cons x xs => exact Or.inr (hc.1 ▸ mem_cons_self)

theorem Chain.next_mem (hx : x ∈ xs) : next x = nil ∨ next x ∈ xs := by
  obtain ⟨as, bs, rfl⟩ := append_of_mem hx
  refine hc.drop.2.2.head_mem.imp_right fun hmem => ?_
  exact mem_append_right _ (mem_cons_of_mem _ hmem)

theorem Chain.next_ne (hnodup : xs.Nodup) (hx : x ∈ xs) : next x ≠ x := by
  obtain ⟨as, bs, rfl⟩ := append_of_mem hx
  have hcell := hc.drop
  intro hself
  rcases hcell.2.2.head_mem with hnil | hmem
  · exact hcell.2.1 (hself.symm.trans hnil)
  · rw [hself] at hmem
    exact (nodup_cons.mp (nodup_append.mp hnodup).2.1).1 hmem

omit hc in
theorem not_chain_of_self (hne : h ≠ nil) (hself : next h = h) : ¬ Chain next nil h xs := by
  induction xs with
  | nil => exact hne
  | cons x xs ih =>
    rintro ⟨rfl, -, htail⟩
    rw [hself] at htail
    exact ih htail

theorem Chain.exists_pred (hx : x ∈ xs) (hne : h ≠ x) : ∃ as p bs, xs = as ++ p :: x :: bs := by
  obtain ⟨as, bs, rfl⟩ := append_of_mem hx
  rcases eq_nil_or_concat as with rfl | ⟨as, p, rfl⟩
  · exact absurd hc.1 hne
  · exact ⟨as, p, bs, by simp⟩

end

section Insert

variable [DecidableEq ι]

/-- The first cells behind `h`, up to the end of the list. -/
def cells (next : ι → ι) (nil : ι) : ℕ → ι → List ι
  | 0, _ => []
  | fuel + 1, h => if h = nil then [] else h :: cells next nil fuel (next h)

theorem Chain.cells_eq (hc : Chain next nil h xs) (hfuel : xs.length ≤ fuel) :
    cells next nil fuel h = xs := by
  induction xs generalizing h fuel with
  | nil =>
    have hnil : h = nil := hc
    cases fuel with
    | zero => rfl
    | succ fuel => rw [cells, if_pos hnil]
  | cons x xs ih =>
    obtain ⟨rfl, hne, htail⟩ := hc
    obtain ⟨fuel, rfl⟩ := Nat.exists_eq_add_of_lt (Nat.lt_of_lt_of_le (by simp) hfuel : 0 < fuel)
    rw [length_cons] at hfuel
    rw [Nat.zero_add, cells, if_neg hne, ih htail (by omega)]

/-- The links after the cell `q` was put behind the cell `p`. -/
def insertAfter (next : ι → ι) (p q : ι) : ι → ι :=
  Function.update (Function.update next q (next p)) p q

theorem Chain.update (hc : Chain next nil h xs) (hmem : q ∉ xs) (v : ι) :
    Chain (Function.update next q v) nil h xs := by
  apply hc.congr
  intro x hx
  have hxq : x ≠ q := by
    rintro rfl
    exact hmem hx
  exact Function.update_of_ne hxq _ _

theorem Chain.pushFront (hc : Chain next nil h xs) (hq : q ≠ nil) (hmem : q ∉ xs) :
    Chain (Function.update next q h) nil q (q :: xs) := by
  refine ⟨rfl, hq, ?_⟩
  rw [Function.update_self]
  exact hc.update hmem h

/-- The list behind the cell `p` is replaced by the list that starts at `v`. -/
theorem Chain.relinkAfter (hc : Chain next nil h (as ++ p :: bs)) (hnodup : (as ++ [p]).Nodup)
    (hapart : ∀ x ∈ as ++ [p], x ∉ cs) (hcs : Chain next nil v cs) :
    Chain (Function.update next p v) nil h (as ++ p :: cs) := by
  have hlast : Chain (Function.update next p v) nil p (p :: cs) := by
    refine ⟨rfl, hc.ne_nil (by simp), ?_⟩
    rw [Function.update_self]
    exact hcs.update (hapart p (by simp)) v
  have hfront : ∀ x ∈ as, x ≠ p := fun x hx =>
    (nodup_append.mp hnodup).2.2 x hx p (by simp)
  clear hnodup hapart
  induction as generalizing h with
  | nil =>
    obtain ⟨rfl, -⟩ := hc
    exact hlast
  | cons a as ih =>
    obtain ⟨rfl, hne, htail⟩ := hc
    refine ⟨rfl, hne, ?_⟩
    rw [Function.update_of_ne (hfront h (by simp))]
    exact ih htail fun x hx => hfront x (mem_cons_of_mem _ hx)

/-- The list behind the cells `as` is replaced by the one that starts at `v`. -/
theorem Chain.relink (hc : Chain next nil h (as ++ bs)) (hnodup : as.Nodup)
    (hapart : ∀ x ∈ as, x ∉ cs) (hcs : Chain next nil v cs) :
    Chain (if as.getLastD nil = nil then next else Function.update next (as.getLastD nil) v) nil
      (if as.getLastD nil = nil then v else h) (as ++ cs) := by
  rcases eq_nil_or_concat' as with rfl | ⟨as, p, rfl⟩
  · simpa using hcs
  have hp : p ≠ nil := hc.ne_nil (by simp)
  rw [append_assoc] at hc
  rw [getLastD_concat, if_neg hp, if_neg hp, append_assoc]
  exact hc.relinkAfter hnodup hapart hcs

/-- What follows the cells `as`: the link of the last of them, or the head if there is none. -/
theorem Chain.behind (hc : Chain next nil h (as ++ bs)) :
    Chain next nil (if as.getLastD nil = nil then h else next (as.getLastD nil)) bs := by
  rcases eq_nil_or_concat' as with rfl | ⟨as, p, rfl⟩
  · simpa using hc
  have hp : p ≠ nil := hc.ne_nil (by simp)
  rw [append_assoc] at hc
  rw [getLastD_concat, if_neg hp]
  exact hc.drop.2.2

theorem Chain.insertAfter (hc : Chain next nil h (xs ++ p :: ys))
    (hnodup : (xs ++ p :: ys).Nodup) (hq : q ≠ nil) (hmem : q ∉ xs ++ p :: ys) :
    Chain (insertAfter next p q) nil h (xs ++ p :: q :: ys) := by
  rw [← singleton_append, ← append_assoc] at hnodup
  obtain ⟨hfront, -, hapart⟩ := nodup_append.mp hnodup
  have hys : q ∉ ys := fun hin => hmem (by simp [hin])
  refine (hc.update hmem _).relinkAfter hfront ?_ (hc.drop.2.2.pushFront hq hys)
  intro x hx hcon
  rcases mem_cons.mp hcon with rfl | hcon
  · rw [mem_append, mem_singleton] at hx
    exact hmem (by simpa using Or.imp_right Or.inl hx)
  · exact hapart x hx x hcon rfl

theorem Chain.unlink (hc : Chain next nil h (xs ++ p :: q :: ys))
    (hnodup : (xs ++ p :: q :: ys).Nodup) :
    Chain (Function.update next p (next q)) nil h (xs ++ p :: ys) := by
  rw [← singleton_append, ← append_assoc] at hnodup
  obtain ⟨hfront, -, hapart⟩ := nodup_append.mp hnodup
  exact hc.relinkAfter hfront (fun x hx hcon => hapart x hx x (by simp [hcon]) rfl)
    hc.drop.2.2.2.2

theorem Chain.pushBack (hc : Chain next nil h xs) (hnodup : xs.Nodup) (hq : q ≠ nil)
    (hmem : q ∉ xs) :
    Chain (if xs.getLastD nil = nil then Function.update next q nil
        else Function.update (Function.update next q nil) (xs.getLastD nil) q) nil
      (if xs.getLastD nil = nil then q else h) (xs ++ [q]) := by
  have hc' : Chain (Function.update next q nil) nil h (xs ++ []) := by
    rw [append_nil]
    exact hc.update hmem nil
  refine hc'.relink hnodup (fun x hx hcon => hmem (mem_singleton.mp hcon ▸ hx)) ?_
  exact ⟨rfl, hq, Function.update_self ..⟩

theorem erase_unlinked (hnodup : (xs ++ p :: q :: ys).Nodup) :
    (xs ++ p :: q :: ys).erase q = xs ++ p :: ys := by
  obtain ⟨-, htail, hapart⟩ := nodup_append.mp hnodup
  have hxs : q ∉ xs := fun hmem => hapart q hmem q (by simp) rfl
  have hp : p ≠ q := by
    rintro rfl
    exact (nodup_cons.mp htail).1 (by simp)
  rw [erase_append_right _ hxs, erase_cons_tail (by simpa using hp), erase_cons_head]

omit [DecidableEq ι] in
theorem mem_unlinked (hnodup : (xs ++ p :: q :: ys).Nodup) :
    x ∈ xs ++ p :: ys ↔ x ∈ xs ++ p :: q :: ys ∧ x ≠ q := by
  classical
  rw [← erase_unlinked hnodup, hnodup.mem_erase_iff, and_comm]

end Insert

section Walk

variable [DecidableEq ι]

/-- Walk from `idx` on while the test holds; return the last cell passed, `pred` when there is none,
and where the walk stops. -/
def trail (test : ι → Bool) (next : ι → ι) (nil : ι) : ℕ → ι → ι → Option (ι × ι)
  | 0, _, _ => none
  | fuel + 1, pred, idx =>
    if idx ≠ nil ∧ test idx = true then trail test next nil fuel idx (next idx)
    else some (pred, idx)

/-- Walk from `idx` on while the test holds and return the last cell passed, else `pred`. -/
def walk (test : ι → Bool) (next : ι → ι) (nil : ι) : ℕ → ι → ι → Option ι
  | 0, _, _ => none
  | fuel + 1, pred, idx =>
    if idx ≠ nil ∧ test idx = true then walk test next nil fuel idx (next idx) else some pred

/-- The first cell from `idx` on that fails the test, `nil` at the end. `none`
means that the fuel ran out. -/
def seek (test : ι → Bool) (next : ι → ι) (nil : ι) : ℕ → ι → Option ι
  | 0, _ => none
  | fuel + 1, idx =>
    if idx ≠ nil ∧ test idx = true then seek test next nil fuel (next idx) else some idx

variable {test : ι → Bool}

theorem Chain.trail_eq (pred : ι) (hc : Chain next nil h xs) (hfuel : xs.length < fuel) :
    trail test next nil fuel pred h =
      some ((xs.takeWhile test).getLastD pred, (xs.dropWhile test).headD nil) := by
  induction xs generalizing h pred fuel with
  | nil =>
    obtain _ | fuel := fuel
    · omega
    have hnil : h = nil := hc
    simp [trail, hnil]
  | cons x xs ih =>
    obtain _ | fuel := fuel
    · omega
    obtain ⟨rfl, hne, htail⟩ := hc
    rw [trail]
    by_cases ht : test h = true
    · rw [if_pos ⟨hne, ht⟩, ih h htail (by simpa using hfuel), takeWhile_cons_of_pos ht,
        dropWhile_cons_of_pos ht, getLastD_cons]
    · rw [if_neg (by simp [ht]), takeWhile_cons_of_neg ht, dropWhile_cons_of_neg ht]
      rfl

theorem walk_eq_trail (pred idx : ι) :
    walk test next nil fuel pred idx = (trail test next nil fuel pred idx).map Prod.fst := by
  induction fuel generalizing pred idx with
  | zero => rfl
  | succ fuel ih =>
    rw [walk, trail, ih]
    split <;> rfl

theorem seek_eq_trail (pred idx : ι) :
    seek test next nil fuel idx = (trail test next nil fuel pred idx).map Prod.snd := by
  induction fuel generalizing pred idx with
  | zero => rfl
  | succ fuel ih =>
    rw [seek, trail, ih idx]
    split <;> rfl

theorem walk_eq (pred : ι) (hc : Chain next nil h xs) (hfuel : xs.length < fuel) :
    walk test next nil fuel pred h = some ((xs.takeWhile test).getLastD pred) := by
  rw [walk_eq_trail, hc.trail_eq pred hfuel]
  rfl

theorem Chain.seek_eq (hc : Chain next nil h xs) (hfuel : xs.length < fuel) :
    seek test next nil fuel h = some ((xs.dropWhile test).headD nil) := by
  rw [seek_eq_trail nil, hc.trail_eq nil hfuel]
  rfl

/-- The search for the cell whose link is `q` finds the cell before `q`. -/
theorem Chain.seek_pred (hc : Chain next nil h (xs ++ p :: q :: ys))
    (hnodup : (xs ++ p :: q :: ys).Nodup) (hfuel : xs.length < fuel) :
    seek (fun x => decide (next x ≠ q)) next nil fuel h = some p := by
  obtain _ | fuel := fuel
  · omega
  induction xs generalizing h fuel with
  | nil =>
    obtain ⟨rfl, -, htail⟩ := hc
    simp [seek, htail.1]
  | cons x xs ih =>
    obtain ⟨rfl, hne, htail⟩ := hc
    rw [cons_append, nodup_cons] at hnodup
    have hnext : next h ≠ q := by
      intro hq
      cases xs with
      | nil =>
        obtain rfl : p = q := htail.1.symm.trans hq
        exact (nodup_cons.mp hnodup.2).1 (by simp)
      | cons y xs =>
        obtain rfl : y = q := htail.1.symm.trans hq
        exact (nodup_cons.mp hnodup.2).1 (by simp)
    simp only [length_cons] at hfuel
    obtain _ | fuel := fuel
    · omega
    rw [seek, if_pos ⟨hne, by simpa using hnext⟩]
    exact ih htail hnodup.2 fuel (by omega)

end Walk

/-- A sublist whose first element is not in the first part lies in the second. -/
theorem sublist_of_head_notMem {b : ι} {xs ys zs : List ι} (h : (b :: zs).Sublist (xs ++ ys))
    (hb : b ∉ xs) : (b :: zs).Sublist ys := by
  induction xs with
  | nil => exact h
  | cons x xs ih =>
    rw [mem_cons, not_or] at hb
    cases h with
    | cons _ h' => exact ih h' hb.2
    | cons_cons _ h' => exact absurd rfl hb.1

/-- A sublist of a list without repetition, cut behind an element of both. -/
theorem sublist_split {p : ι} {xs ys as bs : List ι}
    (h : (xs ++ p :: ys).Sublist (as ++ p :: bs)) (hnodup : (as ++ p :: bs).Nodup) :
    xs.Sublist as ∧ ys.Sublist bs := by
  induction as generalizing xs with
  | nil =>
    cases xs with
    | nil =>
      refine ⟨List.Sublist.refl _, ?_⟩
      cases h with
      | cons _ h' =>
        exact absurd (h'.subset (by simp)) (nodup_cons.mp hnodup).1
      | cons_cons _ h' => exact h'
    | cons x xs =>
      exfalso
      apply (nodup_cons.mp hnodup).1
      cases h with
      | cons _ h' => exact h'.subset (by simp)
      | cons_cons _ h' => exact h'.subset (by simp)
  | cons a as ih =>
    have hnodup' := (nodup_cons.mp hnodup).2
    cases xs with
    | nil =>
      cases h with
      | cons _ h' =>
        exact ⟨nil_sublist _, (ih h' hnodup').2⟩
      | cons_cons _ h' =>
        exact absurd (by simp) (nodup_cons.mp hnodup).1
    | cons x xs =>
      cases h with
      | cons _ h' =>
        obtain ⟨h₁, h₂⟩ := ih h' hnodup'
        exact ⟨h₁.cons _, h₂⟩
      | cons_cons _ h' =>
        obtain ⟨h₁, h₂⟩ := ih h' hnodup'
        exact ⟨h₁.cons_cons _, h₂⟩

/-- `xs` is cut into `as` and `bs`: the last element of `as` passes the test and
the first of `bs` does not. -/
structure Cut (test : ι → Bool) (xs as bs : List ι) : Prop where
  eq : xs = as ++ bs
  last : ∀ p ∈ as.getLast?, test p = true
  head : ∀ b ∈ bs.head?, test b = false

theorem cut_nil (test : ι → Bool) : Cut test [] [] [] := ⟨rfl, by simp, by simp⟩

theorem cut_takeWhile (test : ι → Bool) (xs : List ι) :
    Cut test xs (xs.takeWhile test) (xs.dropWhile test) := by
  refine ⟨takeWhile_append_dropWhile.symm, ?_, ?_⟩
  · intro p hp
    exact mem_takeWhile_imp (mem_of_mem_getLast? hp)
  · intro b hb
    have hfail := head?_dropWhile_not test xs
    rwa [hb] at hfail

theorem exists_cut (P : ι → Prop) [DecidablePred P] (xs : List ι) :
    ∃ as bs, xs = as ++ bs ∧ (∀ p ∈ as, P p) ∧ ∀ b ∈ bs.head?, ¬P b := by
  have hcut := cut_takeWhile (fun p => decide (P p)) xs
  refine ⟨_, _, hcut.eq, fun p hp => ?_, fun b hb => ?_⟩
  · simpa using mem_takeWhile_imp hp
  · simpa using hcut.head b hb

/-- An element put where the test cuts a sorted list keeps it sorted. -/
theorem Cut.pairwise_insert {test : ι → Bool} {r : ι → ι → Prop} {xs as bs : List ι} {x : ι}
    (hcut : Cut test xs as bs) (htrans : ∀ {a b c}, r a b → r b c → r a c) (hsorted : xs.Pairwise r)
    (hpass : ∀ a ∈ xs, test a = true → r a x) (hfail : ∀ b ∈ xs, test b = false → r x b) :
    (as ++ x :: bs).Pairwise r := by
  obtain ⟨rfl, hlast, hhead⟩ := hcut
  rw [pairwise_append] at hsorted
  obtain ⟨has, hbs, hcross⟩ := hsorted
  have hbefore : ∀ a ∈ as, r a x := by
    intro a ha
    obtain ⟨ys, p, rfl⟩ := eq_nil_or_concat' as |>.resolve_left (ne_nil_of_mem ha)
    have hp : r p x := hpass p (by simp) (hlast p (by simp))
    rcases mem_append.mp ha with ha | ha
    · exact htrans ((pairwise_append.mp has).2.2 a ha p (by simp)) hp
    · rwa [mem_singleton.mp ha]
  have hbehind : ∀ b ∈ bs, r x b := by
    intro b hb
    obtain ⟨q, zs, rfl⟩ := exists_cons_of_ne_nil (ne_nil_of_mem hb)
    have hq : r x q := hfail q (by simp) (hhead q (by simp))
    rcases mem_cons.mp hb with rfl | hb
    · exact hq
    · exact htrans hq ((pairwise_cons.mp hbs).1 b hb)
  rw [pairwise_append, pairwise_cons]
  refine ⟨has, ⟨hbehind, hbs⟩, fun a ha b hb => ?_⟩
  rcases mem_cons.mp hb with rfl | hb
  · exact hbefore a ha
  · exact hcross a ha b hb

theorem Cut.sublist_behind {test : ι → Bool} {bs cs ds : List ι}
    (hhead : ∀ b ∈ bs.head?, test b = false) (hsub : bs.Sublist (cs ++ ds))
    (hpass : ∀ c ∈ cs, test c = true) : bs.Sublist ds := by
  cases bs with
  | nil => exact nil_sublist _
  | cons b bs =>
    apply sublist_of_head_notMem hsub
    intro hmem
    have hfalse := hhead b rfl
    rw [hpass b hmem] at hfalse
    cases hfalse

/-- The search of a skip list goes down one level: a cut of the sparse list `as' ++ bs'` gives one
of the list below. -/
theorem exists_cut_below [DecidableEq ι] {test : ι → Bool} {next : ι → ι} {nil h pred : ι}
    {xs xs' as' bs' : List ι} {fuel : ℕ} (hc : Chain next nil h xs) (hnodup : xs.Nodup)
    (hfuel : xs.length < fuel) (hcut : Cut test xs' as' bs') (hsub : xs'.Sublist xs)
    (hpred : pred = as'.getLastD nil) :
    ∃ as bs, Cut test xs as bs ∧ as'.Sublist as ∧ bs'.Sublist bs ∧
      walk test next nil fuel pred (if pred ≠ nil then pred else h) = some (as.getLastD nil) := by
  rw [hcut.eq] at hsub
  rcases eq_nil_or_concat as' with rfl | ⟨ys', p, rfl⟩
  · subst hpred
    rw [if_neg (by simp)]
    refine ⟨_, _, cut_takeWhile test xs, nil_sublist _, ?_, walk_eq _ hc hfuel⟩
    rw [nil_append, ← takeWhile_append_dropWhile (p := test) (l := xs)] at hsub
    exact Cut.sublist_behind hcut.head hsub fun c hmem => mem_takeWhile_imp hmem
  rw [concat_eq_append] at hsub hpred hcut ⊢
  rw [getLastD_concat] at hpred
  subst hpred
  rw [append_assoc, singleton_append] at hsub
  have hmem : pred ∈ xs := hsub.subset (by simp)
  obtain ⟨ys, zs, rfl⟩ := append_of_mem hmem
  have htest : test pred = true := hcut.last pred (by simp)
  obtain ⟨hfront, hback⟩ := sublist_split hsub hnodup
  have hrest := hc.drop
  rw [if_pos (hc.ne_nil hmem), walk_eq _ hrest (by
    rw [length_append] at hfuel
    omega)]
  have hcutz := cut_takeWhile test zs
  refine ⟨ys ++ pred :: zs.takeWhile test, zs.dropWhile test, ⟨?_, ?_, hcutz.head⟩, ?_, ?_, ?_⟩
  · rw [append_assoc, cons_append, ← hcutz.eq]
  · intro q hq
    rw [getLast?_append, getLast?_cons] at hq
    simp only [Option.some_or, Option.mem_some] at hq
    cases hl : (zs.takeWhile test).getLast? with
    | none =>
      rw [hl] at hq
      exact hq ▸ htest
    | some r =>
      rw [hl] at hq
      exact hq ▸ hcutz.last r hl
  · exact hfront.append ((nil_sublist _).cons_cons pred)
  · rw [hcutz.eq] at hback
    exact Cut.sublist_behind hcut.head hback fun c hc' => mem_takeWhile_imp hc'
  · rw [takeWhile_cons_of_pos htest, getLastD_cons]
    simp [getLastD_eq_getLast?, getLast?_append, getLast?_cons]

end Linked

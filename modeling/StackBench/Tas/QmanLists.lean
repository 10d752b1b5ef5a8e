import StackBench.Tas.Qman

/-!
# The lists of the TAS queue manager

The queues without a rate limit form one list, and the others the four nested
lists of a skip list. Every operation keeps this, ends, and keeps each queue
with credit on a list.
-/

namespace StackBench.Tas

open Function List
open Linked (Chain)

namespace QmanThread

theorem setQueue_same {β : Type} {t : QmanThread} {i : UInt32} {q : Queue} (f : Queue → β)
    (h : f q = f (t.queues i)) (j : UInt32) : f ((t.setQueue i q).queues j) = f (t.queues j) :=
  Linked.apply_update_same f h j

theorem next_setQueue {t : QmanThread} {i : UInt32} {q : Queue} {l : ℕ}
    (h : q.nextIdxs l = (t.queues i).nextIdxs l) : (t.setQueue i q).next l = t.next l := by
  exact funext (setQueue_same (fun q => q.nextIdxs l) h)

theorem next_setNext (t : QmanThread) (i : UInt32) (l : ℕ) (v : UInt32) :
    (t.setNext i l v).next l = update (t.next l) i v := by
  refine (comp_update (fun q : Queue => q.nextIdxs l) t.queues i _).trans ?_
  exact congrArg (update (t.next l) i) (update_self _ _ _)

theorem next_setNext_ne (t : QmanThread) (i : UInt32) {l l' : ℕ} (v : UInt32) (h : l' ≠ l) :
    (t.setNext i l v).next l' = t.next l' :=
  next_setQueue (update_of_ne h _ _)

end QmanThread

open QmanThread (next_setNext next_setNext_ne next_setQueue setQueue_same)

/-- The credit of a queue: what `qman_set` gave it and firing took from it. -/
structure QueueCredit where
  rate : UInt32
  avail : UInt32
  maxChunk : UInt16

def Queue.credit (q : Queue) : QueueCredit := ⟨q.rate, q.avail, q.maxChunk⟩

theorem setNext_queue (t : QmanThread) (i : UInt32) (l : ℕ) (v j : UInt32) :
    ((t.setNext i l v).queues j).credit = (t.queues j).credit ∧
      ((t.setNext i l v).queues j).inSkiplist = (t.queues j).inSkiplist ∧
      ((t.setNext i l v).queues j).inNolimit = (t.queues j).inNolimit :=
  ⟨setQueue_same Queue.credit (by rfl) j,
    setQueue_same Queue.inSkiplist (by rfl) j,
    setQueue_same Queue.inNolimit (by rfl) j⟩

/-- The queues `nl` are linked without limit, and `sk l` is level `l` of the
skip list. -/
structure QmanLists (t : QmanThread) (nl : List UInt32) (sk : ℕ → List UInt32) : Prop where
  nolimit : Chain (t.next 0) idxlistInval t.nolimitHeadIdx nl
  tail : t.nolimitTailIdx = nl.getLastD idxlistInval
  nl_nodup : nl.Nodup
  skip : ∀ l < skiplistLevels, Chain (t.next l) idxlistInval (t.headIdx l) (sk l)
  sk_nodup : (sk 0).Nodup
  nested : ∀ l, l + 1 < skiplistLevels → (sk (l + 1)).Sublist (sk l)
  flag_nl : ∀ i, (t.queues i).inNolimit = true ↔ i ∈ nl
  flag_sk : ∀ i, (t.queues i).inSkiplist = true ↔ i ∈ sk 0
  disjoint : ∀ i ∈ nl, i ∉ sk 0
  bound : ∀ i, i ∈ nl ∨ i ∈ sk 0 → i.toNat < numQmqueues

theorem length_le_numQmqueues {xs : List UInt32} (hnodup : xs.Nodup)
    (hbound : ∀ i ∈ xs, i.toNat < numQmqueues) : xs.length ≤ numQmqueues := by
  have hmap : (xs.map UInt32.toNat).Nodup := hnodup.map fun a b h => UInt32.toNat_inj.mp h
  have hsub : xs.map UInt32.toNat ⊆ List.range numQmqueues := by
    intro n hn
    obtain ⟨i, hi, rfl⟩ := mem_map.mp hn
    exact mem_range.mpr (hbound i hi)
  have hle := (hmap.subperm hsub).length_le
  rwa [length_map, length_range] at hle

theorem ne_inval_of_lt {i : UInt32} (h : i.toNat < numQmqueues) : i ≠ idxlistInval := by
  rintro rfl
  exact absurd h (by decide)

section Lists

variable {t : QmanThread} {nl : List UInt32} {sk : ℕ → List UInt32} {idx : UInt32}

section

variable (h : QmanLists t nl sk)
include h

theorem QmanLists.sk_sublist {l : ℕ} (hl : l < skiplistLevels) : (sk l).Sublist (sk 0) := by
  induction l with
  | zero => exact List.Sublist.refl _
  | succ l ih => exact (h.nested l hl).trans (ih (by omega))

theorem QmanLists.sk_length {l : ℕ} (hl : l < skiplistLevels) :
    (sk l).length < numQmqueues + 1 := by
  have hsub := h.sk_sublist hl
  have hle := length_le_numQmqueues (hsub.nodup h.sk_nodup) fun i hi =>
    h.bound i (Or.inr (hsub.subset hi))
  omega

theorem QmanLists.idle (hnl : idx ∉ nl) (hsk : idx ∉ sk 0) :
    ((t.queues idx).inSkiplist || (t.queues idx).inNolimit) = false := by
  have h₁ : (t.queues idx).inSkiplist = false := by
    rw [← Bool.not_eq_true, h.flag_sk]
    exact hsk
  have h₂ : (t.queues idx).inNolimit = false := by
    rw [← Bool.not_eq_true, h.flag_nl]
    exact hnl
  rw [h₁, h₂]
  rfl

theorem QmanLists.congr {t' : QmanThread}
    (hlinks : ∀ i, (t'.queues i).nextIdxs = (t.queues i).nextIdxs ∧
      (t'.queues i).inSkiplist = (t.queues i).inSkiplist ∧
      (t'.queues i).inNolimit = (t.queues i).inNolimit)
    (hhead : t'.headIdx = t.headIdx) (hnl : t'.nolimitHeadIdx = t.nolimitHeadIdx)
    (htail : t'.nolimitTailIdx = t.nolimitTailIdx) : QmanLists t' nl sk := by
  have hnext : t'.next = t.next := by
    funext l i
    simp only [QmanThread.next, (hlinks i).1]
  constructor
  · rw [hnext, hnl]; exact h.nolimit
  · rw [htail]; exact h.tail
  · exact h.nl_nodup
  · rw [hnext, hhead]; exact h.skip
  · exact h.sk_nodup
  · exact h.nested
  · intro i; rw [(hlinks i).2.2]; exact h.flag_nl i
  · intro i; rw [(hlinks i).2.1]; exact h.flag_sk i
  · exact h.disjoint
  · exact h.bound

theorem QmanLists.setQueue {q : Queue} (hnext : q.nextIdxs = (t.queues idx).nextIdxs)
    (hs : q.inSkiplist = (t.queues idx).inSkiplist)
    (hn : q.inNolimit = (t.queues idx).inNolimit) : QmanLists (t.setQueue idx q) nl sk :=
  h.congr (fun j => ⟨setQueue_same Queue.nextIdxs hnext j,
    setQueue_same Queue.inSkiplist hs j,
    setQueue_same Queue.inNolimit hn j⟩) rfl rfl rfl

end

theorem queueActivateNolimit_links
    (h : ((t.queues idx).inSkiplist || (t.queues idx).inNolimit) = false) :
    ∃ t', queueActivateNolimit t idx = some t' ∧
      t'.next 0 = (if t.nolimitTailIdx = idxlistInval
        then update (t.next 0) idx idxlistInval
        else update (update (t.next 0) idx idxlistInval) t.nolimitTailIdx idx) ∧
      (∀ l ≠ 0, t'.next l = t.next l) ∧ t'.headIdx = t.headIdx ∧
      t'.nolimitHeadIdx = (if t.nolimitTailIdx = idxlistInval then idx else t.nolimitHeadIdx) ∧
      t'.nolimitTailIdx = idx ∧
      ∀ j, (t'.queues j).credit = (t.queues j).credit ∧
        (t'.queues j).inSkiplist = (t.queues j).inSkiplist ∧
        ((t'.queues j).inNolimit = true ↔ (t.queues j).inNolimit = true ∨ j = idx) := by
  set t₁ := t.setQueue idx { t.queues idx with
    inNolimit := true
    nextIdxs := update (t.queues idx).nextIdxs 0 idxlistInval } with ht₁
  have hnext₀ : t₁.next 0 = update (t.next 0) idx idxlistInval := by
    exact comp_update (fun q : Queue => q.nextIdxs 0) t.queues idx _
  have hnext : ∀ l ≠ 0, t₁.next l = t.next l := fun l hl =>
    next_setQueue (update_of_ne hl _ _)
  have hqueue : ∀ j, (t₁.queues j).credit = (t.queues j).credit ∧
      (t₁.queues j).inSkiplist = (t.queues j).inSkiplist ∧
      ((t₁.queues j).inNolimit = true ↔ (t.queues j).inNolimit = true ∨ j = idx) := by
    intro j
    simp only [ht₁, QmanThread.setQueue]
    by_cases hj : j = idx
    · subst hj
      rw [update_self]
      exact ⟨rfl, rfl, by simp⟩
    · rw [update_of_ne hj]
      exact ⟨rfl, rfl, by simp [hj]⟩
  unfold queueActivateNolimit
  simp only [h, Bool.false_eq_true, if_false, ← ht₁]
  have htail : t₁.nolimitTailIdx = t.nolimitTailIdx := rfl
  rw [htail]
  split
  · exact ⟨_, rfl, hnext₀, hnext, rfl, rfl, rfl, hqueue⟩
  refine ⟨_, rfl, ?_, fun l hl => ?_, rfl, rfl, rfl, fun j => ?_⟩
  · rw [← hnext₀]
    exact next_setNext _ _ _ _
  · exact (next_setNext_ne _ _ _ hl).trans (hnext l hl)
  · obtain ⟨hcredit, hsk, hnl⟩ := setNext_queue t₁ t.nolimitTailIdx 0 idx j
    obtain ⟨hcredit₁, hsk₁, hnl₁⟩ := hqueue j
    exact ⟨hcredit.trans hcredit₁, hsk.trans hsk₁, hnl ▸ hnl₁⟩

theorem QmanLists.activateNolimit (h : QmanLists t nl sk) (hnl : idx ∉ nl) (hsk : idx ∉ sk 0)
    (hbound : idx.toNat < numQmqueues) :
    ∃ t', queueActivateNolimit t idx = some t' ∧ QmanLists t' (nl ++ [idx]) sk ∧
      ∀ j, (t'.queues j).credit = (t.queues j).credit := by
  obtain ⟨t', hrun, hnext₀, hnext, hheads, hhead, htail, hqueue⟩ :=
    queueActivateNolimit_links (h.idle hnl hsk)
  have hmem : ∀ i, i ∈ nl ++ [idx] ↔ i ∈ nl ∨ i = idx := by simp
  refine ⟨t', hrun, ⟨?_, ?_, ?_, ?_, h.sk_nodup, h.nested, ?_, ?_, ?_, ?_⟩, fun j => (hqueue j).1⟩
  · rw [hnext₀, hhead, h.tail]
    exact h.nolimit.pushBack h.nl_nodup (ne_inval_of_lt hbound) hnl
  · rw [htail, getLastD_concat]
  · simpa using h.nl_nodup.concat hnl
  · intro l hl
    rw [hheads]
    rcases Nat.eq_zero_or_pos l with rfl | hpos
    · have hskip := (h.skip 0 (by decide)).update hsk idxlistInval
      rw [hnext₀]
      split
      · exact hskip
      next hne =>
      refine hskip.update (fun hin => ?_) _
      rw [h.tail] at hin hne
      exact h.disjoint _ ((Linked.getLastD_mem_or nl _).resolve_left hne) hin
    · rw [hnext l (by omega)]
      exact h.skip l hl
  · intro i
    rw [(hqueue i).2.2, h.flag_nl, hmem]
  · intro i
    rw [(hqueue i).2.1]
    exact h.flag_sk i
  · intro i hi
    rcases (hmem i).mp hi with hi | rfl
    · exact h.disjoint i hi
    · exact hsk
  · intro i hi
    rw [hmem] at hi
    rcases hi with (hi | rfl) | hi
    · exact h.bound i (Or.inl hi)
    · exact hbound
    · exact h.bound i (Or.inr hi)

/-- The predecessors found on the levels below `n` cut these levels, and the
cuts are nested. -/
theorem QmanLists.findPreds (h : QmanLists t nl sk) (ts : UInt32) {n : ℕ}
    (hn : n ≤ skiplistLevels) {pred : UInt32} {xs as bs : List UInt32}
    (hcut : Linked.Cut (fun i => timestampLessthaneq t (t.queues i).nextTs ts) xs as bs)
    (hsub : 0 < n → xs.Sublist (sk (n - 1))) (hpred : pred = as.getLastD idxlistInval)
    (preds : ℕ → UInt32) :
    ∃ (preds' : ℕ → UInt32) (A B : ℕ → List UInt32), findPreds t ts n pred preds = some preds' ∧
      (∀ l < n, Linked.Cut (fun i => timestampLessthaneq t (t.queues i).nextTs ts) (sk l) (A l)
          (B l) ∧ preds' l = (A l).getLastD idxlistInval) ∧
      (∀ l, l + 1 < n → (A (l + 1)).Sublist (A l) ∧ (B (l + 1)).Sublist (B l)) ∧
      (0 < n → as.Sublist (A (n - 1)) ∧ bs.Sublist (B (n - 1))) ∧
      ∀ l, n ≤ l → preds' l = preds l := by
  induction n generalizing pred xs as bs preds with
  | zero =>
    exact ⟨preds, fun _ => [], fun _ => [], rfl, by simp, by simp, by simp, fun _ _ => rfl⟩
  | succ n ih =>
    have hlt : n < skiplistLevels := hn
    have hnodup : (sk n).Nodup := (h.sk_sublist hlt).nodup h.sk_nodup
    obtain ⟨A₀, B₀, hcut₀, hA, hB, hwalk⟩ := Linked.exists_cut_below (h.skip n hlt) hnodup
      (h.sk_length hlt) hcut (hsub (by omega)) hpred
    have hsub₀ : 0 < n → (sk n).Sublist (sk (n - 1)) := by
      intro hpos
      have hnest := h.nested (n - 1) (by omega)
      rwa [Nat.sub_add_cancel hpos] at hnest
    obtain ⟨preds', A, B, hrun, hlev, hnest, htop, hkeep⟩ :=
      ih (by omega) hcut₀ hsub₀ rfl (update preds n (A₀.getLastD idxlistInval))
    refine ⟨preds', update A n A₀, update B n B₀, ?_, ?_, ?_, ?_, ?_⟩
    · rw [Tas.findPreds, findPred, hwalk]
      exact hrun
    · intro l hl
      rcases Nat.lt_succ_iff_lt_or_eq.mp hl with hl | rfl
      · rw [update_of_ne (by omega), update_of_ne (by omega)]
        exact hlev l hl
      · rw [update_self, update_self, hkeep l le_rfl, update_self]
        exact ⟨hcut₀, rfl⟩
    · intro l hl
      rcases Nat.lt_succ_iff_lt_or_eq.mp hl with hl | rfl
      · rw [update_of_ne (by omega), update_of_ne (by omega),
          update_of_ne (by omega), update_of_ne (by omega)]
        exact hnest l hl
      · rw [update_self, update_self, update_of_ne (by omega), update_of_ne (by omega)]
        exact htop (by omega)
    · intro _
      rw [Nat.add_sub_cancel, update_self, update_self]
      exact ⟨hA, hB⟩
    · intro l hl
      rw [hkeep l (by omega), update_of_ne (by omega)]

end Lists

/-- The links of level `l` once the queue `idx` was linked behind `pred`. -/
def linkedNext (t : QmanThread) (idx pred : UInt32) (level l : ℕ) : UInt32 → UInt32 :=
  if level < l then update (t.next l) idx idxlistInval
  else if pred ≠ idxlistInval then Linked.insertAfter (t.next l) pred idx
  else update (t.next l) idx (t.headIdx l)

/-- The head of level `l` once the queue `idx` was linked behind `pred`. -/
def linkedHead (t : QmanThread) (idx pred : UInt32) (level l : ℕ) : UInt32 :=
  if level < l then t.headIdx l else if pred ≠ idxlistInval then t.headIdx l else idx

/-- What linking changes and what it leaves alone. -/
structure LinkFrame (t t' : QmanThread) : Prop where
  credit : ∀ j, (t'.queues j).credit = (t.queues j).credit
  inSkiplist : ∀ j, (t'.queues j).inSkiplist = (t.queues j).inSkiplist
  inNolimit : ∀ j, (t'.queues j).inNolimit = (t.queues j).inNolimit
  nextTs : ∀ j, (t'.queues j).nextTs = (t.queues j).nextTs
  nolimitHead : t'.nolimitHeadIdx = t.nolimitHeadIdx
  nolimitTail : t'.nolimitTailIdx = t.nolimitTailIdx
  clock : t'.tsVirtual = t.tsVirtual ∧ t'.tsReal = t.tsReal

theorem LinkFrame.trans {t t' t'' : QmanThread} (h : LinkFrame t t') (h' : LinkFrame t' t'') :
    LinkFrame t t'' where
  credit := fun j => (h'.credit j).trans (h.credit j)
  inSkiplist := fun j => (h'.inSkiplist j).trans (h.inSkiplist j)
  inNolimit := fun j => (h'.inNolimit j).trans (h.inNolimit j)
  nextTs := fun j => (h'.nextTs j).trans (h.nextTs j)
  nolimitHead := h'.nolimitHead.trans h.nolimitHead
  nolimitTail := h'.nolimitTail.trans h.nolimitTail
  clock := ⟨h'.clock.1.trans h.clock.1, h'.clock.2.trans h.clock.2⟩

theorem setNext_frame (t : QmanThread) (i : UInt32) (l : ℕ) (v : UInt32) :
    LinkFrame t (t.setNext i l v) where
  credit := fun j => (setNext_queue t i l v j).1
  inSkiplist := fun j => (setNext_queue t i l v j).2.1
  inNolimit := fun j => (setNext_queue t i l v j).2.2
  nextTs := setQueue_same Queue.nextTs (by rfl)
  nolimitHead := rfl
  nolimitTail := rfl
  clock := ⟨rfl, rfl⟩

section Link

variable (t : QmanThread) (idx pred : UInt32) (level l : ℕ)

theorem linkLevel_frame : LinkFrame t (linkLevel t idx pred level l) := by
  unfold linkLevel
  split
  · exact setNext_frame _ _ _ _
  split
  · exact (setNext_frame _ _ _ _).trans (setNext_frame _ _ _ _)
  · have h := setNext_frame t idx l (t.headIdx l)
    exact ⟨h.credit, h.inSkiplist, h.inNolimit, h.nextTs, rfl, rfl, rfl, rfl⟩

theorem linkLevel_self : (linkLevel t idx pred level l).next l = linkedNext t idx pred level l ∧
      (linkLevel t idx pred level l).headIdx l = linkedHead t idx pred level l := by
  unfold linkLevel linkedNext linkedHead
  split
  · exact ⟨next_setNext _ _ _ _, rfl⟩
  split
  · refine ⟨?_, rfl⟩
    rw [next_setNext, next_setNext]
    rfl
  · exact ⟨next_setNext _ _ _ _, update_self _ _ _⟩

theorem linkLevel_other {l' : ℕ} (h : l' ≠ l) : (linkLevel t idx pred level l).next l' = t.next l' ∧
      (linkLevel t idx pred level l).headIdx l' = t.headIdx l' := by
  unfold linkLevel
  split
  · exact ⟨next_setNext_ne _ _ _ h, rfl⟩
  split
  · refine ⟨?_, rfl⟩
    rw [next_setNext_ne _ _ _ h, next_setNext_ne _ _ _ h]
  · exact ⟨next_setNext_ne _ _ _ h, update_of_ne h _ _⟩

end Link

theorem linkLevels_spec (t : QmanThread) (idx : UInt32) (preds : ℕ → UInt32) (level : ℕ) :
    LinkFrame t (linkLevels t idx preds level) ∧
      ∀ l < skiplistLevels,
        (linkLevels t idx preds level).next l = linkedNext t idx (preds l) level l ∧
        (linkLevels t idx preds level).headIdx l = linkedHead t idx (preds l) level l := by
  have hrun : ∀ (ls : List ℕ), ls.Nodup → ∀ t : QmanThread,
      LinkFrame t (ls.foldl (fun t l => linkLevel t idx (preds l) level l) t) ∧
        ∀ l, ((ls.foldl (fun t l => linkLevel t idx (preds l) level l) t).next l =
            if l ∈ ls then linkedNext t idx (preds l) level l else t.next l) ∧
          ((ls.foldl (fun t l => linkLevel t idx (preds l) level l) t).headIdx l =
            if l ∈ ls then linkedHead t idx (preds l) level l else t.headIdx l) := by
    intro ls
    induction ls with
    | nil =>
      exact fun _ t =>
        ⟨⟨fun _ => rfl, fun _ => rfl, fun _ => rfl, fun _ => rfl, rfl, rfl, rfl, rfl⟩, by simp⟩
    | cons k ls ih =>
      intro hnodup t
      rw [nodup_cons] at hnodup
      obtain ⟨hframe, hlev⟩ := ih hnodup.2 (linkLevel t idx (preds k) level k)
      refine ⟨(linkLevel_frame t idx (preds k) level k).trans hframe, ?_⟩
      intro l
      rw [foldl_cons, (hlev l).1, (hlev l).2]
      by_cases hl : l = k
      · subst hl
        have hself := linkLevel_self t idx (preds l) level l
        rw [if_neg hnodup.1, if_neg hnodup.1, if_pos (by simp), if_pos (by simp)]
        exact hself
      · obtain ⟨hnext, hhead⟩ := linkLevel_other t idx (preds k) level k hl
        simp only [mem_cons, hl, false_or, linkedNext, linkedHead, hnext, hhead, and_self]
  obtain ⟨hframe, hlev⟩ := hrun [3, 2, 1, 0] (by decide) t
  refine ⟨hframe, ?_⟩
  intro l hl
  have hmem : l ∈ [3, 2, 1, 0] := by
    simp only [skiplistLevels] at hl
    simp only [mem_cons, not_mem_nil, or_false]
    omega
  have hself := hlev l
  rw [if_pos hmem, if_pos hmem] at hself
  exact hself

theorem chain_linked {t : QmanThread} {idx : UInt32} {level l : ℕ} {as bs : List UInt32}
    (hc : Chain (t.next l) idxlistInval (t.headIdx l) (as ++ bs)) (hnodup : (as ++ bs).Nodup)
    (hne : idx ≠ idxlistInval) (hmem : idx ∉ as ++ bs) :
    Chain (linkedNext t idx (as.getLastD idxlistInval) level l) idxlistInval
      (linkedHead t idx (as.getLastD idxlistInval) level l)
      (if level < l then as ++ bs else as ++ idx :: bs) := by
  unfold linkedNext linkedHead
  split
  · exact hc.update hmem _
  rcases eq_nil_or_concat' as with rfl | ⟨ys, p, rfl⟩
  · exact hc.pushFront hne hmem
  have hp : p ≠ idxlistInval := hc.ne_nil (x := p) (by simp)
  rw [getLastD_concat, if_pos hp, if_pos hp]
  rw [append_assoc, singleton_append] at *
  exact hc.insertAfter hnodup hne hmem

section Lists

variable {t : QmanThread} {nl : List UInt32} {sk : ℕ → List UInt32} {idx : UInt32}

theorem QmanLists.activateSkiplist (h : QmanLists t nl sk) (hnl : idx ∉ nl) (hsk : idx ∉ sk 0)
    (hbound : idx.toNat < numQmqueues) :
    ∃ t' sk', queueActivateSkiplist t idx = some t' ∧ QmanLists t' nl sk' ∧
      (∃ as bs, Linked.Cut
          (fun i => timestampLessthaneq t' (t'.queues i).nextTs (t'.queues idx).nextTs)
          (sk 0) as bs ∧ sk' 0 = as ++ idx :: bs) ∧
      ∀ j, (t'.queues j).credit = (t.queues j).credit := by
  have hne := ne_inval_of_lt hbound
  set ts := activateTs t (t.queues idx) with hts
  set t₁ := t.setQueue idx { t.queues idx with nextTs := ts } with ht₁
  have h₁ : QmanLists t₁ nl sk := h.setQueue rfl rfl rfl
  have hcredit₁ : ∀ j, (t₁.queues j).credit = (t.queues j).credit :=
    setQueue_same Queue.credit (by simp only [Queue.credit])
  obtain ⟨preds, A, B, hpreds, hlev, hnest, -, -⟩ :=
    h₁.findPreds ts (n := skiplistLevels) le_rfl
      (Linked.cut_nil fun i => timestampLessthaneq t₁ (t₁.queues i).nextTs ts)
      (fun _ => nil_sublist _) rfl fun _ => idxlistInval
  set t₂ : QmanThread := { t₁ with rng := fun i => t₁.rng (i + 1) } with ht₂
  have h₂ : QmanLists t₂ nl sk := h₁.congr (fun _ => ⟨rfl, rfl, rfl⟩) rfl rfl rfl
  set level := queueLevel (t₁.rng 0) with hlevel
  obtain ⟨hframe, hlinks⟩ := linkLevels_spec t₂ idx preds level
  set t₃ := linkLevels t₂ idx preds level with ht₃
  set sk' : ℕ → List UInt32 := fun l =>
    if level < l then A l ++ B l else A l ++ idx :: B l with hsk'
  have hidx : ∀ l < skiplistLevels, idx ∉ A l ++ B l := by
    intro l hl hmem
    rw [← (hlev l hl).1.eq] at hmem
    exact hsk ((h.sk_sublist hl).subset hmem)
  have hperm : (sk' 0).Perm (idx :: sk 0) := by
    rw [(hlev 0 (by decide)).1.eq]
    exact perm_middle
  set t₄ := t₃.setQueue idx { t₃.queues idx with inSkiplist := true } with ht₄
  have hnextTs : ∀ j, (t₄.queues j).nextTs = (t₁.queues j).nextTs := fun j =>
    (setQueue_same Queue.nextTs (by rfl) j).trans (hframe.nextTs j)
  have hnext : ∀ l, t₄.next l = t₃.next l := fun l => next_setQueue rfl
  have hmem : ∀ j, j ∈ sk' 0 ↔ j = idx ∨ j ∈ sk 0 := by
    intro j
    rw [hperm.mem_iff, mem_cons]
  refine ⟨t₄, sk', ?_, ?_, ⟨A 0, B 0, ?_, rfl⟩, fun j => ?_⟩
  · have hsome : Tas.findPreds t₁ ts skiplistLevels idxlistInval (fun _ => idxlistInval) =
        some preds := hpreds
    unfold queueActivateSkiplist
    simp only [h.idle hnl hsk, Bool.false_eq_true, if_false, ← hts, ← ht₁]
    rw [hsome]
  · constructor
    · rw [hnext, (hlinks 0 (by decide)).1]
      have hpred : preds 0 ≠ idxlistInval → preds 0 ∉ nl := by
        intro hp hpnl
        obtain ⟨hcut, hlast⟩ := hlev 0 (by decide)
        rw [hlast] at hp hpnl
        apply h.disjoint _ hpnl
        rw [hcut.eq]
        exact mem_append_left _ ((Linked.getLastD_mem_or (A 0) _).resolve_left hp)
      have hnolimit : Chain (t₂.next 0) idxlistInval t₃.nolimitHeadIdx nl := by
        rw [hframe.nolimitHead]
        exact h₂.nolimit
      unfold linkedNext
      rw [if_neg (Nat.not_lt_zero _)]
      split
      · next hp => exact (hnolimit.update hnl _).update (hpred hp) _
      · exact hnolimit.update hnl _
    · change t₃.nolimitTailIdx = _
      rw [hframe.nolimitTail]
      exact h.tail
    · exact h.nl_nodup
    · intro l hl
      rw [hnext, (hlinks l hl).1]
      change Chain _ _ (t₃.headIdx l) _
      rw [(hlinks l hl).2, (hlev l hl).2]
      apply chain_linked
      · rw [← (hlev l hl).1.eq]
        exact h₂.skip l hl
      · rw [← (hlev l hl).1.eq]
        exact (h.sk_sublist hl).nodup h.sk_nodup
      · exact hne
      · exact hidx l hl
    · rw [hperm.nodup_iff, nodup_cons]
      exact ⟨hsk, h.sk_nodup⟩
    · intro l hl
      obtain ⟨hA, hB⟩ := hnest l hl
      simp only [hsk']
      split
      · split
        · exact hA.append hB
        · exact hA.append (hB.cons idx)
      · rw [if_neg (by omega)]
        exact hA.append (hB.cons_cons idx)
    · intro i
      rw [setQueue_same Queue.inNolimit (by rfl) i, hframe.inNolimit i]
      exact h₂.flag_nl i
    · intro i
      rw [hmem i]
      simp only [ht₄, QmanThread.setQueue]
      by_cases hi : i = idx
      · subst hi
        simp
      · rw [update_of_ne hi, hframe.inSkiplist i, h₂.flag_sk i]
        simp [hi]
    · intro i hi hcon
      rcases (hmem i).mp hcon with rfl | hcon
      · exact hnl hi
      · exact h.disjoint i hi hcon
    · rintro i (hi | hi)
      · exact h.bound i (Or.inl hi)
      · rcases (hmem i).mp hi with rfl | hi
        · exact hbound
        · exact h.bound i (Or.inr hi)
  · have hself : (t₁.queues idx).nextTs = ts := by
      simp only [ht₁, QmanThread.setQueue, update_self]
    have hclock : t₄.tsVirtual = t₁.tsVirtual := hframe.clock.1
    simp only [timestampLessthaneq, hnextTs, hself, hclock]
    exact (hlev 0 (by decide)).1
  · rw [setQueue_same Queue.credit (by rfl) j, hframe.credit j]
    exact hcredit₁ j

end Lists

end StackBench.Tas

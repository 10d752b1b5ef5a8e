import StackBench.Tas.QmanLists

/-!
# Polling the TAS queue manager

Seen from outside there are listed queues and the credit of each. `qman_set`
and `qman_poll` return and keep every queue with credit listed, and `qman_poll`
charges at most chunk size and credit.
-/

namespace StackBench.Tas

open Function List
open Option (map_some)
open Linked (Chain)

/-- The queues on the two lists, in some order. -/
def Listed (t : QmanThread) (ls : List UInt32) : Prop :=
  ∃ nl sk, QmanLists t nl sk ∧ ls.Perm (nl ++ sk 0)

/-- Exactly the queues `ls` are listed, and every queue with credit is. -/
structure QmanActive (t : QmanThread) (ls : List UInt32) : Prop where
  listed : Listed t ls
  active : ∀ i, (t.queues i).avail ≠ 0 → i ∈ ls

def QmanThread.credits (t : QmanThread) : UInt32 → QueueCredit := fun i => (t.queues i).credit

theorem credits_setQueue (t : QmanThread) (idx : UInt32) (q : Queue) :
    (t.setQueue idx q).credits = update t.credits idx q.credit :=
  comp_update Queue.credit t.queues idx q

/-- The bytes a firing takes from a queue. -/
def QueueCredit.chunk (c : QueueCredit) : UInt32 :=
  if c.avail ≤ c.maxChunk.toUInt32 then c.avail else c.maxChunk.toUInt32

/-- The credit after the queue `i` fired. -/
def chargeQueue (c : UInt32 → QueueCredit) (i : UInt32) : UInt32 → QueueCredit :=
  update c i { c i with avail := (c i).avail - (c i).chunk }

/-- Firing the queues of a list in order takes the credit `c` to `c'`. -/
inductive Fired : (UInt32 → QueueCredit) → List Firing → (UInt32 → QueueCredit) → Prop where
  | nil (c : UInt32 → QueueCredit) : Fired c [] c
  | cons {c c' : UInt32 → QueueCredit} {i : UInt32} {fs : List Firing} (hpos : (c i).avail ≠ 0)
      (hrest : Fired (chargeQueue c i) fs c') : Fired c (⟨i, (c i).chunk⟩ :: fs) c'

theorem Fired.append {c c' c'' : UInt32 → QueueCredit} {fs gs : List Firing}
    (h : Fired c fs c') (h' : Fired c' gs c'') : Fired c (fs ++ gs) c'' := by
  induction h with
  | nil => exact h'
  | cons hpos _ ih => exact Fired.cons hpos (ih h')

/-- A firing, with the virtual time at which it happens. -/
structure TimedFiring where
  firing : Firing
  time : UInt32
deriving DecidableEq

/-- A queue just taken off its list fires if it has credit. -/
def serve (t : QmanThread) (idx : UInt32) : Option (QmanThread × List TimedFiring) :=
  if (t.queues idx).avail > 0 then (queueFire t idx).map fun r => (r.1, [⟨r.2, t.tsVirtual⟩])
  else some (t, [])

/-- The loop of `poll_nolimit` and of `poll_skiplist`; `take` takes a queue off its list if it can.
-/
def serveLoop (take : QmanThread → Option (Option (QmanThread × UInt32))) :
    ℕ → ℕ → QmanThread → Option (QmanThread × List TimedFiring)
  | 0, _, _ => none
  | fuel + 1, num, t =>
    if num = 0 then some (t, [])
    else
      match take t with
      | none => none
      | some none => some (t, [])
      | some (some (t, idx)) =>
        match serve t idx with
        | none => none
        | some (t, fs) =>
          (serveLoop take fuel (num - fs.length) t).map fun r => (r.1, fs ++ r.2)

/-- Take the first queue off the list of queues without limit. -/
def takeNolimit (t : QmanThread) : Option (Option (QmanThread × UInt32)) :=
  if t.nolimitHeadIdx = idxlistInval then some none
  else some (some (nolimitPop t t.nolimitHeadIdx, t.nolimitHeadIdx))

/-- Take the first queue off the skip list if it is due, and go to its time. -/
def takeSkip (maxVts : UInt32) (t : QmanThread) : Option (Option (QmanThread × UInt32)) :=
  let idx := t.headIdx 0
  if idx = idxlistInval ∨ timestampLessthaneq t (t.queues idx).nextTs maxVts = false then
    some none
  else
    let t := skiplistPop t idx skiplistLevels 0
    let q := t.queues idx
    if !q.inSkiplist then none
    else
      some (some
        ({ t.setQueue idx { q with inSkiplist := false } with tsVirtual := q.nextTs }, idx))

/-- The virtual time at the end of `poll_skiplist`. -/
def restClock (maxVts : UInt32) (t : QmanThread) : UInt32 :=
  let idx := t.headIdx 0
  if idx ≠ idxlistInval ∧ timestampLessthaneq t (t.queues idx).nextTs maxVts = true then
    (t.queues idx).nextTs
  else maxVts

theorem pollNolimit_eq (fuel num : ℕ) (t : QmanThread) :
    pollNolimit fuel num t =
      (serveLoop takeNolimit fuel num t).map fun r => (r.1, r.2.map (·.firing)) := by
  induction fuel generalizing num t with
  | zero => rfl
  | succ fuel ih =>
    rw [pollNolimit, serveLoop, takeNolimit]
    by_cases hnum : num = 0
    · rw [if_pos (Or.inl hnum), if_pos hnum]
      rfl
    by_cases hnil : t.nolimitHeadIdx = idxlistInval
    · rw [if_pos (Or.inr hnil), if_neg hnum, if_pos hnil]
      rfl
    rw [if_neg (not_or.mpr ⟨hnum, hnil⟩), if_neg hnum, if_neg hnil]
    dsimp only
    rw [serve]
    split
    · cases queueFire (nolimitPop t t.nolimitHeadIdx) t.nolimitHeadIdx with
      | none => rfl
      | some r =>
        dsimp only [map_some]
        rw [ih, Option.map_map, Option.map_map]
        rfl
    · rw [ih, Option.map_map]
      rfl

theorem pollSkiplistLoop_eq (maxVts : UInt32) (fuel num : ℕ) (t : QmanThread) :
    pollSkiplistLoop maxVts fuel num t =
      (serveLoop (takeSkip maxVts) fuel num t).map fun r =>
        ({ r.1 with tsVirtual := restClock maxVts r.1 }, r.2.map (·.firing)) := by
  induction fuel generalizing num t with
  | zero => rfl
  | succ fuel ih =>
    rw [pollSkiplistLoop, serveLoop, takeSkip]
    dsimp only
    by_cases hnum : num = 0
    · rw [if_pos hnum, if_pos hnum, map_some, restClock]
      split <;> rfl
    rw [if_neg hnum, if_neg hnum]
    by_cases hnil : t.headIdx 0 = idxlistInval
    · rw [if_pos hnil, if_pos (Or.inl hnil), map_some, restClock,
        if_neg fun hcon => hcon.1 hnil]
      rfl
    rw [if_neg hnil]
    cases hdue : timestampLessthaneq t (t.queues (t.headIdx 0)).nextTs maxVts with
    | false =>
      rw [if_pos (show (!false) = true from rfl), if_pos (Or.inr rfl), map_some, restClock,
        if_neg fun hcon => by simp [hdue] at hcon]
      rfl
    | true =>
      rw [if_neg (show ¬(!true) = true by decide),
        if_neg (show ¬(t.headIdx 0 = idxlistInval ∨ true = false) by simp [hnil])]
      generalize skiplistPop t (t.headIdx 0) skiplistLevels 0 = t₁
      generalize t.headIdx 0 = idx
      split
      · rfl
      have havail : ((t₁.setQueue idx { t₁.queues idx with inSkiplist := false }).queues
          idx).avail = (t₁.queues idx).avail :=
        QmanThread.setQueue_same Queue.avail (by rfl) idx
      dsimp only
      rw [serve]
      rw [havail]
      split
      · cases queueFire { t₁.setQueue idx { t₁.queues idx with inSkiplist := false } with
            tsVirtual := (t₁.queues idx).nextTs } idx with
        | none => rfl
        | some r =>
          dsimp only [map_some]
          rw [ih, Option.map_map, Option.map_map]
          rfl
      · rw [ih, Option.map_map]
        rfl

/-- What holds of an empty loop and passes on through one more queue, holds of every loop. -/
theorem serveLoop_induction {take : QmanThread → Option (Option (QmanThread × UInt32))}
    {R : QmanThread → List TimedFiring → QmanThread → Prop} (hnil : ∀ t, R t [] t)
    (hcons : ∀ {t t₁ idx t₂ fs gs t'}, take t = some (some (t₁, idx)) →
      serve t₁ idx = some (t₂, fs) → R t₂ gs t' → R t (fs ++ gs) t') {fuel num : ℕ}
    {t t' : QmanThread} {fs : List TimedFiring}
    (hrun : serveLoop take fuel num t = some (t', fs)) : R t fs t' := by
  induction fuel generalizing num t fs with
  | zero => cases hrun
  | succ fuel ih =>
    unfold serveLoop at hrun
    split at hrun
    · cases hrun
      exact hnil _
    split at hrun
    · cases hrun
    · cases hrun
      exact hnil _
    next t₁ idx htake =>
      split at hrun
      · cases hrun
      next t₂ gs hserve =>
        obtain ⟨⟨t₃, hs⟩, hloop, heq⟩ := Option.map_eq_some_iff.mp hrun
        cases heq
        exact hcons htake hserve (ih hloop)

variable {t' : QmanThread} {q : Queue}

section Listed

variable {t : QmanThread} {ls : List UInt32} {idx : UInt32}

section

variable (h : Listed t ls)
include h

theorem Listed.bound {i : UInt32} (hi : i ∈ ls) : i.toNat < numQmqueues := by
  obtain ⟨nl, sk, hlists, hperm⟩ := h
  exact hlists.bound i (mem_append.mp (hperm.mem_iff.mp hi))

theorem Listed.nodup : ls.Nodup := by
  obtain ⟨nl, sk, hlists, hperm⟩ := h
  rw [hperm.nodup_iff, nodup_append]
  refine ⟨hlists.nl_nodup, hlists.sk_nodup, ?_⟩
  rintro a ha b hb rfl
  exact hlists.disjoint a ha hb

theorem Listed.length_le : ls.length ≤ numQmqueues :=
  length_le_numQmqueues h.nodup fun _ hi => h.bound hi

theorem Listed.flag_iff (i : UInt32) :
    ((t.queues i).inSkiplist || (t.queues i).inNolimit) = true ↔ i ∈ ls := by
  obtain ⟨nl, sk, hlists, hperm⟩ := h
  rw [Bool.or_eq_true, hlists.flag_sk, hlists.flag_nl, hperm.mem_iff, mem_append, or_comm]

theorem Listed.setQueue (hnext : q.nextIdxs = (t.queues idx).nextIdxs)
    (hs : q.inSkiplist = (t.queues idx).inSkiplist) (hn : q.inNolimit = (t.queues idx).inNolimit) :
    Listed (t.setQueue idx q) ls := by
  obtain ⟨nl, sk, hlists, hperm⟩ := h
  exact ⟨nl, sk, hlists.setQueue hnext hs hn, hperm⟩

theorem Listed.clock (hq : t'.queues = t.queues) (hhead : t'.headIdx = t.headIdx)
    (hnl : t'.nolimitHeadIdx = t.nolimitHeadIdx) (htail : t'.nolimitTailIdx = t.nolimitTailIdx) :
    Listed t' ls := by
  obtain ⟨nl, sk, hlists, hperm⟩ := h
  refine ⟨nl, sk, hlists.congr (fun i => ?_) hhead hnl htail, hperm⟩
  rw [hq]
  exact ⟨rfl, rfl, rfl⟩

end

theorem QmanActive.clock (h : QmanActive t ls) (hq : t'.queues = t.queues)
    (hhead : t'.headIdx = t.headIdx) (hnl : t'.nolimitHeadIdx = t.nolimitHeadIdx)
    (htail : t'.nolimitTailIdx = t.nolimitTailIdx) : QmanActive t' ls := by
  refine ⟨h.listed.clock hq hhead hnl htail, ?_⟩
  rw [hq]
  exact h.active

theorem Listed.queueActivate (h : Listed t ls) (hidx : idx ∉ ls)
    (hbound : idx.toNat < numQmqueues) :
    ∃ t', queueActivate t idx = some t' ∧ Listed t' (idx :: ls) ∧ t'.credits = t.credits := by
  obtain ⟨nl, sk, hlists, hperm⟩ := h
  rw [hperm.mem_iff, mem_append, not_or] at hidx
  unfold Tas.queueActivate
  split
  · obtain ⟨t', hrun, hlists', hcredit⟩ := hlists.activateNolimit hidx.1 hidx.2 hbound
    refine ⟨t', hrun, ⟨_, _, hlists', ?_⟩, funext hcredit⟩
    rw [append_assoc]
    exact (hperm.cons idx).trans perm_middle.symm
  obtain ⟨t', sk', hrun, hlists', ⟨as, bs, hcut, hsk'⟩, hcredit⟩ :=
    hlists.activateSkiplist hidx.1 hidx.2 hbound
  refine ⟨t', hrun, ⟨_, _, hlists', ?_⟩, funext hcredit⟩
  have hsk : (sk' 0).Perm (idx :: sk 0) := by
    rw [hsk', hcut.eq]
    exact perm_middle
  calc (idx :: ls).Perm (idx :: (nl ++ sk 0)) := hperm.cons idx
    List.Perm _ (nl ++ idx :: sk 0) := perm_middle.symm
    List.Perm _ (nl ++ sk' 0) := hsk.symm.append_left nl

end Listed

section Pop

variable {t : QmanThread} {nl ls : List UInt32} {sk : ℕ → List UInt32} {idx : UInt32}

theorem QmanLists.nolimitPop (h : QmanLists t (idx :: nl) sk) :
    QmanLists (nolimitPop t idx) nl sk := by
  obtain ⟨hne, hhead, hchain⟩ := h.nolimit
  have hnodup := nodup_cons.mp h.nl_nodup
  have hnext : ∀ l, (Tas.nolimitPop t idx).next l = t.next l := fun l =>
    QmanThread.next_setQueue (t := t) (i := idx) (by rfl)
  constructor
  · rw [hnext]
    exact hchain
  · have hnil : t.next 0 idx = idxlistInval ↔ nl = [] := hchain.eq_nil_iff
    have htail := h.tail
    change (if t.next 0 idx = idxlistInval then idxlistInval else t.nolimitTailIdx) = _
    split
    · next hend => rw [hnil.mp hend]; rfl
    next hend =>
    obtain ⟨x, xs, rfl⟩ := exists_cons_of_ne_nil (mt hnil.mpr hend)
    rw [htail]
    rfl
  · exact hnodup.2
  · intro l hl
    rw [hnext]
    exact h.skip l hl
  · exact h.sk_nodup
  · exact h.nested
  · intro i
    by_cases hi : i = idx
    · subst hi
      simp [Tas.nolimitPop, QmanThread.setQueue, hnodup.1]
    · have hflag := h.flag_nl i
      simpa [Tas.nolimitPop, QmanThread.setQueue, hi] using hflag
  · intro i
    have hflag : ((Tas.nolimitPop t idx).queues i).inSkiplist = (t.queues i).inSkiplist :=
      QmanThread.setQueue_same (t := t) (i := idx) Queue.inSkiplist (by rfl) i
    rw [hflag]
    exact h.flag_sk i
  · intro i hi
    exact h.disjoint i (mem_cons_of_mem _ hi)
  · rintro i (hi | hi)
    · exact h.bound i (Or.inl (mem_cons_of_mem _ hi))
    · exact h.bound i (Or.inr hi)

theorem skiplistPop_spec (idx : UInt32) (n l : ℕ) (t : QmanThread)
    (hdown : ∀ k, l ≤ k → k + 1 < l + n → t.headIdx (k + 1) = idx → t.headIdx k = idx) :
    skiplistPop t idx n l = { t with
      headIdx := fun k =>
        if l ≤ k ∧ k < l + n ∧ t.headIdx k = idx then t.next k idx else t.headIdx k } := by
  induction n generalizing l t with
  | zero =>
    have hnone : ∀ k, ¬(l ≤ k ∧ k < l + 0 ∧ t.headIdx k = idx) := by
      intro k
      omega
    simp only [skiplistPop, hnone, if_false]
  | succ n ih =>
    rw [skiplistPop]
    split
    · next hl =>
      rw [ih]
      · congr 1
        funext k
        by_cases hk : k = l
        · subst hk
          rw [if_neg (by omega), if_pos ⟨le_rfl, by omega, hl⟩]
          exact update_self _ _ _
        simp only [update_of_ne hk]
        by_cases hin : l ≤ k ∧ k < l + (n + 1) ∧ t.headIdx k = idx
        · rw [if_pos hin, if_pos ⟨by omega, by omega, hin.2.2⟩]
          rfl
        · rw [if_neg hin, if_neg fun hcon => hin ⟨by omega, by omega, hcon.2.2⟩]
      · intro k hk hkn hhead
        simp only [update_of_ne (show k + 1 ≠ l by omega)] at hhead
        simp only [update_of_ne (show k ≠ l by omega)]
        exact hdown k (by omega) (by omega) hhead
    next hl =>
    have hnone : ∀ k, ¬(l ≤ k ∧ k < l + (n + 1) ∧ t.headIdx k = idx) := by
      rintro k ⟨hle, hlt, hhead⟩
      induction k with
      | zero => exact hl ((Nat.le_zero.mp hle).symm ▸ hhead)
      | succ k ihk =>
        by_cases hkl : l = k + 1
        · exact hl (hkl ▸ hhead)
        · exact ihk (by omega) (by omega) (hdown k (by omega) (by omega) hhead)
    simp only [hnone, if_false]

variable {xs : List UInt32}

section

variable (h : QmanLists t nl sk) (hsk : sk 0 = idx :: xs)
include h hsk

theorem QmanLists.head_or_notMem {l : ℕ} (hl : l < skiplistLevels) :
    (∃ ys, sk l = idx :: ys) ∨ idx ∉ sk l := by
  have hnodup := h.sk_nodup
  have hsub := h.sk_sublist hl
  rw [hsk] at hnodup hsub
  rcases sublist_cons_iff.mp hsub with hsub | ⟨ys, hys, -⟩
  · exact Or.inr fun hmem => (nodup_cons.mp hnodup).1 (hsub.subset hmem)
  · exact Or.inl ⟨ys, hys⟩

theorem QmanLists.headIdx_eq_iff {l : ℕ} (hl : l < skiplistLevels) :
    t.headIdx l = idx ↔ idx ∈ sk l := by
  have hchain := h.skip l hl
  have hne : idx ≠ idxlistInval := (h.skip 0 (by decide)).ne_nil (by simp [hsk])
  rcases h.head_or_notMem hsk hl with ⟨ys, hys⟩ | hmem
  · rw [hys] at hchain
    simp [hys, hchain.1]
  refine ⟨fun hhead => ?_, fun hcon => absurd hcon hmem⟩
  cases hlist : sk l with
  | nil =>
    rw [hlist] at hchain
    exact absurd (hhead.symm.trans hchain) hne
  | cons y ys =>
    rw [hlist] at hchain
    simp [← hhead, hchain.1]

theorem QmanLists.skiplistPop :
    let t' := skiplistPop t idx skiplistLevels 0
    t'.queues = t.queues ∧
      QmanLists (t'.setQueue idx { t.queues idx with inSkiplist := false }) nl
        (fun l => (sk l).erase idx) := by
  have hspec := skiplistPop_spec idx skiplistLevels 0 t fun k _ hk hhead => by
    rw [h.headIdx_eq_iff hsk (by omega)] at hhead ⊢
    exact (h.nested k (by omega)).subset hhead
  have hnotMem : idx ∉ (sk 0).erase idx := by
    rw [hsk, erase_cons_head]
    exact (nodup_cons.mp (hsk ▸ h.sk_nodup)).1
  have hmem : ∀ i, i ≠ idx → (i ∈ (sk 0).erase idx ↔ i ∈ sk 0) := fun i hi =>
    mem_erase_of_ne hi
  simp only [hspec]
  set t₁ : QmanThread := { t with
    headIdx := fun k => if 0 ≤ k ∧ k < 0 + skiplistLevels ∧ t.headIdx k = idx
      then t.next k idx else t.headIdx k } with ht₁
  refine ⟨trivial, ?_⟩
  have hnext : ∀ l, (t₁.setQueue idx { t.queues idx with inSkiplist := false }).next l =
      t.next l := fun l => QmanThread.next_setQueue (t := t₁) (i := idx) (by rfl)
  constructor
  · rw [hnext]
    exact h.nolimit
  · exact h.tail
  · exact h.nl_nodup
  · intro l hl
    rw [hnext]
    have hchain := h.skip l hl
    change Chain (t.next l) idxlistInval (if 0 ≤ l ∧ l < 0 + skiplistLevels ∧ t.headIdx l = idx
      then t.next l idx else t.headIdx l) _
    rcases h.head_or_notMem hsk hl with ⟨ys, hys⟩ | hcon
    · rw [hys] at hchain
      rw [if_pos ⟨by omega, by omega, hchain.1⟩, hys, erase_cons_head]
      exact hchain.2.2
    · rw [if_neg fun hin => hcon ((h.headIdx_eq_iff hsk hl).mp hin.2.2), erase_of_not_mem hcon]
      exact hchain
  · exact h.sk_nodup.erase idx
  · intro l hl
    exact (h.nested l hl).erase idx
  · intro i
    have hflag : ((t₁.setQueue idx { t.queues idx with inSkiplist := false }).queues i).inNolimit =
        (t.queues i).inNolimit :=
      QmanThread.setQueue_same (t := t₁) (i := idx) Queue.inNolimit (by rfl) i
    rw [hflag]
    exact h.flag_nl i
  · intro i
    by_cases hi : i = idx
    · subst hi
      simp [QmanThread.setQueue, hnotMem]
    · rw [hmem i hi, ← h.flag_sk i]
      simp [QmanThread.setQueue, hi, ht₁]
  · intro i hi hcon
    exact h.disjoint i hi (mem_of_mem_erase hcon)
  · rintro i (hi | hi)
    · exact h.bound i (Or.inl hi)
    · exact h.bound i (Or.inr (mem_of_mem_erase hi))

end

theorem Listed.takeNolimit (h : Listed t ls) : takeNolimit t = some none ∨
    ∃ t₁ idx rest, takeNolimit t = some (some (t₁, idx)) ∧ ls.Perm (idx :: rest) ∧
      Listed t₁ rest ∧ t₁.credits = t.credits := by
  unfold Tas.takeNolimit
  split
  · exact Or.inl rfl
  next hne =>
    obtain ⟨nl, sk, hlists, hperm⟩ := h
    obtain ⟨x, xs, rfl⟩ := exists_cons_of_ne_nil (mt hlists.nolimit.eq_nil_iff.mpr hne)
    rw [hlists.nolimit.1]
    exact Or.inr ⟨_, x, xs ++ sk 0, rfl, hperm, ⟨xs, sk, hlists.nolimitPop, List.Perm.refl _⟩,
      funext (QmanThread.setQueue_same (t := t) (i := x) Queue.credit (by rfl))⟩

theorem Listed.takeSkip (h : Listed t ls) (maxVts : UInt32) : takeSkip maxVts t = some none ∨
    ∃ t₁ idx rest, takeSkip maxVts t = some (some (t₁, idx)) ∧ ls.Perm (idx :: rest) ∧
      Listed t₁ rest ∧ t₁.credits = t.credits := by
  unfold Tas.takeSkip
  dsimp only
  split
  · exact Or.inl rfl
  next hgo =>
    obtain ⟨nl, sk, hlists, hperm⟩ := h
    have hchain := hlists.skip 0 (by decide)
    obtain ⟨x, xs, hsk⟩ :=
      exists_cons_of_ne_nil (mt hchain.eq_nil_iff.mpr fun hnil => hgo (Or.inl hnil))
    rw [hsk] at hchain hperm
    obtain ⟨hqueues, hlists'⟩ := hlists.skiplistPop hsk
    have hflag := (hlists.flag_sk x).mpr (by simp [hsk])
    rw [hchain.1, hqueues, hflag]
    refine Or.inr ⟨_, x, nl ++ xs, rfl, hperm.trans perm_middle, ⟨nl, _,
      hlists'.congr (fun _ => ⟨rfl, rfl, rfl⟩) rfl rfl rfl, ?_⟩, ?_⟩
    · rw [hsk, erase_cons_head]
    · refine (credits_setQueue (skiplistPop t x skiplistLevels 0) x _).trans ?_
      have hsame : (skiplistPop t x skiplistLevels 0).credits = t.credits := by
        unfold QmanThread.credits
        rw [hqueues]
      rw [hsame]
      exact update_eq_self x t.credits

end Pop

section Poll

variable {t : QmanThread} {ls : List UInt32} {idx : UInt32}

/-- Every queue other than `idx` with credit is listed. -/
def ActiveBut (t : QmanThread) (idx : UInt32) (ls : List UInt32) : Prop :=
  ∀ i, i ≠ idx → (t.queues i).avail ≠ 0 → i ∈ ls

theorem Listed.queueFire (h : Listed t ls) (hidx : idx ∉ ls) (hbound : idx.toNat < numQmqueues)
    (hact : ActiveBut t idx ls) (hpos : (t.queues idx).avail ≠ 0) :
    ∃ t' ls', queueFire t idx = some (t', ⟨idx, (t.credits idx).chunk⟩) ∧ QmanActive t' ls' ∧
      ls'.length ≤ ls.length + 1 ∧ t'.credits = chargeQueue t.credits idx := by
  set q := t.queues idx with hq
  set bytes := fireBytes q with hbytes
  set t₁ := t.setQueue idx { q with
    avail := q.avail - bytes
    nextTs := if q.rate > 0 then queueNewTs t q bytes else q.nextTs } with ht₁
  have h₁ : Listed t₁ ls := h.setQueue rfl rfl rfl
  have hcredits : t₁.credits = chargeQueue t.credits idx := by
    rw [ht₁, credits_setQueue]
    rfl
  have hother : ∀ i, i ≠ idx → t₁.queues i = t.queues i := fun i hi =>
    update_of_ne hi _ _
  have hself : (t₁.queues idx).avail = q.avail - bytes := by
    simp only [ht₁, QmanThread.setQueue, update_self]
  unfold Tas.queueFire
  simp only [← hq, ← hbytes, ← ht₁, if_neg hpos]
  by_cases hleft : q.avail - bytes > 0
  · obtain ⟨t', hrun, h', hcredit'⟩ := h₁.queueActivate hidx hbound
    refine ⟨t', idx :: ls, ?_, ⟨h', ?_⟩, le_rfl, hcredit'.trans hcredits⟩
    · rw [if_pos hleft, hrun]
      rfl
    · intro i hi
      by_cases hi' : i = idx
      · simp [hi']
      have havail : (t'.queues i).avail = (t.queues i).avail := by
        rw [← hother i hi']
        exact congrArg QueueCredit.avail (congrFun hcredit' i)
      rw [havail] at hi
      exact mem_cons_of_mem _ (hact i hi' hi)
  refine ⟨t₁, ls, if_neg hleft, ⟨h₁, ?_⟩, Nat.le_succ _, hcredits⟩
  intro i hi
  by_cases hi' : i = idx
  · subst hi'
    rw [hself] at hi
    exact absurd (UInt32.pos_iff_ne_zero.mpr hi) hleft
  · rw [hother i hi'] at hi
    exact hact i hi' hi

/-- What a poll that returns leaves behind. -/
def PollDone (t : QmanThread) (num : ℕ) (r : Option (QmanThread × List Firing)) : Prop :=
  ∃ t' fs ls', r = some (t', fs) ∧ QmanActive t' ls' ∧ fs.length ≤ num ∧
    Fired t.credits fs t'.credits

/-- Without the queue just taken off its list, all others with credit are listed. -/
theorem QmanActive.activeBut {rest : List UInt32} (h : QmanActive t ls)
    (hperm : ls.Perm (idx :: rest)) (hcredits : t'.credits = t.credits) :
    ActiveBut t' idx rest := by
  intro i hi havail
  have hsame : (t'.queues i).avail = (t.queues i).avail :=
    congrArg QueueCredit.avail (congrFun hcredits i)
  have hmem := hperm.mem_iff.mp (h.active i (hsame ▸ havail))
  exact mem_of_ne_of_mem hi hmem

theorem ActiveBut.all (h : ActiveBut t idx ls) (hzero : (t.queues idx).avail = 0) :
    ∀ i, (t.queues i).avail ≠ 0 → i ∈ ls := by
  intro i hi
  exact h i (fun hcon => hi (hcon ▸ hzero)) hi

theorem Listed.serve (h : Listed t ls) (hidx : idx ∉ ls) (hbound : idx.toNat < numQmqueues)
    (hact : ActiveBut t idx ls) :
    ∃ t' fs ls', serve t idx = some (t', fs) ∧ QmanActive t' ls' ∧ fs.length ≤ 1 ∧
      ls'.length ≤ ls.length + fs.length ∧ Fired t.credits (fs.map (·.firing)) t'.credits := by
  unfold Tas.serve
  split
  · next hpos =>
    rw [gt_iff_lt, UInt32.pos_iff_ne_zero] at hpos
    obtain ⟨t', ls', hfire, h', hlen, hcredits⟩ := h.queueFire hidx hbound hact hpos
    refine ⟨t', [_], ls', by rw [hfire]; rfl, h', le_rfl, hlen, ?_⟩
    exact Fired.cons hpos (hcredits ▸ Fired.nil _)
  next hpos =>
  have hzero : (t.queues idx).avail = 0 := by
    by_contra hcon
    exact hpos (UInt32.pos_iff_ne_zero.mpr hcon)
  exact ⟨t, [], ls, rfl, ⟨h, hact.all hzero⟩, Nat.zero_le _, le_rfl, Fired.nil _⟩

theorem serveLoop_done (take : QmanThread → Option (Option (QmanThread × UInt32)))
    (htake : ∀ {t ls}, Listed t ls → take t = some none ∨
      ∃ t₁ idx rest, take t = some (some (t₁, idx)) ∧ ls.Perm (idx :: rest) ∧ Listed t₁ rest ∧
        t₁.credits = t.credits)
    (fuel : ℕ) : ∀ (num : ℕ) (t : QmanThread) (ls : List UInt32), QmanActive t ls →
      num + ls.length < fuel →
      ∃ t' fs ls', serveLoop take fuel num t = some (t', fs) ∧ QmanActive t' ls' ∧
        fs.length ≤ num ∧ Fired t.credits (fs.map (·.firing)) t'.credits := by
  induction fuel with
  | zero => exact fun _ _ _ _ hfuel => absurd hfuel (Nat.not_lt_zero _)
  | succ fuel ih =>
    intro num t ls h hfuel
    unfold serveLoop
    split
    · exact ⟨t, [], ls, rfl, h, Nat.zero_le _, Fired.nil _⟩
    next hnum =>
      rcases htake h.listed with hstop | ⟨t₁, idx, rest, hsome, hperm, hrest, hcredits⟩
      · rw [hstop]
        exact ⟨t, [], ls, rfl, h, Nat.zero_le _, Fired.nil _⟩
      have hlen := hperm.length_eq
      rw [length_cons] at hlen
      have hnodup := nodup_cons.mp (hperm.nodup_iff.mp h.listed.nodup)
      have hbound := h.listed.bound (hperm.mem_iff.mpr mem_cons_self)
      obtain ⟨t₂, fs, ls₂, hserve, h₂, hone, hlen₂, hfired⟩ :=
        hrest.serve hnodup.1 hbound (h.activeBut hperm hcredits)
      obtain ⟨t', gs, ls', hloop, h', hlen', hfired'⟩ := ih (num - fs.length) t₂ ls₂ h₂ (by omega)
      refine ⟨t', fs ++ gs, ls', by simp only [hsome, hserve, hloop, map_some], h', ?_, ?_⟩
      · rw [length_append]
        omega
      · rw [map_append, ← hcredits]
        exact hfired.append hfired'

section

variable (h : QmanActive t ls)
include h

theorem QmanActive.fuel (num : ℕ) : num + ls.length < pollFuel num := by
  have hlen := h.listed.length_le
  unfold pollFuel
  omega

theorem QmanActive.pollSkiplist (curTs : UInt32) (num : ℕ) :
    PollDone t num (pollSkiplist t curTs num) := by
  obtain ⟨t', fs, ls', hrun, h', hlen, hfired⟩ := serveLoop_done
    (takeSkip (t.tsVirtual + (curTs - t.tsReal))) (fun h => h.takeSkip _) _ num t ls h
    (h.fuel num)
  rw [Tas.pollSkiplist, pollSkiplistLoop_eq, hrun]
  exact ⟨_, _, ls', rfl, h'.clock rfl rfl rfl rfl, by rwa [length_map], hfired⟩

theorem QmanActive.pollNolimit (num : ℕ) : PollDone t num (pollNolimit (pollFuel num) num t) := by
  obtain ⟨t', fs, ls', hrun, h', hlen, hfired⟩ :=
    serveLoop_done takeNolimit Listed.takeNolimit _ num t ls h (h.fuel num)
  rw [pollNolimit_eq, hrun]
  exact ⟨_, _, ls', rfl, h', by rwa [length_map], hfired⟩

omit h in
theorem PollDone.andThen {t₁ : QmanThread} {num : ℕ} {fs : List Firing}
    {r : Option (QmanThread × List Firing)} (h : PollDone t₁ (num - fs.length) r)
    (hlen : fs.length ≤ num) (hfired : Fired t.credits fs t₁.credits) :
    PollDone t num (r.map fun r => (r.1, fs ++ r.2)) := by
  obtain ⟨t', gs, ls', rfl, h', hlen', hfired'⟩ := h
  refine ⟨t', fs ++ gs, ls', rfl, h', ?_, hfired.append hfired'⟩
  rw [length_append]
  omega

theorem QmanActive.qmanPoll (ts : UInt32) (num : ℕ) : PollDone t num (qmanPoll t ts num) := by
  have hboth : PollDone t num (pollBoth t ts num) := by
    unfold pollBoth
    split
    · obtain ⟨t₁, fs, ls₁, hrun, h₁, hlen, hfired⟩ := h.pollNolimit num
      rw [hrun]
      exact (h₁.pollSkiplist ts (num - fs.length)).andThen hlen hfired
    · obtain ⟨t₁, fs, ls₁, hrun, h₁, hlen, hfired⟩ := h.pollSkiplist ts num
      rw [hrun]
      exact (h₁.pollNolimit (num - fs.length)).andThen hlen hfired
  obtain ⟨t', fs, ls', hrun, h', hlen, hfired⟩ := hboth
  unfold Tas.qmanPoll
  rw [hrun]
  exact ⟨_, fs, ls', rfl, h'.clock rfl rfl rfl rfl, hlen, hfired⟩

/-- The credit after a `qman_set`. -/
def setCredit (c : UInt32 → QueueCredit) (s : QmanSet) : UInt32 → QueueCredit :=
  update c s.id
    { rate := s.rate
      avail := if s.add then (c s.id).avail + s.avail else s.avail
      maxChunk := s.maxChunk }

/-- Credit, rate and chunk size of `idx` change, and it is listed if it has credit. -/
theorem QmanActive.updateQueue (hbound : idx.toNat < numQmqueues)
    (hnext : q.nextIdxs = (t.queues idx).nextIdxs) (hs : q.inSkiplist = (t.queues idx).inSkiplist)
    (hn : q.inNolimit = (t.queues idx).inNolimit) (new : Prop) [Decidable new]
    (hnew : ¬ new → q.avail = (t.queues idx).avail) :
    ∃ t' ls', (if new ∧ q.avail > 0 ∧ (q.inSkiplist || q.inNolimit) = false
        then queueActivate (t.setQueue idx q) idx else some (t.setQueue idx q)) = some t' ∧
      QmanActive t' ls' ∧ t'.credits = update t.credits idx q.credit := by
  set t₁ := t.setQueue idx q with ht₁
  have h₁ : Listed t₁ ls := h.listed.setQueue hnext hs hn
  have hcredits : t₁.credits = update t.credits idx q.credit := credits_setQueue t idx q
  have hbut : ActiveBut t₁ idx ls := by
    intro i hi hpos
    have hsame : t₁.queues i = t.queues i := update_of_ne hi _ _
    exact h.active i (hsame ▸ hpos)
  have hself : (t₁.queues idx).avail = q.avail := by
    simp only [ht₁, QmanThread.setQueue, update_self]
  by_cases hgo : new ∧ q.avail > 0 ∧ (q.inSkiplist || q.inNolimit) = false
  · have hidx : idx ∉ ls := by
      rw [← h.listed.flag_iff, ← hs, ← hn, hgo.2.2]
      decide
    obtain ⟨t', hrun, h', hcredit'⟩ := h₁.queueActivate hidx hbound
    refine ⟨t', idx :: ls, ?_, ⟨h', ?_⟩, hcredit'.trans hcredits⟩
    · rw [if_pos hgo, hrun]
    · intro i hi
      by_cases hi' : i = idx
      · simp [hi']
      · have hsame : (t'.queues i).avail = (t₁.queues i).avail :=
          congrArg QueueCredit.avail (congrFun hcredit' i)
        exact mem_cons_of_mem _ (hbut i hi' (hsame ▸ hi))
  refine ⟨t₁, ls, if_neg hgo, ⟨h₁, ?_⟩, hcredits⟩
  intro i hi
  by_cases hi' : i = idx
  · subst hi'
    rw [hself] at hi
    by_cases hold : new
    · rw [← h.listed.flag_iff, ← hs, ← hn]
      by_contra hcon
      exact hgo ⟨hold, UInt32.pos_iff_ne_zero.mpr hi, Bool.not_eq_true _ ▸ hcon⟩
    · rw [hnew hold] at hi
      exact h.active i hi
  · exact hbut i hi' hi

omit h in
theorem numQmqueues_of_qmanIdOk {id : UInt32} (hid : qmanIdOk id = true) :
    id.toNat < numQmqueues := by
  have hlt := of_decide_eq_true hid
  rwa [UInt32.lt_iff_toNat_lt] at hlt

theorem QmanActive.qmanSet {s : QmanSet} (hid : qmanIdOk s.id = true) :
    ∃ t' ls', qmanSet t s = some t' ∧ QmanActive t' ls' ∧ t'.credits = setCredit t.credits s := by
  set q := t.queues s.id with hq
  set avail := if s.add then q.avail + s.avail else s.avail with havail
  obtain ⟨t', ls', hrun, h', hcredits⟩ :=
    h.updateQueue (q := { q with rate := s.rate, maxChunk := s.maxChunk, avail := avail })
      (numQmqueues_of_qmanIdOk hid) rfl rfl rfl True fun hcon => absurd trivial hcon
  refine ⟨t', ls', ?_, h', hcredits⟩
  rw [← hrun]
  unfold Tas.qmanSet
  simp only [hid, Bool.not_true, Bool.false_eq_true, if_false, ← hq, ← havail, true_and]

end

theorem qmanThreadInit_active (rng : ℕ → UInt32) (ts : UInt32) :
    QmanActive (qmanThreadInit rng ts) [] := by
  refine ⟨⟨[], fun _ => [], ?_, List.Perm.refl _⟩, fun i hi => absurd rfl hi⟩
  refine ⟨rfl, rfl, nodup_nil, fun _ _ => rfl, nodup_nil, fun _ _ => List.Sublist.refl _,
    ?_, ?_, by simp, by simp⟩
  · exact fun i => ⟨fun h => absurd h (by simp [qmanThreadInit]), fun h => absurd h (by simp)⟩
  · exact fun i => ⟨fun h => absurd h (by simp [qmanThreadInit]), fun h => absurd h (by simp)⟩

end Poll

end StackBench.Tas

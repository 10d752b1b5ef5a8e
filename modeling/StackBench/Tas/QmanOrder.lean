import StackBench.Lib.Run
import StackBench.Tas.QmanPoll

/-!
# The order of the TAS skip list

The skip list is sorted by time stamps that wrap, seen from the virtual time.
While no queue is delayed by half of their range or more, and the thread is
polled that often, every queue is ahead of the virtual time by less than half
of the range, and the list is sorted by how far.
-/

namespace StackBench.Tas

open Function List
open Linked (Chain)
open QmanThread (setQueue_same)

/-- How far the time stamp `x` is ahead of `v`. -/
def ahead (v x : UInt32) : ℕ := (x - v).toNat

/-- The time that a queue has to wait after a full chunk. -/
def Queue.delay (q : Queue) : ℕ := q.maxChunk.toNat * 8 * 1000000 / q.rate.toNat

theorem ahead_self (v : UInt32) : ahead v v = 0 := by
  simp [ahead]

theorem ahead_add (v d : UInt32) : ahead v (v + d) = d.toNat := by
  have hadd := Word.add_cases v d
  have hsub := Word.sub_cases (v + d) v
  have hd := d.toNat_lt
  unfold ahead
  omega

theorem relTime_cases (v x : UInt32) : (ahead v x < 2 ^ 31 ∧ relTime v x = ahead v x) ∨
      (2 ^ 31 ≤ ahead v x ∧ (relTime v x = ahead v x ∨ relTime v x < 0)) := by
  have hsub := Word.sub_cases x v
  have hv := v.toNat_lt
  have hx := x.toNat_lt
  unfold ahead relTime
  generalize (x - v).toNat = d at hsub ⊢
  generalize v.toNat = a at hsub hv ⊢
  generalize x.toNat = b at hsub hx ⊢
  dsimp only
  split
  · split <;> omega
  · split
    · omega
    · split <;> omega

theorem relTime_of_ahead {v x : UInt32} (h : ahead v x < 2 ^ 31) : relTime v x = ahead v x := by
  rcases relTime_cases v x with ⟨-, heq⟩ | ⟨hfar, -⟩
  · exact heq
  · omega

theorem relTime_of_pos {v x : UInt32} (h : 0 < relTime v x) : relTime v x = ahead v x := by
  rcases relTime_cases v x with ⟨-, heq⟩ | ⟨-, heq | hneg⟩
  · exact heq
  · exact heq
  · omega

theorem ahead_advance {v v' x : UInt32} (h : ahead v v' ≤ ahead v x) :
    ahead v' x = ahead v x - ahead v v' := by
  have h₁ := Word.sub_cases v' v
  have h₂ := Word.sub_cases x v
  have h₃ := Word.sub_cases x v'
  have hx := x.toNat_lt
  unfold ahead at h ⊢
  omega

theorem timestampLessthaneq_iff {t : QmanThread} {a b : UInt32} (ha : ahead t.tsVirtual a < 2 ^ 31)
    (hb : ahead t.tsVirtual b < 2 ^ 31) :
    timestampLessthaneq t a b = true ↔ ahead t.tsVirtual a ≤ ahead t.tsVirtual b := by
  rw [timestampLessthaneq, decide_eq_true_iff, relTime_of_ahead ha, relTime_of_ahead hb]
  exact Int.ofNat_le

theorem ahead_activateTs (t : QmanThread) {q : Queue} (hdelay : q.delay < 2 ^ 31) :
    ahead t.tsVirtual (activateTs t q) < 2 ^ 31 := by
  have hmax : ahead t.tsVirtual (queueNewTs t q q.maxChunk.toUInt32) = q.delay := by
    unfold queueNewTs
    rw [ahead_add, UInt16.toNat_toUInt32]
    exact UInt32.toNat_ofNat_of_lt' (hdelay.trans (by decide))
  have hrel := relTime_of_ahead (by rw [hmax]; exact hdelay)
  have hnow : relTime t.tsVirtual t.tsVirtual = 0 := by
    rw [relTime_of_ahead] <;> simp [ahead_self]
  unfold activateTs
  dsimp only
  split
  · simp [ahead_self]
  next hpast =>
  split
  · rw [hmax]
    exact hdelay
  next hbeyond =>
  rw [timestampLessthaneq, decide_eq_true_iff, hnow, not_le] at hpast
  rw [Bool.not_eq_true, Bool.not_eq_false', timestampLessthaneq, decide_eq_true_iff,
    hrel, hmax] at hbeyond
  have hahead := relTime_of_pos hpast
  omega

/-- How far a queue is ahead of the virtual time. -/
def QmanThread.ahead (t : QmanThread) (i : UInt32) : ℕ := Tas.ahead t.tsVirtual (t.queues i).nextTs

/-- The lists of the queue manager, and the order of the skip list. -/
structure QmanOrder (t : QmanThread) (nl : List UInt32) (sk : ℕ → List UInt32) : Prop where
  lists : QmanLists t nl sk
  near : ∀ i ∈ sk 0, t.ahead i < 2 ^ 31
  sorted : (sk 0).Pairwise fun i j => t.ahead i ≤ t.ahead j

/-- No queue can be delayed by half of the range of the time stamps or more. -/
def Delays (t : QmanThread) : Prop := ∀ i, (t.queues i).rate ≠ 0 → (t.queues i).delay < 2 ^ 31

/-- Rate and chunk size of all queues, and the clocks, are the same. -/
structure SamePace (t t' : QmanThread) : Prop where
  pace : ∀ i, (t'.queues i).rate = (t.queues i).rate ∧
    (t'.queues i).maxChunk = (t.queues i).maxChunk
  virtual : t'.tsVirtual = t.tsVirtual
  real : t'.tsReal = t.tsReal

section Order

variable {t t' t'' : QmanThread} {nl nl' : List UInt32} {sk sk' : ℕ → List UInt32} {idx : UInt32}

theorem SamePace.trans (h : SamePace t t') (h' : SamePace t' t'') : SamePace t t'' where
  pace i := ⟨(h'.pace i).1.trans (h.pace i).1, (h'.pace i).2.trans (h.pace i).2⟩
  virtual := h'.virtual.trans h.virtual
  real := h'.real.trans h.real

theorem Delays.same (h : Delays t) (hpace : ∀ i, (t'.queues i).rate = (t.queues i).rate ∧
      (t'.queues i).maxChunk = (t.queues i).maxChunk) : Delays t' := by
  intro i hi
  have hdelay := h i
  simp only [Queue.delay, hpace i] at hi hdelay ⊢
  exact hdelay hi

theorem QmanOrder.same (h : QmanOrder t nl sk) (hlists : QmanLists t' nl' sk')
    (hsk : (sk' 0).Sublist (sk 0)) (hv : t'.tsVirtual = t.tsVirtual)
    (hts : ∀ i ∈ sk 0, (t'.queues i).nextTs = (t.queues i).nextTs) : QmanOrder t' nl' sk' := by
  have hahead : ∀ i ∈ sk' 0, t'.ahead i = t.ahead i := by
    intro i hi
    rw [QmanThread.ahead, QmanThread.ahead, hv, hts i (hsk.subset hi)]
  refine ⟨hlists, fun i hi => ?_, ?_⟩
  · rw [hahead i hi]
    exact h.near i (hsk.subset hi)
  · refine (h.sorted.sublist hsk).imp_of_mem fun hi hj hle => ?_
    rwa [hahead _ hi, hahead _ hj]

theorem QmanOrder.advance (h : QmanOrder t nl sk) {v : UInt32}
    (hv : ∀ i ∈ sk 0, Tas.ahead t.tsVirtual v ≤ t.ahead i) :
    QmanOrder { t with tsVirtual := v } nl sk := by
  have hahead : ∀ i ∈ sk 0, ({ t with tsVirtual := v } : QmanThread).ahead i =
      t.ahead i - Tas.ahead t.tsVirtual v := fun i hi => ahead_advance (hv i hi)
  refine ⟨h.lists.congr (fun _ => ⟨rfl, rfl, rfl⟩) rfl rfl rfl, fun i hi => ?_, ?_⟩
  · have := h.near i hi
    rw [hahead i hi]
    omega
  · refine h.sorted.imp_of_mem fun hi hj hle => ?_
    rw [hahead _ hi, hahead _ hj]
    omega

theorem samePace_setQueue {q : Queue} (hrate : q.rate = (t.queues idx).rate)
    (hchunk : q.maxChunk = (t.queues idx).maxChunk) : SamePace t (t.setQueue idx q) where
  pace i := ⟨setQueue_same Queue.rate hrate i,
    setQueue_same Queue.maxChunk hchunk i⟩
  virtual := rfl
  real := rfl

theorem LinkFrame.samePace (h : LinkFrame t t') : SamePace t t' where
  pace i := ⟨congrArg QueueCredit.rate (h.credit i), congrArg QueueCredit.maxChunk (h.credit i)⟩
  virtual := h.clock.1
  real := h.clock.2

theorem queueActivateNolimit_same (hrun : queueActivateNolimit t idx = some t') :
    SamePace t t' ∧ ∀ j, (t'.queues j).nextTs = (t.queues j).nextTs := by
  unfold queueActivateNolimit at hrun
  dsimp only at hrun
  set t₁ := t.setQueue idx { t.queues idx with
    inNolimit := true
    nextIdxs := update (t.queues idx).nextIdxs 0 idxlistInval }
  have hpace : SamePace t t₁ := samePace_setQueue rfl rfl
  have hts : ∀ j, (t₁.queues j).nextTs = (t.queues j).nextTs :=
    setQueue_same Queue.nextTs (by rfl)
  split at hrun
  · cases hrun
  split at hrun
  · cases hrun
    exact ⟨⟨hpace.pace, rfl, rfl⟩, hts⟩
  cases hrun
  have hframe := setNext_frame t₁ t₁.nolimitTailIdx 0 idx
  have hpace' := hpace.trans hframe.samePace
  exact ⟨⟨hpace'.pace, rfl, rfl⟩, fun j => (hframe.nextTs j).trans (hts j)⟩

theorem queueActivateSkiplist_same (hrun : queueActivateSkiplist t idx = some t') :
    SamePace t t' ∧ (t'.queues idx).nextTs = activateTs t (t.queues idx) ∧
      ∀ j ≠ idx, (t'.queues j).nextTs = (t.queues j).nextTs := by
  unfold queueActivateSkiplist at hrun
  dsimp only at hrun
  set t₁ := t.setQueue idx { t.queues idx with nextTs := activateTs t (t.queues idx) } with ht₁
  have hpace : SamePace t t₁ := samePace_setQueue rfl rfl
  split at hrun
  · cases hrun
  split at hrun
  · cases hrun
  next preds hpreds =>
  cases hrun
  set t₂ : QmanThread := { t₁ with rng := fun i => t₁.rng (i + 1) }
  have hpace₂ : SamePace t₁ t₂ := ⟨fun _ => ⟨rfl, rfl⟩, rfl, rfl⟩
  have hframe := (linkLevels_spec t₂ idx preds (queueLevel (t₁.rng 0))).1
  set t₃ := linkLevels t₂ idx preds (queueLevel (t₁.rng 0))
  have hts : ∀ j,
      ((t₃.setQueue idx { t₃.queues idx with inSkiplist := true }).queues j).nextTs =
        (t₁.queues j).nextTs := fun j =>
    (setQueue_same Queue.nextTs (by rfl) j).trans (hframe.nextTs j)
  refine ⟨hpace.trans (hpace₂.trans (hframe.samePace.trans (samePace_setQueue rfl rfl))), ?_, ?_⟩
  · rw [hts, ht₁]
    simp only [QmanThread.setQueue, update_self]
  · intro j hj
    rw [hts, ht₁]
    simp only [QmanThread.setQueue, update_of_ne hj]

section

variable (h : QmanOrder t nl sk) (hdelays : Delays t) (hnl : idx ∉ nl) (hsk : idx ∉ sk 0)
include h hdelays hnl hsk

theorem QmanOrder.queueActivate (hbound : idx.toNat < numQmqueues) :
    ∃ t' nl' sk', queueActivate t idx = some t' ∧ QmanOrder t' nl' sk' ∧ SamePace t t' := by
  unfold Tas.queueActivate
  split
  · obtain ⟨t', hrun, hlists, -⟩ := h.lists.activateNolimit hnl hsk hbound
    obtain ⟨hpace, hts⟩ := queueActivateNolimit_same hrun
    exact ⟨t', _, _, hrun,
      h.same hlists (List.Sublist.refl _) hpace.virtual fun i _ => hts i, hpace⟩
  next hrate =>
  obtain ⟨t', sk', hrun, hlists, ⟨as, bs, hcut, hsk'⟩, -⟩ := h.lists.activateSkiplist hnl hsk hbound
  obtain ⟨hpace, hself, hts⟩ := queueActivateSkiplist_same hrun
  have hidx : t'.ahead idx < 2 ^ 31 := by
    rw [QmanThread.ahead, hpace.virtual, hself]
    exact ahead_activateTs t (hdelays idx hrate)
  -- without the new queue the list is as it was
  have hold : ∀ i ∈ sk 0, t'.ahead i = t.ahead i := by
    intro i hi
    rw [QmanThread.ahead, QmanThread.ahead, hpace.virtual, hts i (ne_of_mem_of_not_mem hi hsk)]
  have hnear : ∀ i ∈ sk 0, t'.ahead i < 2 ^ 31 := by
    intro i hi
    rw [hold i hi]
    exact h.near i hi
  have hsorted : (sk 0).Pairwise fun i j => t'.ahead i ≤ t'.ahead j := by
    refine h.sorted.imp_of_mem fun hi hj hle => ?_
    rwa [hold _ hi, hold _ hj]
  refine ⟨t', nl, sk', hrun, ⟨hlists, ?_, ?_⟩, hpace⟩
  · intro i hi
    rw [hsk', mem_append, mem_cons] at hi
    rcases hi with hi | rfl | hi
    · exact hnear i (by rw [hcut.eq]; simp [hi])
    · exact hidx
    · exact hnear i (by rw [hcut.eq]; simp [hi])
  · rw [hsk']
    refine hcut.pairwise_insert (fun hab hbc => hab.trans hbc) hsorted ?_ ?_
    · intro a ha htest
      exact (timestampLessthaneq_iff (hnear a ha) hidx).mp htest
    · intro b hb htest
      by_contra hlt
      rw [(timestampLessthaneq_iff (hnear b hb) hidx).mpr (not_le.mp hlt).le] at htest
      cases htest

theorem QmanOrder.queueFire (hbound : idx.toNat < numQmqueues) {f : Firing}
    (hrun : queueFire t idx = some (t', f)) :
    (∃ nl' sk', QmanOrder t' nl' sk') ∧ SamePace t t' := by
  unfold Tas.queueFire at hrun
  dsimp only at hrun
  split at hrun
  · cases hrun
  set t₁ := t.setQueue idx { t.queues idx with
    avail := (t.queues idx).avail - fireBytes (t.queues idx)
    nextTs := if (t.queues idx).rate > 0
      then queueNewTs t (t.queues idx) (fireBytes (t.queues idx)) else (t.queues idx).nextTs }
  have hpace : SamePace t t₁ := samePace_setQueue rfl rfl
  have h₁ : QmanOrder t₁ nl sk := by
    refine h.same (h.lists.setQueue rfl rfl rfl) (List.Sublist.refl _) rfl fun i hi => ?_
    have hne : i ≠ idx := ne_of_mem_of_not_mem hi hsk
    exact congrArg Queue.nextTs (update_of_ne hne _ _)
  split at hrun
  · obtain ⟨t₂, nl₂, sk₂, hrun₂, h₂, hpace₂⟩ :=
      h₁.queueActivate (hdelays.same hpace.pace) hnl hsk hbound
    rw [hrun₂] at hrun
    cases hrun
    exact ⟨⟨nl₂, sk₂, h₂⟩, hpace.trans hpace₂⟩
  · simp only [Option.some.injEq, Prod.mk.injEq] at hrun
    rw [← hrun.1]
    exact ⟨⟨nl, sk, h₁⟩, hpace⟩

end

/-- The queue manager with its lists in order. -/
def Ordered (t : QmanThread) : Prop := ∃ nl sk, QmanOrder t nl sk

/-- The lists are in order and the queue `idx` is on none of them. -/
def OrderedBut (t : QmanThread) (idx : UInt32) : Prop :=
  ∃ nl sk, QmanOrder t nl sk ∧ idx ∉ nl ∧ idx ∉ sk 0 ∧ idx.toNat < numQmqueues

theorem OrderedBut.serve (h : OrderedBut t idx) (hdelays : Delays t) {fs : List TimedFiring}
    (hrun : serve t idx = some (t', fs)) : Ordered t' ∧ SamePace t t' := by
  obtain ⟨nl, sk, h, hnl, hsk, hbound⟩ := h
  unfold Tas.serve at hrun
  split at hrun
  · obtain ⟨⟨t₂, f⟩, hfire, heq⟩ := Option.map_eq_some_iff.mp hrun
    cases heq
    exact h.queueFire hdelays hnl hsk hbound hfire
  · cases hrun
    exact ⟨⟨nl, sk, h⟩, ⟨fun _ => ⟨rfl, rfl⟩, rfl, rfl⟩⟩

theorem takeNolimit_ordered (hordered : Ordered t) (hrun : takeNolimit t = some (some (t', idx))) :
    OrderedBut t' idx ∧ SamePace t t' := by
  obtain ⟨nl, sk, h⟩ := hordered
  unfold takeNolimit at hrun
  split at hrun
  · cases hrun
  next hne =>
    cases hrun
    obtain ⟨x, xs, rfl⟩ := exists_cons_of_ne_nil (mt h.lists.nolimit.eq_nil_iff.mpr hne)
    rw [h.lists.nolimit.1]
    have hpace : SamePace t (t.setQueue x { t.queues x with inNolimit := false }) :=
      samePace_setQueue rfl rfl
    refine ⟨⟨xs, sk, h.same h.lists.nolimitPop (List.Sublist.refl _) rfl fun i _ =>
        setQueue_same (t := t) (i := x) Queue.nextTs (by rfl) i,
      (nodup_cons.mp h.lists.nl_nodup).1, h.lists.disjoint x (by simp),
      h.lists.bound x (by simp)⟩, hpace.pace, rfl, rfl⟩

variable {num : ℕ} {fs : List Firing} {maxVts : UInt32} {fuel : ℕ}

theorem pollNolimit_ordered (hordered : Ordered t) (hdelays : Delays t)
    (hrun : pollNolimit fuel num t = some (t', fs)) :
    Ordered t' ∧ SamePace t t' := by
  rw [pollNolimit_eq] at hrun
  obtain ⟨⟨t₁, gs⟩, hloop, heq⟩ := Option.map_eq_some_iff.mp hrun
  cases heq
  refine serveLoop_induction (R := fun t _ t' => Ordered t → Delays t → Ordered t' ∧ SamePace t t')
    (fun t hordered _ => ⟨hordered, fun _ => ⟨rfl, rfl⟩, rfl, rfl⟩)
    (fun htake hserve ih hordered hdelays => ?_) hloop hordered hdelays
  obtain ⟨hbut, hpace⟩ := takeNolimit_ordered hordered htake
  obtain ⟨hordered₂, hpace₂⟩ := hbut.serve (hdelays.same hpace.pace) hserve
  obtain ⟨hordered₃, hpace₃⟩ := ih hordered₂ ((hdelays.same hpace.pace).same hpace₂.pace)
  exact ⟨hordered₃, hpace.trans (hpace₂.trans hpace₃)⟩

theorem QmanOrder.head_le (h : QmanOrder t nl sk) {i : UInt32} (hi : i ∈ sk 0) :
    t.headIdx 0 ∈ sk 0 ∧ t.ahead (t.headIdx 0) ≤ t.ahead i := by
  obtain ⟨x, xs, hsk⟩ := exists_cons_of_ne_nil (ne_nil_of_mem hi)
  have hchain := h.lists.skip 0 (by decide)
  have hsorted := h.sorted
  rw [hsk] at hchain hsorted hi
  rw [hchain.1, hsk]
  refine ⟨by simp, ?_⟩
  rcases mem_cons.mp hi with rfl | hi
  · exact le_rfl
  · exact (pairwise_cons.mp hsorted).1 i hi

theorem QmanOrder.advance_limit (h : QmanOrder t nl sk)
    (hmax : Tas.ahead t.tsVirtual maxVts < 2 ^ 31) (hbeyond : t.headIdx 0 = idxlistInval ∨
      timestampLessthaneq t (t.queues (t.headIdx 0)).nextTs maxVts = false) :
    QmanOrder { t with tsVirtual := maxVts } nl sk := by
  apply h.advance
  intro i hi
  obtain ⟨hmem, hle⟩ := h.head_le hi
  rcases hbeyond with hnil | hlater
  · exact absurd hnil ((h.lists.skip 0 (by decide)).ne_nil hmem)
  have hiff := timestampLessthaneq_iff (t := t) (h.near _ hmem) hmax
  rw [hlater] at hiff
  have hnot : ¬ t.ahead (t.headIdx 0) ≤ Tas.ahead t.tsVirtual maxVts := fun hcon => by
    simpa using hiff.mpr hcon
  omega

theorem skiplistPop_clock (t : QmanThread) (idx : UInt32) (n l : ℕ) :
    (skiplistPop t idx n l).tsVirtual = t.tsVirtual := by
  induction n generalizing t l with
  | zero => rfl
  | succ n ih =>
    unfold skiplistPop
    split
    · rw [ih]
    · rfl

theorem QmanOrder.skiplistPop (h : QmanOrder t nl sk) {xs : List UInt32} (hsk : sk 0 = idx :: xs) :
    QmanOrder
      { (skiplistPop t idx skiplistLevels 0).setQueue idx
          { t.queues idx with inSkiplist := false } with tsVirtual := (t.queues idx).nextTs }
      nl (fun l => (sk l).erase idx) := by
  obtain ⟨hqueues, hlists⟩ := h.lists.skiplistPop hsk
  have herase : (sk 0).erase idx = xs := by rw [hsk, erase_cons_head]
  have hv := skiplistPop_clock t idx skiplistLevels 0
  have hts : ∀ i, (((Tas.skiplistPop t idx skiplistLevels 0).setQueue idx
      { t.queues idx with inSkiplist := false }).queues i).nextTs = (t.queues i).nextTs := by
    intro i
    rw [← hqueues]
    exact setQueue_same Queue.nextTs (by rfl) i
  have h₀ := h.same hlists erase_sublist hv fun i _ => hts i
  apply h₀.advance
  intro i hi
  have hle : t.ahead idx ≤ t.ahead i := by
    have hsorted := h.sorted
    rw [hsk] at hsorted
    rw [herase] at hi
    exact (pairwise_cons.mp hsorted).1 i hi
  have hvirtual : ((Tas.skiplistPop t idx skiplistLevels 0).setQueue idx
      { t.queues idx with inSkiplist := false }).tsVirtual = t.tsVirtual := hv
  rw [QmanThread.ahead, hvirtual, hts]
  exact hle

theorem takeSkip_ordered (hordered : Ordered t) (hmax : Tas.ahead t.tsVirtual maxVts < 2 ^ 31)
    (hrun : takeSkip maxVts t = some (some (t', idx))) :
    OrderedBut t' idx ∧ (∀ i, (t'.queues i).credit = (t.queues i).credit ∧
      (t'.queues i).nextTs = (t.queues i).nextTs) ∧ t'.tsVirtual = (t.queues idx).nextTs ∧
      t.ahead idx ≤ Tas.ahead t.tsVirtual maxVts := by
  obtain ⟨nl, sk, h⟩ := hordered
  unfold takeSkip at hrun
  dsimp only at hrun
  split at hrun
  · cases hrun
  next hgo =>
    rw [not_or, Bool.not_eq_false] at hgo
    have hchain := h.lists.skip 0 (by decide)
    obtain ⟨x, xs, hsk⟩ := exists_cons_of_ne_nil (mt hchain.eq_nil_iff.mpr hgo.1)
    rw [hsk] at hchain
    have hx : x ∈ sk 0 := by simp [hsk]
    have hqueues := (h.lists.skiplistPop hsk).1
    rw [hchain.1] at hgo hrun
    rw [hqueues] at hrun
    split at hrun
    · cases hrun
    cases hrun
    refine ⟨⟨nl, _, h.skiplistPop hsk, fun hcon => h.lists.disjoint _ hcon hx,
      h.lists.sk_nodup.not_mem_erase, h.lists.bound _ (.inr hx)⟩, fun i => ?_, rfl,
      (timestampLessthaneq_iff (h.near _ hx) hmax).mp hgo.2⟩
    rw [← hqueues]
    exact ⟨setQueue_same Queue.credit (by rw [hqueues]; rfl) i,
      setQueue_same Queue.nextTs (by rw [hqueues]) i⟩

variable (hordered : Ordered t) (hdelays : Delays t)
include hordered hdelays

theorem pollSkiplistLoop_ordered (hmax : Tas.ahead t.tsVirtual maxVts < 2 ^ 31)
    (hrun : pollSkiplistLoop maxVts fuel num t = some (t', fs)) : Ordered t' ∧ Delays t' := by
  rw [pollSkiplistLoop_eq] at hrun
  obtain ⟨⟨t₁, gs⟩, hloop, heq⟩ := Option.map_eq_some_iff.mp hrun
  cases heq
  obtain ⟨⟨nl, sk, h⟩, hdelays₁, hmax₁⟩ : Ordered t₁ ∧ Delays t₁ ∧
      Tas.ahead t₁.tsVirtual maxVts < 2 ^ 31 := by
    refine serveLoop_induction (R := fun t _ t' => Ordered t → Delays t →
      Tas.ahead t.tsVirtual maxVts < 2 ^ 31 → Ordered t' ∧ Delays t' ∧
        Tas.ahead t'.tsVirtual maxVts < 2 ^ 31)
      (fun t hordered hdelays hmax => ⟨hordered, hdelays, hmax⟩)
      (fun htake hserve ih hordered hdelays hmax => ?_) hloop hordered hdelays hmax
    obtain ⟨hbut, hsame, hv, hle⟩ := takeSkip_ordered hordered hmax htake
    have hdelays' := hdelays.same fun i =>
      ⟨congrArg QueueCredit.rate (hsame i).1, congrArg QueueCredit.maxChunk (hsame i).1⟩
    obtain ⟨hordered₂, hpace₂⟩ := hbut.serve hdelays' hserve
    refine ih hordered₂ (hdelays'.same hpace₂.pace) ?_
    rw [hpace₂.virtual, hv, ahead_advance hle]
    omega
  refine ⟨⟨nl, sk, ?_⟩, hdelays₁⟩
  dsimp only [restClock]
  split
  · exact h.advance fun i hi => (h.head_le hi).2
  next hhead =>
  refine h.advance_limit hmax₁ ?_
  by_contra hcon
  rw [not_or, Bool.not_eq_false] at hcon
  exact hhead hcon

theorem pollSkiplist_ordered {curTs : UInt32} (hgap : (curTs - t.tsReal).toNat < 2 ^ 31)
    (hrun : pollSkiplist t curTs num = some (t', fs)) : Ordered t' ∧ Delays t' := by
  obtain ⟨⟨t₁, gs⟩, hloop, heq⟩ := Option.map_eq_some_iff.mp hrun
  cases heq
  have hmax : Tas.ahead t.tsVirtual (t.tsVirtual + (curTs - t.tsReal)) < 2 ^ 31 := by
    rw [ahead_add]
    exact hgap
  obtain ⟨⟨nl, sk, h⟩, hdelays'⟩ := pollSkiplistLoop_ordered hordered hdelays hmax hloop
  refine ⟨⟨nl, sk, ?_⟩, hdelays'⟩
  exact h.same (h.lists.congr (fun _ => ⟨rfl, rfl, rfl⟩) rfl rfl rfl) (List.Sublist.refl _) rfl
    fun _ _ => rfl

theorem qmanPoll_ordered {ts : UInt32} (hgap : (ts - t.tsReal).toNat < 2 ^ 31)
    (hrun : qmanPoll t ts num = some (t', fs)) : Ordered t' ∧ Delays t' := by
  obtain ⟨⟨t₁, gs⟩, hboth, heq⟩ := Option.map_eq_some_iff.mp hrun
  cases heq
  have hkeep : Ordered t₁ ∧ Delays t₁ := by
    unfold pollBoth at hboth
    split at hboth
    · split at hboth
      · cases hboth
      · next t₂ x hnolimit =>
        obtain ⟨hordered₂, hpace₂⟩ := pollNolimit_ordered hordered hdelays hnolimit
        obtain ⟨⟨t₃, ys⟩, hskip, heq⟩ := Option.map_eq_some_iff.mp hboth
        cases heq
        exact pollSkiplist_ordered hordered₂ (hdelays.same hpace₂.pace)
          (by rw [hpace₂.real]; exact hgap) hskip
    split at hboth
    · cases hboth
    next t₂ x hskip =>
    obtain ⟨hordered₂, hdelays₂⟩ := pollSkiplist_ordered hordered hdelays hgap hskip
    obtain ⟨⟨t₃, ys⟩, hnolimit, heq⟩ := Option.map_eq_some_iff.mp hboth
    cases heq
    obtain ⟨hordered₃, hpace₃⟩ := pollNolimit_ordered hordered₂ hdelays₂ hnolimit
    exact ⟨hordered₃, hdelays₂.same hpace₃.pace⟩
  obtain ⟨⟨nl, sk, h⟩, hdelays₁⟩ := hkeep
  refine ⟨⟨nl, sk, ?_⟩, hdelays₁⟩
  exact h.same (h.lists.congr (fun _ => ⟨rfl, rfl, rfl⟩) rfl rfl rfl) (List.Sublist.refl _) rfl
    fun _ _ => rfl

end Order

/-- `qman_set`, with `QMAN_SET_RATE`, `QMAN_SET_MAXCHUNK`, `QMAN_SET_AVAIL` and `QMAN_ADD_AVAIL`. -/
structure QmanCall where
  id : UInt32
  rate : UInt32
  avail : UInt32
  maxChunk : UInt16
  setRate : Bool
  setMaxchunk : Bool
  setAvail : Bool
  addAvail : Bool

/-- The fields of a queue that `set_impl` writes. -/
def QmanCall.apply (c : QmanCall) (q : Queue) : Queue :=
  { q with
    rate := if c.setRate then c.rate else q.rate
    maxChunk := if c.setMaxchunk then c.maxChunk else q.maxChunk
    avail := if c.setAvail then c.avail else if c.addAvail then q.avail + c.avail else q.avail }

def setImpl (t : QmanThread) (c : QmanCall) : Option QmanThread :=
  let q := c.apply (t.queues c.id)
  let t := t.setQueue c.id q
  if (c.setAvail || c.addAvail) = true ∧ q.avail > 0 ∧ (q.inSkiplist || q.inNolimit) = false
  then queueActivate t c.id
  else some t

/-- `qman_set` with any flags. An id out of range is refused. -/
def qmanSetCall (t : QmanThread) (c : QmanCall) : Option QmanThread :=
  if !qmanIdOk c.id then some t else setImpl t c

inductive QmanOp where
  | set (c : QmanCall)
  | poll (ts : UInt32) (num : ℕ)

/-- A thread that still runs; `none` stands for a failed `assert` or a loop that
does not end. -/
def qmanStep (t : Option QmanThread) (op : QmanOp) : Option QmanThread :=
  t.bind fun t =>
    match op with
    | .set c => qmanSetCall t c
    | .poll ts num => (qmanPoll t ts num).map Prod.fst

/-- Every delay and every gap between polls is less than half of the range of the
time stamps. -/
def QmanOk (t : Option QmanThread) (op : QmanOp) : Prop :=
  ∀ t' ∈ t,
    match op with
    | .set c => (c.apply (t'.queues c.id)).rate ≠ 0 → (c.apply (t'.queues c.id)).delay < 2 ^ 31
    | .poll ts _ => (ts - t'.tsReal).toNat < 2 ^ 31

instance (t : Option QmanThread) : DecidablePred (QmanOk t) := fun op => by
  cases op <;> dsimp only [QmanOk] <;> infer_instance

/-- Sorted and nested skip lists, exact flags, and every queue with credit on exactly one list. -/
structure Structured (t : QmanThread) (nl : List UInt32) (sk : ℕ → List UInt32) : Prop where
  nolimit : Chain (t.next 0) idxlistInval t.nolimitHeadIdx nl
  skip : ∀ l < skiplistLevels, Chain (t.next l) idxlistInval (t.headIdx l) (sk l)
  sorted : (sk 0).Pairwise fun i j =>
    timestampLessthaneq t (t.queues i).nextTs (t.queues j).nextTs = true
  nested : ∀ l, l + 1 < skiplistLevels → (sk (l + 1)).Sublist (sk l)
  once : (nl ++ sk 0).Nodup
  inSkiplist : ∀ i, (t.queues i).inSkiplist = true ↔ i ∈ sk 0
  inNolimit : ∀ i, (t.queues i).inNolimit = true ↔ i ∈ nl
  active : ∀ i, (t.queues i).avail ≠ 0 → i ∈ nl ∨ i ∈ sk 0

section Runs

variable {t : QmanThread} {ls : List UInt32}

/-- What holds of a thread between calls. -/
structure QmanSound (t : QmanThread) : Prop where
  active : ∃ ls, QmanActive t ls
  ordered : Ordered t
  delays : Delays t

theorem QmanSound.structured (h : QmanSound t) : ∃ nl sk, Structured t nl sk := by
  obtain ⟨ls, hactive⟩ := h.active
  obtain ⟨nl, sk, horder⟩ := h.ordered
  have hlists := horder.lists
  refine ⟨nl, sk, hlists.nolimit, hlists.skip, ?_, hlists.nested, ?_, hlists.flag_sk,
    hlists.flag_nl, fun i hi => ?_⟩
  · refine horder.sorted.imp_of_mem fun hi hj hle => ?_
    exact (timestampLessthaneq_iff (horder.near _ hi) (horder.near _ hj)).mpr hle
  · rw [nodup_append]
    refine ⟨hlists.nl_nodup, hlists.sk_nodup, ?_⟩
    rintro a ha b hb rfl
    exact hlists.disjoint a ha hb
  · have hflag := (hactive.listed.flag_iff i).mpr (hactive.active i hi)
    rwa [Bool.or_eq_true, hlists.flag_sk, hlists.flag_nl, or_comm] at hflag

theorem QmanSound.init (rng : ℕ → UInt32) (ts : UInt32) : QmanSound (qmanThreadInit rng ts) where
  active := ⟨[], qmanThreadInit_active rng ts⟩
  ordered := by
    obtain ⟨nl, sk, hlists, hperm⟩ := (qmanThreadInit_active rng ts).listed
    have hnil : sk 0 = [] := (append_eq_nil_iff.mp hperm.nil_eq.symm).2
    exact ⟨nl, sk, hlists, by simp [hnil], by simp [hnil]⟩
  delays := fun i hi => absurd rfl hi

theorem QmanSound.poll (h : QmanSound t) {ts : UInt32} (hgap : (ts - t.tsReal).toNat < 2 ^ 31)
    (num : ℕ) :
    ∃ t' fs, qmanPoll t ts num = some (t', fs) ∧ QmanSound t' ∧
      Fired t.credits fs t'.credits := by
  obtain ⟨ls, hactive⟩ := h.active
  obtain ⟨t', fs, ls', hrun, hactive', -, hfired⟩ := hactive.qmanPoll ts num
  obtain ⟨hordered, hdelays⟩ := qmanPoll_ordered h.ordered h.delays hgap hrun
  exact ⟨t', fs, hrun, ⟨⟨ls', hactive'⟩, hordered, hdelays⟩, hfired⟩

theorem QmanSound.set (h : QmanSound t) {c : QmanCall}
    (hdelay : (c.apply (t.queues c.id)).rate ≠ 0 → (c.apply (t.queues c.id)).delay < 2 ^ 31) :
    ∃ t', qmanSetCall t c = some t' ∧ QmanSound t' := by
  unfold qmanSetCall
  split
  · exact ⟨t, rfl, h⟩
  next hid =>
    have hbound := numQmqueues_of_qmanIdOk (by simpa using hid)
    obtain ⟨ls, hactive⟩ := h.active
    obtain ⟨nl, sk, horder⟩ := h.ordered
    obtain ⟨t', ls', hrun, hactive', -⟩ :=
      hactive.updateQueue (q := c.apply (t.queues c.id)) hbound rfl rfl rfl
        ((c.setAvail || c.addAvail) = true) fun hold => by
          simp only [Bool.or_eq_true, not_or, Bool.not_eq_true] at hold
          simp [QmanCall.apply, hold]
    have h₁ : QmanOrder (t.setQueue c.id (c.apply (t.queues c.id))) nl sk :=
      horder.same (horder.lists.setQueue rfl rfl rfl) (List.Sublist.refl _) rfl fun i _ =>
        setQueue_same Queue.nextTs (by rfl) i
    have hdelays₁ : Delays (t.setQueue c.id (c.apply (t.queues c.id))) := by
      intro i
      by_cases hi : i = c.id
      · subst hi
        simpa only [QmanThread.setQueue, update_self] using hdelay
      · simpa only [QmanThread.setQueue, update_of_ne hi] using h.delays i
    have hkeep : Ordered t' ∧ Delays t' := by
      split at hrun
      · next hgo =>
        have hidle := hgo.2.2
        rw [Bool.or_eq_false_iff] at hidle
        have hsk : c.id ∉ sk 0 := by
          rw [← horder.lists.flag_sk]
          exact Bool.eq_false_iff.mp hidle.1
        have hnl : c.id ∉ nl := by
          rw [← horder.lists.flag_nl]
          exact Bool.eq_false_iff.mp hidle.2
        obtain ⟨t₂, nl₂, sk₂, hrun₂, h₂, hpace₂⟩ := h₁.queueActivate hdelays₁ hnl hsk hbound
        rw [hrun₂] at hrun
        cases hrun
        exact ⟨⟨nl₂, sk₂, h₂⟩, hdelays₁.same hpace₂.pace⟩
      · cases hrun
        exact ⟨⟨nl, sk, h₁⟩, hdelays₁⟩
    exact ⟨t', hrun, ⟨ls', hactive'⟩, hkeep.1, hkeep.2⟩

/-- If delays and gaps are below half the range, the thread goes on and has its structure. -/
theorem qman_structured (rng : ℕ → UInt32) (ts : UInt32) (ops : List QmanOp)
    (hrun : Run.Admissible qmanStep QmanOk (some (qmanThreadInit rng ts)) ops) :
    ∃ t, ops.foldl qmanStep (some (qmanThreadInit rng ts)) = some t ∧
      (∃ nl sk, Structured t nl sk) ∧
      ∀ ts' num, (ts' - t.tsReal).toNat < 2 ^ 31 →
        ∃ t' fs, qmanPoll t ts' num = some (t', fs) ∧ Fired t.credits fs t'.credits := by
  have hsound : ∃ t, ops.foldl qmanStep (some (qmanThreadInit rng ts)) = some t ∧ QmanSound t := by
    refine @Run.Admissible.invariant _ _ _ _ (fun s => ∃ t, s = some t ∧ QmanSound t) _ _ hrun
      ⟨_, rfl, QmanSound.init rng ts⟩ ?_
    rintro _ op ⟨t, rfl, h⟩ hok
    cases op with
    | set c =>
      obtain ⟨t', hset, h'⟩ := h.set (hok t rfl)
      exact ⟨t', hset, h'⟩
    | poll ts num =>
      obtain ⟨t', fs, hpoll, h', -⟩ := h.poll (hok t rfl) num
      exact ⟨t', by simp [qmanStep, hpoll], h'⟩
  obtain ⟨t, ht, h⟩ := hsound
  refine ⟨t, ht, h.structured, fun ts' num hgap => ?_⟩
  obtain ⟨t', fs, hpoll, -, hfired⟩ := h.poll hgap num
  exact ⟨t', fs, hpoll, hfired⟩

def threeQueues : List QmanOp :=
  [.set ⟨1, 4000000, 3000, 1460, true, true, true, false⟩,
    .set ⟨2, 8000000, 3000, 1460, true, true, true, false⟩,
    .set ⟨3, 0, 100, 1460, true, true, false, true⟩, .poll 16 2,
    .set ⟨1, 1000, 0, 0, true, false, false, false⟩, .poll 4000 3]

theorem qman_structured_threeQueues :
    Run.Admissible qmanStep QmanOk (some (qmanThreadInit (fun n => UInt32.ofNat n) 0xFFFFFFF0))
        threeQueues ∧
      ∃ t, threeQueues.foldl qmanStep
          (some (qmanThreadInit (fun n => UInt32.ofNat n) 0xFFFFFFF0)) = some t ∧
        (∃ nl sk, Structured t nl sk) ∧
        ∀ ts' num, (ts' - t.tsReal).toNat < 2 ^ 31 →
          ∃ t' fs, qmanPoll t ts' num = some (t', fs) ∧ Fired t.credits fs t'.credits :=
  have hrun : Run.Admissible qmanStep QmanOk
      (some (qmanThreadInit (fun n => UInt32.ofNat n) 0xFFFFFFF0)) threeQueues := by
    decide +kernel
  ⟨hrun, qman_structured (fun n => UInt32.ofNat n) 0xFFFFFFF0 threeQueues hrun⟩

end Runs

end StackBench.Tas

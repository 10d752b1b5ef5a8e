import StackBench.Lib.Linked
import StackBench.Lib.Spans
import StackBench.Mtcp.RingBuffer

/-!
# The fragment list of the mTCP receive buffer

The loop of `RBPut` merges linked contexts in place, unlinks swallowed ones and
repairs the predecessor. On spans of positions behind `head_seq` it is the
insertion of a span.
-/

namespace StackBench.Mtcp

open Function List
open Linked (Chain)
open Spans (Span)

/-- The positions of a fragment, counted from the number `base`. -/
def Fragment.span (base : UInt32) (f : Fragment) : Span ℕ :=
  ⟨(f.seq - base).toNat, (f.seq - base).toNat + f.len.toNat⟩

theorem seqAt_sub (base x : UInt32) : seqAt base (x - base).toNat = x := by
  simp [seqAt]

variable (base : UInt32) (f : Fragment)

theorem Fragment.seq_eq : f.seq = seqAt base (f.span base).lo :=
  (seqAt_sub base f.seq).symm

theorem Fragment.end_eq : f.seq + f.len = seqAt base (f.span base).hi := by
  rw [seq_eq base, seqAt_add]
  rfl

open Fragment (end_eq seq_eq)

/-- Spans up to `2 ^ 31 - 2` behind the head leave room for comparisons around them. -/
def Fragment.Near (base : UInt32) (f : Fragment) : Prop := (f.span base).hi ≤ 2 ^ 31 - 2

theorem Fragment.lo_le_hi : (f.span base).lo ≤ (f.span base).hi :=
  Nat.le_add_right _ _

section Merge

variable {base : UInt32} {a b : Fragment}

variable (ha : a.Near base) (hb : b.Near base)
include ha hb

theorem getMinSeq_end_iff :
    getMinSeq (a.seq + a.len + 1) b.seq = a.seq + a.len + 1 ↔
      Spans.Apart (a.span base) (b.span base) := by
  have hlo := b.lo_le_hi base
  simp only [Fragment.Near] at ha hb
  rw [end_eq base, seq_eq base b, seqAt_add, UInt32.toNat_one,
    getMinSeq_seqAt (by omega) (by omega), Spans.Apart]
  constructor
  · intro heq
    have hmin := seqAt_inj heq (by omega) (by omega)
    omega
  · intro hlt
    rw [min_eq_left (by omega)]

theorem canMerge_iff : canMerge a b = true ↔ Spans.Touch (a.span base) (b.span base) := by
  simp only [canMerge, Bool.not_eq_true', Bool.or_eq_false_iff, beq_eq_false_iff_ne, ne_eq,
    getMinSeq_end_iff ha hb, getMinSeq_end_iff hb ha]
  rfl

theorem mergeFragments_span :
    (mergeFragments a b).span base = Spans.hull (a.span base) (b.span base) := by
  have hlo := a.lo_le_hi base
  have hlo' := b.lo_le_hi base
  simp only [Fragment.Near] at ha hb
  have hmin : getMinSeq a.seq b.seq = seqAt base (min (a.span base).lo (b.span base).lo) := by
    rw [seq_eq base a, seq_eq base b, getMinSeq_seqAt (by omega) (by omega)]
  have hmax : getMaxSeq (a.seq + a.len) (b.seq + b.len) =
      seqAt base (max (a.span base).hi (b.span base).hi) := by
    rw [end_eq base a, end_eq base b, getMaxSeq_seqAt (by omega) (by omega)]
  have hlen : (seqAt base (max (a.span base).hi (b.span base).hi) -
      seqAt base (min (a.span base).lo (b.span base).lo)).toNat =
        max (a.span base).hi (b.span base).hi - min (a.span base).lo (b.span base).lo :=
    seqAt_sub_of_le (by omega) (by omega)
  have hstart : (seqAt base (min (a.span base).lo (b.span base).lo) - base).toNat =
      min (a.span base).lo (b.span base).lo := by
    have h : (seqAt base (min (a.span base).lo (b.span base).lo) - seqAt base 0).toNat =
        min (a.span base).lo (b.span base).lo - 0 := seqAt_sub_of_le (Nat.zero_le _) (by omega)
    rwa [seqAt_zero, Nat.sub_zero] at h
  have hmod : ((seqAt base (max (a.span base).hi (b.span base).hi) -
      seqAt base (min (a.span base).lo (b.span base).lo)) % 2 ^ 31).toNat =
        max (a.span base).hi (b.span base).hi - min (a.span base).lo (b.span base).lo := by
    rw [UInt32.toNat_mod, hlen]
    exact Nat.mod_eq_of_lt (by change _ < 2 ^ 31; omega)
  change Span.mk (getMinSeq a.seq b.seq - base).toNat ((getMinSeq a.seq b.seq - base).toNat +
    ((getMaxSeq (a.seq + a.len) (b.seq + b.len) - getMinSeq a.seq b.seq) % 2 ^ 31).toNat) = _
  rw [hmin, hmax, hstart, hmod, Nat.add_sub_cancel' (by omega)]
  rfl

end Merge

/-- The spans of the contexts at the addresses `ptrs`. -/
def spansOf (base : UInt32) (frag : ℕ → Fragment) (ptrs : List ℕ) : List (Span ℕ) :=
  ptrs.map fun p => (frag p).span base

theorem spansOf_congr {base : UInt32} {frag frag' : ℕ → Fragment} {ptrs : List ℕ}
    (h : ∀ p ∈ ptrs, frag' p = frag p) : spansOf base frag' ptrs = spansOf base frag ptrs := by
  apply map_congr_left
  intro p hp
  rw [h p hp]

/-- The contexts at the addresses `ptrs` are linked in this order. -/
structure FragList (s : PutLoop) (ptrs : List ℕ) : Prop where
  chain : Chain s.next 0 s.fctx ptrs
  nodup : ptrs.Nodup

/-- A merge has happened: `new_ctx` is the context `cur` in front of `iter`, behind the
contexts `before`. -/
structure PutLoop.Merging (s : PutLoop) (before : List ℕ) (cur : ℕ) (rest : List ℕ) : Prop where
  linked : FragList s (before ++ cur :: rest)
  newCtx : s.newCtx = cur
  prev : s.prev = cur
  pprev : s.pprev = before.getLastD 0
  iter : s.iter = rest.headD 0
  merged : s.merged = true

section Loop

variable {base : UInt32} {s : PutLoop} {before rest : List ℕ} {ctx cur r : ℕ}

theorem PutLoop.Merging.merge (h : s.Merging before cur (r :: rest)) :
    s.merge.advance.Merging before r rest ∧ s.merge.advance.frag =
      update s.frag r (mergeFragments (s.frag cur) (s.frag r)) := by
  obtain ⟨hbefore, -, hapart⟩ := nodup_append.mp h.linked.nodup
  have hback := h.linked.chain.drop.2.2
  rw [hback.1] at hback
  have hchain := h.linked.chain.relink hbefore
    (fun x hx hcon => hapart x hx x (mem_cons_of_mem _ hcon) rfl) hback
  have hlist : (before ++ r :: rest).Nodup :=
    h.linked.nodup.sublist ((sublist_cons_self cur (r :: rest)).append_left before)
  have hs : s.merge.advance = { s with
      fctx := if before.getLastD 0 = 0 then r else s.fctx
      next := if before.getLastD 0 = 0 then s.next
        else update s.next (before.getLastD 0) r
      frag := update s.frag r (mergeFragments (s.frag cur) (s.frag r))
      newCtx := r, prev := r, pprev := before.getLastD 0, merged := true
      iter := rest.headD 0 } := by
    rw [← hchain.next_eq]
    simp only [PutLoop.merge, advance, h.newCtx, h.prev, h.pprev, h.iter, headD_cons,
      if_true, ne_eq, ite_not]
    split <;> rfl
  rw [hs]
  exact ⟨⟨⟨hchain, hlist⟩, rfl, rfl, rfl, rfl, rfl⟩, rfl⟩

/-- The first merge: the new context was never linked, so nothing is unlinked. -/
theorem PutLoop.first_merge (hlink : FragList s (before ++ r :: rest))
    (hctx : ctx ∉ before ++ r :: rest) (hne : ctx ≠ 0) (hnew : s.newCtx = ctx)
    (hprev : s.prev = before.getLastD 0) (hr : s.iter = r) :
    s.merge.advance.Merging before r rest ∧ s.merge.advance.frag =
      update s.frag r (mergeFragments (s.frag ctx) (s.frag r)) := by
  have hprevne : before.getLastD 0 ≠ ctx := by
    intro hcon
    rcases Linked.getLastD_mem_or before 0 with hzero | hmem
    · exact hne (hcon.symm.trans hzero)
    · exact hctx (mem_append_left _ (hcon ▸ hmem))
  have hs : s.merge.advance = { s with
      frag := update s.frag r (mergeFragments (s.frag ctx) (s.frag r))
      newCtx := r, prev := r, pprev := before.getLastD 0, merged := true
      iter := s.next r } := by
    simp only [merge, advance, hnew, hprev, hr, if_neg hprevne]
  rw [hs]
  exact ⟨⟨⟨hlink.chain, hlink.nodup⟩, rfl, rfl, rfl, hlink.chain.next_eq, rfl⟩, rfl⟩

theorem mergeFragments_near {a b : Fragment} (ha : a.Near base) (hb : b.Near base) :
    (mergeFragments a b).Near base := by
  rw [Fragment.Near, mergeFragments_span ha hb]
  exact Spans.hull_hi_le _ _ ha hb

theorem PutLoop.Merging.holds {s₁ : PutLoop} {a : Fragment} (base : UInt32)
    (h : s₁.Merging before r rest) (hfrag : s₁.frag = update s.frag r (mergeFragments a (s.frag r)))
    (ha : a.Near base) (hnear : ∀ p ∈ r :: rest, (s.frag p).Near base) :
    (∀ p ∈ r :: rest, (s₁.frag p).Near base) ∧
      (s₁.frag r).span base = Spans.hull (a.span base) ((s.frag r).span base) ∧
      spansOf base s₁.frag rest = spansOf base s.frag rest ∧
      ∀ p, p ≠ r → s₁.frag p = s.frag p := by
  have hr := hnear r mem_cons_self
  have hself : s₁.frag r = mergeFragments a (s.frag r) := by rw [hfrag, update_self]
  have hother : ∀ p, p ≠ r → s₁.frag p = s.frag p := fun p hp => by
    rw [hfrag, update_of_ne hp]
  have hrest : ∀ p ∈ rest, s₁.frag p = s.frag p := by
    intro p hp
    refine hother p ?_
    rintro rfl
    exact (nodup_cons.mp (nodup_append.mp h.linked.nodup).2.1).1 hp
  refine ⟨forall_mem_cons.mpr ⟨?_, fun p hp => ?_⟩, ?_, spansOf_congr hrest, hother⟩
  · rw [hself]
    exact mergeFragments_near ha hr
  · rw [hrest p hp]
    exact hnear p (mem_cons_of_mem _ hp)
  · rw [hself, mergeFragments_span ha hr]

theorem PutLoop.Merging.run (fuel : ℕ) (endSeq : UInt32) (h : s.Merging before cur rest)
    (hfuel : rest.length < fuel) (hnear : ∀ p ∈ cur :: rest, (s.frag p).Near base) :
    ∃ s' after, PutLoop.run endSeq fuel s = some s' ∧ s'.merged = true ∧
      FragList s' (before ++ after) ∧
      spansOf base s'.frag after =
        Spans.absorb ((s.frag cur).span base) (spansOf base s.frag rest) ∧
      ∀ p, p ∉ cur :: rest → s'.frag p = s.frag p := by
  obtain ⟨fuel, rfl⟩ := Nat.exists_eq_add_of_lt hfuel
  induction rest generalizing s cur with
  | nil =>
    have hzero : s.iter = 0 := h.iter
    refine ⟨s, [cur], ?_, h.merged, h.linked, rfl, fun _ _ => rfl⟩
    rw [PutLoop.run, if_pos hzero]
  | cons r rest ih =>
    obtain ⟨hcur, hrest⟩ := forall_mem_cons.mp hnear
    have hmergeIff := canMerge_iff hcur (hrest r mem_cons_self)
    rw [length_cons, Nat.add_right_comm _ 1, PutLoop.run, h.iter, headD_cons,
      if_neg (h.linked.chain.ne_nil (by simp)), h.newCtx]
    by_cases htouch : canMerge (s.frag cur) (s.frag r) = true
    · obtain ⟨hmerging, hfrag⟩ := h.merge
      obtain ⟨hnear', hspan, hspans', hother⟩ := hmerging.holds base hfrag hcur hrest
      obtain ⟨s', after, hrun, hm, hl, hspans, hkeep⟩ := ih hmerging hnear' (by omega)
      refine ⟨s', after, by rw [if_pos htouch, hrun], hm, hl, ?_, fun p hp => ?_⟩
      · rw [hspans, hspan, hspans']
        simp only [spansOf, map_cons, Spans.absorb, if_pos (hmergeIff.mp htouch)]
      · simp only [mem_cons, not_or] at hp
        rw [hkeep p (by simp [hp]), hother p hp.2.1]
    rw [if_neg htouch, if_pos (by simp [h.merged])]
    refine ⟨s, cur :: r :: rest, rfl, h.merged, h.linked, ?_, fun _ _ => rfl⟩
    simp only [spansOf, map_cons, Spans.absorb, if_neg (fun hcon => htouch (hmergeIff.mpr hcon))]

section Compare

variable {a b : Fragment}

variable (ha : a.Near base) (hb : b.Near base)
include ha hb

theorem passed_of_apart (hapos : 0 < a.len.toNat)
    (hbpos : 0 < b.len.toNat) (h : Spans.Apart (b.span base) (a.span base)) :
    canMerge a b ≠ true ∧ getMaxSeq (a.seq + a.len) b.seq ≠ b.seq := by
  refine ⟨fun hcon => ((canMerge_iff ha hb).mp hcon).2 h, ?_⟩
  have hblo := b.lo_le_hi base
  simp only [Fragment.Near] at ha hb
  rw [end_eq base, seq_eq base b, getMaxSeq_seqAt (by omega) (by omega)]
  intro hcon
  have heq := seqAt_inj hcon (by omega) (by omega)
  simp only [Spans.Apart, Fragment.span] at h heq
  omega

theorem stopped_of_apart (h : Spans.Apart (a.span base) (b.span base)) :
    canMerge a b ≠ true ∧ getMaxSeq (a.seq + a.len) b.seq = b.seq := by
  refine ⟨fun hcon => ((canMerge_iff ha hb).mp hcon).1 h, ?_⟩
  have hblo := b.lo_le_hi base
  simp only [Fragment.Near] at ha hb
  rw [end_eq base, seq_eq base b, getMaxSeq_seqAt (by omega) (by omega),
    max_eq_right (le_of_lt h)]

theorem getMinSeq_seq_iff :
    getMinSeq a.seq b.seq = a.seq ↔ (a.span base).lo ≤ (b.span base).lo := by
  have halo := a.lo_le_hi base
  have hblo := b.lo_le_hi base
  simp only [Fragment.Near] at ha hb
  rw [seq_eq base a, seq_eq base b, getMinSeq_seqAt (by omega) (by omega)]
  constructor
  · intro hcon
    have heq := seqAt_inj hcon (by omega) (by omega)
    omega
  · intro hle
    rw [min_eq_left hle]

end Compare

theorem PutLoop.run_skip {mid back : List ℕ} (endSeq : UInt32) (fuel : ℕ)
    (hchain : Chain s.next 0 s.iter (mid ++ back)) (hmerged : s.merged = false)
    (hmid : ∀ p ∈ mid, canMerge (s.frag s.newCtx) (s.frag p) ≠ true ∧
      getMaxSeq endSeq (s.frag p).seq ≠ (s.frag p).seq) :
    ∃ pprev, run endSeq (mid.length + fuel) s = run endSeq fuel
      { s with prev := mid.getLastD s.prev, iter := back.headD 0, pprev := pprev } := by
  induction mid generalizing s with
  | nil =>
    rw [nil_append] at hchain
    refine ⟨s.pprev, ?_⟩
    rw [← hchain.head_eq, length_nil, Nat.zero_add]
    rfl
  | cons r mid ih =>
    obtain ⟨hr, hne, hrest⟩ := hchain
    obtain ⟨⟨hcan, hmax⟩, hmid⟩ := forall_mem_cons.mp hmid
    rw [← hr] at hne hcan hmax hrest
    obtain ⟨pprev, hrun⟩ := ih (s := s.advance) hrest hmerged hmid
    refine ⟨pprev, ?_⟩
    rw [length_cons, Nat.add_right_comm, run, if_neg hne, if_neg hcan,
      if_neg (by rwa [hmerged, Bool.false_or, beq_iff_eq]), hrun, getLastD_cons, ← hr]
    rfl

theorem PutLoop.link_fresh {mid back : List ℕ} (hlink : FragList s (mid ++ back))
    (hctx : ctx ∉ mid ++ back) (hne : ctx ≠ 0) (hnew : s.newCtx = ctx) (hnil : s.next ctx = 0)
    (hprev : s.prev = mid.getLastD 0) (hiter : s.iter = back.headD 0) (hmerged : s.merged = false)
    (hnewNear : (s.frag ctx).Near base) (hnear : ∀ p ∈ mid ++ back, (s.frag p).Near base)
    (hfront : ∀ p ∈ mid, Spans.Apart ((s.frag p).span base) ((s.frag ctx).span base))
    (hback : ∀ p ∈ back.head?, Spans.Apart ((s.frag ctx).span base) ((s.frag p).span base)) :
    ∃ s', s.link (s.frag ctx).seq = some s' ∧ FragList s' (mid ++ ctx :: back) ∧
      s'.frag = s.frag := by
  have hnodup : (mid ++ ctx :: back).Nodup := by
    rw [nodup_middle, nodup_cons]
    exact ⟨hctx, hlink.nodup⟩
  have hnewlo := (s.frag ctx).lo_le_hi base
  unfold link
  rw [hmerged, if_neg Bool.false_ne_true, hnew]
  rcases eq_nil_or_concat' mid with rfl | ⟨ys, p, rfl⟩
  · cases back with
    | nil =>
      have hzero : s.fctx = 0 := hlink.chain
      rw [if_pos hzero]
      exact ⟨_, rfl, ⟨⟨rfl, hne, hnil⟩, hnodup⟩, rfl⟩
    | cons r back =>
      obtain ⟨hr, hrne, -⟩ := hlink.chain
      have hapart : _ < _ := hback r rfl
      have hmin := (getMinSeq_seq_iff hnewNear (hnear r (by simp))).mpr (by omega)
      rw [if_neg (by rw [hr]; exact hrne), if_pos (by rw [hr]; exact hmin)]
      exact ⟨_, rfl, ⟨hlink.chain.pushFront hne hctx, hnodup⟩, rfl⟩
  rw [getLastD_concat] at hprev
  have hpne : p ≠ 0 := hlink.chain.ne_nil (by simp)
  have hrmem : s.fctx ∈ ys ++ [p] := by
    rw [hlink.chain.head_eq]
    cases ys <;> simp
  have hrapart : _ < _ := hfront _ hrmem
  have hrlo := (s.frag s.fctx).lo_le_hi base
  have hmin := mt (getMinSeq_seq_iff hnewNear (hnear _ (mem_append_left _ hrmem))).mp
    (by omega)
  have hpapart : _ < _ := hfront p (by simp)
  have hphi := hnear p (by simp)
  have hend : getMinSeq (s.frag ctx).seq ((s.frag p).seq + (s.frag p).len) =
      (s.frag p).seq + (s.frag p).len := by
    simp only [Fragment.Near] at hnewNear hphi
    rw [seq_eq base (s.frag ctx), end_eq base (s.frag p),
      getMinSeq_seqAt (by omega) (by omega), min_eq_right (by omega)]
  rw [if_neg (hlink.chain.ne_nil (mem_append_left _ hrmem)), if_neg hmin, hprev, if_neg hpne]
  simp only [if_pos hend]
  refine ⟨_, rfl, ⟨?_, hnodup⟩, rfl⟩
  rw [append_assoc, singleton_append] at hctx ⊢
  have hlink' : FragList s (ys ++ p :: back) := by simpa using hlink
  have hpctx : p ≠ ctx := by
    rintro rfl
    exact hctx (by simp)
  have hinsert := hlink'.chain.insertAfter hlink'.nodup hne hctx
  rwa [Linked.insertAfter, update_comm hpctx.symm, hlink'.chain.next_eq, ← hiter]
    at hinsert

end Loop

theorem putFragment_spec {rb : RingBuffer} {ctx : ℕ} {ptrs : List ℕ} {base curSeq len : UInt32}
    (hchain : Chain rb.next 0 rb.fctx ptrs) (hnodup : ptrs.Nodup) (hctx : ctx ∉ ptrs)
    (hne : ctx ≠ 0) (hfuel : ptrs.length < rb.size.toNat + 2) (hpos : 0 < len.toNat)
    (hnew : Fragment.Near base ⟨curSeq, len⟩)
    (hnear : ∀ p ∈ ptrs, (rb.frag p).Near base ∧ 0 < (rb.frag p).len.toNat) :
    ∃ s ptrs', putFragment rb ctx curSeq len = some s ∧ FragList s ptrs' ∧
      spansOf base s.frag ptrs' =
        Spans.insert (Fragment.span base ⟨curSeq, len⟩) (spansOf base rb.frag ptrs) := by
  have hmod : len % 2 ^ 31 = len := by
    have hle : len.toNat ≤ 2 ^ 31 - 2 := le_trans (Nat.le_add_left _ _) hnew
    rw [← UInt32.toNat_inj, UInt32.toNat_mod]
    exact Nat.mod_eq_of_lt (by change _ < 2 ^ 31; omega)
  unfold putFragment
  rw [hmod]
  dsimp only
  set start : PutLoop :=
    { fctx := rb.fctx
      frag := update rb.frag ctx ⟨curSeq, len⟩
      next := update rb.next ctx 0
      newCtx := ctx, iter := rb.fctx, prev := 0, pprev := 0, merged := false }
  have hself : start.frag ctx = ⟨curSeq, len⟩ := update_self _ _ _
  have hsame : ∀ p ∈ ptrs, start.frag p = rb.frag p := by
    intro p hp
    have hpc : p ≠ ctx := by
      rintro rfl
      exact hctx hp
    exact update_of_ne hpc _ _
  have hlink : Chain start.next 0 start.fctx ptrs := hchain.update hctx 0
  rw [← spansOf_congr hsame]
  replace hnear : ∀ p ∈ ptrs, (start.frag p).Near base ∧ 0 < (start.frag p).len.toNat :=
    fun p hp => hsame p hp ▸ hnear p hp
  -- the contexts in front of the segment, and the others
  obtain ⟨mid, back, rfl, hfront, hhead⟩ := Linked.exists_cut (fun p =>
    Spans.Apart ((start.frag p).span base) (Fragment.span base ⟨curSeq, len⟩)) ptrs
  obtain ⟨hmid, hrest⟩ := forall_mem_append.mp hnear
  obtain ⟨fuel, hsum⟩ : ∃ k, rb.size.toNat + 2 = mid.length + (back.length + k + 1) :=
    ⟨rb.size.toNat + 1 - mid.length - back.length, by rw [length_append] at hfuel; omega⟩
  obtain ⟨pp, hrun⟩ := PutLoop.run_skip (curSeq + len) (back.length + fuel + 1) hlink rfl
    fun p hp => hself ▸ passed_of_apart hnew (hmid p hp).1 hpos (hmid p hp).2 (hfront p hp)
  rw [hsum, hrun]
  set stop : PutLoop := { start with prev := mid.getLastD 0, iter := back.headD 0, pprev := pp }
  simp only [spansOf, map_append]
  rw [Spans.insert_append (Nat.lt_add_of_pos_right hpos) (forall_mem_map.mpr fun p hp =>
    ⟨Nat.lt_add_of_pos_right (hmid p hp).2, hfront p hp⟩)]
  by_cases htouch : ∃ r rest, back = r :: rest ∧
      Spans.Touch (Fragment.span base ⟨curSeq, len⟩) ((start.frag r).span base)
  · obtain ⟨r, rest, rfl, htouch⟩ := htouch
    obtain ⟨hmerging, hfrag⟩ := PutLoop.first_merge (s := stop) ⟨hlink, hnodup⟩ hctx hne rfl rfl rfl
    have hrestNear := fun p hp => (hrest p hp).1
    obtain ⟨hnear', hspan, hspans', hother⟩ := hmerging.holds base hfrag (hself ▸ hnew) hrestNear
    obtain ⟨s', after, hrun', hm, hl, hspans, hkeep⟩ :=
      hmerging.run (rest.length + 1 + fuel) (curSeq + len) (by omega) hnear'
    have hiter : stop.iter ≠ 0 := hlink.ne_nil (x := r) (by simp)
    have hmerge : canMerge (stop.frag stop.newCtx) (stop.frag stop.iter) = true :=
      hself ▸ (canMerge_iff hnew (hrestNear r mem_cons_self)).mpr htouch
    refine ⟨s', mid ++ after, ?_, hl, ?_⟩
    · rw [PutLoop.run, if_neg hiter, if_pos hmerge, length_cons, hrun']
      simp only [PutLoop.link, hm, if_true]
    · have hmidKeep : ∀ p ∈ mid, s'.frag p = start.frag p := by
        intro p hp
        have hout : p ∉ r :: rest := fun hcon => (nodup_append.mp hnodup).2.2 p hp p hcon rfl
        rw [hkeep p hout, hother p (ne_of_not_mem_cons hout)]
      rw [map_append, map_cons, Spans.insert, if_pos htouch, ← hself]
      exact congrArg₂ _ (spansOf_congr hmidKeep) (hspans.trans (by rw [hspan, hspans']; rfl))
  have hback : ∀ p ∈ back.head?,
      Spans.Apart (Fragment.span base ⟨curSeq, len⟩) ((start.frag p).span base) := by
    intro p hp
    by_contra hcon
    obtain ⟨rest, rfl⟩ := head?_eq_some_iff.mp hp
    exact htouch ⟨p, rest, rfl, hcon, hhead p hp⟩
  have hstop : PutLoop.run (curSeq + len) (back.length + fuel + 1) stop = some stop := by
    cases back with
    | nil => rw [PutLoop.run, if_pos (show stop.iter = 0 from rfl)]
    | cons r rest =>
      obtain ⟨hcan, hmax⟩ := stopped_of_apart hnew (hrest r mem_cons_self).1 (hback r rfl)
      have hiter : stop.iter ≠ 0 := hlink.ne_nil (x := r) (by simp)
      rw [PutLoop.run, if_neg hiter, if_neg (hself ▸ hcan), if_pos]
      exact beq_iff_eq.mpr hmax
  obtain ⟨s, hs, hlist', hfrag⟩ := PutLoop.link_fresh (s := stop) ⟨hlink, hnodup⟩ hctx hne rfl
    (update_self _ _ _) rfl rfl rfl (hself ▸ hnew) (fun p hp => (hnear p hp).1)
    (hself ▸ hfront) (hself ▸ hback)
  rw [hself] at hs
  refine ⟨s, mid ++ ctx :: back, by rw [hstop]; exact hs, hlist', ?_⟩
  rw [hfrag, map_append, map_cons, Spans.insert_before]
  · exact congrArg _ (congrArg₂ _ (congrArg _ hself) rfl)
  · simpa [head?_map] using hback

end StackBench.Mtcp

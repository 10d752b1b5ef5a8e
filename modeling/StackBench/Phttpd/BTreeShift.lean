import StackBench.Phttpd.BTreeLevels

/-!
# Shifting in the B+ tree of phttpd

A node that is full moves entries to a neighbour under the same parent, which
moves the cut between the two.
-/

namespace StackBench.Phttpd

open Fences List
open Option (bind_eq_bind bind_some)

variable {top : Bool}

section Keys

variable {n : Node} {lo i m k f c : ℕ} {E₁ E₂ : List (ℕ × ℕ)}

theorem zip_set_length {xs ys : List ℕ} (h : xs.zip ys = E₁ ++ (f, c) :: E₂) (k : ℕ) :
    (xs.set E₁.length k).zip ys = E₁ ++ (k, c) :: E₂ ∧ xs.getD E₁.length 0 = f := by
  induction E₁ generalizing xs ys with
  | nil =>
    cases xs with
    | nil => simp at h
    | cons x xs =>
      cases ys with
      | nil => simp at h
      | cons y ys =>
        simp only [zip_cons_cons, nil_append, List.cons.injEq, Prod.mk.injEq] at h
        obtain ⟨⟨rfl, rfl⟩, rfl⟩ := h
        simp
  | cons e E₁ ih =>
    cases xs with
    | nil => simp at h
    | cons x xs =>
      cases ys with
      | nil => simp at h
      | cons y ys =>
        simp only [zip_cons_cons, cons_append, List.cons.injEq] at h
        obtain ⟨rfl, h⟩ := h
        simpa using ih h

/-- A key of an inner node is the lower bound of the child behind it. -/
theorem Node.content_setKey (hlevel : n.level ≠ 0) (hc : n.content lo = E₁ ++ (f, c) :: E₂)
    (hi : E₁.length = i + 1) (k : ℕ) :
    content { n with keys := n.keys.set i k } lo = E₁ ++ (k, c) :: E₂ ∧
      n.keys.getD i 0 = f := by
  rw [content, fences, if_neg hlevel] at hc
  have hset := zip_set_length hc k
  rw [hi, set_cons_succ, getD_cons_succ] at hset
  rwa [content, fences, if_neg hlevel]

variable {level : ℕ} (h : n.Ok level top)
include h

theorem Node.Ok.setKey (i k : ℕ) :
    Node.Ok { n with keys := n.keys.set i k } level top := by
  have hn : nkeys { n with keys := n.keys.set i k } = n.nkeys := length_set
  refine ⟨⟨h.magic, h.atLevel, ?_⟩, ?_, ?_⟩
  · rw [Node.Shaped, hn]
    exact h.shaped
  · rw [hn]
    exact h.notFull
  · rw [hn]
    exact h.enough

theorem Node.Ok.setNext (b : ℕ) : Node.Ok { n with next := b } level top :=
  ⟨⟨h.magic, h.atLevel, h.shaped⟩, h.notFull, h.enough⟩

theorem Node.Ok.setPrev (b : ℕ) : Node.Ok { n with prev := b } level top :=
  ⟨⟨h.magic, h.atLevel, h.shaped⟩, h.notFull, h.enough⟩

end Keys

namespace Tree

/-- The entries of a block behind its lower bound. -/
def fenced (t : Tree) (x : ℕ × ℕ) : ℕ × List (ℕ × ℕ) := (x.1, t.content x)

/-- The levels with the block `x` in view, which the path leads to. The block itself may be
full. -/
structure Spot (t : Tree) (path : Path) (level : ℕ) (A : List (ℕ × ℕ)) (x : ℕ × ℕ)
    (B : List (ℕ × ℕ)) (rest : List (List (ℕ × ℕ))) : Prop where
  climb : Climb t path level A x B rest
  self : (t.node x.2).At level
  others : ∀ y ∈ A ++ B, (t.node y.2).Ok level rest.isEmpty
  chain : Chained t (A ++ x :: B)
  nodup : (blocks ((A ++ x :: B) :: rest)).Nodup
  used : ∀ b ∈ blocks ((A ++ x :: B) :: rest), b < t.used
  size : t.used ≤ t.size

/-- The cuts in the entries `X` of the lowest level were moved, new blocks are in use, and other
levels are as before. -/
structure Inserted (t t' : Tree) (level : ℕ) (X : List (ℕ × List (ℕ × ℕ)))
    (Ls : List (List (ℕ × ℕ))) (L' : List (ℕ × ℕ)) (rest' : List (List (ℕ × ℕ))) : Prop where
  levels : Levels t' level (L' :: rest')
  recut : Recut X (L'.map t'.fenced)
  blocks_perm : (blocks (L' :: rest')).Perm (blocks Ls ++ List.range' t.used (t'.used - t.used))
  frame : ∀ b < t.used, b ∉ blocks Ls → t'.node b = t.node b
  used : t.used ≤ t'.used
  size : t'.used ≤ t'.size

section Shift

variable {t t' : Tree} {path : Path} {level : ℕ} {A B M E₁ E₂ P S : List (ℕ × ℕ)}
  {p q x y : ℕ × ℕ} {rest : List (List (ℕ × ℕ))}

theorem fenced_congr (h : t'.node x.2 = t.node x.2) : t'.fenced x = t.fenced x := by
  rw [fenced, content_congr h, fenced]

theorem map_fenced_congr (h : ∀ x ∈ P, t'.node x.2 = t.node x.2) :
    P.map t'.fenced = P.map t.fenced :=
  map_congr_left fun x hx => fenced_congr (h x hx)

theorem ne_of_nodup_middle (h : ((P ++ x :: S).map Prod.snd).Nodup) {z : ℕ × ℕ}
    (hz : z ∈ P ++ S) : z.2 ≠ x.2 := by
  rw [map_append, map_cons, nodup_middle, nodup_cons] at h
  intro heq
  apply h.1
  rw [← heq, ← map_append]
  exact mem_map_of_mem hz

theorem mem_middle {z : ℕ × ℕ} (hz : z ∈ P ++ S) : z ∈ P ++ x :: S :=
  perm_middle.mem_iff.mpr (mem_cons_of_mem x hz)

theorem forall_mem_middle {Q : ℕ × ℕ → Prop} (hx : Q x) (h : ∀ z ∈ P ++ S, Q z) :
    ∀ z ∈ P ++ x :: S, Q z := by
  intro z hz
  rcases mem_cons.mp (perm_middle.mem_iff.mp hz) with rfl | hz
  · exact hx
  · exact h z hz

theorem Chained.prev_eq (h : Chained t (A ++ x :: B)) :
    (t.node x.2).prev = (A.map Prod.snd).getLastD nodeAnchor := by
  rw [Chained, map_append, map_cons] at h
  exact h.prev_eq

theorem Chained.next_eq (h : Chained t (A ++ x :: B)) :
    (t.node x.2).next = (B.map Prod.snd).headD nodeAnchor := by
  rw [Chained, map_append, map_cons] at h
  exact h.next_eq

theorem Spot.lt_size (h : Spot t path level A x B rest) {b : ℕ}
    (hb : b ∈ blocks ((A ++ x :: B) :: rest)) : b < t.size :=
  lt_of_lt_of_le (h.used b hb) h.size

/-- Outside of two neighbours a shift changes only the lower bound of `q` in its parent. -/
structure Shifted (t t' : Tree) (level : ℕ) (y p q : ℕ × ℕ) (i k : ℕ) (C₁ C₂ : List (ℕ × ℕ)) :
    Prop where
  parent : t'.node y.2 = { t.node y.2 with keys := (t.node y.2).keys.set i k }
  left : (t'.node p.2).Ok level false
  right : (t'.node q.2).Ok level false
  content_left : t'.content p = C₁
  content_right : t'.content (k, q.2) = C₂
  next_eq : ∀ b, (t'.node b).next = (t.node b).next
  prev_eq : ∀ b, (t'.node b).prev = (t.node b).prev
  frame : ∀ b, b ≠ y.2 → b ≠ p.2 → b ≠ q.2 → t'.node b = t.node b
  used : t'.used = t.used
  size : t'.size = t.size

theorem Chained.relabel (h : Chained t (P ++ q :: S)) (k : ℕ) : Chained t (P ++ (k, q.2) :: S) := by
  unfold Chained at h ⊢
  rw [map_append, map_cons] at h ⊢
  exact h

theorem Shifted.inserted {i k v : ℕ} {A' B' C₁ C₂ : List (ℕ × ℕ)}
    (hs : Shifted t t' level y p q i k C₁ ((k, v) :: C₂)) (hy : t.content y = E₁ ++ p :: q :: E₂)
    (hi : E₁.length = i) (hcut : t.content p ++ t.content q = C₁ ++ (k, v) :: C₂) (hne : C₁ ≠ [])
    (hupper : LevelOk t (level + 1) rest.isEmpty (A' ++ y :: B'))
    (hclimb : Climb t path (level + 1) A' y B' rest) (hP : P = A'.flatMap t.content ++ E₁)
    (hS : S = E₂ ++ B'.flatMap t.content) (hothers : ∀ z ∈ P ++ S, (t.node z.2).Ok level false)
    (hchain : Chained t (P ++ p :: q :: S))
    (hnodup : (blocks ((P ++ p :: q :: S) :: (A' ++ y :: B') :: rest)).Nodup)
    (hsize : t.used ≤ t.size) :
    Inserted t t' level ((P ++ p :: q :: S).map t.fenced)
      ((P ++ p :: q :: S) :: (A' ++ y :: B') :: rest)
      (P ++ p :: (k, q.2) :: S) ((A' ++ y :: B') :: rest) := by
  have hkeep : ∀ b ∈ (P ++ S).map Prod.snd ++ ((A' ++ B').map Prod.snd ++ blocks rest),
      t'.node b = t.node b := by
    have hperm : (blocks ((P ++ p :: q :: S) :: (A' ++ y :: B') :: rest)).Perm (y.2 :: p.2 :: q.2 ::
        ((P ++ S).map Prod.snd ++ ((A' ++ B').map Prod.snd ++ blocks rest))) := by
      refine perm_iff_count.mpr fun b => ?_
      simp only [blocks_cons, map_append, map_cons, count_append, count_cons]
      omega
    have hapart := hperm.nodup_iff.mp hnodup
    simp only [nodup_cons, mem_cons, not_or] at hapart
    exact fun b hb => hs.frame b (fun h => hapart.1.2.2 (h ▸ hb)) (fun h => hapart.2.1.2 (h ▸ hb))
      fun h => hapart.2.2.1 (h ▸ hb)
  have hPS : ∀ z ∈ P ++ S, t'.node z.2 = t.node z.2 := fun z hz =>
    hkeep _ (mem_append_left _ (mem_map_of_mem hz))
  have hM : ∀ z ∈ A' ++ B', t'.node z.2 = t.node z.2 := fun z hz =>
    hkeep _ (mem_append_right _ (mem_append_left _ (mem_map_of_mem hz)))
  have hrest : ∀ b ∈ blocks rest, t'.node b = t.node b := fun b hb =>
    hkeep _ (mem_append_right _ (mem_append_right _ hb))
  have hynode : (t.node y.2).Ok (level + 1) rest.isEmpty := hupper.node y (by simp)
  have hycontent : t'.content y = (E₁ ++ [p]) ++ (k, q.2) :: E₂ := by
    have hold : (t.node y.2).content y.1 = (E₁ ++ [p]) ++ (q.1, q.2) :: E₂ := by
      rw [← content, hy, append_cons]
    rw [content, hs.parent]
    exact (Node.content_setKey (by rw [hynode.atLevel]; omega) hold (by simp [hi]) k).1
  refine ⟨?_, ?_, ?_, ?_, hs.used.ge, ?_⟩
  · refine ⟨?_, ⟨?_, ?_⟩, ?_⟩
    · rw [flatMap_middle hycontent, flatMap_content_congr fun z hz => hM z (by simp [hz]),
        flatMap_content_congr fun z hz => hM z (by simp [hz]), hP, hS]
      simp
    · exact forall_mem_middle hs.left (forall_mem_middle (x := (k, q.2)) hs.right
        fun z hz => hPS z hz ▸ hothers z hz)
    · rw [append_cons] at hchain ⊢
      exact (hchain.relabel k).congr fun z _ => ⟨hs.next_eq _, hs.prev_eq _⟩
    · refine (hclimb.congr hrest).levels ⟨forall_mem_middle ?_ fun z hz =>
        hM z hz ▸ hupper.node z (mem_middle hz), hupper.chain.congr fun z _ =>
        ⟨hs.next_eq _, hs.prev_eq _⟩⟩
      rw [hs.parent]
      exact hynode.setKey _ _
  · have hmove : Recut (P.map t.fenced ++ t.fenced p :: t.fenced q :: S.map t.fenced)
        (P.map t.fenced ++ (p.1, C₁) :: (k, (k, v) :: C₂) :: S.map t.fenced) :=
      Recut.move hcut hne
    have hp : t'.fenced p = (p.1, C₁) := by rw [fenced, hs.content_left]
    have hq : t'.fenced (k, q.2) = (k, (k, v) :: C₂) := by rw [fenced, hs.content_right]
    simp only [map_append, map_cons, hp, hq,
      map_fenced_congr fun z (hz : z ∈ P) => hPS z (by simp [hz]),
      map_fenced_congr fun z (hz : z ∈ S) => hPS z (by simp [hz])]
    exact hmove
  · simp [hs.used]
  · intro b _ hb
    refine hs.frame b ?_ ?_ ?_ <;> rintro rfl <;> exact hb (by simp)
  · rw [hs.used, hs.size]
    exact hsize

theorem space_bounds {l : ℕ} (hlt : l < btreeN level) (hle : leastKeys level false ≤ l)
    (hshift : btreeN level / (btreeN level - l) ≤ 9) :
    1 ≤ (btreeN level - l) / 2 ∧ l + (btreeN level - l) / 2 < btreeN level ∧
      leastKeys level false ≤ btreeN level - (btreeN level - l) / 2 := by
  have htwo : btreeN level - l ≠ 1 := by
    intro hone
    rw [hone, Nat.div_one] at hshift
    unfold btreeN btreeN0 btreeNX at hshift
    split at hshift <;> omega
  unfold leastKeys at hle ⊢
  split at hle
  · simp_all
  · simp_all
    omega

theorem shifted_of_nodes {i k : ℕ} {l r : Node} {C₁ C₂ : List (ℕ × ℕ)}
    (hparent : t'.node y.2 = { t.node y.2 with keys := (t.node y.2).keys.set i k })
    (hp : t'.node p.2 = l) (hq : t'.node q.2 = r) (hl : l.Ok level false) (hr : r.Ok level false)
    (hlinks : l.next = (t.node p.2).next ∧ l.prev = (t.node p.2).prev)
    (hrinks : r.next = (t.node q.2).next ∧ r.prev = (t.node q.2).prev) (hcl : l.content p.1 = C₁)
    (hcr : r.content k = C₂) (hframe : ∀ b, b ≠ y.2 → b ≠ p.2 → b ≠ q.2 → t'.node b = t.node b)
    (hused : t'.used = t.used) (hsize : t'.size = t.size) : Shifted t t' level y p q i k C₁ C₂ := by
  have hboth : ∀ b, (t'.node b).next = (t.node b).next ∧ (t'.node b).prev = (t.node b).prev := by
    intro b
    by_cases hby : b = y.2
    · rw [hby, hparent]
      exact ⟨rfl, rfl⟩
    by_cases hbp : b = p.2
    · rw [hbp, hp]
      exact hlinks
    by_cases hbq : b = q.2
    · rw [hbq, hq]
      exact hrinks
    · rw [hframe b hby hbp hbq]
      exact ⟨rfl, rfl⟩
  refine ⟨hparent, hp ▸ hl, hq ▸ hr, ?_, ?_, fun b => (hboth b).1, fun b => (hboth b).2, hframe,
    hused, hsize⟩
  · rw [content, hp, hcl]
  · rw [content, hq, hcr]

theorem shiftLeft_spec {i : ℕ} (hq : (t.node q.2).At level)
    (hfull : (t.node q.2).nkeys = btreeN level) (hp : (t.node p.2).Ok level false)
    (hprev : (t.node q.2).prev = p.2) (hshift : (t.node p.2).shiftPred = true)
    (hy : (t.node y.2).Ok (level + 1) top) (hkey : (t.node y.2).keys.getD i 0 = q.1)
    (hbno : (path (level + 1)).bno = y.2) (hindex : (path (level + 1)).index = i + 1)
    (hysize : y.2 < t.size) (hpsize : p.2 < t.size) (hpq : p.2 ≠ q.2) (hyp : y.2 ≠ p.2)
    (hyq : y.2 ≠ q.2) :
    ∃ t' k v C₁ C₂, t.shiftLeft q.2 path = some (some t') ∧
      Shifted t t' level y p q i k C₁ ((k, v) :: C₂) ∧
      t.content p ++ t.content q = C₁ ++ (k, v) :: C₂ ∧ C₁ ≠ [] := by
  rw [Node.shiftPred, hp.atLevel, decide_eq_true_eq] at hshift
  obtain ⟨hone, hroom, hleft⟩ := space_bounds hp.notFull hp.enough hshift
  rw [← hfull] at hone hroom hleft
  obtain ⟨m, hm⟩ : ∃ m, ((t.node q.2).nkeys - (t.node p.2).nkeys) / 2 = m := ⟨_, rfl⟩
  rw [hm] at hone hroom hleft
  have hnon : (t.node q.2).nonLeaf ≤ m := (Node.nonLeaf_le _).trans hone
  have hlt : m < (t.node q.2).nkeys := by omega
  obtain ⟨k, hk⟩ : ∃ k, ((t.node q.2).fences q.1).getD m 0 = k := ⟨_, rfl⟩
  obtain ⟨C₂, -, hdrop⟩ := hq.shaped.content_split q.1 (Nat.lt_add_right _ hlt)
  have hrun : t.shiftLeft q.2 path = some (some (((t.set y.2
      { t.node y.2 with keys := (t.node y.2).keys.set i k }).set p.2
      ((t.node p.2).gainLeft (t.node q.2) q.1 m)).set q.2 ((t.node q.2).back m))) := by
    have hcheck : (t.node p.2).nkeys ≤ (t.node q.2).nkeys ∧ (t.node q.2).nonLeaf ≤ m :=
      ⟨by omega, hnon⟩
    unfold shiftLeft
    simp only [check, bread, hq.magic, hq.atLevel, hbno, hindex, hprev, hy.magic, hp.magic, if_true,
      if_pos hysize, if_pos hpsize, hm, if_pos hcheck, bind_eq_bind, bind_some,
      if_neg (Nat.succ_ne_zero i), Nat.add_sub_cancel, hkey, ← hk, Node.fences_getD hnon,
      Node.gainLeft, Node.back]
  obtain ⟨hl, hln⟩ := hp.toAt.gainLeft hq hnon hlt.le q.1
  obtain ⟨hr, hrn⟩ := hq.back hlt.le
  refine ⟨_, k, (t.node q.2).table.getD m 0, t.content p ++ (t.content q).take m, C₂, hrun, ?_, ?_,
    ?_⟩
  · apply shifted_of_nodes (l := (t.node p.2).gainLeft (t.node q.2) q.1 m)
      (r := (t.node q.2).back m)
    · simp [hyp, hyq]
    · simp [hpq]
    · simp
    · exact ⟨hl, by omega, hp.enough.trans (by omega)⟩
    · exact ⟨hr, by omega, by omega⟩
    · exact ⟨rfl, rfl⟩
    · exact ⟨rfl, rfl⟩
    · exact hp.shaped.content_gainLeft (hp.atLevel.trans hq.atLevel.symm) hnon
    · rw [← hk, Node.content_back hnon (Nat.lt_add_right _ hlt), hdrop]
    · intro b hby hbp hbq
      simp [hby, hbp, hbq]
    · rfl
    · rfl
  · rw [append_assoc, ← hk, ← hdrop, ← content, take_append_drop]
  · have hlen : (t.content q).length = (t.node q.2).nkeys + (t.node q.2).nonLeaf :=
      hq.shaped.length_content q.1
    intro hnil
    have := congrArg List.length hnil
    simp only [length_append, length_take, hlen, length_nil] at this
    omega

theorem shiftRight_spec {i : ℕ} (hp : (t.node p.2).At level)
    (hfull : (t.node p.2).nkeys = btreeN level) (hq : (t.node q.2).Ok level false)
    (hnext : (t.node p.2).next = q.2) (hshift : (t.node q.2).shiftPred = true)
    (hy : (t.node y.2).Ok (level + 1) top) (hkey : (t.node y.2).keys.getD i 0 = q.1)
    (hbno : (path (level + 1)).bno = y.2) (hindex : (path (level + 1)).index = i)
    (hi : i ≠ (t.node y.2).nkeys) (hysize : y.2 < t.size) (hqsize : q.2 < t.size) (hpq : p.2 ≠ q.2)
    (hyp : y.2 ≠ p.2) (hyq : y.2 ≠ q.2) :
    ∃ t' k v C₁ C₂, t.shiftRight p.2 path = some (some t') ∧
      Shifted t t' level y p q i k C₁ ((k, v) :: C₂) ∧
      t.content p ++ t.content q = C₁ ++ (k, v) :: C₂ ∧ C₁ ≠ [] := by
  rw [Node.shiftPred, hq.atLevel, decide_eq_true_eq] at hshift
  obtain ⟨hone, hroom, hleft⟩ := space_bounds hq.notFull hq.enough hshift
  rw [← hfull] at hone hroom hleft
  obtain ⟨space, hspace⟩ : ∃ n, ((t.node p.2).nkeys - (t.node q.2).nkeys) / 2 = n := ⟨_, rfl⟩
  rw [hspace] at hone hroom hleft
  have hnon : (t.node p.2).nonLeaf ≤ space := (Node.nonLeaf_le _).trans hone
  obtain ⟨m, hm⟩ : ∃ m, (t.node p.2).nkeys + (t.node p.2).nonLeaf - space = m := ⟨_, rfl⟩
  have hmnon : (t.node p.2).nonLeaf ≤ m := by omega
  have hlt : m < (t.node p.2).nkeys + (t.node p.2).nonLeaf := by omega
  have hle : m ≤ (t.node p.2).nkeys := by omega
  obtain ⟨k, hk⟩ : ∃ k, ((t.node p.2).fences p.1).getD m 0 = k := ⟨_, rfl⟩
  obtain ⟨C₂, -, hdrop⟩ := hp.shaped.content_split p.1 hlt
  obtain ⟨hl, hln⟩ := hp.front hmnon hlt.le
  obtain ⟨hr, hrn⟩ := hq.toAt.gainRight hp hle q.1
  have hrun : t.shiftRight p.2 path = some (some (((t.set y.2
      { t.node y.2 with keys := (t.node y.2).keys.set i k }).set q.2
      ((t.node q.2).gainRight (t.node p.2) q.1 m)).set p.2 ((t.node p.2).front m))) := by
    have hcheck : (t.node q.2).nkeys ≤ (t.node p.2).nkeys ∧ (t.node p.2).nonLeaf ≤ space :=
      ⟨by omega, hnon⟩
    have hfront : (t.node p.2).nkeys - space = m - (t.node p.2).nonLeaf := by omega
    have hpivot : (if level = 0 then ((t.node q.2).gainRight (t.node p.2) q.1 m).keys.getD 0 0
        else (t.node p.2).keys.getD (m - (t.node p.2).nonLeaf) 0) = k := by
      rw [← hp.atLevel, Node.gainRight_key hmnon hlt, hk]
    simp only [Node.gainRight, hp.atLevel] at hpivot
    unfold shiftRight
    simp only [check, bread, hp.magic, hp.atLevel, hbno, hindex, hnext, hy.magic, hq.magic, if_true,
      if_pos hysize, if_pos hqsize, hspace, if_pos hcheck, bind_eq_bind, bind_some,
      if_neg hi, hkey, hfront, hm, Nat.sub_add_cancel hmnon, hpivot, Node.gainRight, Node.front]
  refine ⟨_, k, (t.node p.2).table.getD m 0, (t.content p).take m, C₂ ++ t.content q, hrun, ?_, ?_,
    ?_⟩
  · apply shifted_of_nodes (l := (t.node p.2).front m)
      (r := (t.node q.2).gainRight (t.node p.2) q.1 m)
    · simp [hyp, hyq]
    · simp
    · simp [hpq.symm]
    · exact ⟨hl, by omega, by omega⟩
    · exact ⟨hr, by omega, hq.enough.trans (by omega)⟩
    · exact ⟨rfl, rfl⟩
    · exact ⟨rfl, rfl⟩
    · exact Node.content_front hmnon
    · rw [← hk, hp.shaped.content_gainRight (hp.atLevel.trans hq.atLevel.symm) hmnon hlt, hdrop]
      rfl
    · intro b hby hbp hbq
      simp [hby, hbp, hbq]
    · rfl
    · rfl
  · rw [← hk, ← cons_append, ← append_assoc, ← hdrop, ← content, take_append_drop]
  · have hlen : (t.content p).length = (t.node p.2).nkeys + (t.node p.2).nonLeaf :=
      hp.shaped.length_content p.1
    intro hnil
    have := congrArg List.length hnil
    simp only [length_take, hlen, length_nil] at this
    omega

theorem tryLeft_eq (hsize : (t.node x.2).prev < t.size)
    (hok : (t.node (t.node x.2).prev).nkeys ≠ btreeN (t.node (t.node x.2).prev).level) :
    t.tryLeft x.2 path = if (t.node x.2).prev = nodeAnchor then some none
      else if (t.node (t.node x.2).prev).shiftPred = true then t.shiftLeft x.2 path
      else some none := by
  simp only [tryLeft, bread, check, if_pos hsize, if_pos hok, bind_eq_bind, bind_some]

theorem tryRight_eq (hsize : (t.node x.2).next < t.size)
    (hok : (t.node (t.node x.2).next).nkeys ≠ btreeN (t.node (t.node x.2).next).level) :
    t.tryRight x.2 path = if (t.node x.2).next = nodeAnchor then some none
      else if (t.node (t.node x.2).next).shiftPred = true then t.shiftRight x.2 path
      else some none := by
  simp only [tryRight, bread, check, if_pos hsize, if_pos hok, bind_eq_bind,
    bind_some]

theorem shiftLeft_first (hx : (t.node x.2).At level) (hy : (t.node y.2).At (level + 1))
    (hbno : (path (level + 1)).bno = y.2) (hindex : (path (level + 1)).index = 0)
    (hysize : y.2 < t.size) : t.shiftLeft x.2 path = some none := by
  simp only [shiftLeft, check, bread, hx.magic, hx.atLevel, hy.magic, hbno, hindex, if_pos hysize,
    if_true, bind_eq_bind, bind_some]

theorem shiftRight_last (hx : (t.node x.2).At level) (hy : (t.node y.2).At (level + 1))
    (hbno : (path (level + 1)).bno = y.2) (hindex : (path (level + 1)).index = (t.node y.2).nkeys)
    (hysize : y.2 < t.size) : t.shiftRight x.2 path = some none := by
  simp only [shiftRight, check, bread, hx.magic, hx.atLevel, hy.magic, hbno, hindex,
    if_pos hysize, if_true, bind_eq_bind, bind_some]

variable (h : Spot t path level A x B rest) (hfull : (t.node x.2).nkeys = btreeN level)
include h hfull

theorem Spot.tryLeft_spec :
    t.tryLeft x.2 path = some none ∨ ∃ t' L', t.tryLeft x.2 path = some (some t') ∧
      Inserted t t' level ((A ++ x :: B).map t.fenced) ((A ++ x :: B) :: rest) L' rest := by
  have hprev := h.chain.prev_eq
  by_cases hanchor : (t.node x.2).prev = nodeAnchor
  · left
    rw [tryLeft, if_pos hanchor]
  have hmem := (Linked.getLastD_mem_or (A.map Prod.snd) nodeAnchor).resolve_left (hprev ▸ hanchor)
  obtain ⟨z, hz, hzprev⟩ := mem_map.mp hmem
  rw [← hprev] at hzprev
  have hzok := h.others z (mem_append_left _ hz)
  have hzsize : z.2 < t.size := h.lt_size (mem_blocks_of_mem mem_cons_self (mem_append_left _ hz))
  have hznum := hzok.notFull.ne
  rw [← hzok.atLevel] at hznum
  rw [tryLeft_eq (hzprev ▸ hzsize) (hzprev ▸ hznum), if_neg hanchor]
  by_cases hshift : (t.node (t.node x.2).prev).shiftPred = true
  swap
  · left
    rw [if_neg hshift]
  rw [if_pos hshift]
  cases rest with
  | nil =>
    obtain ⟨rfl, -, -, -⟩ := h.climb
    simp at hz
  | cons M rest =>
    obtain ⟨A', y, B', E₁, E₂, rfl, hy, rfl, rfl, hbno, hindex, hupper, hclimb⟩ := h.climb
    have hyok := hupper.node y (by simp)
    have hysize : y.2 < t.size := h.lt_size (by simp)
    rcases E₁.eq_nil_or_concat' with rfl | ⟨E₁, p, rfl⟩
    · left
      exact shiftLeft_first h.self hyok.toAt hbno hindex hysize
    right
    have hpx : A'.flatMap t.content ++ (E₁ ++ [p]) ++ x :: (E₂ ++ B'.flatMap t.content) =
        (A'.flatMap t.content ++ E₁) ++ p :: x :: (E₂ ++ B'.flatMap t.content) := by simp
    have hnodup := h.nodup
    have hchain := h.chain
    rw [hpx] at hnodup hchain ⊢
    have hdisj := hnodup
    rw [blocks_cons, blocks_cons, nodup_append] at hdisj
    have hp : (t.node x.2).prev = p.2 := by
      rw [hprev]
      simp
    have hkey := (Node.content_setKey (by rw [hyok.atLevel]; omega)
      (show (t.node y.2).content y.1 = (E₁ ++ [p]) ++ (x.1, x.2) :: E₂ from hy)
      length_append 0).2
    obtain ⟨t', k, v, C₁, C₂, hrun, hs, hcut, hne⟩ := shiftLeft_spec h.self hfull
      (h.others p (by simp)) hp (hp ▸ hshift) hyok hkey hbno
      (hindex.trans length_append) hysize (h.lt_size (by simp))
      (ne_of_nodup_middle hdisj.1 (z := x) (by simp)).symm
      (hdisj.2.2 p.2 (by simp) y.2 (by simp)).symm
      (hdisj.2.2 x.2 (by simp) y.2 (by simp)).symm
    exact ⟨t', _, hrun, hs.inserted (by rw [hy]; simp) rfl hcut hne hupper hclimb rfl rfl
      (fun z hz => h.others z (by
        rcases mem_append.mp hz with hz | hz
        · rcases mem_append.mp hz with hz | hz <;> simp [hz]
        · simp [hz])) hchain hnodup h.size⟩

theorem Spot.tryRight_spec :
    t.tryRight x.2 path = some none ∨ ∃ t' L', t.tryRight x.2 path = some (some t') ∧
      Inserted t t' level ((A ++ x :: B).map t.fenced) ((A ++ x :: B) :: rest) L' rest := by
  have hnext := h.chain.next_eq
  by_cases hanchor : (t.node x.2).next = nodeAnchor
  · left
    rw [tryRight, if_pos hanchor]
  have hmem := (Linked.headD_mem_or (B.map Prod.snd) nodeAnchor).resolve_left (hnext ▸ hanchor)
  obtain ⟨z, hz, hznext⟩ := mem_map.mp hmem
  rw [← hnext] at hznext
  have hzok := h.others z (mem_append_right _ hz)
  have hzsize : z.2 < t.size := h.lt_size (mem_blocks_of_mem mem_cons_self (by simp [hz]))
  have hznum := hzok.notFull.ne
  rw [← hzok.atLevel] at hznum
  rw [tryRight_eq (hznext ▸ hzsize) (hznext ▸ hznum), if_neg hanchor]
  by_cases hshift : (t.node (t.node x.2).next).shiftPred = true
  swap
  · left
    rw [if_neg hshift]
  rw [if_pos hshift]
  cases rest with
  | nil =>
    obtain ⟨-, rfl, -, -⟩ := h.climb
    simp at hz
  | cons M rest =>
    obtain ⟨A', y, B', E₁, E₂, rfl, hy, rfl, rfl, hbno, hindex, hupper, hclimb⟩ := h.climb
    have hyok := hupper.node y (by simp)
    have hysize : y.2 < t.size := h.lt_size (by simp)
    have hlen : (t.content y).length = (t.node y.2).nkeys + (t.node y.2).nonLeaf :=
      hyok.shaped.length_content y.1
    have hinner : (t.node y.2).nonLeaf = 1 := by
      rw [Node.nonLeaf, if_neg (by rw [hyok.atLevel]; omega)]
    rw [hy, hinner, length_append, length_cons] at hlen
    cases E₂ with
    | nil =>
      left
      refine shiftRight_last h.self hyok.toAt hbno (hindex.trans ?_) hysize
      rw [length_nil] at hlen
      omega
    | cons q E₂ =>
      right
      have hnodup := h.nodup
      have hdisj := hnodup
      rw [blocks_cons, blocks_cons, nodup_append] at hdisj
      have hq : (t.node x.2).next = q.2 := by
        rw [hnext]
        simp
      have hsplit : (t.node y.2).content y.1 = (E₁ ++ [x]) ++ (q.1, q.2) :: E₂ := by
        rw [← content, hy, append_cons]
      have hkey := (Node.content_setKey (by rw [hyok.atLevel]; omega) hsplit
        length_append 0).2
      rw [length_cons] at hlen
      obtain ⟨t', k, v, C₁, C₂, hrun, hs, hcut, hne⟩ := shiftRight_spec h.self hfull
        (h.others q (by simp)) hq (hq ▸ hshift) hyok hkey hbno hindex (by omega)
        hysize (h.lt_size (by simp))
        (ne_of_nodup_middle hdisj.1 (z := q) (by simp)).symm
        (hdisj.2.2 x.2 (by simp) y.2 (by simp)).symm
        (hdisj.2.2 q.2 (by simp) y.2 (by simp)).symm
      exact ⟨t', _, hrun, hs.inserted hy rfl hcut hne hupper hclimb rfl rfl
        (fun z hz => h.others z (by
          rcases mem_append.mp hz with hz | hz
          · rcases mem_append.mp hz with hz | hz <;> simp [hz]
          · rcases mem_append.mp hz with hz | hz <;> simp [hz])) h.chain hnodup h.size⟩

end Shift

end Tree

end StackBench.Phttpd

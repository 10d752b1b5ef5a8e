import StackBench.Phttpd.BTreeShift

/-!
# Insertion into the B+ tree of phttpd

A full node that cannot shift entries is split, and a split inserts into the
parent or grows the tree. `btree_insert_modify` keeps the levels, with the new
entry in place.
-/

namespace StackBench.Phttpd.Tree

open Fences List
open Option (bind_eq_bind bind_some)

variable {y : ℕ × ℕ}

section Split

variable {t t' : Tree} {path : Path} {level : ℕ} {A B : List (ℕ × ℕ)} {x : ℕ × ℕ}
  {rest : List (List (ℕ × ℕ))}

theorem alloc_size (hpos : 0 < t.used) (hsize : t.used ≤ t.size) :
    t.used < t.allocBlock.2.size ∧ t.used + 1 ≤ t.allocBlock.2.size ∧
      t.size ≤ t.allocBlock.2.size := by
  unfold allocBlock
  dsimp only
  split <;> omega

/-- The block `x` was cut in two, with the new block behind it. -/
structure Halved (t t' : Tree) (level : ℕ) (x : ℕ × ℕ) (k : ℕ) (C₁ C₂ : List (ℕ × ℕ)) : Prop where
  left : (t'.node x.2).Ok level false
  right : (t'.node t.used).Ok level false
  content_left : t'.content x = C₁
  content_right : t'.content (k, t.used) = C₂
  next_left : (t'.node x.2).next = t.used
  next_right : (t'.node t.used).next = (t.node x.2).next
  prev_left : (t'.node x.2).prev = (t.node x.2).prev
  prev_right : (t'.node t.used).prev = x.2
  neighbour : (t.node x.2).next ≠ nodeAnchor →
    t'.node (t.node x.2).next = { t.node (t.node x.2).next with prev := t.used }
  frame : ∀ b, b ≠ x.2 → b ≠ t.used → b ≠ (t.node x.2).next → t'.node b = t.node b
  used : t'.used = t.used + 1
  size : t'.used ≤ t'.size

theorem half_bounds (level : ℕ) :
    1 ≤ btreeN level / 2 ∧ btreeN level / 2 < btreeN level ∧
      leastKeys level false + (if level = 0 then 0 else 1) ≤ btreeN level / 2 ∧
      leastKeys level false ≤ btreeN level - btreeN level / 2 := by
  unfold leastKeys btreeN btreeN0 btreeNX
  split <;> simp

theorem splitNode_spec (hx : (t.node x.2).At level) (hfull : (t.node x.2).nkeys = btreeN level)
    (hpos : 0 < t.used) (hsize : t.used ≤ t.size) (hxused : x.2 < t.used)
    (hnext : (t.node x.2).next ≠ nodeAnchor → (t.node x.2).next < t.used)
    (hself : (t.node x.2).next ≠ x.2) :
    ∃ t' k v C₁ C₂, t.splitNode x.2 = some (t', k, t.used) ∧
      Halved t t' level x k C₁ ((k, v) :: C₂) ∧ t.content x = C₁ ++ (k, v) :: C₂ ∧ C₁ ≠ [] := by
  obtain ⟨hroom, hgrow, hle⟩ := alloc_size hpos hsize
  obtain ⟨hone, hlt, hleft, hright⟩ := half_bounds level
  rw [← hfull] at hone hlt hleft hright
  obtain ⟨m, hm⟩ : ∃ m, (t.node x.2).nkeys / 2 = m := ⟨_, rfl⟩
  rw [hm] at hone hlt hleft hright
  have hnonLeaf : (t.node x.2).nonLeaf = if level = 0 then 0 else 1 := by
    rw [Node.nonLeaf, hx.atLevel]
  have hnon : (t.node x.2).nonLeaf ≤ m := (Node.nonLeaf_le _).trans hone
  obtain ⟨k, hk⟩ : ∃ k, ((t.node x.2).fences x.1).getD m 0 = k := ⟨_, rfl⟩
  obtain ⟨C₂, hcut, hdrop⟩ := hx.shaped.content_split x.1 (Nat.lt_add_right _ hlt)
  obtain ⟨hl, hln⟩ := hx.front hnon (hlt.le.trans (Nat.le_add_right _ _))
  obtain ⟨hr, hrn⟩ := hx.back hlt.le
  have hkey : (if level = 0 then ((t.node x.2).keys.drop m).getD 0 0
      else (t.node x.2).keys.getD (m - 1) 0) = k := by
    rw [← hk, Node.fences_getD hnon, hnonLeaf]
    split
    · rw [drop_eq_getElem_cons hlt, getD_cons_zero, Nat.sub_zero, getD_eq_getElem _ _ hlt]
    · rfl
  -- the right neighbour, if there is one, points back to the new block
  obtain ⟨t₀, hrun, hneighbour, hframe, hused, hsize'⟩ : ∃ t₀ : Tree,
      t.splitNode x.2 = some ((t₀.set t.used { (t.node x.2).back m with prev := x.2 }).set x.2
        { (t.node x.2).front m with next := t.used }, k, t.used) ∧
      ((t.node x.2).next ≠ nodeAnchor →
        t₀.node (t.node x.2).next = { t.node (t.node x.2).next with prev := t.used }) ∧
      (∀ b, b ≠ (t.node x.2).next → t₀.node b = t.node b) ∧ t₀.used = t.used + 1 ∧
      t₀.size = t.allocBlock.2.size := by
    have hfst : t.allocBlock.1 = t.used := rfl
    have hnode : t.allocBlock.2.node = t.node := rfl
    by_cases hanchor : (t.node x.2).next = nodeAnchor
    · refine ⟨t.allocBlock.2, ?_, fun h => absurd hanchor h, fun b _ => rfl, rfl, rfl⟩
      simp only [splitNode, hfst, hnode, check, bread, hx.magic, hx.atLevel, if_true, if_pos hroom,
        if_pos hanchor, bind_eq_bind, bind_some, hm, hkey, Node.back, Node.front]
    refine ⟨t.allocBlock.2.set (t.node x.2).next
      { t.node (t.node x.2).next with prev := t.used }, ?_, fun _ => by simp, fun b hb => ?_, rfl,
      rfl⟩
    · have hnextSize := lt_of_lt_of_le (hnext hanchor) (hsize.trans hle)
      simp only [splitNode, hfst, hnode, check, bread, hx.magic, hx.atLevel, if_true,
        if_pos hroom, if_pos hnextSize, if_neg hanchor, bind_eq_bind, bind_some,
        hm, hkey, Node.back, Node.front]
    · rw [set_node, if_neg hb, hnode]
  refine ⟨_, k, (t.node x.2).table.getD m 0, (t.content x).take m, C₂, hrun, ?_, ?_, ?_⟩
  · have hxu : x.2 ≠ t.used := hxused.ne
    refine ⟨?_, ?_, ?_, ?_, by simp, by simp [hxu.symm, Node.back], by simp [Node.front],
      by simp [hxu.symm], fun h => ?_, fun b hbx hbu hbn => ?_, hused, ?_⟩
    · rw [set_node, if_pos rfl]
      have hfront : ((t.node x.2).front m).Ok level false := ⟨hl, by omega, by omega⟩
      exact hfront.setNext _
    · rw [set_node, if_neg hxu.symm, set_node, if_pos rfl]
      have hback : ((t.node x.2).back m).Ok level false := ⟨hr, by omega, by omega⟩
      exact hback.setPrev _
    · rw [content, set_node, if_pos rfl]
      exact Node.content_front hnon
    · rw [content, set_node, if_neg hxu.symm, set_node, if_pos rfl, ← hk, ← hdrop]
      exact Node.content_back hnon (Nat.lt_add_right _ hlt)
    · rw [set_node, if_neg hself, set_node, if_neg (hnext h).ne, hneighbour h]
    · rw [set_node, if_neg hbx, set_node, if_neg hbu, hframe b hbn]
    · show t₀.used ≤ t₀.size
      rw [hused, hsize']
      exact hgrow
  · rw [content, ← hk]
    exact hcut
  · have hlen : (t.content x).length = (t.node x.2).nkeys + (t.node x.2).nonLeaf :=
      hx.shaped.length_content x.1
    intro hnil
    have := congrArg List.length hnil
    simp only [length_take, hlen, length_nil] at this
    omega

section

variable (h : Spot t path level A x B rest)
include h

theorem Spot.others_ok (hy : y ∈ A ++ B) : (t.node y.2).Ok level false := by
  cases rest with
  | nil =>
    obtain ⟨rfl, rfl, -, -⟩ := h.climb
    simp at hy
  | cons M rest => exact h.others y hy

theorem Spot.nodup_level : ((A ++ x :: B).map Prod.snd).Nodup := by
  have hnodup := h.nodup
  rw [blocks_cons, nodup_append] at hnodup
  exact hnodup.1

theorem Spot.used_of_mem (hy : y ∈ A ++ x :: B) : y.2 < t.used :=
  h.used _ (mem_blocks_of_mem mem_cons_self hy)

theorem Spot.ne_next {c : ℕ} (hc : c ≠ nodeAnchor)
    (hB : c ∉ B.map Prod.snd) : c ≠ (t.node x.2).next := by
  have hchain := h.chain
  rw [Chained, map_append, map_cons] at hchain
  exact hchain.ne_next hc hB

theorem Spot.self_ne_next : x.2 ≠ (t.node x.2).next := by
  refine h.ne_next (Doubly.Segment.ne_nil h.chain (by simp)) fun hmem => ?_
  obtain ⟨z, hz, heq⟩ := mem_map.mp hmem
  exact ne_of_nodup_middle h.nodup_level (by simp [hz]) heq

theorem Spot.splitNode_spec (hfull : (t.node x.2).nkeys = btreeN level) :
    ∃ t' k v C₁ C₂, t.splitNode x.2 = some (t', k, t.used) ∧
      Halved t t' level x k C₁ ((k, v) :: C₂) ∧ t.content x = C₁ ++ (k, v) :: C₂ ∧ C₁ ≠ [] := by
  have hx := h.used_of_mem (y := x) (by simp)
  have hnext := h.chain.next_eq
  refine Tree.splitNode_spec h.self hfull (Nat.zero_lt_of_lt hx) h.size hx (fun hanchor => ?_) ?_
  · have hmem := (Linked.headD_mem_or (B.map Prod.snd) nodeAnchor).resolve_left (hnext ▸ hanchor)
    obtain ⟨z, hz, hznext⟩ := mem_map.mp hmem
    rw [hnext, ← hznext]
    exact h.used_of_mem (by simp [hz])
  · exact h.self_ne_next.symm

end

namespace Halved

variable {k : ℕ} {C₁ C₂ : List (ℕ × ℕ)}

section

variable (hh : Halved t t' level x k C₁ C₂)
include hh

section

variable (h : Spot t path level A x B rest)
include h

theorem other (hy : y ∈ A ++ B) : ∃ p, t'.node y.2 = { t.node y.2 with prev := p } := by
  have hyx := ne_of_nodup_middle h.nodup_level hy
  have hyu := (h.used_of_mem (y := y)
    (by rcases mem_append.mp hy with hy | hy <;> simp [hy])).ne
  by_cases hnext : y.2 = (t.node x.2).next
  · refine ⟨t.used, ?_⟩
    rw [hnext]
    apply hh.neighbour
    rw [← hnext]
    exact Doubly.Segment.ne_nil h.chain (mem_map_of_mem
      (by rcases mem_append.mp hy with hy | hy <;> simp [hy]))
  · exact ⟨(t.node y.2).prev, hh.frame _ hyx hyu hnext⟩

theorem fenced_other (hy : y ∈ A ++ B) : t'.fenced y = t.fenced y := by
  obtain ⟨p, hp⟩ := hh.other h hy
  rw [fenced, content, hp]
  rfl

theorem map_fenced :
    (A ++ x :: (k, t.used) :: B).map t'.fenced =
      A.map t.fenced ++ (x.1, C₁) :: (k, C₂) :: B.map t.fenced := by
  have hA : A.map t'.fenced = A.map t.fenced := map_congr_left fun y hy =>
    hh.fenced_other h (by simp [hy])
  have hB : B.map t'.fenced = B.map t.fenced := map_congr_left fun y hy =>
    hh.fenced_other h (by simp [hy])
  have hx : t'.fenced x = (x.1, C₁) := by rw [fenced, hh.content_left]
  have hnew : t'.fenced (k, t.used) = (k, C₂) := by rw [fenced, hh.content_right]
  rw [map_append, map_cons, map_cons, hA, hB, hx, hnew]

variable (hroom : t.used < nodeAnchor)
include hroom

theorem frame_level {b : ℕ} (hb : b < t.used)
    (hL : b ∉ (A ++ x :: B).map Prod.snd) : t'.node b = t.node b := by
  refine hh.frame b (fun heq => hL (by simp [heq])) hb.ne ?_
  exact h.ne_next (hb.trans hroom).ne fun hmem => hL (by
    rw [map_append, map_cons]
    simp only [mem_append, mem_cons, hmem, or_true])

theorem chained : Chained t' (A ++ x :: (k, t.used) :: B) := by
  have hnodup := h.nodup_level
  have hchain := h.chain
  unfold Chained at hchain ⊢
  rw [map_append, map_cons] at hnodup hchain
  have hfresh : t.used ∉ A.map Prod.snd ++ x.2 :: B.map Prod.snd := by
    rw [← map_cons, ← map_append]
    intro hmem
    obtain ⟨y, hy, heq⟩ := mem_map.mp hmem
    exact (h.used_of_mem hy).ne heq
  have hhead : ((A ++ x :: (k, t.used) :: B).map Prod.snd).headD nodeAnchor =
      (A.map Prod.snd ++ x.2 :: B.map Prod.snd).headD nodeAnchor := by
    cases A <;> rfl
  rw [hhead, map_append, map_cons, map_cons]
  apply (hchain.insertAfter hnodup hfresh hroom.ne).congr
  have hxu : x.2 ≠ t.used := (h.used_of_mem (y := x) (by simp)).ne
  have hother : ∀ y ∈ A ++ B,
      t'.links.next y.2 = (t.links.insertAfter nodeAnchor x.2 t.used).next y.2 ∧
      t'.links.prev y.2 = (t.links.insertAfter nodeAnchor x.2 t.used).prev y.2 := by
    intro y hy
    have hyx := ne_of_nodup_middle h.nodup_level hy
    have hmem : y ∈ A ++ x :: B := by rcases mem_append.mp hy with hy | hy <;> simp [hy]
    have hyu := (h.used_of_mem hmem).ne
    constructor
    · obtain ⟨p, hp⟩ := hh.other h hy
      rw [Doubly.Links.insertAfter_next hyu hyx]
      simp only [links, hp]
    · by_cases hnext : y.2 = (t.node x.2).next
      · have hanchor : (t.node x.2).next ≠ nodeAnchor := by
          rw [← hnext]
          exact Doubly.Segment.ne_nil h.chain (mem_map_of_mem hmem)
        have hprev : (t.links.insertAfter nodeAnchor x.2 t.used).prev (t.node x.2).next = t.used :=
          Doubly.Links.insertAfter_prev_next hanchor
        rw [hnext, hprev]
        simp only [links, hh.neighbour hanchor]
      · rw [Doubly.Links.insertAfter_prev hyu hnext]
        simp only [links, hh.frame _ hyx hyu hnext]
  intro c hc
  rw [mem_append, mem_cons, mem_cons] at hc
  rcases hc with hc | rfl | rfl | hc
  · obtain ⟨y, hy, rfl⟩ := mem_map.mp hc
    exact hother y (by simp [hy])
  · refine ⟨?_, ?_⟩
    · rw [Doubly.Links.insertAfter_next_self]
      exact hh.next_left
    · rw [Doubly.Links.insertAfter_prev hxu h.self_ne_next]
      exact hh.prev_left
  · refine ⟨?_, ?_⟩
    · rw [Doubly.Links.insertAfter_next_new hxu.symm]
      exact hh.next_right
    · rw [Doubly.Links.insertAfter_prev_self (h.ne_next hroom.ne fun hmem =>
        hfresh (by simp [hmem]))]
      exact hh.prev_right
  · obtain ⟨y, hy, rfl⟩ := mem_map.mp hc
    exact hother y (by simp [hy])

theorem levelOk : LevelOk t' level false (A ++ x :: (k, t.used) :: B) := by
  refine ⟨fun z hz => ?_, hh.chained h hroom⟩
  have hother : ∀ y ∈ A ++ B, (t'.node y.2).Ok level false := by
    intro y hy
    obtain ⟨p, hp⟩ := hh.other h hy
    rw [hp]
    exact (h.others_ok hy).setPrev p
  rw [mem_append, mem_cons, mem_cons] at hz
  rcases hz with hz | rfl | rfl | hz
  · exact hother z (by simp [hz])
  · exact hh.left
  · exact hh.right
  · exact hother z (by simp [hz])

end

end

end Halved

/-- The root was cut in two: its halves move to blocks below a new root. -/
theorem Halved.increaseHeight {k v : ℕ} {C₁ C₂ : List (ℕ × ℕ)}
    (hh : Halved t t' level (0, btreeRootFbn) k C₁ ((k, v) :: C₂))
    (h : Spot t path level [] (0, btreeRootFbn) [] []) (hroom : t.used + 1 < nodeAnchor)
    (hne : C₁ ≠ []) :
    ∃ t'', t'.increaseHeight btreeRootFbn t.used k = some t'' ∧
      Inserted t t'' level [(0, C₁ ++ (k, v) :: C₂)] [[(0, btreeRootFbn)]]
        [(0, t.used + 1), (k, t.used)] [[(0, btreeRootFbn)]] := by
  have hused := hh.used
  have hroot : btreeRootFbn < t.used := h.used_of_mem (y := (0, btreeRootFbn)) (by simp)
  obtain ⟨hnew, hgrow, hle⟩ := alloc_size (t := t') (by omega) hh.size
  have hprev : (t'.node btreeRootFbn).prev = nodeAnchor := hh.prev_left.trans h.chain.prev_eq
  have hnext : (t'.node t.used).next = nodeAnchor := hh.next_right.trans h.chain.next_eq
  have hgreater : t.used < t'.allocBlock.2.size := by omega
  have hrun : t'.increaseHeight btreeRootFbn t.used k = some (((t'.allocBlock.2.set t'.used
      (t'.node btreeRootFbn)).set t.used { t'.node t.used with prev := t'.used }).set btreeRootFbn
      { t'.node btreeRootFbn with
        level := level + 1
        keys := [k]
        table := [t'.used, t.used]
        next := nodeAnchor }) := by
    have hfst : t'.allocBlock.1 = t'.used := rfl
    have hnode : t'.allocBlock.2.node = t'.node := rfl
    simp only [Tree.increaseHeight, hfst, hnode, bread, check, if_pos hnew, if_pos hgreater,
      hh.left.magic, hh.left.atLevel, hprev, if_true, bind_eq_bind, bind_some]
  obtain ⟨t'', hrun, hleft, hright, htop, hframe, hused'', hsize''⟩ : ∃ t'' : Tree,
      t'.increaseHeight btreeRootFbn t.used k = some t'' ∧
      t''.node (t.used + 1) = t'.node btreeRootFbn ∧
      t''.node t.used = { t'.node t.used with prev := t.used + 1 } ∧
      t''.node btreeRootFbn = { t'.node btreeRootFbn with
        level := level + 1
        keys := [k]
        table := [t.used + 1, t.used]
        next := nodeAnchor } ∧
      (∀ b, b ≠ t.used + 1 → b ≠ t.used → b ≠ btreeRootFbn → t''.node b = t'.node b) ∧
      t''.used = t.used + 2 ∧ t''.used ≤ t''.size := by
    rw [hused] at hrun hgrow
    have hlast : t.used + 1 ≠ btreeRootFbn := by omega
    refine ⟨_, hrun, by simp [hlast], by simp [hroot.ne.symm], by simp,
      fun b h₁ h₂ h₃ => ?_, ?_, ?_⟩
    · simp only [set_node, if_neg h₁, if_neg h₂, if_neg h₃]
      rfl
    · exact congrArg (· + 1) hused
    · exact le_of_eq_of_le (congrArg (· + 1) hused) hgrow
  refine ⟨t'', hrun, ⟨?_, ⟨?_, ?_⟩, rfl, ⟨?_, ?_⟩⟩, ?_, ?_, ?_, ?_, hsize''⟩
  · simp [content, htop, Node.content, Node.fences]
  · intro z hz
    rw [mem_cons, mem_singleton] at hz
    rcases hz with rfl | rfl
    · rw [hleft]
      exact hh.left
    · rw [hright]
      exact hh.right.setPrev _
  · have hnextLeft : (t''.node (t.used + 1)).next = t.used := by
      rw [hleft]
      exact hh.next_left
    have hprevLeft : (t''.node (t.used + 1)).prev = nodeAnchor := by
      rw [hleft]
      exact hprev
    refine ⟨rfl, hroom.ne, hprevLeft, hnextLeft, by omega, ?_, ?_⟩
    · simp only [links, hright]
    · simp only [links, hright]
      exact hnext
  · intro z hz
    rw [mem_singleton] at hz
    rw [hz, htop]
    refine ⟨⟨hh.left.magic, rfl, by simp [Node.Shaped, Node.nkeys, Node.nonLeaf]⟩, ?_, ?_⟩
    · simp [Node.nkeys, btreeN, btreeNX]
    · simp [Node.nkeys, leastKeys]
  · refine ⟨rfl, by omega, ?_, ?_⟩
    · simp only [links, htop]
      exact hprev
    · simp only [links, htop]
      rfl
  · have hcut : Recut [(0, C₁ ++ (k, v) :: C₂)] [(0, C₁), (k, (k, v) :: C₂)] :=
      Recut.cut (X := []) (Y := []) hne
    have hl : t''.fenced (0, t.used + 1) = (0, C₁) := by
      rw [fenced, content, hleft, ← hh.content_left]
      rfl
    have hr : t''.fenced (k, t.used) = (k, (k, v) :: C₂) := by
      rw [fenced, content, hright, ← hh.content_right]
      rfl
    rw [map_cons, map_cons, map_nil, hl, hr]
    exact hcut
  · have htwo : t''.used - t.used = 2 := by omega
    rw [htwo]
    exact ((List.Perm.swap _ _ _).trans ((List.Perm.swap _ _ _).cons _)).trans
      (List.Perm.swap _ _ _)
  · intro b hb hmem
    have hb0 : b ≠ btreeRootFbn := fun heq => hmem (by simp [blocks, heq])
    rw [hframe b (by omega) hb.ne hb0]
    refine hh.frame b hb0 hb.ne ?_
    rw [h.chain.next_eq]
    exact (hb.trans (Nat.lt_of_succ_lt hroom)).ne
  · omega

end Split

section Recursion

variable {t t' : Tree} {path : Path} {level : ℕ} {A B : List (ℕ × ℕ)} {x : ℕ × ℕ}
  {rest : List (List (ℕ × ℕ))} {rest' : List (List (ℕ × ℕ))} {n : Node}

section

variable (h : Spot t path level A x B rest)
include h

theorem Spot.notMem_rest (hy : y ∈ A ++ x :: B) : y.2 ∉ blocks rest := by
  have hnodup := h.nodup
  rw [blocks_cons, nodup_append] at hnodup
  exact fun hmem => hnodup.2.2 _ (mem_map_of_mem hy) _ hmem rfl

theorem Spot.set (hn : n.At level) (hnext : n.next = (t.node x.2).next)
    (hprev : n.prev = (t.node x.2).prev) :
    Spot (t.set x.2 n) path level A x B rest := by
  have hrest : ∀ b ∈ blocks rest, (t.set x.2 n).node b = t.node b := by
    intro b hb
    rw [set_node, if_neg]
    rintro rfl
    exact h.notMem_rest (y := x) (by simp) hb
  refine ⟨h.climb.congr hrest, ?_, fun y hy => ?_, h.chain.congr fun y _ => ?_, h.nodup, h.used,
    h.size⟩
  · rw [set_node, if_pos rfl]
    exact hn
  · rw [set_node, if_neg (ne_of_nodup_middle h.nodup_level hy)]
    exact h.others y hy
  · rw [set_node]
    split
    · rename_i heq
      rw [heq]
      exact ⟨hnext, hprev⟩
    · exact ⟨rfl, rfl⟩

theorem Spot.inserted (hok : (t.node x.2).Ok level rest.isEmpty) :
    Inserted t t level ((A ++ x :: B).map t.fenced) ((A ++ x :: B) :: rest) (A ++ x :: B) rest := by
  refine ⟨h.climb.levels ⟨fun y hy => ?_, h.chain⟩, Recut.same _, ?_, fun _ _ _ => rfl, le_rfl,
    h.size⟩
  · rw [mem_append, mem_cons] at hy
    rcases hy with hy | rfl | hy
    · exact h.others y (by simp [hy])
    · exact hok
    · exact h.others y (by simp [hy])
  · simp

theorem Inserted.of_set {C : List (ℕ × ℕ)} {L' : List (ℕ × ℕ)} (hC : n.content x.1 = C)
    (hi : Inserted (t.set x.2 n) t' level ((A ++ x :: B).map (t.set x.2 n).fenced)
      ((A ++ x :: B) :: rest) L' rest') :
    Inserted t t' level (A.map t.fenced ++ (x.1, C) :: B.map t.fenced) ((A ++ x :: B) :: rest)
      L' rest' := by
  have hother : ∀ y ∈ A ++ B, (t.set x.2 n).fenced y = t.fenced y := fun y hy =>
    fenced_congr (by rw [set_node, if_neg (ne_of_nodup_middle h.nodup_level hy)])
  have hA : A.map (t.set x.2 n).fenced = A.map t.fenced :=
    map_congr_left fun y hy => hother y (by simp [hy])
  have hB : B.map (t.set x.2 n).fenced = B.map t.fenced :=
    map_congr_left fun y hy => hother y (by simp [hy])
  have hx : (t.set x.2 n).fenced x = (x.1, C) := by
    rw [fenced, content, set_node, if_pos rfl, hC]
  have hrecut := hi.recut
  rw [map_append, map_cons, hA, hB, hx] at hrecut
  refine { hi with recut := hrecut, frame := fun b hb hmem => ?_ }
  rw [hi.frame b hb hmem, set_node, if_neg]
  rintro rfl
  exact hmem (by simp)

end

theorem Halved.parent {A' B' : List (ℕ × ℕ)} {k : ℕ} {C₁ C₂ : List (ℕ × ℕ)}
    (hh : Halved t t' level x k C₁ C₂) (h : Spot t path level A x B ((A' ++ y :: B') :: rest))
    (hroom : t.used < nodeAnchor) (hupper : LevelOk t (level + 1) rest.isEmpty (A' ++ y :: B'))
    (hclimb : Climb t path (level + 1) A' y B' rest) :
    Spot t' path (level + 1) A' y B' rest ∧
      ∀ z ∈ A' ++ y :: B', t'.node z.2 = t.node z.2 := by
  have hnodup := h.nodup
  rw [blocks_cons, nodup_append] at hnodup
  have hupperNode : ∀ b ∈ blocks ((A' ++ y :: B') :: rest), t'.node b = t.node b := fun b hb =>
    hh.frame_level h hroom (h.used b (mem_append_right _ hb))
      fun hmem => hnodup.2.2 _ hmem _ hb rfl
  have hM : ∀ z ∈ A' ++ y :: B', t'.node z.2 = t.node z.2 := fun z hz =>
    hupperNode _ (mem_blocks_of_mem mem_cons_self hz)
  have hlevel := hupper.congr hM
  refine ⟨⟨hclimb.congr fun b hb => hupperNode b (mem_append_right _ hb),
    (hlevel.node y (by simp)).toAt, fun z hz => hlevel.node z ?_, hlevel.chain, hnodup.2.1,
    fun b hb => ?_, hh.size⟩, hM⟩
  · rcases mem_append.mp hz with hz | hz <;> simp [hz]
  · rw [hh.used]
    exact Nat.lt_succ_of_lt (h.used b (mem_append_right _ hb))

theorem entries_map_fenced (t : Tree) (L : List (ℕ × ℕ)) :
    entries (L.map t.fenced) = L.flatMap t.content := by
  rw [entries, flatMap_map]
  rfl

theorem Halved.inserted {t₂ : Tree} {A' B' E₁ E₂ M' C₁ C₂ : List (ℕ × ℕ)} {k v : ℕ}
    (hh : Halved t t₂ level x k C₁ ((k, v) :: C₂))
    (h : Spot t path level A x B ((A' ++ y :: B') :: rest)) (hroom : t.used < nodeAnchor)
    (hcut : t.content x = C₁ ++ (k, v) :: C₂) (hne : C₁ ≠ [])
    (hA : A = A'.flatMap t.content ++ E₁) (hB : B = E₂ ++ B'.flatMap t.content)
    (hM : ∀ z ∈ A' ++ y :: B', t₂.node z.2 = t.node z.2) (hi : Inserted t₂ t' (level + 1)
      (A'.map t₂.fenced ++ (y.1, (E₁ ++ [x]) ++ (k, t.used) :: E₂) :: B'.map t₂.fenced)
      ((A' ++ y :: B') :: rest) M' rest') :
    Inserted t t' level ((A ++ x :: B).map t.fenced) ((A ++ x :: B) :: (A' ++ y :: B') :: rest)
      (A ++ x :: (k, t.used) :: B) (M' :: rest') := by
  have hused := hh.used
  have hused' := hi.used
  have hnew : t.used ∉ blocks ((A' ++ y :: B') :: rest) := fun hmem =>
    (h.used _ (mem_append_right _ hmem)).false
  have hkeep : ∀ z ∈ A ++ x :: (k, t.used) :: B, t'.node z.2 = t₂.node z.2 := by
    intro z hz
    have hz' : z = (k, t.used) ∨ z ∈ A ++ x :: B := by
      simp only [mem_append, mem_cons] at hz ⊢
      tauto
    rcases hz' with rfl | hz
    · exact hi.frame _ (by simp [hused]) hnew
    · exact hi.frame _ (by rw [hused]; exact Nat.lt_succ_of_lt (h.used_of_mem hz))
        (h.notMem_rest hz)
  have hcover : A ++ x :: (k, t.used) :: B = M'.flatMap t'.content := by
    have hentries := hi.recut.entries_eq
    rw [entries_map_fenced, entries_append, entries_cons, entries_map_fenced, entries_map_fenced,
      flatMap_content_congr fun z hz => hM z (by simp [hz]),
      flatMap_content_congr fun z hz => hM z (by simp [hz])] at hentries
    rw [hentries, hA, hB]
    simp
  refine ⟨⟨hcover, (hh.levelOk h hroom).congr hkeep, hi.levels⟩, ?_, ?_, fun b hb hmem => ?_,
    by omega, hi.size⟩
  · rw [map_fenced_congr hkeep, hh.map_fenced h, map_append, map_cons]
    have hx : t.fenced x = (x.1, C₁ ++ (k, v) :: C₂) := by rw [fenced, hcut]
    rw [hx]
    exact Recut.cut hne
  · have hlevel : ((A ++ x :: (k, t.used) :: B).map Prod.snd).Perm
        (t.used :: (A ++ x :: B).map Prod.snd) := by
      rw [append_cons A x ((k, t.used) :: B), append_cons A x B]
      simp only [map_append, map_cons]
      exact perm_middle
    have hrange : List.range' t.used (t'.used - t.used) =
        t.used :: List.range' t₂.used (t'.used - t₂.used) := by
      have hlen : t'.used - t.used = (t'.used - t₂.used) + 1 := by omega
      rw [hlen, range'_succ, hused]
    calc blocks ((A ++ x :: (k, t.used) :: B) :: M' :: rest')
      _ = (A ++ x :: (k, t.used) :: B).map Prod.snd ++ blocks (M' :: rest') := rfl
      List.Perm _ ((t.used :: (A ++ x :: B).map Prod.snd) ++
          (blocks ((A' ++ y :: B') :: rest) ++ List.range' t₂.used (t'.used - t₂.used))) :=
        hlevel.append hi.blocks_perm
      _ = t.used :: (blocks ((A ++ x :: B) :: (A' ++ y :: B') :: rest) ++
          List.range' t₂.used (t'.used - t₂.used)) := by
        rw [blocks_cons (A ++ x :: B), cons_append, append_assoc]
      List.Perm _ (blocks ((A ++ x :: B) :: (A' ++ y :: B') :: rest) ++
          List.range' t.used (t'.used - t.used)) := by
        rw [hrange]
        exact perm_middle.symm
  · rw [blocks_cons, mem_append, not_or] at hmem
    rw [hi.frame b (by omega) hmem.2, hh.frame_level h hroom hb hmem.1]

/-- What `btree_insert_modify` does once a full node was cut in two. -/
def afterSplit (t : Tree) (path : Path) (fuel level b newKey greater : ℕ) : Option Tree :=
  if (path (level + 1)).index ≠ btreeRootAddr then
    t.insertModify path fuel newKey greater (level + 1)
  else t.increaseHeight b greater newKey

/-- The node of the block with the entry stored at the place where the path stops. -/
def withEntry (t : Tree) (path : Path) (level b key payload : ℕ) : Node :=
  { t.node b with
    keys := insertAt (t.node b).keys (path level).index key
    table := insertAt (t.node b).table ((path level).index + (t.node b).nonLeaf) payload }

section Steps

variable {fuel key payload : ℕ} (hbno : (path level).bno = x.2) (hsize : x.2 < t.size)
  (hx : (t.node x.2).At level)
include hbno hsize hx

theorem insertModify_empty (hkeys : (t.node x.2).nkeys = 0) (hroot : x.2 = btreeRootFbn)
    (hlevel : level = 0) :
    t.insertModify path (fuel + 1) key payload level =
      some (t.set x.2 (t.withEntry path level x.2 key payload)) := by
  have hk : (t.node x.2).keys = [] := length_eq_zero_iff.mp hkeys
  have ht : (t.node x.2).table = [] := by
    have hshaped := hx.shaped
    rw [Node.Shaped, hkeys, Node.nonLeaf, hx.atLevel, if_pos hlevel] at hshaped
    exact length_eq_zero_iff.mp hshaped
  have hnode : t.withEntry path level x.2 key payload =
      { t.node x.2 with keys := [key], table := [payload] } := by
    simp [withEntry, insertAt, hk, ht]
  simp only [insertModify, hbno, bread, if_pos hsize, check, hx.magic, hx.atLevel, if_true, hkeys,
    if_pos hroot, hnode, bind_eq_bind, bind_some]

theorem insertModify_stored (hkeys : (t.node x.2).nkeys ≠ 0)
    (hn : t.withEntry path level x.2 key payload = n) :
    t.insertModify path (fuel + 1) key payload level =
      if n.overflowPred then do
        match ← (t.set x.2 n).tryLeft x.2 path with
        | some t' => some t'
        | none =>
          match ← (t.set x.2 n).tryRight x.2 path with
          | some t' => some t'
          | none =>
            let (t', newKey, greater) ← (t.set x.2 n).splitNode x.2
            t'.afterSplit path fuel level x.2 newKey greater
      else some (t.set x.2 n) := by
  rw [← hn]
  simp only [withEntry, hx.magic, hx.atLevel, insertModify, hbno, bread, if_pos hsize, check,
    if_true, if_neg hkeys, bind_eq_bind, bind_some]
  rfl

end Steps

theorem ne_zero_of_full {n : ℕ} (h : n + 1 = btreeN level) : n ≠ 0 := by
  rintro rfl
  unfold btreeN btreeN0 btreeNX at h
  split at h <;> omega

theorem Spot.root_of_empty (h : Spot t path level A x B rest)
    (hok : (t.node x.2).Ok level rest.isEmpty) (hzero : (t.node x.2).nkeys = 0) :
    x.2 = btreeRootFbn ∧ level = 0 := by
  have hle := hok.enough
  rw [hzero] at hle
  cases rest with
  | nil =>
    obtain ⟨-, -, rfl, -⟩ := h.climb
    refine ⟨rfl, ?_⟩
    by_contra hlevel
    simp [leastKeys, hlevel] at hle
  | cons M rest =>
    simp only [leastKeys, isEmpty_cons, Bool.false_eq_true, if_false] at hle
    split at hle <;> omega

section

variable {fuel key payload : ℕ} {C₁ C₂ : List (ℕ × ℕ)} (h : Spot t path level A x B rest)
  (hok : (t.node x.2).Ok level rest.isEmpty) (hbno : (path level).bno = x.2)
  (hC : t.content x = C₁ ++ C₂) (hlen : C₁.length = (path level).index + (t.node x.2).nonLeaf)
include h hok hbno hC hlen

theorem Spot.insertModify_step
    (hsplit : ∀ t₁ : Tree, t₁.used = t.used → Spot t₁ path level A x B rest →
      (t₁.node x.2).nkeys = btreeN level → ∀ t₂ k v C₁ C₂,
        Halved t₁ t₂ level x k C₁ ((k, v) :: C₂) → t₁.content x = C₁ ++ (k, v) :: C₂ → C₁ ≠ [] →
        ∃ t' L' rest', t₂.afterSplit path fuel level x.2 k t₁.used = some t' ∧
          Inserted t₁ t' level ((A ++ x :: B).map t₁.fenced) ((A ++ x :: B) :: rest) L' rest') :
    ∃ t' L' rest', t.insertModify path (fuel + 1) key payload level = some t' ∧
      Inserted t t' level
        (A.map t.fenced ++ (x.1, C₁ ++ (key, payload) :: C₂) :: B.map t.fenced)
        ((A ++ x :: B) :: rest) L' rest' := by
  have hsize : x.2 < t.size := h.lt_size (by simp)
  have hcontent : (t.withEntry path level x.2 key payload).content x.1 =
      C₁ ++ (key, payload) :: C₂ := by
    rw [withEntry, hok.shaped.content_insert, ← content, hC, ← hlen, take_left, drop_left]
  have hkeys : (t.withEntry path level x.2 key payload).nkeys = (t.node x.2).nkeys + 1 :=
    length_insertAt _ _ _
  obtain ⟨n, hn⟩ : ∃ n, t.withEntry path level x.2 key payload = n := ⟨_, rfl⟩
  have hat : n.At level := hn ▸ hok.toAt.insert _ _ _
  have hspot : Spot (t.set x.2 n) path level A x B rest :=
    h.set hat (by rw [← hn]; rfl) (by rw [← hn]; rfl)
  rw [hn] at hcontent hkeys
  have hself : (t.set x.2 n).node x.2 = n := by rw [set_node, if_pos rfl]
  suffices hsuff : ∃ t' L' rest', t.insertModify path (fuel + 1) key payload level = some t' ∧
      Inserted (t.set x.2 n) t' level ((A ++ x :: B).map (t.set x.2 n).fenced)
        ((A ++ x :: B) :: rest) L' rest' by
    obtain ⟨t', L', rest', hrun, hi⟩ := hsuff
    exact ⟨t', L', rest', hrun, hi.of_set h hcontent⟩
  by_cases hover : (t.node x.2).nkeys + 1 = btreeN level
  · have hfull : ((t.set x.2 n).node x.2).nkeys = btreeN level := by
      rw [hself, hkeys, hover]
    have hpred : n.overflowPred = true := by
      rw [Node.overflowPred, hkeys, hover, beq_iff_eq, hat.atLevel]
    rw [insertModify_stored hbno hsize hok.toAt (ne_zero_of_full hover) hn, if_pos hpred]
    rcases hspot.tryLeft_spec hfull with hleft | ⟨t', L', hleft, hi⟩
    · rcases hspot.tryRight_spec hfull with hright | ⟨t', L', hright, hi⟩
      · obtain ⟨t₂, k, v, D₁, D₂, hrun, hh, hcut, hne⟩ := hspot.splitNode_spec hfull
        obtain ⟨t', L', rest', hafter, hi⟩ :=
          hsplit (t.set x.2 n) rfl hspot hfull _ _ _ _ _ hh hcut hne
        exact ⟨t', L', rest', by rw [hleft, hright, hrun]; exact hafter, hi⟩
      · exact ⟨t', L', rest, by rw [hleft, hright]; rfl, hi⟩
    · exact ⟨t', L', rest, by rw [hleft]; rfl, hi⟩
  have hok' : n.Ok level rest.isEmpty := by
    have hnot := hok.notFull
    have hle := hok.enough
    exact ⟨hat, by omega, by omega⟩
  refine ⟨t.set x.2 n, _, _, ?_, hspot.inserted (by rw [hself]; exact hok')⟩
  by_cases hzero : (t.node x.2).nkeys = 0
  · obtain ⟨hroot, hlevel⟩ := h.root_of_empty hok hzero
    rw [insertModify_empty hbno hsize hok.toAt hzero hroot hlevel, hn]
  have hpred : n.overflowPred = false := by
    rw [Node.overflowPred, hkeys, hat.atLevel]
    exact beq_false_of_ne hover
  rw [insertModify_stored hbno hsize hok.toAt hzero hn, hpred]
  rfl

theorem Spot.insertModify_spec (hfuel : rest.length < fuel)
    (hroom : t.used + rest.length + 2 ≤ nodeAnchor) :
    ∃ t' L' rest', t.insertModify path fuel key payload level = some t' ∧
      Inserted t t' level
        (A.map t.fenced ++ (x.1, C₁ ++ (key, payload) :: C₂) :: B.map t.fenced)
        ((A ++ x :: B) :: rest) L' rest' := by
  induction rest generalizing t level A x B key payload C₁ C₂ fuel with
  | nil =>
    obtain _ | fuel := fuel
    · omega
    refine h.insertModify_step hok hbno hC hlen ?_
    intro t₁ hused hspot hfull t₂ k v D₁ D₂ hh hcut hne
    obtain ⟨rfl, rfl, rfl, hindex⟩ := hspot.climb
    obtain ⟨t', hrun, hi⟩ := hh.increaseHeight hspot (by rw [hused]; simp at hroom; omega) hne
    refine ⟨t', [(0, t₁.used + 1), (k, t₁.used)], [[(0, btreeRootFbn)]], ?_, ?_⟩
    · rw [afterSplit, hindex, if_neg (by simp)]
      exact hrun
    · rw [nil_append, map_cons, map_nil, fenced, hcut]
      exact hi
  | cons M rest ih =>
    obtain _ | fuel := fuel
    · omega
    refine h.insertModify_step hok hbno hC hlen ?_
    intro t₁ hused hspot hfull t₂ k v D₁ D₂ hh hcut hne
    rw [length_cons] at hfuel hroom
    obtain ⟨A', y, B', E₁, E₂, rfl, hy, hA, hB, hbno', hindex, hupper, hclimb⟩ := hspot.climb
    have hroom₁ : t₁.used < nodeAnchor := by omega
    obtain ⟨hparent, hM⟩ := hh.parent hspot hroom₁ hupper hclimb
    have hyok := hupper.node y (by simp)
    have hynode := hM y (by simp)
    have hinner : (t₂.node y.2).nonLeaf = 1 := by
      rw [hynode, Node.nonLeaf, if_neg (by rw [hyok.atLevel]; omega)]
    have hcontent : t₂.content y = (E₁ ++ [x]) ++ E₂ := by
      rw [content_congr hynode, hy, append_assoc, singleton_append]
    have hparentRun : ∃ t' M' rest', t₂.insertModify path fuel k t₁.used (level + 1) = some t' ∧
        Inserted t₂ t' (level + 1)
          (A'.map t₂.fenced ++ (y.1, (E₁ ++ [x]) ++ (k, t₁.used) :: E₂) :: B'.map t₂.fenced)
          ((A' ++ y :: B') :: rest) M' rest' :=
      ih hparent (hynode ▸ hyok) hbno' hcontent (by rw [hinner, hindex, length_append]; rfl)
        (by omega) (by rw [hh.used]; omega)
    obtain ⟨t', M', rest', hrun, hi⟩ := hparentRun
    refine ⟨t', _, _, ?_, hh.inserted hspot hroom₁ hcut hne hA hB hM hi⟩
    have hsmall : (path (level + 1)).index ≠ btreeRootAddr := by
      have hlength : (t₂.content y).length = (t₂.node y.2).nkeys + (t₂.node y.2).nonLeaf :=
        hparent.self.shaped.length_content y.1
      have hkeys := hyok.notFull
      have hmax : btreeN (level + 1) = 337 := rfl
      rw [hcontent, hinner, hynode, length_append, length_append] at hlength
      unfold btreeRootAddr
      omega
    rw [afterSplit, if_pos hsmall]
    exact hrun

end

end Recursion

end StackBench.Phttpd.Tree

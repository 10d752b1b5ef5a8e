import Mathlib.Data.List.GetD
import StackBench.Phttpd.BTree

/-!
# The levels of the B+ tree of phttpd

A node with the lower bound of its keys stands for a list of entries: keys with
values in a leaf, children with lower bounds in an inner node. The entries of a
level are the level below.
-/

open List

namespace StackBench.Phttpd

/-- The keys of a leaf, and the lower bounds of the children of an inner node. -/
def Node.fences (n : Node) (lo : ℕ) : List ℕ := if n.level = 0 then n.keys else lo :: n.keys

/-- The entries of a node with the lower bound `lo`. -/
def Node.content (n : Node) (lo : ℕ) : List (ℕ × ℕ) := (n.fences lo).zip n.table

/-- The table is as long as the number of keys says. -/
def Node.Shaped (n : Node) : Prop := n.table.length = n.nkeys + n.nonLeaf

def Node.front (n : Node) (m : ℕ) : Node :=
  { n with keys := n.keys.take (m - n.nonLeaf), table := n.table.take m }

def Node.back (n : Node) (m : ℕ) : Node :=
  { n with keys := n.keys.drop m, table := n.table.drop m }

/-- The node with the first `m` entries of its right neighbour, whose lower bound is `lo`. -/
def Node.gainLeft (left right : Node) (lo m : ℕ) : Node :=
  { left with
    keys := left.keys ++ (if right.level = 0 then [] else [lo]) ++
      right.keys.take (m - right.nonLeaf)
    table := left.table ++ right.table.take m }

/-- The node with the lower bound `lo` and the entries of its left neighbour from the place
`m` on. -/
def Node.gainRight (right left : Node) (lo m : ℕ) : Node :=
  { right with
    keys := left.keys.drop m ++ (if left.level = 0 then [] else [lo]) ++ right.keys
    table := left.table.drop m ++ right.table }

/-- The node belongs to the level. -/
structure Node.At (n : Node) (level : ℕ) : Prop where
  magic : n.magic = btreeHdrMagic
  atLevel : n.level = level
  shaped : n.Shaped

section Content

variable {n left right : Node} {lo lo' i m k v level : ℕ}

theorem Node.nonLeaf_le (n : Node) : n.nonLeaf ≤ 1 := by
  unfold nonLeaf
  split <;> omega

theorem Node.length_fences (n : Node) (lo : ℕ) : (n.fences lo).length = n.nkeys + n.nonLeaf := by
  by_cases h : n.level = 0 <;> simp [fences, nonLeaf, nkeys, h]

open Node (back content fences front gainLeft gainRight length_fences nkeys nonLeaf)

theorem Node.fences_getD (hm : n.nonLeaf ≤ m) :
    (n.fences lo).getD m 0 = n.keys.getD (m - n.nonLeaf) 0 := by
  by_cases hl : n.level = 0
  · simp [fences, nonLeaf, hl]
  obtain ⟨m, rfl⟩ : ∃ m', m = m' + 1 := by
    rw [nonLeaf, if_neg hl] at hm
    exact ⟨m - 1, by omega⟩
  simp [fences, nonLeaf, hl]

theorem Node.Shaped.length_content (h : n.Shaped) (lo : ℕ) :
    (n.content lo).length = n.nkeys + n.nonLeaf := by
  rw [content, length_zip, length_fences, h, Nat.min_self]

theorem Node.Shaped.content_insert (h : n.Shaped) :
    content { n with
        keys := Tree.insertAt n.keys i k
        table := Tree.insertAt n.table (i + n.nonLeaf) v } lo =
      (n.content lo).take (i + n.nonLeaf) ++ (k, v) :: (n.content lo).drop (i + n.nonLeaf) := by
  have hkeys : fences { n with
      keys := Tree.insertAt n.keys i k
      table := Tree.insertAt n.table (i + n.nonLeaf) v } lo =
      (n.fences lo).take (i + n.nonLeaf) ++ k :: (n.fences lo).drop (i + n.nonLeaf) := by
    by_cases hl : n.level = 0 <;> simp [fences, nonLeaf, hl, Tree.insertAt]
  have hlen : ((n.fences lo).take (i + n.nonLeaf)).length =
      (n.table.take (i + n.nonLeaf)).length := by
    rw [length_take, length_take, length_fences, h]
  simp only [content, hkeys]
  simp only [Tree.insertAt, List.zip, take_zipWith, drop_zipWith]
  rw [zipWith_append hlen, zipWith_cons_cons]

theorem length_insertAt (xs : List ℕ) (i v : ℕ) :
    (Tree.insertAt xs i v).length = xs.length + 1 := by
  simp only [Tree.insertAt, length_append, length_take, length_cons, length_drop]
  omega

theorem Node.At.insert (h : n.At level) (i k v : ℕ) :
    Node.At { n with
      keys := Tree.insertAt n.keys i k
      table := Tree.insertAt n.table (i + n.nonLeaf) v } level := by
  have hshaped := h.shaped
  refine ⟨h.magic, h.atLevel, ?_⟩
  simp only [Node.Shaped, nkeys, nonLeaf, length_insertAt] at hshaped ⊢
  omega

theorem Node.content_front (hm : n.nonLeaf ≤ m) :
    (n.front m).content lo = (n.content lo).take m := by
  have hkeys : (n.front m).fences lo = (n.fences lo).take m := by
    by_cases hl : n.level = 0
    · simp [front, fences, nonLeaf, hl]
    obtain ⟨m, rfl⟩ : ∃ m', m = m' + 1 := by
      rw [nonLeaf, if_neg hl] at hm
      exact ⟨m - 1, by omega⟩
    simp [front, fences, nonLeaf, hl]
  rw [content, hkeys]
  simp only [front, content, List.zip, take_zipWith]

theorem Node.gainRight_key (hm : left.nonLeaf ≤ m) (hlt : m < left.nkeys + left.nonLeaf) :
    (if left.level = 0 then (right.gainRight left lo' m).keys.getD 0 0
      else left.keys.getD (m - left.nonLeaf) 0) = (left.fences lo).getD m 0 := by
  rw [fences_getD hm]
  by_cases hl : left.level = 0
  · rw [nonLeaf, if_pos hl] at hlt
    have hk : m < left.keys.length := hlt
    simp only [gainRight, nonLeaf, hl, if_true, Nat.sub_zero, append_nil]
    rw [drop_eq_getElem_cons hk, cons_append, getD_cons_zero, getD_eq_getElem _ _ hk]
  · rw [if_neg hl]

theorem Node.At.front (h : n.At level) (hm : n.nonLeaf ≤ m) (hle : m ≤ n.nkeys + n.nonLeaf) :
    (n.front m).At level ∧ (n.front m).nkeys + n.nonLeaf = m := by
  have hkeys : (n.front m).nkeys + n.nonLeaf = m := by
    simp only [Node.front, nkeys, length_take] at hle ⊢
    omega
  refine ⟨⟨h.magic, h.atLevel, ?_⟩, hkeys⟩
  have hshaped := h.shaped
  have htable : (n.front m).table.length = m := by
    rw [Node.Shaped] at hshaped
    simp only [Node.front, length_take]
    omega
  rw [Node.Shaped, htable]
  exact hkeys.symm

theorem Node.content_back (hm : n.nonLeaf ≤ m) (hlt : m < n.nkeys + n.nonLeaf) :
    (n.back m).content ((n.fences lo).getD m 0) = (n.content lo).drop m := by
  have hkeys : (n.back m).fences ((n.fences lo).getD m 0) = (n.fences lo).drop m := by
    by_cases hl : n.level = 0
    · simp [back, fences, hl]
    simp only [nonLeaf, if_neg hl] at hm hlt
    obtain _ | m := m
    · omega
    have hk : m < n.keys.length := Nat.lt_of_succ_lt_succ hlt
    simp only [back, fences, if_neg hl, drop_succ_cons, getD_cons_succ]
    rw [drop_eq_getElem_cons hk, getD_eq_getElem _ _ hk]
  rw [content, hkeys]
  simp only [back, content, List.zip, drop_zipWith]

theorem Node.At.back (h : n.At level) (hle : m ≤ n.nkeys) :
    (n.back m).At level ∧ (n.back m).nkeys = n.nkeys - m := by
  have hkeys : (n.back m).nkeys = n.nkeys - m := length_drop
  refine ⟨⟨h.magic, h.atLevel, ?_⟩, hkeys⟩
  have hshaped := h.shaped
  have htable : (n.back m).table.length = n.table.length - m := length_drop
  have hnon : (n.back m).nonLeaf = n.nonLeaf := rfl
  rw [Node.Shaped] at hshaped ⊢
  omega

theorem Node.Shaped.content_gainLeft (h : left.Shaped) (hlevel : left.level = right.level)
    (hm : right.nonLeaf ≤ m) :
    (left.gainLeft right lo' m).content lo = left.content lo ++ (right.content lo').take m := by
  have hkeys : (left.gainLeft right lo' m).fences lo =
      left.fences lo ++ (right.fences lo').take m := by
    by_cases hl : right.level = 0
    · simp [gainLeft, fences, nonLeaf, hl, hlevel]
    obtain ⟨m, rfl⟩ : ∃ m', m = m' + 1 := by
      rw [nonLeaf, if_neg hl] at hm
      exact ⟨m - 1, by omega⟩
    simp [gainLeft, fences, nonLeaf, hl, hlevel]
  have hlen : (left.fences lo).length = left.table.length := by rw [length_fences, h]
  rw [content, hkeys]
  simp only [gainLeft, content, List.zip, take_zipWith]
  rw [zipWith_append hlen]

theorem Node.At.gainLeft (h : left.At level) (h' : right.At level) (hm : right.nonLeaf ≤ m)
    (hle : m ≤ right.nkeys) (lo' : ℕ) :
    (left.gainLeft right lo' m).At level ∧ (left.gainLeft right lo' m).nkeys = left.nkeys + m := by
  have hpivot : (if right.level = 0 then [] else [lo']).length = right.nonLeaf := by
    unfold nonLeaf
    split <;> rfl
  have hkeys : (left.gainLeft right lo' m).nkeys = left.nkeys + m := by
    simp only [Node.gainLeft, nkeys, length_append, length_take, hpivot] at hle ⊢
    omega
  refine ⟨⟨h.magic, h.atLevel, ?_⟩, hkeys⟩
  have hleft := h.shaped
  have hright := h'.shaped
  have htable : (left.gainLeft right lo' m).table.length = left.table.length +
      min m right.table.length := by
    simp only [Node.gainLeft, length_append, length_take]
  have hnon : (left.gainLeft right lo' m).nonLeaf = left.nonLeaf := rfl
  rw [Node.Shaped] at hleft hright ⊢
  omega

theorem Node.Shaped.content_gainRight (h : left.Shaped) (hlevel : left.level = right.level)
    (hm : left.nonLeaf ≤ m) (hlt : m < left.nkeys + left.nonLeaf) :
    (right.gainRight left lo' m).content ((left.fences lo).getD m 0) =
      (left.content lo).drop m ++ right.content lo' := by
  have hkeys : (right.gainRight left lo' m).fences ((left.fences lo).getD m 0) =
      (left.fences lo).drop m ++ right.fences lo' := by
    by_cases hl : left.level = 0
    · simp [gainRight, fences, hl, ← hlevel]
    simp only [nonLeaf, if_neg hl] at hm hlt
    obtain _ | m := m
    · omega
    have hk : m < left.keys.length := Nat.lt_of_succ_lt_succ hlt
    simp only [gainRight, fences, ← hlevel, if_neg hl, drop_succ_cons, getD_cons_succ]
    rw [drop_eq_getElem_cons hk, getD_eq_getElem _ _ hk]
    simp only [append_assoc, cons_append, nil_append]
  have hlen : ((left.fences lo).drop m).length = (left.table.drop m).length := by
    rw [length_drop, length_drop, length_fences, h]
  rw [content, hkeys]
  simp only [gainRight, content, List.zip, drop_zipWith]
  rw [zipWith_append hlen]

theorem Node.At.gainRight (h : right.At level) (h' : left.At level) (hle : m ≤ left.nkeys)
    (lo' : ℕ) : (right.gainRight left lo' m).At level ∧
      (right.gainRight left lo' m).nkeys = left.nkeys + left.nonLeaf - m + right.nkeys := by
  have hpivot : (if left.level = 0 then [] else [lo']).length = left.nonLeaf := by
    unfold nonLeaf
    split <;> rfl
  have hkeys : (right.gainRight left lo' m).nkeys =
      left.nkeys + left.nonLeaf - m + right.nkeys := by
    simp only [Node.gainRight, nkeys, length_append, length_drop, hpivot] at hle ⊢
    omega
  refine ⟨⟨h.magic, h.atLevel, ?_⟩, hkeys⟩
  have hright := h.shaped
  have hleft := h'.shaped
  have htable : (right.gainRight left lo' m).table.length = left.table.length - m +
      right.table.length := by
    simp only [Node.gainRight, length_append, length_drop]
  have hnon : (right.gainRight left lo' m).nonLeaf = right.nonLeaf := rfl
  rw [Node.Shaped] at hleft hright ⊢
  omega

theorem Node.Shaped.content_split (h : n.Shaped) (lo : ℕ) (hlt : m < n.nkeys + n.nonLeaf) :
    ∃ C₂, n.content lo =
        (n.content lo).take m ++ ((n.fences lo).getD m 0, n.table.getD m 0) :: C₂ ∧
      (n.content lo).drop m = ((n.fences lo).getD m 0, n.table.getD m 0) :: C₂ := by
  have hm : m < (n.content lo).length := by rwa [h.length_content]
  have hf : m < (n.fences lo).length := by rwa [length_fences]
  have ht : m < n.table.length := by rwa [h]
  have hdrop := drop_eq_getElem_cons hm
  have hget : (n.content lo)[m] = ((n.fences lo).getD m 0, n.table.getD m 0) := by
    rw [getD_eq_getElem _ _ hf, getD_eq_getElem _ _ ht]
    exact getElem_zip
  rw [hget] at hdrop
  refine ⟨_, ?_, hdrop⟩
  rw [← hdrop, take_append_drop]

end Content

/-- The least number of keys: one in an inner root, elsewhere what a split leaves. -/
def leastKeys (level : ℕ) (top : Bool) : ℕ :=
  if top then (if level = 0 then 0 else 1) else if level = 0 then 126 else 167

/-- The node belongs to the level, and is neither full nor too empty. -/
structure Node.Ok (n : Node) (level : ℕ) (top : Bool) : Prop extends n.At level where
  notFull : n.nkeys < btreeN level
  enough : leastKeys level top ≤ n.nkeys

namespace Tree

def content (t : Tree) (x : ℕ × ℕ) : List (ℕ × ℕ) := (t.node x.2).content x.1

def links (t : Tree) : Doubly.Links ℕ := ⟨fun b => (t.node b).next, fun b => (t.node b).prev⟩

def Chained (t : Tree) (L : List (ℕ × ℕ)) : Prop :=
  Doubly.Segment t.links nodeAnchor nodeAnchor ((L.map Prod.snd).headD nodeAnchor) (L.map Prod.snd)

/-- The list is a level of nodes, linked in this order. -/
structure LevelOk (t : Tree) (level : ℕ) (top : Bool) (L : List (ℕ × ℕ)) : Prop where
  node : ∀ x ∈ L, (t.node x.2).Ok level top
  chain : Chained t L

/-- The lists are the levels of the tree from `level` up to the root. -/
def Levels (t : Tree) : ℕ → List (List (ℕ × ℕ)) → Prop
  | _, [] => False
  | level, [L] => L = [(0, btreeRootFbn)] ∧ LevelOk t level true L
  | level, L :: M :: rest =>
    L = M.flatMap t.content ∧ LevelOk t level false L ∧ Levels t (level + 1) (M :: rest)

def blocks (Ls : List (List (ℕ × ℕ))) : List ℕ := Ls.flatMap fun L => L.map Prod.snd

/-- The path leads from the block `x` of its level up to the root through the levels `rest`. -/
def Climb (t : Tree) (path : Path) : ℕ → List (ℕ × ℕ) → ℕ × ℕ → List (ℕ × ℕ) →
    List (List (ℕ × ℕ)) → Prop
  | level, A, x, B, [] =>
    A = [] ∧ B = [] ∧ x = (0, btreeRootFbn) ∧ (path (level + 1)).index = btreeRootAddr
  | level, A, x, B, M :: rest =>
    ∃ A' y B' E₁ E₂, M = A' ++ y :: B' ∧ t.content y = E₁ ++ x :: E₂ ∧
      A = A'.flatMap t.content ++ E₁ ∧ B = E₂ ++ B'.flatMap t.content ∧
      (path (level + 1)).bno = y.2 ∧ (path (level + 1)).index = E₁.length ∧
      LevelOk t (level + 1) rest.isEmpty M ∧ Climb t path (level + 1) A' y B' rest

section Levels

variable {t t' : Tree} {path : Path} {level b : ℕ} {top : Bool} {A B L M : List (ℕ × ℕ)}
  {x y : ℕ × ℕ} {rest Ls : List (List (ℕ × ℕ))}

@[simp]
theorem set_node (t : Tree) (b c : ℕ) (n : Node) :
    (t.set b n).node c = if c = b then n else t.node c := by
  simp [set, Function.update_apply]

theorem content_congr (h : t'.node x.2 = t.node x.2) : t'.content x = t.content x := by
  rw [content, h, content]

theorem flatMap_content_congr (h : ∀ x ∈ L, t'.node x.2 = t.node x.2) :
    L.flatMap t'.content = L.flatMap t.content := by
  exact congrArg List.flatten (map_congr_left fun x hx => content_congr (h x hx))

theorem Chained.congr (h : Chained t L) (heq : ∀ x ∈ L, (t'.node x.2).next = (t.node x.2).next ∧
      (t'.node x.2).prev = (t.node x.2).prev) : Chained t' L := by
  apply Doubly.Segment.congr h
  intro c hc
  obtain ⟨x, hx, rfl⟩ := mem_map.mp hc
  exact heq x hx

theorem LevelOk.congr (h : LevelOk t level top L) (heq : ∀ x ∈ L, t'.node x.2 = t.node x.2) :
    LevelOk t' level top L :=
  ⟨fun x hx => heq x hx ▸ h.node x hx, h.chain.congr fun x hx => by simp [heq x hx]⟩

@[simp]
theorem blocks_cons (L : List (ℕ × ℕ)) (Ls : List (List (ℕ × ℕ))) :
    blocks (L :: Ls) = L.map Prod.snd ++ blocks Ls := rfl

theorem mem_blocks_of_mem (hL : L ∈ Ls) (hx : x ∈ L) : x.2 ∈ blocks Ls :=
  mem_flatMap.mpr ⟨L, hL, mem_map_of_mem hx⟩

theorem Climb.congr (h : Climb t path level A x B rest)
    (heq : ∀ b ∈ blocks rest, t'.node b = t.node b) : Climb t' path level A x B rest := by
  induction rest generalizing level A x B with
  | nil => exact h
  | cons M rest ih =>
    obtain ⟨A', y, B', E₁, E₂, rfl, hy, rfl, rfl, hbno, hindex, hlevel, hclimb⟩ := h
    have hM : ∀ z ∈ A' ++ y :: B', t'.node z.2 = t.node z.2 := fun z hz =>
      heq _ (mem_blocks_of_mem mem_cons_self hz)
    refine ⟨A', y, B', E₁, E₂, rfl, ?_, ?_, ?_, hbno, hindex, hlevel.congr hM,
      ih hclimb fun b hb => heq b (mem_append_right _ hb)⟩
    · rw [content_congr (hM y (by simp)), hy]
    · rw [flatMap_content_congr fun z hz => hM z (by simp [hz])]
    · rw [flatMap_content_congr fun z hz => hM z (by simp [hz])]

theorem flatMap_middle {f : ℕ × ℕ → List (ℕ × ℕ)} {E₁ E₂ : List (ℕ × ℕ)}
    (hy : f y = E₁ ++ x :: E₂) :
    (A ++ y :: B).flatMap f = (A.flatMap f ++ E₁) ++ x :: (E₂ ++ B.flatMap f) := by
  rw [flatMap_append, flatMap_cons, hy]
  simp

theorem Climb.levels (h : Climb t path level A x B rest)
    (hlevel : LevelOk t level rest.isEmpty (A ++ x :: B)) :
    Levels t level ((A ++ x :: B) :: rest) := by
  induction rest generalizing level A x B with
  | nil =>
    obtain ⟨rfl, rfl, rfl, -⟩ := h
    exact ⟨rfl, hlevel⟩
  | cons M rest ih =>
    obtain ⟨A', y, B', E₁, E₂, rfl, hy, rfl, rfl, -, -, hM, hclimb⟩ := h
    exact ⟨(flatMap_middle hy).symm, hlevel, ih hclimb hM⟩

end Levels

end Tree

end StackBench.Phttpd

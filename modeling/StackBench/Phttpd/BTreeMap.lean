import Mathlib.Data.List.Infix
import Mathlib.Data.List.Zip
import StackBench.Phttpd.BTreeBuffers
import StackBench.Phttpd.BTreeSearch

/-!
# The B+ tree of phttpd as a finite map

The blocks form a tree whose leaves hold the entries in order. A lookup finds
the last value of the key, and no check fails.
-/

namespace StackBench.Phttpd

open Fences List
open Option (bind_eq_bind bind_some)

/-- The key belongs between the entries `P` and `S`. -/
def Around (P S : List (ℕ × ℕ)) (key : ℕ) : Prop := (∀ e ∈ P, e.1 < key) ∧ ∀ e ∈ S, key < e.1

section Around

variable {P S : List (ℕ × ℕ)} {key value k v : ℕ}

theorem Around.ne_key (h : Around P S key) (hmem : (k, v) ∈ P ++ S) : k ≠ key := by
  rcases mem_append.mp hmem with hmem | hmem
  · exact (h.1 _ hmem).ne
  · exact (h.2 _ hmem).ne'

theorem Around.mem_iff (h : Around P S key) :
    (k, v) ∈ P ++ (key, value) :: S ↔ if k = key then v = value else (k, v) ∈ P ++ S := by
  rw [perm_middle.mem_iff, mem_cons, Prod.mk.injEq]
  split
  · rename_i heq
    exact ⟨fun hmem => (hmem.resolve_right fun hmem => h.ne_key hmem heq).2,
      fun hv => Or.inl ⟨heq, hv⟩⟩
  · rename_i hne
    exact ⟨fun hmem => hmem.resolve_left fun heq => hne heq.1, Or.inr⟩

end Around

section Nodes

variable {n : Node} {lo level c : ℕ}

theorem Node.At.setTable (h : n.At level) (c value : ℕ) :
    Node.At { n with table := n.table.set c value } level :=
  ⟨h.magic, h.atLevel, length_set.trans h.shaped⟩

theorem Node.Ok.setTable {top : Bool} (h : n.Ok level top) (c value : ℕ) :
    Node.Ok { n with table := n.table.set c value } level top :=
  ⟨h.toAt.setTable c value, h.notFull, h.enough⟩

theorem Node.content_setTable {k v : ℕ} {C₁ C₂ : List (ℕ × ℕ)}
    (hc : n.content lo = C₁ ++ (k, v) :: C₂) (hlen : C₁.length = c) (value : ℕ) :
    content { n with table := n.table.set c value } lo = C₁ ++ (k, value) :: C₂ := by
  have hswap : n.table.zip (n.fences lo) =
      C₁.map Prod.swap ++ (v, k) :: C₂.map Prod.swap := by
    rw [← zip_swap, ← content, hc, map_append, map_cons, Prod.swap_prod_mk]
  have hset := (zip_set_length hswap value).1
  rw [length_map, hlen] at hset
  calc (n.fences lo).zip (n.table.set c value)
    _ = ((n.table.set c value).zip (n.fences lo)).map Prod.swap := (zip_swap _ _).symm
    _ = C₁ ++ (k, value) :: C₂ := by
      rw [hset, map_append, map_cons]
      simp

theorem Node.Shaped.map_snd_content {n : Node} (h : n.Shaped) (lo : ℕ) :
    (n.content lo).map Prod.snd = n.table := by
  refine map_snd_zip ?_
  rw [n.length_fences, h]

theorem Node.mem_fences {n : Node} {lo k : ℕ} (hk : k ∈ n.keys) : k ∈ n.fences lo := by
  rw [fences]
  split
  · exact hk
  · exact mem_cons_of_mem _ hk

theorem Node.Shaped.separators {n : Node} (h : n.Shaped) (hlevel : n.level ≠ 0) (lo : ℕ) {i : ℕ}
    (hi : i < n.table.length) : ∃ E₁ x E₂, n.content lo = E₁ ++ x :: E₂ ∧ x.2 = n.table.getD i 0 ∧
      (0 < i → n.keys.getD (i - 1) 0 = x.1) ∧
      (i < n.nkeys → ∃ y E, E₂ = y :: E ∧ n.keys.getD i 0 = y.1) := by
  have hnon : n.nonLeaf = 1 := by rw [nonLeaf, if_neg hlevel]
  have hfences : n.fences lo = lo :: n.keys := by rw [fences, if_neg hlevel]
  rw [h] at hi
  obtain ⟨E₂, hcut, hdrop⟩ := h.content_split lo hi
  refine ⟨_, _, E₂, hcut, rfl, fun hpos => ?_, fun hlt => ?_⟩
  · obtain ⟨j, rfl⟩ : ∃ j, i = j + 1 := ⟨i - 1, by omega⟩
    rw [hfences, getD_cons_succ, Nat.add_sub_cancel]
  · obtain ⟨E, -, hnext⟩ := h.content_split lo (m := i + 1) (by omega)
    rw [← drop_drop, hdrop, drop_succ_cons, drop_zero] at hnext
    refine ⟨_, E, hnext, ?_⟩
    rw [hfences, getD_cons_succ]

end Nodes

namespace Tree

/-- The blocks in use are the levels `L :: rest` of a tree, with the entries in order. -/
structure Built (t : Tree) (L : List (ℕ × ℕ)) (rest : List (List (ℕ × ℕ))) : Prop where
  levels : Levels t 0 (L :: rest)
  fenced : Fenced (L.map t.fenced)
  blocks_perm : (blocks (L :: rest)).Perm (List.range t.used)
  size : t.used ≤ t.size

section Built

variable {t t' : Tree} {path : Path} {key value c : ℕ} {A B L L' : List (ℕ × ℕ)} {x : ℕ × ℕ}
  {rest rest' : List (List (ℕ × ℕ))}

theorem create_built : Built create [(0, btreeRootFbn)] [] := by
  have hroot : create.node btreeRootFbn = ⟨btreeHdrMagic, 0, [], [], nodeAnchor, nodeAnchor⟩ := by
    simp [create]
  refine ⟨⟨rfl, ⟨fun x hx => ?_, rfl, ?_, ?_, ?_⟩⟩, ⟨fun x hx => ?_, pairwise_singleton _ _⟩,
    List.Perm.refl _, by decide⟩
  · rw [mem_singleton] at hx
    rw [hx, hroot]
    exact ⟨⟨rfl, rfl, rfl⟩, by decide, by decide⟩
  · decide
  · simp only [links, hroot]
  · rfl
  · have hempty : create.fenced (0, btreeRootFbn) = (0, []) := by
      rfl
    rw [map_singleton, hempty, mem_singleton] at hx
    rw [hx]
    exact ⟨List.Pairwise.nil, by simp⟩

section

variable (h : Built t L rest)
include h

theorem Built.nodup : (blocks (L :: rest)).Nodup :=
  h.blocks_perm.nodup_iff.mpr nodup_range

theorem Built.mem_iff {b : ℕ} : b ∈ blocks (L :: rest) ↔ b < t.used := by
  rw [h.blocks_perm.mem_iff, mem_range]

theorem Built.height (hused : t.used < 2 ^ 19) : rest.length ≤ 3 := by
  refine h.levels.height_le (lt_of_le_of_lt ?_ hused)
  have hlen := h.blocks_perm.length_eq
  rw [length_range, blocks_cons, length_append, length_map] at hlen
  omega

theorem Built.found (hused : t.used < 2 ^ 19) (key : ℕ) (path : Path) :
    ∃ path' A x B c, t.lookupWork key btreeMaxDepth btreeRootFbn path = some (path', x.2, c) ∧
      L = A ++ x :: B ∧ Found t key path' A x B rest c := by
  have hheight := h.height hused
  exact lookupWork_root h.levels (h.levels.fenced h.fenced) h.nodup
    (fun b hb => lt_of_lt_of_le (h.mem_iff.mp hb) h.size) (by unfold btreeMaxDepth; omega) key path

end

section

variable (h : Built t (A ++ x :: B) rest)
include h

section

variable (hf : Found t key path A x B rest c)
include hf

theorem Built.spot : Spot t path 0 A x B rest := by
  have hlevel := h.levels.levelOk
  refine ⟨hf.climb, (hlevel.node x (by simp)).toAt, fun y hy => hlevel.node y ?_, hlevel.chain,
    h.nodup, fun b hb => h.mem_iff.mp hb, h.size⟩
  rcases mem_append.mp hy with hy | hy <;> simp [hy]

omit hf in
theorem Built.leaf : (t.node x.2).At 0 ∧ (t.content x).Pairwise fun a b => a.1 < b.1 :=
  ⟨(h.levels.levelOk.node x (by simp)).toAt, (h.fenced.block (t.fenced x) (by simp)).1⟩

theorem Built.hit (hc : c < (t.node x.2).nkeys) (hkey : (t.node x.2).keys.getD c 0 = key) :
    ∃ C₁ C₂, t.content x = C₁ ++ (key, (t.node x.2).table.getD c 0) :: C₂ ∧ C₁.length = c ∧
      (∀ e ∈ C₁, e.1 < key) ∧ ∀ e ∈ C₂, key < e.1 := by
  obtain ⟨hat, hsorted⟩ := h.leaf
  have hfence : ((t.node x.2).fences x.1).getD c 0 = key := by
    rw [Node.fences, if_pos hat.atLevel, hkey]
  obtain ⟨C₂, hcut, -⟩ := hat.shaped.content_split x.1 (Nat.lt_add_right _ hc)
  rw [hfence] at hcut
  refine ⟨_, C₂, hcut, ?_, (hf.separates.leaf hat.atLevel).1, ?_⟩
  · rw [length_take, hat.shaped.length_content]
    omega
  · rw [content, hcut, pairwise_append, pairwise_cons] at hsorted
    exact hsorted.2.1.1

theorem Built.miss (hc : ¬(c < (t.node x.2).nkeys ∧ (t.node x.2).keys.getD c 0 = key)) :
    ∃ C₁ C₂, t.content x = C₁ ++ C₂ ∧ C₁.length = c ∧
      (∀ e ∈ C₁, e.1 < key) ∧ ∀ e ∈ C₂, key < e.1 := by
  obtain ⟨hat, hsorted⟩ := h.leaf
  obtain ⟨hbelow, habove⟩ : (∀ e ∈ (t.content x).take c, e.1 < key) ∧
      ∀ e ∈ (t.content x).drop c, key ≤ e.1 := hf.separates.leaf hat.atLevel
  have hlen : (t.content x).length = (t.node x.2).nkeys := by
    rw [content, hat.shaped.length_content, Node.nonLeaf, if_pos hat.atLevel, Nat.add_zero]
  have hle := hf.separates.1
  refine ⟨(t.content x).take c, (t.content x).drop c, (take_append_drop _ _).symm, ?_, hbelow, ?_⟩
  · rw [length_take, hlen]
    omega
  by_cases hlt : c < (t.node x.2).nkeys
  · -- the key at the cursor is another one, and the others are above it
    obtain ⟨C₂, hcut, hdrop⟩ := hat.shaped.content_split x.1 (Nat.lt_add_right _ hlt)
    rw [content, hcut, pairwise_append, pairwise_cons] at hsorted
    rw [content, hdrop] at habove ⊢
    have hne : ((t.node x.2).fences x.1).getD c 0 ≠ key := by
      rw [Node.fences, if_pos hat.atLevel]
      exact fun heq => hc ⟨hlt, heq⟩
    have hcursor := lt_of_le_of_ne (habove _ mem_cons_self) hne.symm
    intro e he
    rcases mem_cons.mp he with rfl | he
    · exact hcursor
    · exact hcursor.trans (hsorted.2.1.1 e he)
  · rw [drop_eq_nil_of_le (by omega)]
    simp

theorem Built.around {C₁ C₂ : List (ℕ × ℕ)} (h₁ : ∀ e ∈ C₁, e.1 < key) (h₂ : ∀ e ∈ C₂, key < e.1) :
    Around (A.flatMap t.content ++ C₁) (C₂ ++ B.flatMap t.content) key := by
  have hfenced := h.fenced
  rw [map_append, map_cons] at hfenced
  obtain ⟨-, -, hB, hbefore, -, -⟩ := fenced_middle.mp hfenced
  constructor
  · intro e he
    rcases mem_append.mp he with he | he
    · obtain ⟨y, hy, he⟩ := mem_flatMap.mp he
      exact lt_of_lt_of_le ((hbefore _ (mem_map_of_mem hy)).2 e he) hf.lower
    · exact h₁ e he
  · intro e he
    rcases mem_append.mp he with he | he
    · exact h₂ e he
    · obtain ⟨y, hy, he⟩ := mem_flatMap.mp he
      exact lt_of_lt_of_le (hf.upper y hy) ((hB.block _ (mem_map_of_mem hy)).2 e he)

end

end

theorem Built.btreeLookup_spec (h : Built t L rest) (hused : t.used < 2 ^ 19) (key : ℕ) :
    ∃ r, t.btreeLookup key = some r ∧ ∀ v, r = some v ↔ (key, v) ∈ L.flatMap t.content := by
  obtain ⟨path, A, x, B, c, hrun, rfl, hf⟩ := h.found hused key fun _ => ⟨0, 0⟩
  by_cases hhit : c < (t.node x.2).nkeys ∧ (t.node x.2).keys.getD c 0 = key
  · obtain ⟨C₁, C₂, hx, -, h₁, h₂⟩ := h.hit hf hhit.1 hhit.2
    refine ⟨some ((t.node x.2).table.getD c 0), ?_, fun v => ?_⟩
    · simp only [btreeLookup, hrun, bind_eq_bind, bind_some, if_pos hhit]
    · rw [flatMap_middle hx, (h.around hf h₁ h₂).mem_iff, if_pos rfl, Option.some.injEq, eq_comm]
  obtain ⟨C₁, C₂, hx, -, h₁, h₂⟩ := h.miss hf hhit
  refine ⟨none, ?_, fun v => ?_⟩
  · simp only [btreeLookup, hrun, bind_eq_bind, bind_some, if_neg hhit]
  · have hentries : (A ++ x :: B).flatMap t.content =
        (A.flatMap t.content ++ C₁) ++ (C₂ ++ B.flatMap t.content) := by
      rw [flatMap_append, flatMap_cons, hx]
      simp
    rw [hentries]
    exact ⟨fun hnone => absurd hnone (by simp),
      fun hmem => absurd rfl ((h.around hf h₁ h₂).ne_key hmem)⟩

theorem Inserted.built {X : List (ℕ × List (ℕ × ℕ))} (h : Built t L rest)
    (hi : Inserted t t' 0 X (L :: rest) L' rest') (hX : Fenced X) :
    Built t' L' rest' ∧ L'.flatMap t'.content = entries X := by
  refine ⟨⟨hi.levels, hX.recut hi.recut, ?_, hi.size⟩, ?_⟩
  · have hrange : List.range t'.used = List.range t.used ++
        List.range' t.used (t'.used - t.used) := by
      have happ := range'_append_1 (s := 0) (m := t.used) (n := t'.used - t.used)
      rw [Nat.zero_add, Nat.add_sub_cancel' hi.used] at happ
      rw [range_eq_range', range_eq_range', happ]
    rw [hrange]
    exact hi.blocks_perm.trans (h.blocks_perm.append_right _)
  · rw [← entries_map_fenced, hi.recut.entries_eq]

theorem Built.stored {C₁ D C₂ : List (ℕ × ℕ)} (h : Built t (A ++ x :: B) rest)
    (hf : Found t key path A x B rest c) (hx : t.content x = C₁ ++ D ++ C₂)
    (hD : ∀ e ∈ D, e.1 = key) (h₁ : ∀ e ∈ C₁, e.1 < key) (h₂ : ∀ e ∈ C₂, key < e.1)
    (hi : Inserted t t' 0 (A.map t.fenced ++ (x.1, C₁ ++ (key, value) :: C₂) :: B.map t.fenced)
      ((A ++ x :: B) :: rest) L' rest') :
    Built t' L' rest' ∧ ∀ k v, (k, v) ∈ L'.flatMap t'.content ↔
      if k = key then v = value else (k, v) ∈ (A ++ x :: B).flatMap t.content := by
  have hfenced : Fenced (A.map t.fenced ++ (x.1, C₁ ++ D ++ C₂) :: B.map t.fenced) := by
    have hfenced := h.fenced
    rwa [map_append, map_cons, Tree.fenced, hx] at hfenced
  have hsub : (C₁ ++ C₂).Sublist (C₁ ++ D ++ C₂) :=
    (sublist_append_left C₁ D).append (List.Sublist.refl C₂)
  obtain ⟨hbuilt, hentries⟩ := hi.built h ((hfenced.mono hsub).insert hf.lower h₁ h₂ fun y hy => by
    obtain ⟨z, hz, rfl⟩ := mem_map.mp hy
    exact hf.upper z hz)
  refine ⟨hbuilt, fun k v => ?_⟩
  have hnew : L'.flatMap t'.content =
      (A.flatMap t.content ++ C₁) ++ (key, value) :: (C₂ ++ B.flatMap t.content) := by
    rw [hentries, entries_append, entries_cons, entries_map_fenced, entries_map_fenced]
    simp
  rw [hnew, (h.around hf h₁ h₂).mem_iff]
  split
  · rfl
  rename_i hne
  have hnot : (k, v) ∉ D := fun hmem => hne (hD _ hmem)
  rw [flatMap_append, flatMap_cons, hx]
  simp only [mem_append, hnot, or_false, or_assoc]

theorem Built.btreeInsert_spec (h : Built t L rest) (hused : t.used < 2 ^ 19) (key value : ℕ) :
    ∃ t' L' rest', t.btreeInsert key value = some t' ∧ Built t' L' rest' ∧
      ∀ k v, (k, v) ∈ L'.flatMap t'.content ↔
        if k = key then v = value else (k, v) ∈ L.flatMap t.content := by
  have hheight := h.height hused
  obtain ⟨path, A, x, B, c, hrun, rfl, hf⟩ := h.found hused key fun _ => ⟨0, 0⟩
  have hspot := h.spot hf
  have hok := h.levels.levelOk.node x (by simp)
  by_cases hhit : c < (t.node x.2).nkeys ∧ (t.node x.2).keys.getD c 0 = key
  · obtain ⟨C₁, C₂, hx, hlen, h₁, h₂⟩ := h.hit hf hhit.1 hhit.2
    have hi := (hspot.set (hok.toAt.setTable c value) rfl rfl).inserted
      (by rw [set_node, if_pos rfl]; exact hok.setTable c value)
    have hcontent := Node.content_setTable hx hlen value
    obtain ⟨hbuilt, hentries⟩ := h.stored (D := [(key, (t.node x.2).table.getD c 0)]) hf
      (by rw [hx]; simp) (by simp) h₁ h₂ (hi.of_set hspot hcontent)
    refine ⟨_, _, _, ?_, hbuilt, hentries⟩
    simp only [btreeInsert, hrun, bind_eq_bind, bind_some, if_pos hhit]
  obtain ⟨C₁, C₂, hx, hlen, h₁, h₂⟩ := h.miss hf hhit
  have hinsert : ∃ t' L' rest',
      t.insertModify path btreeMaxDepth key value 0 = some t' ∧
      Inserted t t' 0 (A.map t.fenced ++ (x.1, C₁ ++ (key, value) :: C₂) :: B.map t.fenced)
        ((A ++ x :: B) :: rest) L' rest' := by
    refine hspot.insertModify_spec hok (by rw [hf.stored]) hx ?_ (by unfold btreeMaxDepth; omega)
      (by unfold nodeAnchor; omega)
    rw [hf.stored, hlen, Node.nonLeaf, if_pos hok.atLevel, Nat.add_zero]
  obtain ⟨t', L', rest', hmodify, hi⟩ := hinsert
  obtain ⟨hbuilt, hentries⟩ := h.stored (D := []) hf (by rw [hx]; simp) (by simp) h₁ h₂ hi
  refine ⟨t', L', rest', ?_, hbuilt, hentries⟩
  simp only [btreeInsert, hrun, bind_eq_bind, bind_some, if_neg hhit, hmodify]

end Built

inductive Op where
  | insert (key value : ℕ)
  | lookup (key : ℕ)
  deriving DecidableEq

/-- A call; a lookup leaves the tree as it is. -/
def step (t : Tree) : Op → Option Tree
  | .insert key value => t.btreeInsert key value
  | .lookup key => (t.btreeLookup key).map fun _ => t

def run (t : Tree) (ops : List Op) : Option Tree := ops.foldlM step t

/-- The buffers of a call. -/
def stepBuffers (t : Tree) : Op → Buffers → Option Buffers
  | .insert key value => t.btreeInsertBuffers key value
  | .lookup key => t.lookupBuffers key btreeMaxDepth btreeRootFbn

/-- The value of the most recent insertion of the key. -/
def latest (ops : List Op) (key : ℕ) : Option ℕ :=
  ops.foldl (fun r op => match op with
    | .insert k value => if k = key then some value else r
    | .lookup _ => r) none

/-- No tree on the way has `2 ^ 19` blocks. -/
def FewBlocks (ops : List Op) : Prop :=
  ∀ calls ∈ ops.inits, ((create.run calls).map Tree.used).getD 0 < 2 ^ 19
deriving Decidable

section Runs

variable {t : Tree} {ops : List Op}

theorem run_append (t : Tree) (ops : List Op) (op : Op) :
    t.run (ops ++ [op]) = (t.run ops).bind fun t => t.step op := by
  rw [run, foldlM_append, bind_eq_bind]
  congr 1
  funext t
  rw [foldlM_cons]
  cases t.step op <;> rfl

theorem latest_insert (ops : List Op) (key value k : ℕ) :
    latest (ops ++ [.insert key value]) k = if key = k then some value else latest ops k := by
  rw [latest, foldl_append]
  rfl

theorem latest_lookup (ops : List Op) (key k : ℕ) :
    latest (ops ++ [.lookup key]) k = latest ops k := by
  rw [latest, foldl_append]
  rfl

theorem latest_eq_none_iff (ops : List Op) (key : ℕ) :
    latest ops key = none ↔ ∀ value, Op.insert key value ∉ ops := by
  induction ops using List.reverseRecOn with
  | nil => simp [latest]
  | append_singleton ops op ih =>
    cases op with
    | insert k v =>
      rw [latest_insert]
      by_cases hk : k = key
      · rw [if_pos hk]
        exact ⟨fun hnone => absurd hnone (by simp), fun hnever => absurd (by simp [hk]) (hnever v)⟩
      · simp [hk, ih, Ne.symm hk]
    | lookup k => simp [latest_lookup, ih]

theorem FewBlocks.of_append {op : Op} (h : FewBlocks (ops ++ [op])) : FewBlocks ops := by
  intro calls hcalls
  apply h
  rw [mem_inits] at hcalls ⊢
  exact hcalls.trans (prefix_append _ _)

theorem FewBlocks.used_lt (h : FewBlocks ops) (hrun : create.run ops = some t) :
    t.used < 2 ^ 19 := by
  have := h ops ((mem_inits _ _).mpr (prefix_refl ops))
  rwa [hrun] at this

theorem run_built (h : FewBlocks ops) :
    ∃ t L rest, create.run ops = some t ∧ Built t L rest ∧
      ∀ k v, (k, v) ∈ L.flatMap t.content ↔ latest ops k = some v := by
  induction ops using List.reverseRecOn with
  | nil =>
    refine ⟨create, _, _, rfl, create_built, fun k v => ?_⟩
    simp [latest, content, create, Node.content, Node.fences]
  | append_singleton ops op ih =>
    obtain ⟨t, L, rest, hrun, hbuilt, hentries⟩ := ih h.of_append
    have hused := h.of_append.used_lt hrun
    rw [run_append, hrun, bind_some]
    cases op with
    | insert key value =>
      obtain ⟨t', L', rest', hinsert, hbuilt', hentries'⟩ := hbuilt.btreeInsert_spec hused key value
      refine ⟨t', L', rest', hinsert, hbuilt', fun k v => ?_⟩
      rw [hentries', hentries, latest_insert]
      by_cases hk : k = key
      · rw [if_pos hk, if_pos hk.symm, Option.some.injEq, eq_comm]
      · rw [if_neg hk, if_neg (Ne.symm hk)]
    | lookup key =>
      obtain ⟨r, hlookup, -⟩ := hbuilt.btreeLookup_spec hused key
      refine ⟨t, L, rest, ?_, hbuilt, fun k v => ?_⟩
      · rw [step, hlookup, Option.map_some]
      · rw [hentries, latest_lookup]

theorem balanced_step {op : Op} {t' : Tree} (h : t.step op = some t') :
    Buffers.Balanced maxBuffers (t.stepBuffers op) := by
  cases op with
  | insert key value => exact balanced_btreeInsert h
  | lookup key =>
    obtain ⟨r, hlookup, -⟩ := Option.map_eq_some_iff.mp h
    obtain ⟨out, hout, -⟩ := Option.bind_eq_some_iff.mp hlookup
    exact (balanced_lookup hout).mono (by decide)

end Runs

/-- A file: its tree and its buffers. -/
structure Gfile where
  tree : Tree
  bufs : Buffers

namespace Gfile

/-- The buffer of the root is released again. -/
def create : Gfile := ⟨Tree.create, ⟨1, fun _ => false⟩⟩

/-- A call; `none` is an assertion that fails, in the tree or in `bread`. -/
def step (f : Gfile) (op : Op) : Option Gfile := do
  let t ← f.tree.step op
  let s ← f.tree.stepBuffers op f.bufs
  some ⟨t, s⟩

def run (f : Gfile) (ops : List Op) : Option Gfile := ops.foldlM step f

variable {f : Gfile} {t' : Tree}

/-- Between two calls no buffer is in use, so the buffers stop no call. -/
theorem step_free (hfree : f.bufs.inUse = fun _ => false) {op : Op}
    (h : f.tree.step op = some t') :
    ∃ s, f.step op = some ⟨t', s⟩ ∧ s.inUse = fun _ => false := by
  have hsince : f.bufs.Since f.bufs.idx :=
    ⟨le_rfl, fun slot huse => by rw [hfree] at huse; cases huse⟩
  obtain ⟨s, hs, huse, -⟩ := balanced_step h f.bufs _ hsince le_rfl
  exact ⟨s, by simp [step, h, hs], huse.trans hfree⟩

theorem run_free (hfree : f.bufs.inUse = fun _ => false) {ops : List Op}
    (h : f.tree.run ops = some t') :
    ∃ s, f.run ops = some ⟨t', s⟩ ∧ s.inUse = fun _ => false := by
  induction ops generalizing f with
  | nil =>
    cases h
    exact ⟨f.bufs, rfl, hfree⟩
  | cons op ops ih =>
    obtain ⟨t, hstep, hrun⟩ := Option.bind_eq_some_iff.mp h
    obtain ⟨s, hs, hfree'⟩ := step_free hfree hstep
    obtain ⟨s', hs', hfree''⟩ := ih (f := ⟨t, s⟩) hfree' hrun
    exact ⟨s', by rw [run, foldlM_cons, hs]; exact hs', hfree''⟩

end Gfile

/-- After any calls, a lookup returns the value inserted last for the key, or `ENOENT`, and neither
it nor a call before it fails. -/
theorem btree_finite_map (ops : List Op) (h : FewBlocks ops) (key : ℕ) :
    ∃ f, Gfile.create.run ops = some f ∧ (f.step (.lookup key)).isSome = true ∧
      f.tree.btreeLookup key = some (latest ops key) ∧
      (latest ops key = none ↔ ∀ value, Op.insert key value ∉ ops) := by
  obtain ⟨t, L, rest, hrun, hbuilt, hentries⟩ := run_built h
  obtain ⟨r, hlookup, hr⟩ := hbuilt.btreeLookup_spec (h.used_lt hrun) key
  obtain ⟨s, hs, hfree⟩ := Gfile.run_free (f := Gfile.create) rfl hrun
  have hstep : t.step (.lookup key) = some t := by rw [step, hlookup, Option.map_some]
  obtain ⟨s', hs', -⟩ := Gfile.step_free (f := ⟨t, s⟩) hfree hstep
  refine ⟨⟨t, s⟩, hs, by rw [hs']; rfl, ?_, latest_eq_none_iff ops key⟩
  rw [hlookup]
  congr 1
  apply Option.ext
  intro v
  rw [hr, hentries]

theorem btree_finite_map_overwrite :
    FewBlocks [.insert 7 1, .insert 3 2, .lookup 7, .insert 7 5] ∧
      ∃ f, Gfile.create.run [.insert 7 1, .insert 3 2, .lookup 7, .insert 7 5] = some f ∧
        f.tree.btreeLookup 7 = some (some 5) := by
  have hfew : FewBlocks [.insert 7 1, .insert 3 2, .lookup 7, .insert 7 5] := by decide +kernel
  obtain ⟨f, hrun, -, hlookup, -⟩ := btree_finite_map _ hfew 7
  exact ⟨hfew, f, hrun, hlookup⟩

/-- Calls that stop at no other check never find the next slot in use, and each releases every
buffer that it read. -/
theorem buffers_released (ops : List Op) (h : (create.run ops).isSome = true) :
    ∃ f, Gfile.create.run ops = some f ∧ create.run ops = some f.tree ∧
      ∀ slot, f.bufs.inUse slot = false := by
  obtain ⟨t, ht⟩ := Option.isSome_iff_exists.mp h
  obtain ⟨s, hs, hfree⟩ := Gfile.run_free (f := Gfile.create) rfl ht
  exact ⟨⟨t, s⟩, hs, ht, fun slot => congrFun hfree slot⟩

/-- The root is split, and later the left leaf is shifted into the right one. -/
theorem buffers_released_shift :
    let ops := (range 385).map fun k => Op.insert (385 - k) k
    ∃ f, Gfile.create.run ops = some f ∧ (f.tree.node btreeRootFbn).level = 1 ∧
      f.tree.used = 3 ∧ ∀ slot, f.bufs.inUse slot = false := by
  intro ops
  have hshape : (create.run ops).map (fun t => ((t.node btreeRootFbn).level, t.used)) =
      some (1, 3) := by decide +kernel
  obtain ⟨t, ht, hshape⟩ := Option.map_eq_some_iff.mp hshape
  obtain ⟨f, hf, htree, hfree⟩ := buffers_released ops (by rw [ht]; rfl)
  cases ht.symm.trans htree
  rw [Prod.mk.injEq] at hshape
  exact ⟨f, hf, hshape.1, hshape.2, hfree⟩

/-- The blocks at a depth below the root, from left to right. -/
def atDepth (t : Tree) : ℕ → List ℕ
  | 0 => [btreeRootFbn]
  | depth + 1 => (t.atDepth depth).flatMap fun b =>
    if (t.node b).level = 0 then [] else (t.node b).table

/-- What a reader of the file finds when it follows the tables and the links. -/
structure Structured (t : Tree) : Prop where
  /-- The keys of a node are in order. -/
  keys_sorted : ∀ depth, ∀ b ∈ t.atDepth depth, (t.node b).keys.Pairwise (· < ·)
  /-- The keys of a child are between the separators of its parent. -/
  separated : ∀ depth, ∀ b ∈ t.atDepth depth, (t.node b).level ≠ 0 →
    ∀ i < (t.node b).table.length, ∀ k ∈ (t.node ((t.node b).table.getD i 0)).keys,
      (0 < i → (t.node b).keys.getD (i - 1) 0 ≤ k) ∧
      (i < (t.node b).nkeys → k < (t.node b).keys.getD i 0)
  /-- All leaves have the depth that the level of the root says. -/
  levels : ∀ depth, ∀ b ∈ t.atDepth depth,
    (t.node b).level + depth = (t.node btreeRootFbn).level
  /-- No node is full. -/
  notFull : ∀ depth, ∀ b ∈ t.atDepth depth, (t.node b).nkeys < btreeN (t.node b).level
  /-- The links run through the nodes of a depth from left to right and back. -/
  chained : ∀ depth ≤ (t.node btreeRootFbn).level, (t.atDepth depth).Nodup ∧
    Doubly.Segment t.links nodeAnchor nodeAnchor ((t.atDepth depth).headD nodeAnchor)
      (t.atDepth depth)
  /-- This is the order of the keys. -/
  ordered : ∀ depth, ((t.atDepth depth).flatMap fun b => (t.node b).keys).Pairwise (· < ·)
  /-- Every block in use is at some depth. -/
  covered : ∀ b < t.used, ∃ depth, b ∈ t.atDepth depth

section Structured

variable {t : Tree} {level : ℕ} {L : List (ℕ × ℕ)} {rest Ls : List (List (ℕ × ℕ))}

theorem Levels.levelOk_getD (h : Levels t 0 Ls) (hlevel : level < Ls.length) :
    LevelOk t level (Ls.drop (level + 1)).isEmpty (Ls.getD level []) := by
  have hdrop := h.drop hlevel
  rw [Nat.zero_add, drop_eq_getElem_cons hlevel] at hdrop
  rw [getD_eq_getElem _ _ hlevel]
  exact hdrop.levelOk

theorem Levels.getD_eq (h : Levels t 0 Ls) (hlevel : level + 1 < Ls.length) :
    Ls.getD level [] = (Ls.getD (level + 1) []).flatMap t.content := by
  have hdrop := h.drop (Nat.lt_of_succ_lt hlevel)
  rw [Nat.zero_add, drop_eq_getElem_cons (Nat.lt_of_succ_lt hlevel),
    drop_eq_getElem_cons hlevel] at hdrop
  rw [getD_eq_getElem _ _ hlevel, getD_eq_getElem _ _ (Nat.lt_of_succ_lt hlevel)]
  exact hdrop.1

section

variable (h : Levels t 0 (L :: rest))
include h

theorem Levels.getD_top : (L :: rest).getD rest.length [] = [(0, btreeRootFbn)] := by
  have hlt : rest.length < (L :: rest).length := Nat.lt_succ_self _
  have hdrop := h.drop hlt
  rw [Nat.zero_add, drop_eq_getElem_cons hlt, drop_eq_nil_of_le (by rw [length_cons])] at hdrop
  rw [getD_eq_getElem _ _ hlt]
  exact hdrop.1

theorem Levels.atDepth_eq {depth : ℕ} (hsum : level + depth = rest.length) :
    t.atDepth depth = ((L :: rest).getD level []).map Prod.snd := by
  induction depth generalizing level with
  | zero =>
    rw [← (by omega : rest.length = level), h.getD_top]
    rfl
  | succ depth ih =>
    have hlt : level + 1 < (L :: rest).length := by
      rw [length_cons]
      omega
    have htable : ∀ y ∈ (L :: rest).getD (level + 1) [],
        (if (t.node y.2).level = 0 then [] else (t.node y.2).table) =
          (t.content y).map Prod.snd := by
      intro y hy
      have hok := (h.levelOk_getD hlt).node y hy
      rw [hok.atLevel, if_neg (Nat.succ_ne_zero level)]
      exact (hok.shaped.map_snd_content y.1).symm
    have hupper : t.atDepth depth = ((L :: rest).getD (level + 1) []).map Prod.snd := ih (by omega)
    rw [atDepth, hupper, h.getD_eq hlt, flatMap_map, map_flatMap, flatMap_def, flatMap_def]
    exact congrArg List.flatten (map_congr_left htable)

theorem Levels.atDepth_nil {depth : ℕ} (hdepth : rest.length < depth) : t.atDepth depth = [] := by
  induction depth with
  | zero => omega
  | succ depth ih =>
    rcases Nat.lt_or_ge rest.length depth with hlt | hge
    · rw [atDepth, ih hlt, flatMap_nil]
    have hleaves : t.atDepth depth = ((L :: rest).getD 0 []).map Prod.snd := h.atDepth_eq (by omega)
    rw [atDepth, flatMap_eq_nil_iff, hleaves]
    intro b hb
    obtain ⟨x, hx, rfl⟩ := mem_map.mp hb
    rw [((h.levelOk_getD (Nat.succ_pos _)).node x hx).atLevel, if_pos rfl]

theorem Levels.mem_atDepth {depth b : ℕ} (hb : b ∈ t.atDepth depth) :
    ∃ level, level + depth = rest.length ∧ ∃ x ∈ (L :: rest).getD level [], x.2 = b := by
  rcases Nat.lt_or_ge rest.length depth with hlt | hge
  · rw [h.atDepth_nil hlt] at hb
    exact absurd hb not_mem_nil
  have hsum : (rest.length - depth) + depth = rest.length := Nat.sub_add_cancel hge
  rw [h.atDepth_eq hsum] at hb
  obtain ⟨x, hx, rfl⟩ := mem_map.mp hb
  exact ⟨_, hsum, x, hx, rfl⟩

end

theorem exists_mem_content {x : ℕ × ℕ} {k : ℕ} (h : (t.node x.2).Shaped)
    (hk : k ∈ (t.node x.2).keys) : ∃ e ∈ t.content x, e.1 = k := by
  have hmem : k ∈ (t.node x.2).fences x.1 := Node.mem_fences hk
  rw [← h.map_fst_content x.1] at hmem
  exact mem_map.mp hmem

section

variable (h : Built t L rest)
include h

theorem Built.fenced_getD (hlevel : level ≤ rest.length) :
    Fenced (((L :: rest).getD level []).map t.fenced) := by
  have hlt : level < (L :: rest).length := Nat.lt_succ_of_le hlevel
  refine h.levels.fenced h.fenced _ ?_
  rw [getD_eq_getElem _ _ hlt]
  exact getElem_mem hlt

theorem Built.node_getD (hlevel : level ≤ rest.length) {x : ℕ × ℕ}
    (hx : x ∈ (L :: rest).getD level []) :
    (t.node x.2).At level ∧ (t.node x.2).nkeys < btreeN level := by
  have hok := (h.levels.levelOk_getD (Nat.lt_succ_of_le hlevel)).node x hx
  exact ⟨hok.toAt, hok.notFull⟩

theorem Built.separated {y : ℕ × ℕ} (hlevel : level + 1 ≤ rest.length)
    (hy : y ∈ (L :: rest).getD (level + 1) []) {i k : ℕ} (hi : i < (t.node y.2).table.length)
    (hk : k ∈ (t.node ((t.node y.2).table.getD i 0)).keys) :
    (0 < i → (t.node y.2).keys.getD (i - 1) 0 ≤ k) ∧
      (i < (t.node y.2).nkeys → k < (t.node y.2).keys.getD i 0) := by
  have hat := (h.node_getD hlevel hy).1
  obtain ⟨E₁, x, E₂, hcontent, hx, hlower, hupper⟩ :=
    hat.shaped.separators (by rw [hat.atLevel]; omega) y.1 hi
  obtain ⟨P, S, hM⟩ := append_of_mem hy
  have hbelow := h.levels.getD_eq (Nat.lt_succ_of_le hlevel)
  rw [hM, flatMap_middle hcontent] at hbelow
  have hmem : x ∈ (L :: rest).getD level [] := by
    rw [hbelow]
    simp
  have hfenced := h.fenced_getD (Nat.le_of_succ_le hlevel)
  rw [hbelow, map_append, map_cons] at hfenced
  obtain ⟨-, hblock, -, -, hbehind, -⟩ := fenced_middle.mp hfenced
  rw [← hx] at hk
  obtain ⟨e, he, rfl⟩ :=
    exists_mem_content (h.node_getD (Nat.le_of_succ_le hlevel) hmem).1.shaped hk
  refine ⟨fun hpos => ?_, fun hlt => ?_⟩
  · rw [hlower hpos]
    exact hblock.2 e he
  · obtain ⟨z, E, rfl, hz⟩ := hupper hlt
    rw [hz]
    exact (hbehind (t.fenced z) (by simp)).2 e he

theorem Built.ordered (hlevel : level ≤ rest.length) :
    (((L :: rest).getD level []).flatMap fun x => (t.node x.2).keys).Pairwise (· < ·) := by
  have hfenced := h.fenced_getD hlevel
  rw [pairwise_flatMap]
  refine ⟨fun x hx => (h.node_getD hlevel hx).1.shaped.keys_sorted
    (hfenced.block (t.fenced x) (mem_map_of_mem hx)), ?_⟩
  refine (pairwise_map.mp hfenced.below).imp_of_mem fun {x y} hx hy hbelow k hk l hl => ?_
  obtain ⟨e, he, rfl⟩ := exists_mem_content (h.node_getD hlevel hx).1.shaped hk
  obtain ⟨f, hf, rfl⟩ := exists_mem_content (h.node_getD hlevel hy).1.shaped hl
  exact lt_of_lt_of_le (hbelow.2 e he)
    ((hfenced.block (t.fenced y) (mem_map_of_mem hy)).2 f hf)

theorem Built.structured : Structured t := by
  have hroot : (t.node btreeRootFbn).level = rest.length :=
    (h.node_getD (x := (0, btreeRootFbn)) le_rfl
      (by rw [h.levels.getD_top]; exact mem_cons_self)).1.atLevel
  constructor
  · intro depth b hb
    obtain ⟨level, hsum, x, hx, rfl⟩ := h.levels.mem_atDepth hb
    have hle : level ≤ rest.length := by omega
    exact (h.node_getD hle hx).1.shaped.keys_sorted
      ((h.fenced_getD hle).block (t.fenced x) (mem_map_of_mem hx))
  · intro depth b hb hinner i hi k hk
    obtain ⟨level, hsum, y, hy, rfl⟩ := h.levels.mem_atDepth hb
    have hle : level ≤ rest.length := by omega
    rw [(h.node_getD hle hy).1.atLevel] at hinner
    obtain _ | level := level
    · omega
    exact h.separated hle hy hi hk
  · intro depth b hb
    obtain ⟨level, hsum, x, hx, rfl⟩ := h.levels.mem_atDepth hb
    rw [(h.node_getD (by omega) hx).1.atLevel, hroot, hsum]
  · intro depth b hb
    obtain ⟨level, hsum, x, hx, rfl⟩ := h.levels.mem_atDepth hb
    have hx := h.node_getD (by omega) hx
    rw [hx.1.atLevel]
    exact hx.2
  · intro depth hdepth
    rw [hroot] at hdepth
    have hlt : rest.length - depth < (L :: rest).length := by
      rw [length_cons]
      omega
    rw [h.levels.atDepth_eq (Nat.sub_add_cancel hdepth)]
    refine ⟨(nodup_flatMap.mp h.nodup).1 _ ?_, (h.levels.levelOk_getD hlt).chain⟩
    rw [getD_eq_getElem _ _ hlt]
    exact getElem_mem hlt
  · intro depth
    rcases Nat.lt_or_ge rest.length depth with hlt | hge
    · rw [h.levels.atDepth_nil hlt]
      exact List.Pairwise.nil
    · rw [h.levels.atDepth_eq (Nat.sub_add_cancel hge), flatMap_map]
      exact h.ordered (Nat.sub_le _ _)
  · intro b hb
    obtain ⟨M, hM, hbM⟩ := mem_flatMap.mp (h.mem_iff.mpr hb)
    obtain ⟨level, hlevel, rfl⟩ := getElem_of_mem hM
    have hlt := hlevel
    rw [length_cons] at hlt
    refine ⟨rest.length - level, ?_⟩
    have hsum : level + (rest.length - level) = rest.length := by omega
    rw [h.levels.atDepth_eq hsum, getD_eq_getElem _ _ hlevel]
    exact hbM

end

/-- After any calls the blocks have the structure of a B+ tree, and no check has failed. -/
theorem btree_structure (ops : List Op) (h : FewBlocks ops) :
    ∃ t, create.run ops = some t ∧ Structured t := by
  obtain ⟨t, L, rest, hrun, hbuilt, -⟩ := run_built h
  exact ⟨t, hrun, hbuilt.structured⟩

theorem btree_structure_three :
    FewBlocks [.insert 7 1, .insert 3 2, .insert 5 9] ∧
      ∃ t, create.run [.insert 7 1, .insert 3 2, .insert 5 9] = some t ∧ Structured t := by
  have hfew : FewBlocks [.insert 7 1, .insert 3 2, .insert 5 9] := by decide +kernel
  exact ⟨hfew, btree_structure _ hfew⟩

end Structured

end Tree

end StackBench.Phttpd

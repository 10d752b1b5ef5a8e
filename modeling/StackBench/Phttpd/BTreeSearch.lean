import Mathlib.Algebra.Order.Ring.Nat
import StackBench.Phttpd.BTreeInsert

/-!
# Search in the B+ tree of phttpd

The binary search of a node finds where a key belongs, and the descent from the
root finds the leaf and leaves the way in the path.
-/

namespace StackBench.Phttpd

open Function List
open Fences

section Node

variable {n : Node} {key lo : ℕ}

theorem getD_lt_getD {keys : List ℕ} (h : keys.Pairwise (· < ·)) {i j : ℕ} (hij : i < j)
    (hj : j < keys.length) : keys.getD i 0 < keys.getD j 0 := by
  rw [getD_eq_getElem _ _ (hij.trans hj), getD_eq_getElem _ _ hj]
  exact pairwise_iff_getElem.mp h i j _ _ hij

/-- The keys before the cursor are below the key in a leaf, and at most the key in an inner node. -/
def Separates (n : Node) (key c : ℕ) : Prop :=
  c ≤ n.nkeys ∧ (∀ i < c, n.keys.getD i 0 < key + n.nonLeaf) ∧
    ∀ i, c ≤ i → i < n.nkeys → key + n.nonLeaf ≤ n.keys.getD i 0

theorem intraLoop_spec (hsorted : n.keys.Pairwise (· < ·)) {fuel left hi : ℕ}
    (hfuel : hi - left < fuel) (hle : left ≤ hi) (hhi : hi ≤ n.nkeys)
    (hbelow : ∀ i < left, n.keys.getD i 0 < key)
    (habove : ∀ i, hi ≤ i → i < n.nkeys → key < n.keys.getD i 0) :
    ∃ c, intraLoop n key fuel left hi = some c ∧ Separates n key c := by
  have hnon := n.nonLeaf_le
  induction fuel generalizing left hi with
  | zero => omega
  | succ fuel ih =>
    rw [intraLoop]
    by_cases hend : hi ≤ left
    · -- the bounds met, and the key before them is below
      obtain rfl : left = hi := le_antisymm hle hend
      have hlast : ¬(0 < left ∧ n.keys.getD (left - 1) 0 > key) := by
        rintro ⟨hpos, hgt⟩
        exact absurd (hbelow (left - 1) (by omega)) (by omega)
      rw [if_pos hend, if_neg hlast]
      refine ⟨left, rfl, hhi, fun i hi => ?_, fun i hi hn => ?_⟩
      · exact lt_of_lt_of_le (hbelow i hi) (Nat.le_add_right _ _)
      · have := habove i hi hn
        omega
    rw [if_neg hend]
    obtain ⟨cursor, hcursor⟩ : ∃ c, (hi - 1 + left) / 2 = c := ⟨_, rfl⟩
    rw [hcursor]
    have hlo : left ≤ cursor := by omega
    have hlt : cursor < hi := by omega
    by_cases heq : key = n.keys.getD cursor 0
    · rw [if_pos heq]
      refine ⟨cursor + n.nonLeaf, rfl, by omega, fun i hi => ?_, fun i hi hn => ?_⟩
      · rcases Nat.lt_trichotomy i cursor with h | rfl | h
        · have := getD_lt_getD hsorted h (lt_of_lt_of_le hlt hhi)
          omega
        · omega
        · omega
      · rcases Nat.lt_trichotomy i cursor with h | rfl | h
        · omega
        · omega
        · have := getD_lt_getD hsorted h hn
          omega
    rw [if_neg heq]
    by_cases hkey : key < n.keys.getD cursor 0
    · rw [if_pos hkey]
      refine ih (by omega) hlo (by omega) hbelow fun i hi hn => ?_
      rcases Nat.eq_or_lt_of_le hi with rfl | h
      · exact hkey
      · exact hkey.trans (getD_lt_getD hsorted h hn)
    rw [if_neg hkey]
    refine ih (by omega) (by omega) hhi (fun i hi => ?_) habove
    rcases Nat.eq_or_lt_of_le (Nat.le_of_lt_succ hi) with rfl | h
    · omega
    · have := getD_lt_getD hsorted h (lt_of_lt_of_le hlt hhi)
      omega

theorem btreeIntraLookup_spec (hsorted : n.keys.Pairwise (· < ·)) (key : ℕ) :
    ∃ c, btreeIntraLookup n key = some c ∧ Separates n key c := by
  obtain ⟨c, hrun, hc⟩ : ∃ c, intraLoop n key (n.nkeys + 1) 0 n.nkeys = some c ∧
      Separates n key c :=
    intraLoop_spec hsorted (Nat.lt_succ_self _) (Nat.zero_le _) le_rfl
      (fun i hi => absurd hi (Nat.not_lt_zero i)) fun i hi hn => absurd hi (Nat.not_le.mpr hn)
  refine ⟨c, ?_, hc⟩
  have hcheck : c = n.nkeys ∨ n.keys.getD c 0 ≥ key := by
    rcases Nat.eq_or_lt_of_le hc.1 with heq | hlt
    · exact Or.inl heq
    · exact Or.inr ((Nat.le_add_right _ _).trans (hc.2.2 c le_rfl hlt))
  simp only [btreeIntraLookup, hrun, check, if_pos hc.1, if_pos hcheck, Option.bind_eq_bind,
    Option.bind_some, Option.pure_def]

theorem Separates.take {c k : ℕ} (h : Separates n key c) (hk : k ∈ n.keys.take c) :
    k < key + n.nonLeaf := by
  obtain ⟨i, hi, rfl⟩ := mem_take_iff_getElem.mp hk
  have := h.2.1 i (by omega)
  rwa [getD_eq_getElem _ _ (by omega)] at this

theorem Separates.drop {c k : ℕ} (h : Separates n key c) (hk : k ∈ n.keys.drop c) :
    key + n.nonLeaf ≤ k := by
  obtain ⟨i, hi, rfl⟩ := mem_drop_iff_getElem.mp hk
  rw [Nat.add_comm] at hi
  have := h.2.2 (c + i) (by omega) hi
  rwa [getD_eq_getElem _ _ hi] at this

theorem Node.mem_content_take {c : ℕ} {e : ℕ × ℕ} (he : e ∈ (n.content lo).take c) :
    e.1 ∈ (n.fences lo).take c := by
  rw [content, List.zip, take_zipWith] at he
  exact (of_mem_zip he).1

theorem Node.mem_content_drop {c : ℕ} {e : ℕ × ℕ} (he : e ∈ (n.content lo).drop c) :
    e.1 ∈ (n.fences lo).drop c := by
  rw [content, List.zip, drop_zipWith] at he
  exact (of_mem_zip he).1

theorem Separates.leaf {c : ℕ} (h : Separates n key c) (hlevel : n.level = 0) :
    (∀ e ∈ (n.content lo).take c, e.1 < key) ∧ ∀ e ∈ (n.content lo).drop c, key ≤ e.1 := by
  have hnon : n.nonLeaf = 0 := by rw [Node.nonLeaf, if_pos hlevel]
  have hfences : n.fences lo = n.keys := by rw [Node.fences, if_pos hlevel]
  constructor
  · intro e he
    have := h.take (hfences ▸ Node.mem_content_take he)
    rwa [hnon] at this
  · intro e he
    have := h.drop (hfences ▸ Node.mem_content_drop he)
    rwa [hnon] at this

theorem Separates.inner {c : ℕ} (h : Separates n key c) (hlevel : n.level ≠ 0) (hn : n.Shaped)
    (hlo : lo ≤ key) : ∃ E₁ x E₂, n.content lo = E₁ ++ x :: E₂ ∧ E₁.length = c ∧
      x.2 = n.table.getD c 0 ∧ x.1 ≤ key ∧ ∀ e ∈ E₂, key < e.1 := by
  have hnon : n.nonLeaf = 1 := by rw [Node.nonLeaf, if_neg hlevel]
  have hfences : n.fences lo = lo :: n.keys := by rw [Node.fences, if_neg hlevel]
  have hc := h.1
  obtain ⟨E₂, hcut, hdrop⟩ := hn.content_split lo (m := c) (by omega)
  refine ⟨_, _, E₂, hcut, ?_, rfl, ?_, fun e he => ?_⟩
  · rw [length_take, hn.length_content]
    omega
  · cases c with
    | zero => simpa [hfences] using hlo
    | succ c =>
      have hkey := h.2.1 c (Nat.lt_succ_self c)
      rw [hfences, getD_cons_succ]
      omega
  · have hmem : e ∈ (n.content lo).drop (c + 1) := by
      rw [← drop_drop, hdrop]
      exact he
    have hfence := Node.mem_content_drop hmem
    rw [hfences, drop_succ_cons] at hfence
    have := h.drop hfence
    omega

theorem Node.Shaped.map_fst_content (h : n.Shaped) (lo : ℕ) :
    (n.content lo).map Prod.fst = n.fences lo := by
  refine map_fst_zip ?_
  rw [n.length_fences, h]

theorem Node.Shaped.content_head (h : n.Shaped) (hlevel : n.level ≠ 0) (lo : ℕ) :
    ∃ e E, n.content lo = e :: E ∧ e.1 = lo := by
  have hfst := h.map_fst_content lo
  rw [fences, if_neg hlevel] at hfst
  obtain ⟨e, E, hE, he, -⟩ := map_eq_cons_iff.mp hfst
  exact ⟨e, E, hE, he⟩

theorem Node.Shaped.keys_sorted (h : n.Shaped) (hblock : BlockOk (lo, n.content lo)) :
    n.keys.Pairwise (· < ·) := by
  have hsorted : ((n.content lo).map Prod.fst).Pairwise (· < ·) := pairwise_map.mpr hblock.1
  rw [h.map_fst_content lo, fences] at hsorted
  split at hsorted
  · exact hsorted
  · exact (pairwise_cons.mp hsorted).2

end Node

namespace Tree

section Descent

variable {t : Tree} {path path' : Path} {key level : ℕ} {A B L M : List (ℕ × ℕ)} {x : ℕ × ℕ}
  {rest Ls : List (List (ℕ × ℕ))}

theorem Levels.levelOk (h : Levels t level (L :: rest)) : LevelOk t level rest.isEmpty L := by
  cases rest with
  | nil => exact h.2
  | cons M rest => exact h.2.1

theorem Levels.tail (h : Levels t level (L :: M :: rest)) : Levels t (level + 1) (M :: rest) :=
  h.2.2

theorem Levels.drop (h : Levels t level Ls) {i : ℕ} (hi : i < Ls.length) :
    Levels t (level + i) (Ls.drop i) := by
  induction i generalizing level Ls with
  | zero => exact h
  | succ i ih =>
    match Ls, h, hi with
    | L :: M :: rest, h, hi =>
      have htail := ih h.tail (Nat.lt_of_succ_lt_succ hi)
      rw [Nat.add_assoc, Nat.add_comm 1 i] at htail
      exact htail

theorem Levels.fenced (h : Levels t level (L :: rest)) (hL : Fenced (L.map t.fenced)) :
    ∀ M ∈ L :: rest, Fenced (M.map t.fenced) := by
  induction rest generalizing level L with
  | nil =>
    intro M hM
    rw [mem_singleton] at hM
    exact hM ▸ hL
  | cons N rest ih =>
    obtain ⟨hcover, -, hupper⟩ := h
    have hN : Fenced (N.map t.fenced) := by
      apply Fenced.of_entries
      · rw [entries_map_fenced, ← hcover]
        exact (pairwise_map.mp hL.below).imp And.left
      · intro y hy
        obtain ⟨z, hz, rfl⟩ := mem_map.mp hy
        have hok := hupper.levelOk.node z hz
        exact hok.shaped.content_head (by rw [hok.atLevel]; omega) z.1
    intro M hM
    rcases mem_cons.mp hM with rfl | hM
    · exact hL
    · exact ih hupper hN M hM

theorem Climb.path_congr (h : Climb t path level A x B rest)
    (heq : ∀ j, level < j → path' j = path j) : Climb t path' level A x B rest := by
  induction rest generalizing level A x B with
  | nil =>
    obtain ⟨hA, hB, hx, hindex⟩ := h
    exact ⟨hA, hB, hx, heq (level + 1) (Nat.lt_succ_self _) ▸ hindex⟩
  | cons M rest ih =>
    obtain ⟨A', y, B', E₁, E₂, hM, hy, hA, hB, hbno, hindex, hlevel, hclimb⟩ := h
    have hpath := heq (level + 1) (Nat.lt_succ_self _)
    exact ⟨A', y, B', E₁, E₂, hM, hy, hA, hB, hpath ▸ hbno, hpath ▸ hindex, hlevel,
      ih hclimb fun j hj => heq j (Nat.lt_of_succ_lt hj)⟩

/-- The path with what `btree_lookup_work` stores at a node. -/
def storePath (path : Path) (level b c : ℕ) : Path :=
  update (if b = btreeRootFbn
    then update path (level + 1) ⟨btreeRootAddr, btreeRootAddr⟩ else path) level ⟨b, c⟩

theorem lookupWork_eq {b c fuel : ℕ} (hsize : b < t.size) (hat : (t.node b).At level)
    (hdepth : level + 1 < btreeMaxDepth) (hc : btreeIntraLookup (t.node b) key = some c) :
    t.lookupWork key (fuel + 1) b path =
      if level = 0 then some (storePath path level b c, b, c)
      else t.lookupWork key fuel ((t.node b).table.getD c 0) (storePath path level b c) := by
  have hlt : level < btreeMaxDepth := Nat.lt_of_succ_lt hdepth
  by_cases hroot : b = btreeRootFbn
  · simp only [lookupWork, bread, check, if_pos hsize, hat.magic, hat.atLevel, if_true,
      if_pos hroot, Path.set, if_pos hdepth, if_pos hlt, hc, Option.bind_eq_bind,
      Option.bind_some, storePath]
  · simp only [lookupWork, bread, check, if_pos hsize, hat.magic, hat.atLevel, if_true,
      if_neg hroot, Path.set, if_pos hlt, hc, Option.bind_eq_bind, Option.bind_some, storePath]

theorem storePath_self (path : Path) (level b c : ℕ) : storePath path level b c level = ⟨b, c⟩ :=
  update_self _ _ _

theorem Levels.root_mem (h : Levels t level Ls) : btreeRootFbn ∈ blocks Ls := by
  induction Ls generalizing level with
  | nil => exact h.elim
  | cons L rest ih =>
    cases rest with
    | nil =>
      rw [h.1]
      exact mem_cons_self
    | cons M rest => exact mem_append_right _ (ih h.tail)

theorem Levels.climb_store (h : Levels t level ((A ++ x :: B) :: rest))
    (hnodup : (blocks ((A ++ x :: B) :: rest)).Nodup)
    (hclimb : rest = [] ∨ Climb t path level A x B rest) (c : ℕ) :
    Climb t (storePath path level x.2 c) level A x B rest := by
  cases rest with
  | nil =>
    obtain ⟨rfl, hx⟩ := append_eq_singleton_iff.mp h.1 |>.resolve_right (by simp)
    obtain ⟨rfl, rfl⟩ := hx
    refine ⟨rfl, rfl, rfl, ?_⟩
    rw [storePath, update_of_ne (Nat.succ_ne_self level), if_pos rfl, update_self]
  | cons M rest =>
    have hclimb := hclimb.resolve_left (by simp)
    have hroot : x.2 ≠ btreeRootFbn := by
      rw [blocks_cons, nodup_append] at hnodup
      exact hnodup.2.2 x.2 (by simp) _ h.tail.root_mem
    refine hclimb.path_congr fun j hj => ?_
    rw [storePath, update_of_ne hj.ne', if_neg hroot]

theorem blocks_drop_sublist (Ls : List (List (ℕ × ℕ))) (i : ℕ) :
    (blocks (Ls.drop i)).Sublist (blocks Ls) := by
  have happ : blocks Ls = blocks (Ls.take i) ++ blocks (Ls.drop i) := by
    rw [blocks, blocks, blocks, ← flatMap_append, take_append_drop]
  rw [happ]
  exact sublist_append_right _ _

/-- The leaf `x` and the cursor `c` are where the key belongs, and the path leads there. -/
structure Found (t : Tree) (key : ℕ) (path : Path) (A : List (ℕ × ℕ)) (x : ℕ × ℕ)
    (B : List (ℕ × ℕ)) (rest : List (List (ℕ × ℕ))) (c : ℕ) : Prop where
  climb : Climb t path 0 A x B rest
  stored : path 0 = ⟨x.2, c⟩
  lower : x.1 ≤ key
  upper : ∀ y ∈ B, key < y.1
  separates : Separates (t.node x.2) key c

section Down

variable {L₀ : List (ℕ × ℕ)} {rest₀ : List (List (ℕ × ℕ))} {fuel : ℕ}
  (h : Levels t 0 (L₀ :: rest₀)) (hfenced : ∀ M ∈ L₀ :: rest₀, Fenced (M.map t.fenced))
  (hnodup : (blocks (L₀ :: rest₀)).Nodup) (hsize : ∀ b ∈ blocks (L₀ :: rest₀), b < t.size)
  (hdepth : rest₀.length + 1 < btreeMaxDepth)
include h hfenced hnodup hsize hdepth

theorem lookupWork_node (hdrop : (L₀ :: rest₀).drop level = (A ++ x :: B) :: rest)
    (hclimb : rest = [] ∨ Climb t path level A x B rest) (key fuel : ℕ) :
    ∃ c, Separates (t.node x.2) key c ∧
      Climb t (storePath path level x.2 c) level A x B rest ∧
      t.lookupWork key (fuel + 1) x.2 path =
        if level = 0 then some (storePath path level x.2 c, x.2, c)
        else t.lookupWork key fuel ((t.node x.2).table.getD c 0) (storePath path level x.2 c) := by
  have hlt : level < (L₀ :: rest₀).length := by
    by_contra hge
    rw [drop_eq_nil_of_le (Nat.not_lt.mp hge)] at hdrop
    simp at hdrop
  have hlevels := h.drop hlt
  have hsub := blocks_drop_sublist (L₀ :: rest₀) level
  have hL := hfenced (A ++ x :: B) (mem_of_mem_drop (hdrop ▸ mem_cons_self))
  rw [hdrop, Nat.zero_add] at hlevels
  rw [hdrop] at hsub
  rw [length_cons] at hlt
  have hok := hlevels.levelOk.node x (by simp)
  have hsorted : (t.node x.2).keys.Pairwise (· < ·) :=
    hok.shaped.keys_sorted (hL.block (t.fenced x) (by simp))
  obtain ⟨c, hc, hsep⟩ := btreeIntraLookup_spec hsorted key
  exact ⟨c, hsep, hlevels.climb_store (hnodup.sublist hsub) hclimb c,
    lookupWork_eq (hsize x.2 (hsub.subset (by simp))) hok.toAt (by omega) hc⟩

theorem lookupWork_spec (hdrop : (L₀ :: rest₀).drop level = (A ++ x :: B) :: rest)
    (hfuel : level < fuel) (hclimb : rest = [] ∨ Climb t path level A x B rest)
    (hlower : x.1 ≤ key) (hupper : ∀ y ∈ B, key < y.1) :
    ∃ path' A' x' B' c, t.lookupWork key fuel x.2 path = some (path', x'.2, c) ∧
      L₀ = A' ++ x' :: B' ∧ Found t key path' A' x' B' rest₀ c := by
  induction level generalizing A x B rest path fuel with
  | zero =>
    obtain _ | fuel := fuel
    · omega
    obtain ⟨c, hsep, hstore, hrun⟩ :=
      lookupWork_node h hfenced hnodup hsize hdepth hdrop hclimb key fuel
    obtain ⟨rfl, rfl⟩ := hdrop
    exact ⟨_, A, x, B, c, hrun.trans (if_pos rfl), rfl, hstore, storePath_self _ _ _ _, hlower,
      hupper, hsep⟩
  | succ level ih =>
    obtain _ | fuel := fuel
    · omega
    obtain ⟨c, hsep, hstore, hrun⟩ :=
      lookupWork_node h hfenced hnodup hsize hdepth hdrop hclimb key fuel
    have hL := hfenced (A ++ x :: B) (mem_of_mem_drop (hdrop ▸ mem_cons_self))
    have hlt : level < (L₀ :: rest₀).length := by
      by_contra hge
      rw [drop_eq_nil_of_le (Nat.le_succ_of_le (Nat.not_lt.mp hge))] at hdrop
      simp at hdrop
    have hlevels := h.drop hlt
    rw [drop_eq_getElem_cons hlt, hdrop, Nat.zero_add] at hlevels
    have hlevel := hlevels.tail.levelOk
    have hok := hlevel.node x (by simp)
    -- the child at the cursor, with the children and the nodes behind it above the key
    obtain ⟨E₁, y, E₂, hcontent, hlen, hchild, hy, hE₂⟩ :=
      hsep.inner (by rw [hok.atLevel]; omega) hok.shaped hlower
    rw [hrun, if_neg (Nat.succ_ne_zero level), ← hchild]
    have hdrop' : (L₀ :: rest₀).drop level =
        (A.flatMap t.content ++ E₁ ++ y :: (E₂ ++ B.flatMap t.content)) ::
          (A ++ x :: B) :: rest := by
      rw [drop_eq_getElem_cons hlt, hdrop, hlevels.1, flatMap_middle hcontent]
    refine ih hdrop' (by omega) (Or.inr ?_) hy fun z hz => ?_
    · exact ⟨A, x, B, E₁, E₂, rfl, hcontent, rfl, rfl, by rw [storePath_self],
        by rw [storePath_self, hlen], hlevel, hstore⟩
    · rcases mem_append.mp hz with hz | hz
      · exact hE₂ z hz
      · obtain ⟨w, hw, hz⟩ := mem_flatMap.mp hz
        have hblock := hL.block (t.fenced w) (mem_map_of_mem (by simp [hw]))
        exact lt_of_lt_of_le (hupper w hw) (hblock.2 z hz)

theorem lookupWork_root (key : ℕ) (path : Path) :
    ∃ path' A x B c, t.lookupWork key btreeMaxDepth btreeRootFbn path = some (path', x.2, c) ∧
      L₀ = A ++ x :: B ∧ Found t key path' A x B rest₀ c := by
  have hlt : rest₀.length < (L₀ :: rest₀).length := Nat.lt_succ_self _
  have hlevels := h.drop hlt
  have hsingle : ((L₀ :: rest₀).drop rest₀.length).length = 1 := by
    rw [length_drop, length_cons]
    omega
  obtain ⟨L, hL⟩ := length_eq_one_iff.mp hsingle
  rw [hL] at hlevels
  have hdrop : (L₀ :: rest₀).drop rest₀.length = ([] ++ (0, btreeRootFbn) :: []) :: [] := by
    rw [hL, hlevels.1]
    rfl
  exact lookupWork_spec h hfenced hnodup hsize hdepth hdrop (by omega) (Or.inl rfl)
    (Nat.zero_le key) fun y hy => absurd hy not_mem_nil

end Down

theorem mul_length_le_length_flatMap {f : ℕ × ℕ → List (ℕ × ℕ)} {n : ℕ}
    (h : ∀ y ∈ M, n ≤ (f y).length) : M.length * n ≤ (M.flatMap f).length := by
  induction M with
  | nil => simp
  | cons y M ih =>
    rw [flatMap_cons, length_append, length_cons, Nat.succ_mul, Nat.add_comm]
    exact Nat.add_le_add (h y mem_cons_self)
      (ih fun z hz => h z (mem_cons_of_mem _ hz))

theorem Levels.length_ge (h : Levels t level (L :: rest)) :
    (rest = [] ∨ 2 * 168 ^ (rest.length - 1) ≤ L.length) := by
  induction rest generalizing level L with
  | nil => exact Or.inl rfl
  | cons M rest ih =>
    right
    have hchildren : ∀ y ∈ M, leastKeys (level + 1) rest.isEmpty + 1 ≤ (t.content y).length := by
      intro y hy
      have hok := h.tail.levelOk.node y hy
      have hlen : (t.content y).length = (t.node y.2).nkeys + (t.node y.2).nonLeaf :=
        hok.shaped.length_content y.1
      have hnon : (t.node y.2).nonLeaf = 1 := by
        rw [Node.nonLeaf, if_neg (by rw [hok.atLevel]; omega)]
      have := hok.enough
      omega
    have hsum : M.length * (leastKeys (level + 1) rest.isEmpty + 1) ≤ L.length := by
      rw [h.1]
      exact mul_length_le_length_flatMap hchildren
    cases rest with
    | nil =>
      rw [h.tail.1] at hsum
      exact hsum
    | cons N rest =>
      have hM := (ih h.tail).resolve_left (cons_ne_nil _ _)
      have hmul : 2 * 168 ^ rest.length * 168 ≤ M.length * 168 := Nat.mul_le_mul_right 168 hM
      have hpow : 2 * 168 ^ (rest.length + 1) = 2 * 168 ^ rest.length * 168 := by
        rw [Nat.pow_succ, Nat.mul_assoc]
      exact (hpow.le.trans hmul).trans hsum

theorem Levels.height_le (h : Levels t 0 (L :: rest)) (hblocks : L.length < 2 ^ 19) :
    rest.length ≤ 3 := by
  by_contra hge
  have hL := h.length_ge.resolve_left (by rintro rfl; simp at hge)
  have hpow : 168 ^ 3 ≤ 168 ^ (rest.length - 1) := Nat.pow_le_pow_right (by decide) (by omega)
  omega

end Descent

end Tree

end StackBench.Phttpd

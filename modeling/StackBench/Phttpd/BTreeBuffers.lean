import StackBench.Phttpd.BTree

/-!
# The buffers of the B+ tree of phttpd

`bread` hands out the slots of `buffer_table` one after the other and asserts
that the next one is not in use. The functions of the tree release what they
read, and a call reads fewer blocks than there are slots, so it never meets a
slot of its own again.
-/

namespace StackBench.Phttpd

open Option (bind_eq_bind bind_eq_some_iff bind_some)

def maxBuffers : ℕ := 64

/-- `v_bufIDX`, and the slots with `B_INUSE`. -/
structure Buffers where
  idx : ℕ
  inUse : ℕ → Bool

namespace Buffers

variable {f g : Buffers → Option Buffers} {k m n : ℕ}

/-- `bread`, without the block. -/
def bread (s : Buffers) : Option (ℕ × Buffers) :=
  let slot := s.idx % maxBuffers
  if s.inUse slot then none
  else some (slot, ⟨s.idx + 1, Function.update s.inUse slot true⟩)

/-- `brelse`, and `bdwrite` as far as the buffer goes. -/
def brelse (s : Buffers) (slot : ℕ) : Buffers :=
  { s with inUse := Function.update s.inUse slot false }

/-- What is done between a `bread` and the release of its buffer. -/
def holding (f : Buffers → Option Buffers) (s : Buffers) : Option Buffers := do
  let (slot, s) ← s.bread
  let s ← f s
  some (s.brelse slot)

/-- The slots in use were handed out from the number `lo` on. -/
def Since (lo : ℕ) (s : Buffers) : Prop :=
  lo ≤ s.idx ∧ ∀ slot, s.inUse slot = true → ∃ i, lo ≤ i ∧ i < s.idx ∧ slot = i % maxBuffers

/-- It reads at most `k` blocks and releases what it reads; no assertion fails where that does not
go once round the table. -/
def Balanced (k : ℕ) (f : Buffers → Option Buffers) : Prop :=
  ∀ s lo, s.Since lo → s.idx + k ≤ lo + maxBuffers →
    ∃ s', f s = some s' ∧ s'.inUse = s.inUse ∧ s.idx ≤ s'.idx ∧ s'.idx ≤ s.idx + k

theorem balanced_some (k : ℕ) : Balanced k some := fun s _ _ _ =>
  ⟨s, rfl, rfl, le_rfl, Nat.le_add_right _ _⟩

theorem Balanced.mono (h : Balanced k f) (hkm : k ≤ m) : Balanced m f := by
  intro s lo hsince hroom
  obtain ⟨s', hs', huse, hle, hidx⟩ := h s lo hsince (by omega)
  exact ⟨s', hs', huse, hle, by omega⟩

theorem Since.grow {s s' : Buffers} {lo : ℕ} (h : s.Since lo) (huse : s'.inUse = s.inUse)
    (hidx : s.idx ≤ s'.idx) : s'.Since lo := by
  refine ⟨h.1.trans hidx, fun slot hslot => ?_⟩
  obtain ⟨i, hlo, hi, rfl⟩ := h.2 slot (huse ▸ hslot)
  exact ⟨i, hlo, hi.trans_le hidx, rfl⟩

theorem Balanced.bind (hf : Balanced k f) (hg : Balanced m g) (hn : k + m ≤ n) :
    Balanced n fun s => f s >>= g := by
  intro s lo h hroom
  obtain ⟨s₁, hs₁, huse₁, hle₁, hidx₁⟩ := hf s lo h (by omega)
  obtain ⟨s₂, hs₂, huse₂, hle₂, hidx₂⟩ := hg s₁ lo (h.grow huse₁ hle₁) (by omega)
  refine ⟨s₂, ?_, huse₂.trans huse₁, by omega, by omega⟩
  change f s >>= g = _
  rw [hs₁]
  exact hs₂

theorem Balanced.holding (hf : Balanced k f) (hn : k + 1 ≤ n) : Balanced n (holding f) := by
  intro s lo h hroom
  -- a slot in use has a number less than a table's length back
  have hfree : s.inUse (s.idx % maxBuffers) = false := by
    rw [Bool.eq_false_iff]
    intro huse
    obtain ⟨i, hlo, hi, hslot⟩ := h.2 _ huse
    unfold maxBuffers at hslot hroom
    omega
  have hnext : Since lo ⟨s.idx + 1, Function.update s.inUse (s.idx % maxBuffers) true⟩ := by
    refine ⟨h.1.trans (Nat.le_succ _), fun slot hslot => ?_⟩
    by_cases hsame : slot = s.idx % maxBuffers
    · exact ⟨s.idx, h.1, Nat.lt_succ_self _, hsame⟩
    · dsimp only at hslot
      rw [Function.update_of_ne hsame] at hslot
      obtain ⟨i, hlo, hi, rfl⟩ := h.2 slot hslot
      exact ⟨i, hlo, Nat.lt_succ_of_lt hi, rfl⟩
  obtain ⟨s', hs', huse, hle, hidx⟩ := hf _ lo hnext (by dsimp only; omega)
  refine ⟨s'.brelse (s.idx % maxBuffers), ?_, ?_, ?_, ?_⟩
  · simp [Buffers.holding, bread, hfree, hs']
  · rw [brelse, huse, Function.update_idem, ← hfree, Function.update_eq_self]
  · exact (Nat.le_succ _).trans hle
  · exact hidx.trans (by dsimp only; omega)

end Buffers

namespace Tree

open Buffers

variable {t : Tree} {path : Path}

/-- The buffers of `btree_lookup_work`: one is released before the next one is read. -/
def lookupBuffers (t : Tree) (key : ℕ) : ℕ → ℕ → Buffers → Option Buffers
  | 0, _, _ => none
  | fuel + 1, bno, s => do
      let s ← s.holding some
      let n := t.node bno
      if n.level = 0 then some s
      else do
        let cursor ← btreeIntraLookup n key
        t.lookupBuffers key fuel (n.table.getD cursor 0) s

/-- Those of `btree_shift_left` and `btree_shift_right`: the parent and, if it is a common one, the
sibling. The buffer of the node itself, which they release as well, is released by the caller
here; no block is read in between. -/
def shiftBuffers (common : Bool) : Buffers → Option Buffers :=
  holding (if common then holding some else some)

/-- Those of the attempt to shift to a sibling, which is read first. -/
def siblingBuffers (t : Tree) (sibling : ℕ) (common : Bool) (s : Buffers) : Option Buffers :=
  if sibling = nodeAnchor then some s
  else do
    let s ← s.holding some
    if (t.node sibling).shiftPred then shiftBuffers common s else some s

def tryLeftBuffers (t : Tree) (bno : ℕ) (path : Path) : Buffers → Option Buffers :=
  t.siblingBuffers (t.node bno).prev ((path ((t.node bno).level + 1)).index != 0)

def tryRightBuffers (t : Tree) (bno : ℕ) (path : Path) : Buffers → Option Buffers :=
  let above := path ((t.node bno).level + 1)
  t.siblingBuffers (t.node bno).next (above.index != (t.node above.bno).nkeys)

/-- Those of `btree_split_node`: the new block, and its neighbour. -/
def splitBuffers (t : Tree) (bno : ℕ) : Buffers → Option Buffers :=
  holding (if (t.node bno).next = nodeAnchor then some else holding some)

/-- Those of `btree_increase_height`. -/
def heightBuffers : Buffers → Option Buffers := holding (holding some)

/-- Those of `btree_insert_modify`, which holds its own over the recursion into the parent. -/
def insertBuffers (t : Tree) (path : Path) : ℕ → ℕ → ℕ → ℕ → Buffers → Option Buffers
  | 0, _, _, _, _ => none
  | fuel + 1, key, payload, level, s => s.holding fun s => do
      let bno := (path level).bno
      let stopHere := (path level).index
      let n := t.node bno
      if n.nkeys = 0 then some s
      else
        let n' := { n with
          keys := insertAt n.keys stopHere key
          table := insertAt n.table (stopHere + n.nonLeaf) payload }
        let t := t.set bno n'
        if n'.overflowPred then do
          let s ← t.tryLeftBuffers bno path s
          match ← t.tryLeft bno path with
          | some _ => some s
          | none => do
              let s ← t.tryRightBuffers bno path s
              match ← t.tryRight bno path with
              | some _ => some s
              | none => do
                  let s ← t.splitBuffers bno s
                  let (t, newKey, greater) ← t.splitNode bno
                  if (path (level + 1)).index ≠ btreeRootAddr then
                    t.insertBuffers path fuel newKey greater (level + 1) s
                  else heightBuffers s
        else some s

/-- Those of `btree_insert`. -/
def btreeInsertBuffers (t : Tree) (key value : ℕ) (s : Buffers) : Option Buffers := do
  let s ← t.lookupBuffers key btreeMaxDepth btreeRootFbn s
  let (path, leaf, cursor) ← t.lookupWork key btreeMaxDepth btreeRootFbn fun _ => ⟨0, 0⟩
  let n := t.node leaf
  if cursor < n.nkeys ∧ n.keys.getD cursor 0 = key then some s
  else t.insertBuffers path btreeMaxDepth key value 0 s

theorem balanced_read : Balanced 1 (holding some) := (balanced_some 0).holding le_rfl

theorem balanced_shift (common : Bool) : Balanced 2 (shiftBuffers common) := by
  refine Balanced.holding (k := 1) ?_ le_rfl
  cases common with
  | true => exact balanced_read
  | false => exact balanced_some 1

theorem balanced_sibling (t : Tree) (sibling : ℕ) (common : Bool) :
    Balanced 3 (t.siblingBuffers sibling common) := by
  unfold siblingBuffers
  split
  · exact balanced_some 3
  · refine balanced_read.bind (m := 2) ?_ le_rfl
    split
    · exact balanced_shift common
    · exact balanced_some 2

theorem balanced_split (t : Tree) (bno : ℕ) : Balanced 2 (t.splitBuffers bno) := by
  refine Balanced.holding (k := 1) ?_ le_rfl
  split
  · exact balanced_some 1
  · exact balanced_read

theorem bread_eq_some {b : ℕ} {n : Node} (h : t.bread b = some n) : t.node b = n := by
  unfold Tree.bread at h
  rw [Option.ite_none_right_eq_some, Option.some.injEq] at h
  exact h.2

/-- A descent that comes to a leaf reads one block for each level. -/
theorem balanced_lookup {key fuel bno : ℕ} {out : Path × ℕ × ℕ}
    (h : t.lookupWork key fuel bno path = some out) :
    Balanced fuel (t.lookupBuffers key fuel bno) := by
  induction fuel generalizing bno path with
  | zero => cases h
  | succ fuel ih =>
    simp only [lookupWork, bind_eq_bind, bind_eq_some_iff] at h
    obtain ⟨n, hn, -, -, h⟩ := h
    cases bread_eq_some hn
    obtain ⟨path₁, cursor, hcursor, path₂, h⟩ : ∃ path₁ cursor, btreeIntraLookup (t.node bno) key =
        some cursor ∧ ∃ path₂, (path₁ : Path).set (t.node bno).level ⟨bno, cursor⟩ = some path₂ ∧
          (if (t.node bno).level = 0 then some (path₂, bno, cursor)
            else t.lookupWork key fuel ((t.node bno).table.getD cursor 0) path₂) = some out := by
      split at h
      all_goals
        obtain ⟨path₁, -, h⟩ := bind_eq_some_iff.mp h
        simp only [bind_eq_some_iff] at h
        exact ⟨path₁, h⟩
    replace h := h.2
    refine balanced_read.bind (m := fuel) ?_ (Nat.add_comm _ _).le
    split at h
    · next hleaf =>
      simp only [hleaf, if_true]
      exact balanced_some fuel
    · next hleaf =>
      simp only [hleaf, if_false, hcursor]
      exact ih h

/-- An insertion reads at most nine blocks for each level, and two for a new root. -/
theorem balanced_insert {key payload level fuel : ℕ} {t' : Tree}
    (h : insertModify path fuel key payload level t = some t') :
    Balanced (9 * fuel + 2) (t.insertBuffers path fuel key payload level) := by
  induction fuel generalizing key payload level t with
  | zero => cases h
  | succ fuel ih =>
    simp only [insertModify, bind_eq_bind, bind_eq_some_iff] at h
    obtain ⟨n, hn, -, -, -, -, h⟩ := h
    cases bread_eq_some hn
    refine Balanced.holding (k := 9 * fuel + 10) ?_ (by omega)
    split at h
    · next hempty =>
      simp only [hempty, if_true]
      exact balanced_some _
    next hempty =>
    simp only [hempty, if_false]
    split at h
    · next hover =>
      simp only [hover, if_true]
      refine (balanced_sibling _ _ _).bind (m := 9 * fuel + 7) ?_ (by omega)
      obtain ⟨left, hleft, h⟩ := bind_eq_some_iff.mp h
      simp only [hleft, bind_eq_bind, bind_some]
      cases left with
      | some t₁ => exact balanced_some _
      | none =>
      refine (balanced_sibling _ _ _).bind (m := 9 * fuel + 4) ?_ (by omega)
      obtain ⟨right, hright, h⟩ := bind_eq_some_iff.mp h
      simp only [hright, bind_some]
      cases right with
      | some t₁ => exact balanced_some _
      | none =>
      refine (balanced_split _ _).bind (m := 9 * fuel + 2) ?_ (by omega)
      obtain ⟨⟨t₁, newKey, greater⟩, hsplit, h⟩ := bind_eq_some_iff.mp h
      simp only [hsplit, bind_some]
      split at h
      · next hparent =>
        simp only [if_pos hparent]
        exact ih h
      · next hparent =>
        simp only [if_neg hparent]
        exact balanced_read.holding (by omega)
    · next hover =>
      simp only [hover]
      exact balanced_some _

/-- No call goes once round the table. -/
theorem balanced_btreeInsert {key value : ℕ} {t' : Tree} (h : t.btreeInsert key value = some t') :
    Balanced maxBuffers (t.btreeInsertBuffers key value) := by
  obtain ⟨⟨path, leaf, cursor⟩, hlookup, h⟩ := bind_eq_some_iff.mp h
  refine (balanced_lookup hlookup).bind (m := 9 * btreeMaxDepth + 2) ?_ (by decide)
  simp only [hlookup, bind_eq_bind, bind_some]
  dsimp only at h ⊢
  split at h
  · next hfound =>
    simp only [if_pos hfound]
    exact balanced_some _
  · next hfound =>
    simp only [if_neg hfound]
    exact balanced_insert h

end Tree

end StackBench.Phttpd

import StackBench.Lib.Doubly
import StackBench.Lib.Fences

/-!
# The B+ tree of phttpd

`bplus_impl.c` on the blocks of its file. The arrays of a node are lists of
`bm_nkeys` entries, with values in a leaf and block numbers in an inner node.
Keys and values are numbers. A failed check, a block outside the file or a
store outside the path is `none`.
-/

namespace StackBench.Phttpd

def btreeMaxDepth : ℕ := 6

def nodeAnchor : ℕ := 0xffffffff

def btreeRootAddr : ℕ := 0xffffffff

def btreeRootFbn : ℕ := 0

def btreeHdrMagic : ℕ := 0xa55a5aa5

/-- `BTREE_N0`: what is left of a block behind its header, in entries of a leaf. -/
def btreeN0 : ℕ := (4096 - 40 - 8) / (8 + 8)

/-- `BTREE_NX`: the same for an inner node. -/
def btreeNX : ℕ := (4096 - 40 - 4) / (8 + 4)

/-- `BTREE_N`, by the level of the node. -/
def btreeN (level : ℕ) : ℕ := if level = 0 then btreeN0 else btreeNX

/-- `btree_meta` with the keys and the table behind it. -/
structure Node where
  magic : ℕ
  level : ℕ
  keys : List ℕ
  table : List ℕ
  next : ℕ
  prev : ℕ

def Node.nkeys (n : Node) : ℕ := n.keys.length

def Node.nonLeaf (n : Node) : ℕ := if n.level = 0 then 0 else 1

def Node.overflowPred (n : Node) : Bool := n.nkeys == btreeN n.level

def Node.shiftPred (n : Node) : Bool := btreeN n.level / (btreeN n.level - n.nkeys) ≤ 9

/-- The blocks of a tree, how many are used, and how many the file has. -/
structure Tree where
  node : ℕ → Node
  used : ℕ
  size : ℕ

/-- `ASSERT`, `VERIFY`. -/
def check (c : Prop) [Decidable c] : Option Unit := if c then some () else none

namespace Tree

def set (t : Tree) (b : ℕ) (n : Node) : Tree := { t with node := Function.update t.node b n }

def bread (t : Tree) (b : ℕ) : Option Node := if b < t.size then some (t.node b) else none

/-- `alloc_block`: the file doubles when it is used up. -/
def allocBlock (t : Tree) : ℕ × Tree :=
  (t.used, { t with
    used := t.used + 1
    size := if t.used + 1 < t.size then t.size else 2 * t.size })

/-- `btree_create_btree`: the blocks of the new file are zero, and the first one becomes
the root. -/
def create : Tree where
  node := Function.update (fun _ => ⟨0, 0, [], [], 0, 0⟩) btreeRootFbn
    ⟨btreeHdrMagic, 0, [], [], nodeAnchor, nodeAnchor⟩
  used := 1
  size := 64

end Tree

/-- The loop of `btree_intra_lookup`, with `hi = right + 1`. -/
def intraLoop (n : Node) (key : ℕ) : ℕ → ℕ → ℕ → Option ℕ
  | 0, _, _ => none
  | fuel + 1, left, hi =>
    if hi ≤ left then
      if 0 < hi ∧ n.keys.getD (hi - 1) 0 > key then some (hi - 1) else some left
    else
      let cursor := (hi - 1 + left) / 2
      if key = n.keys.getD cursor 0 then some (cursor + n.nonLeaf)
      else if key < n.keys.getD cursor 0 then intraLoop n key fuel left cursor
      else intraLoop n key fuel (cursor + 1) hi

def btreeIntraLookup (n : Node) (key : ℕ) : Option ℕ := do
  let cursor ← intraLoop n key (n.nkeys + 1) 0 n.nkeys
  check (cursor ≤ n.nkeys)
  check (cursor = n.nkeys ∨ n.keys.getD cursor 0 ≥ key)
  pure cursor

structure PathNode where
  bno : ℕ
  index : ℕ

abbrev Path := ℕ → PathNode

def Path.set (path : Path) (level : ℕ) (x : PathNode) : Option Path :=
  if level < btreeMaxDepth then some (Function.update path level x) else none

namespace Tree

/-- `btree_lookup_work` down to the leaf: the path, the leaf and the cursor in it. -/
def lookupWork (t : Tree) (key : ℕ) : ℕ → ℕ → Path → Option (Path × ℕ × ℕ)
  | 0, _, _ => none
  | fuel + 1, bno, path => do
      let n ← t.bread bno
      check (n.magic = btreeHdrMagic)
      let path ← if bno = btreeRootFbn then path.set (n.level + 1) ⟨btreeRootAddr, btreeRootAddr⟩
        else some path
      let cursor ← btreeIntraLookup n key
      let path ← path.set n.level ⟨bno, cursor⟩
      if n.level = 0 then some (path, bno, cursor)
      else t.lookupWork key fuel (n.table.getD cursor 0) path

variable (t : Tree)

/-- `btree_shift_left` from the block `bno`; the inner `none` is the return value `-1`. -/
def shiftLeft (bno : ℕ) (path : Path) : Option (Option Tree) := do
  let right := t.node bno
  check (right.magic = btreeHdrMagic)
  let level := right.level + 1
  let parent ← t.bread (path level).bno
  check (parent.magic = btreeHdrMagic)
  if (path level).index = 0 then some none
  else do
    let index := (path level).index - 1
    let left ← t.bread right.prev
    check (left.magic = btreeHdrMagic)
    let space := (right.nkeys - left.nkeys) / 2
    -- a negative number of keys to move would be a huge one
    check (left.nkeys ≤ right.nkeys ∧ right.nonLeaf ≤ space)
    let pivot := if right.level = 0 then [] else [parent.keys.getD index 0]
    let left' := { left with
      keys := left.keys ++ pivot ++ right.keys.take (space - right.nonLeaf)
      table := left.table ++ right.table.take space }
    let parent' := { parent with
      keys := parent.keys.set index (right.keys.getD (space - right.nonLeaf) 0) }
    let right' := { right with
      keys := right.keys.drop space
      table := right.table.drop space }
    some (some (((t.set (path level).bno parent').set right.prev left').set bno right'))

/-- `btree_shift_right` from the block `bno`; the inner `none` is the return value `-1`. -/
def shiftRight (bno : ℕ) (path : Path) : Option (Option Tree) := do
  let left := t.node bno
  check (left.magic = btreeHdrMagic)
  let level := left.level + 1
  let parent ← t.bread (path level).bno
  check (parent.magic = btreeHdrMagic)
  let index := (path level).index
  if index = parent.nkeys then some none
  else do
    let right ← t.bread left.next
    check (right.magic = btreeHdrMagic)
    let space := (left.nkeys - right.nkeys) / 2
    check (right.nkeys ≤ left.nkeys ∧ left.nonLeaf ≤ space)
    let pivot := if left.level = 0 then [] else [parent.keys.getD index 0]
    let right' := { right with
      keys := left.keys.drop (left.nkeys - space + left.nonLeaf) ++ pivot ++ right.keys
      table := left.table.drop (left.nkeys + left.nonLeaf - space) ++ right.table }
    let parent' := { parent with
      keys := parent.keys.set index (if left.level = 0 then right'.keys.getD 0 0
        else left.keys.getD (left.nkeys - space) 0) }
    let left' := { left with
      keys := left.keys.take (left.nkeys - space)
      table := left.table.take (left.nkeys + left.nonLeaf - space) }
    some (some (((t.set (path level).bno parent').set left.next right').set bno left'))

/-- `btree_insert_modify` tries to shift left; the inner `none` means that nothing was shifted. -/
def tryLeft (bno : ℕ) (path : Path) : Option (Option Tree) :=
  if (t.node bno).prev = nodeAnchor then some none
  else do
    let left ← t.bread (t.node bno).prev
    check (left.nkeys ≠ btreeN left.level)
    if left.shiftPred then t.shiftLeft bno path else some none

/-- The attempt to shift to the right. -/
def tryRight (bno : ℕ) (path : Path) : Option (Option Tree) :=
  if (t.node bno).next = nodeAnchor then some none
  else do
    let right ← t.bread (t.node bno).next
    check (right.nkeys ≠ btreeN right.level)
    if right.shiftPred then t.shiftRight bno path else some none

/-- `btree_split_node`: the tree, the new key and the new block. -/
def splitNode (bno : ℕ) : Option (Tree × ℕ × ℕ) := do
  let (newBno, t) := t.allocBlock
  let original := t.node bno
  check (original.magic = btreeHdrMagic)
  let _ ← t.bread newBno
  let t ← if original.next = nodeAnchor then some t
    else do
      let right ← t.bread original.next
      some (t.set original.next { right with prev := newBno })
  let lesser := original.nkeys / 2
  let sibling := { original with
    prev := bno
    keys := original.keys.drop lesser
    table := original.table.drop lesser }
  let newKey := if original.level = 0 then sibling.keys.getD 0 0
    else original.keys.getD (lesser - 1) 0
  let original' := { original with
    next := newBno
    keys := original.keys.take (lesser - original.nonLeaf)
    table := original.table.take lesser }
  some ((t.set newBno sibling).set bno original', newKey, newBno)

def increaseHeight (root greater key : ℕ) : Option Tree := do
  let (newBno, t) := t.allocBlock
  let _ ← t.bread newBno
  let g ← t.bread greater
  let n := t.node root
  let t := (t.set newBno n).set greater { g with prev := newBno }
  check (n.magic = btreeHdrMagic)
  check (n.prev = nodeAnchor)
  some (t.set root { n with
    level := n.level + 1
    keys := [key]
    table := [newBno, greater]
    next := nodeAnchor })

/-- Make room at the place `i` of an array and store `x` there. -/
def insertAt (xs : List ℕ) (i x : ℕ) : List ℕ := xs.take i ++ x :: xs.drop i

/-- `btree_insert_modify`. The fuel bounds the levels. -/
def insertModify (path : Path) : ℕ → ℕ → ℕ → ℕ → Tree → Option Tree
  | 0, _, _, _, _ => none
  | fuel + 1, key, payload, level, t => do
      let bno := (path level).bno
      let stopHere := (path level).index
      let n ← t.bread bno
      check (n.magic = btreeHdrMagic)
      check (n.level = level)
      if n.nkeys = 0 then do
        check (bno = btreeRootFbn)
        some (t.set bno { n with keys := [key], table := [payload] })
      else
        let n' := { n with
          keys := insertAt n.keys stopHere key
          table := insertAt n.table (stopHere + n.nonLeaf) payload }
        let t := t.set bno n'
        if n'.overflowPred then do
          match ← t.tryLeft bno path with
          | some t => some t
          | none =>
            match ← t.tryRight bno path with
            | some t => some t
            | none => do
                let (t, newKey, greater) ← t.splitNode bno
                if (path (level + 1)).index ≠ btreeRootAddr then
                  insertModify path fuel newKey greater (level + 1) t
                else t.increaseHeight bno greater newKey
        else some t

/-- `btree_insert`; an entry with the key is overwritten. -/
def btreeInsert (key value : ℕ) : Option Tree := do
  let (path, leaf, cursor) ← t.lookupWork key btreeMaxDepth btreeRootFbn fun _ => ⟨0, 0⟩
  let n := t.node leaf
  if cursor < n.nkeys ∧ n.keys.getD cursor 0 = key then
    some (t.set leaf { n with table := n.table.set cursor value })
  else t.insertModify path btreeMaxDepth key value 0

/-- `btree_lookup`; the inner `none` is `ENOENT`. -/
def btreeLookup (key : ℕ) : Option (Option ℕ) := do
  let (_, leaf, cursor) ← t.lookupWork key btreeMaxDepth btreeRootFbn fun _ => ⟨0, 0⟩
  let n := t.node leaf
  if cursor < n.nkeys ∧ n.keys.getD cursor 0 = key then some (some (n.table.getD cursor 0))
  else some none

end Tree

end StackBench.Phttpd

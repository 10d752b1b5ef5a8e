import StackBench.Mtcp.SeqNum

/-!
# The mTCP receive buffer

`tcp_ring_buffer.c`: the buffer with its fragment contexts, cells of a heap
with `NULL` as 0. An `int` field is kept as its 32 bits, read with `int32`
where the code compares signed. `none` is a failed `assert`, an access through
`NULL`, or an endless loop.
-/

namespace StackBench.Mtcp

open Function

structure Fragment where
  seq : UInt32
  /-- A field of 31 bits. -/
  len : UInt32
deriving DecidableEq, Inhabited

/-- `struct tcp_ring_buffer`, with the fragment contexts. `head` is always `data + head_offset`. -/
structure RingBuffer where
  data : ℕ → UInt8
  headOffset : UInt32
  tailOffset : UInt32
  mergedLen : UInt32
  cumLen : UInt64
  lastLen : UInt32
  size : UInt32
  headSeq : UInt32
  initSeq : UInt32
  fctx : ℕ
  frag : ℕ → Fragment
  next : ℕ → ℕ

/-- `RBInit`, with a chunk whose bytes are `data`. -/
def rbInit (data : ℕ → UInt8) (size initSeq : UInt32) : RingBuffer where
  data := data
  headOffset := 0
  tailOffset := 0
  mergedLen := 0
  cumLen := 0
  lastLen := 0
  size := size
  headSeq := initSeq
  initSeq := initSeq
  fctx := 0
  frag := fun _ => ⟨0, 0⟩
  next := fun _ => 0

/-- An `int` converted to `size_t`. -/
def sizeT (x : UInt32) : ℕ := if x.toNat < 2 ^ 31 then x.toNat else 2 ^ 64 - 2 ^ 32 + x.toNat

/-- `memmove` of `len` bytes within a chunk, from `src` to `dst`. -/
def memmove (mem : ℕ → UInt8) (dst src len : ℕ) : ℕ → UInt8 := fun i =>
  if dst ≤ i ∧ i < dst + len then mem (src + (i - dst)) else mem i

/-- `memcpy` of the bytes `src` to the position `dst` of a chunk. -/
def memcpy (mem : ℕ → UInt8) (dst : ℤ) (src : List UInt8) : ℕ → UInt8 := fun i =>
  if dst ≤ i ∧ (i : ℤ) < dst + src.length then src.getD (i - dst).toNat 0 else mem i

/-- A store into the chunk: its first position and its length. -/
structure ChunkWrite where
  pos : ℤ
  len : ℕ
deriving DecidableEq

def canMerge (a b : Fragment) : Bool :=
  let aEnd := a.seq + a.len + 1
  let bEnd := b.seq + b.len + 1
  !(getMinSeq aEnd b.seq == aEnd || getMinSeq bEnd a.seq == bEnd)

/-- `MergeFragments`: the new contents of the second fragment. -/
def mergeFragments (a b : Fragment) : Fragment :=
  let minSeq := getMinSeq a.seq b.seq
  let maxSeq := getMaxSeq (a.seq + a.len) (b.seq + b.len)
  { seq := minSeq, len := (maxSeq - minSeq) % 2 ^ 31 }

/-- The variables of the loop of `RBPut` over the fragment list. -/
structure PutLoop where
  fctx : ℕ
  frag : ℕ → Fragment
  next : ℕ → ℕ
  newCtx : ℕ
  iter : ℕ
  prev : ℕ
  pprev : ℕ
  merged : Bool

/-- Merge `new_ctx` into `iter`, take it off the list where it is the predecessor, and go on with
`iter`. -/
def PutLoop.merge (s : PutLoop) : PutLoop :=
  let s := { s with
    frag := update s.frag s.iter (mergeFragments (s.frag s.newCtx) (s.frag s.iter)) }
  let s :=
    if s.prev = s.newCtx then
      if s.pprev ≠ 0 then
        { s with next := update s.next s.pprev s.iter, prev := s.pprev }
      else
        { s with fctx := s.iter, prev := s.pprev }
    else s
  { s with newCtx := s.iter, merged := true }

def PutLoop.advance (s : PutLoop) : PutLoop :=
  { s with pprev := s.prev, prev := s.iter, iter := s.next s.iter }

/-- The loop of `RBPut` for a segment that ends at `endSeq`. -/
def PutLoop.run (endSeq : UInt32) : ℕ → PutLoop → Option PutLoop
  | 0, _ => none
  | fuel + 1, s =>
    if s.iter = 0 then some s
    else if canMerge (s.frag s.newCtx) (s.frag s.iter) then
      PutLoop.run endSeq fuel s.merge.advance
    else if s.merged || getMaxSeq endSeq (s.frag s.iter).seq == (s.frag s.iter).seq then
      some s
    else
      PutLoop.run endSeq fuel s.advance

/-- Link a fragment that was not merged. -/
def PutLoop.link (s : PutLoop) (curSeq : UInt32) : Option PutLoop :=
  if s.merged then some s
  else if s.fctx = 0 then some { s with fctx := s.newCtx }
  else if getMinSeq curSeq (s.frag s.fctx).seq = curSeq then
    some { s with next := update s.next s.newCtx s.fctx, fctx := s.newCtx }
  else if s.prev = 0 then none
  else
    let prevEnd := (s.frag s.prev).seq + (s.frag s.prev).len
    if getMinSeq curSeq prevEnd = prevEnd then
      some { s with
        next := update (update s.next s.prev s.newCtx) s.newCtx s.iter }
    else none

variable (rb : RingBuffer)

/-- The fragment part of `RBPut`, with the allocated context `ctx`. -/
def putFragment (ctx : ℕ) (curSeq len : UInt32) : Option PutLoop :=
  let start : PutLoop :=
    { fctx := rb.fctx
      frag := update rb.frag ctx ⟨curSeq, len % 2 ^ 31⟩
      next := update rb.next ctx 0
      newCtx := ctx, iter := rb.fctx, prev := 0, pprev := 0, merged := false }
  match PutLoop.run (curSeq + len) (rb.size.toNat + 2) start with
  | none => none
  | some s => s.link curSeq

/-- Move the saved bytes to the front of the chunk. -/
def compact : RingBuffer :=
  { rb with
    data := memmove rb.data 0 rb.headOffset.toNat (sizeT rb.lastLen)
    tailOffset := rb.tailOffset - rb.headOffset
    headOffset := 0 }

/-- If the buffer is at the tail, move the data to the front. -/
def makeRoom (endOff : UInt32) : RingBuffer :=
  if rb.size ≤ rb.headOffset + endOff then compact rb else rb

def moveWrites (endOff : UInt32) : List ChunkWrite :=
  if rb.size ≤ rb.headOffset + endOff then [⟨0, sizeT rb.lastLen⟩] else []

/-- Copy a segment behind the head and account for it. -/
def storeSegment (putx endOff : UInt32) (data : List UInt8) : RingBuffer :=
  let endPos := rb.headOffset + endOff
  let tail := if rb.tailOffset < endPos then endPos else rb.tailOffset
  { rb with
    data := memcpy rb.data (rb.headOffset.toNat + int32 putx) data
    tailOffset := tail
    lastLen := tail - rb.headOffset }

/-- Count the bytes that became contiguous at the head. -/
def countMerged : RingBuffer :=
  if rb.headSeq = (rb.frag rb.fctx).seq then
    { rb with
      cumLen := rb.cumLen + UInt64.ofInt (int32 ((rb.frag rb.fctx).len - rb.mergedLen))
      mergedLen := (rb.frag rb.fctx).len }
  else rb

/-- What `RBPut` returns, with its stores into the chunk. -/
structure RbPut where
  rb : RingBuffer
  ret : ℤ
  writes : List ChunkWrite := []

/-- `RBPut` behind its checks. -/
def rbPutAccept (ctx : ℕ) (data : List UInt8) (curSeq : UInt32) : Option RbPut :=
  let len := UInt32.ofNat data.length
  let putx := curSeq - rb.headSeq
  let endOff := putx + len
  let moved := moveWrites rb endOff
  let rb := makeRoom rb endOff
  let write : ChunkWrite := ⟨rb.headOffset.toNat + int32 putx, data.length⟩
  let rb := storeSegment rb putx endOff data
  match putFragment rb ctx curSeq len with
  | none => none
  | some s =>
    some { rb := countMerged { rb with fctx := s.fctx, frag := s.frag, next := s.next }
           ret := data.length
           writes := moved ++ [write] }

/-- `RBPut`, where `AllocateFragmentContext` returns `ctx`. -/
def rbPut (ctx : ℕ) (data : List UInt8) (curSeq : UInt32) : Option RbPut :=
  if data.length = 0 then some { rb := rb, ret := 0 }
  else if getMinSeq rb.headSeq curSeq ≠ rb.headSeq then some { rb := rb, ret := 0 }
  else if int32 rb.size < int32 (curSeq - rb.headSeq + UInt32.ofNat data.length) then
    some { rb := rb, ret := -2 }
  else rbPutAccept rb ctx data curSeq

/-- `RBRemove`: the buffer and the bytes removed. A context off the list goes to the free queue. -/
def rbRemove (len : ℕ) : Option (RingBuffer × ℕ) :=
  let len := if sizeT rb.mergedLen < len then sizeT rb.mergedLen else len
  if len = 0 then some (rb, 0)
  else
    let n := UInt32.ofNat len
    let rb := { rb with
      headOffset := rb.headOffset + n
      headSeq := rb.headSeq + n
      mergedLen := rb.mergedLen - n
      lastLen := rb.lastLen - n }
    let first := rb.frag rb.fctx
    if rb.fctx = 0 then none
    else if len = first.len.toNat then some ({ rb with fctx := rb.next rb.fctx }, len)
    else if len < first.len.toNat then
      some ({ rb with
        frag := update rb.frag rb.fctx ⟨first.seq + n, first.len - n⟩ }, len)
    else none

end StackBench.Mtcp

import StackBench.Tas.ArxQueue

/-!
# The packet buffers of a fast-path core

The polling loop of `fastemu.c` with the places where a core keeps buffer
handles: the cache, from which buffers are reserved before it is known how many
are needed, the transmit queue, and the batch just received. The loop is cut
into steps between which a handle changes its place. Buffers of the driver,
packets, queue entries and flow states are inputs.
-/

namespace StackBench.Tas

open Function List

/-- `BUFCACHE_SIZE`, a power of two. -/
def bufcacheSize : ℕ := 128

def txbufSize : ℕ := 2 * batchSize

/-- A position in `dataplane_loop`, with the local variables that matter there. -/
inductive LoopPc where
  | pollRx
  /-- The loop over the packets of `poll_rx`: those to come, and those before
  with `freebuf[i] = 0`. -/
  | packets (todo kept : List ℕ)
  /-- The last loop of `poll_rx`. -/
  | free (kept : List ℕ)
  | txFlush
  | pollQmanFwd
  | pollQman
  /-- The loop of `poll_qman`: the iterations to come, and `off`. -/
  | qman (left off : ℕ)
  | pollQueues
  /-- The loop of `poll_queues` over the fetched entries: the iterations to
  come, and `num_bufs`. -/
  | bumps (left numBufs : ℕ)
  | pollKernel
  /-- The loop of `poll_kernel`. -/
  | kernel (max k : ℕ)
  | lastFlush
deriving DecidableEq

/-- The ways in which the loop can end the program or leave an array. -/
inductive CoreFault where
  /-- The `abort` of `tx_send`. -/
  | txSend
  /-- `arx_cache_add` writes behind `arx_cache`. -/
  | arxCacheAdd
  /-- The `abort` of `arx_cache_flush`. -/
  | arxCacheFlush
  /-- The `assert` of `bufcache_alloc`. -/
  | bufcacheAlloc
deriving DecidableEq

/-- A core, the buffers of the driver and the receive queues. Buffers are named by their handles. -/
structure BufCore where
  driver : List ℕ
  bufcacheHandles : ℕ → ℕ
  bufcacheNum : ℕ
  bufcacheHead : ℕ
  txHandles : List ℕ
  arxCache : List Arx
  rxLen : UInt16 → UInt32
  rxq : UInt16 → ArxQueue
  pc : LoopPc
  fault : Option CoreFault

/-- What `fast_kernel_poll` finds at the head of the kernel queue. -/
inductive KtxEntry where
  | packet
  | packetNots
  | connretran (flowId : UInt32) (fs : FlowSt)

/-- The steps of the loop, and those of the applications. -/
inductive LoopOp where
  /-- `network_poll` returns the packets `bhs`. -/
  | receive (bhs : List ℕ)
  /-- The packet loop, for a packet of a flow or of none. -/
  | packet (flow : Option (UInt32 × FlowSt)) (p : Pkt) (ts : UInt32)
  /-- `network_send` takes `ret` packets. -/
  | send (ret : ℕ)
  /-- The driver allocates `fresh`, and `qman_poll` has `ret` queues to fire. -/
  | qmanPoll (fresh : List ℕ) (ret : ℕ)
  | qman (core : UInt16) (steering : UInt16 → UInt16) (flowId : UInt32) (fs : FlowSt)
      (txBuf : ℕ → UInt8) (ts : UInt32)
  /-- The driver allocates `fresh`, and `k` entries of applications are there to
  be fetched. -/
  | fetch (fresh : List ℕ) (k : ℕ)
  | bump (flowId : UInt32) (fs : FlowSt) (b : Bump) (ts : UInt32)
  /-- The driver allocates `fresh` for `poll_kernel`. -/
  | kernelPoll (fresh : List ℕ)
  | ktx (entry : Option KtxEntry)
  /-- A step that depends on nothing else. -/
  | next
  /-- The library takes an entry of a receive queue if it has room for its
  events. -/
  | appPoll (ctx : UInt16) (room : Bool)
  /-- The library frees the entry that it took. -/
  | appFree (ctx : UInt16)

namespace BufCore

def txSend (w : BufCore) (nbh : ℕ) : BufCore :=
  if w.txHandles.length ≥ txbufSize then { w with fault := some .txSend }
  else { w with txHandles := w.txHandles ++ [nbh] }

def arxCacheAdd (w : BufCore) (x : Arx) : BufCore :=
  if w.arxCache.length ≥ batchSize then { w with fault := some .arxCacheAdd }
  else { w with arxCache := w.arxCache ++ [x] }

variable (w : BufCore)

/-- The number of packets that a polling function may handle. -/
def pollMax : ℕ :=
  if txbufSize - w.txHandles.length < batchSize then txbufSize - w.txHandles.length else batchSize

/-- The number of packets that `poll_kernel` may send. -/
def kernelMax : ℕ := if w.pollMax > 8 then 8 else w.pollMax

/-- The refill of `bufcache_prealloc`: calls of `network_buf_alloc` that return `fresh`. -/
def refill (fresh : List ℕ) : BufCore :=
  let grow := bufcacheSize - w.bufcacheNum
  let head := (w.bufcacheHead + w.bufcacheNum) % bufcacheSize
  let stores :=
    if head + grow ≤ bufcacheSize then [(head, fresh)]
    else
      [(head, fresh.take (bufcacheSize - head)), (0, fresh.drop (bufcacheSize - head))]
  { w with
    driver := w.driver.diff fresh
    bufcacheHandles := Circular.storeAll w.bufcacheHandles stores
    bufcacheNum := w.bufcacheNum + fresh.length }

/-- `bufcache_prealloc`, up to its return value. -/
def bufcachePrealloc (num : ℕ) (fresh : List ℕ) : BufCore :=
  if w.bufcacheNum < num then w.refill fresh else w

/-- The return value of `bufcache_prealloc`: the handles at `bufcache_head` that
lie next to each other. -/
def reservable (num : ℕ) : ℕ :=
  min num
    (if w.bufcacheHead + w.bufcacheNum ≤ bufcacheSize then w.bufcacheNum
      else bufcacheSize - w.bufcacheHead)

def bufcacheAlloc (w : BufCore) (num : ℕ) : BufCore :=
  if num ≤ w.bufcacheNum then
    { w with
      bufcacheHead := (w.bufcacheHead + num) % bufcacheSize
      bufcacheNum := w.bufcacheNum - num }
  else { w with fault := some .bufcacheAlloc }

def bufcacheFree (handle : ℕ) : BufCore :=
  if w.bufcacheNum < bufcacheSize then
    -- free to cache
    { w with
      bufcacheHandles :=
        update w.bufcacheHandles ((w.bufcacheHead + w.bufcacheNum) % bufcacheSize) handle
      bufcacheNum := w.bufcacheNum + 1 }
  else
    -- free to network buffer manager
    { w with driver := handle :: w.driver }

/-- `tx_flush`: the driver takes the first `ret` packets, and the others move to
the front. -/
def txFlush (ret : ℕ) : BufCore :=
  { w with
    driver := w.txHandles.take ret ++ w.driver
    txHandles := w.txHandles.drop ret }

/-- The first loop of `arx_cache_flush`; `none` if there is no space in the queue
of an application. -/
def arxAlloc (rxLen : UInt16 → UInt32) :
    List Arx → (UInt16 → ArxQueue) → Option (UInt16 → ArxQueue)
  | [], rxq => some rxq
  | x :: xs, rxq =>
    if (rxq x.dbId).rxAvail = 0 then none
    else arxAlloc rxLen xs (update rxq x.dbId ((rxq x.dbId).alloc (rxLen x.dbId)))

def arxCacheFlush (w : BufCore) : BufCore :=
  match arxAlloc w.rxLen w.arxCache w.rxq with
  | none => { w with fault := some .arxCacheFlush }
  | some rxq =>
    { w with
      rxq := w.arxCache.foldl
        (fun rxq x => update rxq x.dbId ((rxq x.dbId).step (w.rxLen x.dbId) (.write x)))
        rxq
      arxCache := [] }

/-- A packet of no flow goes to the kernel, like one where `fast_flows_packet` returns `-1`. -/
def packetOut (flow : Option (UInt32 × FlowSt)) (p : Pkt) (ts : UInt32) : FlowOut :=
  match flow with
  | some (flowId, fs) => fastFlowsPacket flowId fs p ts
  | none => { fs := default, ret := -1 }

/-- One iteration of `poll_rx`. The kernel gets a copy, so the buffer of a packet for it is kept. -/
def rxPacket (bh : ℕ) (todo kept : List ℕ) (out : FlowOut) : BufCore :=
  let w := out.arx.elim w w.arxCacheAdd
  let w := if out.ack.isSome then w.txSend bh else w
  { w with pc := .packets todo (if out.ret > 0 then kept else kept ++ [bh]) }

/-- `fast_flows_qman` or `fast_flows_bump` with the next reserved buffer. -/
def useHandle (off : ℕ) (out : FlowOut) : BufCore :=
  if out.seg.isSome then w.txSend (w.bufcacheHandles (w.bufcacheHead + off)) else w

/-- The number of reserved buffers in use after the call. -/
def nextOff (off : ℕ) (out : FlowOut) : ℕ := if out.ret = 0 then off + 1 else off

/-- `fast_actx_rxq_probe` for every context. -/
def rxqProbes : BufCore :=
  { w with
    rxq := fun ctx => if ctx < 16 then (w.rxq ctx).rxqProbe (w.rxLen ctx) else w.rxq ctx }

/-- One iteration of the loop of `poll_kernel`, which calls `fast_kernel_poll`. -/
def kernelPoll (max k : ℕ) : Option KtxEntry → BufCore
  | none => { w.bufcacheAlloc k with pc := .lastFlush }
  | some .packet | some .packetNots =>
    { w.txSend (w.bufcacheHandles (w.bufcacheHead + k)) with pc := .kernel max (k + 1) }
  | some (.connretran _ _) => { w with pc := .kernel max k }

/-- The steps that depend on nothing from outside. -/
def next : LoopPc → BufCore
  | .packets [] kept => { w.arxCacheFlush with pc := .free kept }
  | .free (bh :: kept) => { w.bufcacheFree bh with pc := .free kept }
  | .free [] => { w with pc := .txFlush }
  | .pollQmanFwd => { w with pc := .pollQman }
  | .qman 0 off => { w.bufcacheAlloc off with pc := .pollQueues }
  | .bumps 0 numBufs => { (w.bufcacheAlloc numBufs).rxqProbes with pc := .pollKernel }
  | .kernel max k => if k < max then w else { w.bufcacheAlloc k with pc := .lastFlush }
  | _ => w

/-- A step of the library on the queue of the context `ctx`. -/
def appStep (ctx : UInt16) (op : ArxOp) : BufCore :=
  { w with rxq := update w.rxq ctx ((w.rxq ctx).step (w.rxLen ctx) op) }

/-- One step, as far as it can be taken at this position. -/
def stepAt : LoopPc → LoopOp → BufCore
  | .pollRx, .receive [] => { w with pc := .txFlush }
  | .pollRx, .receive bhs => { w with driver := w.driver.diff bhs, pc := .packets bhs [] }
  | .packets (bh :: todo) kept, .packet flow p ts => w.rxPacket bh todo kept (packetOut flow p ts)
  | .txFlush, .send ret => { w.txFlush ret with pc := .pollQmanFwd }
  | .pollQman, .qmanPoll fresh ret =>
    let w' := w.bufcachePrealloc w.pollMax fresh
    let ret := min ret (w'.reservable w.pollMax)
    { w' with pc := if ret = 0 then .pollQueues else .qman ret 0 }
  | .qman (left + 1) off, .qman core steering flowId fs txBuf ts =>
    let out := fastFlowsQman core steering flowId fs txBuf ts
    { w.useHandle off out with pc := .qman left (nextOff off out) }
  | .pollQueues, .fetch fresh k =>
    let w' := w.bufcachePrealloc w.pollMax fresh
    { w' with pc := .bumps (min k (w'.reservable w.pollMax)) 0 }
  | .bumps (left + 1) numBufs, .bump flowId fs b ts =>
    let out := fastFlowsBump flowId fs b ts
    { w.useHandle numBufs out with pc := .bumps left (nextOff numBufs out) }
  | .pollKernel, .kernelPoll fresh =>
    let w' := w.bufcachePrealloc w.kernelMax fresh
    { w' with pc := .kernel (w'.reservable w.kernelMax) 0 }
  | .kernel max k, .ktx entry => if k < max then w.kernelPoll max k entry else w
  | .lastFlush, .send ret => { w.txFlush ret with pc := .pollRx }
  | pc, .next => w.next pc
  | _, .appPoll ctx room => w.appStep ctx (.poll room)
  | _, .appFree ctx => w.appStep ctx .pollDone
  | _, _ => w

/-- One step. A program that was ended stays so. -/
def step (op : LoopOp) : BufCore :=
  match w.fault with
  | some _ => w
  | none => w.stepAt w.pc op

/-- The start of the loop, with all buffers at the driver and new receive queues, whatever the cache
array holds. -/
def start (driver : List ℕ) (bufcacheHandles : ℕ → ℕ) (rxLen : UInt16 → UInt32) : BufCore where
  driver := driver
  bufcacheHandles := bufcacheHandles
  bufcacheNum := 0
  bufcacheHead := 0
  txHandles := []
  arxCache := []
  rxLen := rxLen
  rxq := fun ctx => ArxQueue.init (rxLen ctx)
  pc := .pollRx
  fault := none

end BufCore

namespace LoopPc

/-- The received packets that are being processed. -/
def held : LoopPc → List ℕ
  | packets todo kept => todo ++ kept
  | free kept => kept
  | _ => []

/-- The reserved buffers of the cache that have been sent. -/
def used : LoopPc → ℕ
  | qman _ off => off
  | bumps _ numBufs => numBufs
  | kernel _ k => k
  | _ => 0

/-- The buffers of the cache that are reserved. -/
def reserved : LoopPc → ℕ
  | qman left off => off + left
  | bumps left numBufs => numBufs + left
  | kernel max _ => max
  | _ => 0

/-- The packets that can be sent before the polling function is left. -/
def sends : LoopPc → ℕ
  | packets todo _ => todo.length
  | qman left _ => left
  | bumps left _ => left
  | kernel max k => max - k
  | _ => 0

/-- The announcements that can be cached before the cache is flushed, with the
`n` that are. -/
def Announces (n : ℕ) : LoopPc → Prop
  | packets todo _ => n + todo.length ≤ batchSize
  | _ => n = 0

end LoopPc

namespace BufCore

variable (w : BufCore)

/-- The handles in the buffer cache that have not been sent. -/
def cached : List ℕ :=
  Circular.read bufcacheSize w.bufcacheHandles (w.bufcacheHead + w.pc.used)
    (w.bufcacheNum - w.pc.used)

/-- The number of places where a handle is. -/
def places (h : ℕ) : ℕ :=
  w.driver.count h + w.cached.count h + w.txHandles.count h + w.pc.held.count h

/-- The driver can hand out these buffers. -/
def Handed (bhs : List ℕ) : Prop := bhs.Nodup ∧ ∀ h ∈ bhs, h ∈ w.driver
deriving Decidable

/-- The driver hands out buffers that it owns, each once and no more than asked for, and takes no
more packets than there are. -/
def DriverOk : LoopOp → Prop
  | .receive bhs => w.Handed bhs ∧ bhs.length ≤ w.pollMax
  | .send ret => ret ≤ w.txHandles.length
  | .qmanPoll fresh _ | .fetch fresh _ | .kernelPoll fresh =>
    w.Handed fresh ∧ fresh.length ≤ bufcacheSize - w.bufcacheNum
  | _ => True

/-- The applications have left room in their queues for what is cached. -/
def Room : LoopOp → Prop
  | .next => ∀ x ∈ w.arxCache,
      32 * w.arxCache.countP (fun y => y.dbId == x.dbId) ≤ (w.rxq x.dbId).rxAvail.toNat
  | _ => True

instance (w : BufCore) : DecidablePred w.DriverOk := fun op => by
  cases op <;> dsimp only [DriverOk] <;> infer_instance

instance (w : BufCore) : DecidablePred w.Room := fun op => by
  cases op <;> dsimp only [Room] <;> infer_instance

/-- The loop at every step; `may` tells whether `arx_cache_flush` may end the program. -/
structure Inv (may : Prop) (all : List ℕ) (w : BufCore) : Prop where
  head : w.bufcacheHead < bufcacheSize
  num : w.bufcacheNum ≤ bufcacheSize
  once : ∀ h, w.places h = all.count h
  used : w.pc.used ≤ w.pc.reserved
  reserved : w.pc.reserved ≤ w.bufcacheNum ∧ w.bufcacheHead + w.pc.reserved ≤ bufcacheSize
  tx : w.txHandles.length + w.pc.sends ≤ txbufSize
  arx : w.fault = none → w.pc.Announces w.arxCache.length
  fault : w.fault = none ∨ may ∧ w.fault = some .arxCacheFlush

variable {may : Prop} {all : List ℕ} {w} {bhs : List ℕ}

theorem count_diff_add (hbhs : w.Handed bhs) (h : ℕ) :
    (w.driver.diff bhs).count h + bhs.count h = w.driver.count h := by
  have hle : bhs.count h ≤ w.driver.count h := (subperm_of_subset hbhs.1 hbhs.2).count_le h
  rw [count_diff]
  omega

theorem pollMax_le (w : BufCore) :
    w.pollMax ≤ batchSize ∧ w.pollMax ≤ txbufSize - w.txHandles.length := by
  unfold pollMax
  split <;> omega

theorem kernelMax_le (w : BufCore) : w.kernelMax ≤ w.pollMax := by
  unfold kernelMax
  split <;> omega

theorem packetOut_ret (flow : Option (UInt32 × FlowSt)) (p : Pkt) (ts : UInt32) :
    (packetOut flow p ts).ack.isSome = decide ((packetOut flow p ts).ret > 0) := by
  match flow with
  | none => rfl
  | some (flowId, fs) =>
    rw [packetOut]
    rcases fastFlowsPacket_cases flowId fs p ts with ⟨slow, -, hout⟩ | ⟨-, hout⟩
    · rw [hout]
      rfl
    · rw [hout, packetUnlock]
      split <;> rfl

theorem fastFlowsQman_ret (core : UInt16) (steering : UInt16 → UInt16) (flowId : UInt32)
    (fs : FlowSt) (txBuf : ℕ → UInt8) (ts : UInt32) :
    (fastFlowsQman core steering flowId fs txBuf ts).seg.isSome =
      decide ((fastFlowsQman core steering flowId fs txBuf ts).ret = 0) := by
  unfold fastFlowsQman
  split_ifs <;> rfl

theorem fastFlowsBump_ret (flowId : UInt32) (fs : FlowSt) (b : Bump) (ts : UInt32) :
    (fastFlowsBump flowId fs b ts).seg.isSome =
      decide ((fastFlowsBump flowId fs b ts).ret = 0) := by
  rcases fastFlowsBump_cases flowId fs b ts with ⟨s, hout⟩ | ⟨-, -, hout⟩
  · rw [hout]
    rfl
  · rw [hout, bumpAccept]
    split <;> rfl

/-- All handles in the buffer cache. -/
def contents (w : BufCore) : List ℕ :=
  Circular.read bufcacheSize w.bufcacheHandles w.bufcacheHead w.bufcacheNum

section

variable (hnum : w.bufcacheNum ≤ bufcacheSize)
include hnum

variable {fresh : List ℕ}

theorem contents_refill (hfresh : fresh.length ≤ bufcacheSize - w.bufcacheNum) :
    (w.refill fresh).contents = w.contents ++ fresh := by
  apply Circular.read_append_written _ (by omega)
  simp only [refill]
  split
  · next hfits => exact Circular.written_store _ (by dsimp only; omega)
  have hpieces := Circular.written_pieces (a := w.bufcacheHead + w.bufcacheNum) w.bufcacheHandles
    (show 0 < bufcacheSize by decide) (show fresh.length ≤ bufcacheSize by omega)
  rw [Circular.pieces] at hpieces
  split at hpieces
  · -- the second call was not needed
    next hfits =>
      rw [take_of_length_le (by omega), drop_eq_nil_of_le (by omega)]
      simpa [Circular.storeAll] using hpieces
  · exact hpieces

theorem prealloc_count (hfresh : w.Handed fresh)
    (hlen : fresh.length ≤ bufcacheSize - w.bufcacheNum) (num h : ℕ) :
    (w.bufcachePrealloc num fresh).driver.count h +
        (w.bufcachePrealloc num fresh).contents.count h =
      w.driver.count h + w.contents.count h := by
  unfold bufcachePrealloc
  split
  · have hdriver := count_diff_add hfresh h
    rw [contents_refill hnum hlen, count_append]
    simp only [refill]
    omega
  · rfl

theorem prealloc_num (hlen : fresh.length ≤ bufcacheSize - w.bufcacheNum) (num : ℕ) :
    (w.bufcachePrealloc num fresh).bufcacheNum ≤ bufcacheSize := by
  unfold bufcachePrealloc
  split
  · simp only [refill]
    omega
  · exact hnum

end

theorem reservable_le (hhead : w.bufcacheHead < bufcacheSize) (num : ℕ) :
    w.reservable num ≤ num ∧ w.reservable num ≤ w.bufcacheNum ∧
      w.bufcacheHead + w.reservable num ≤ bufcacheSize := by
  unfold reservable
  split <;> omega

theorem free_count (w : BufCore) (handle h : ℕ) :
    (w.bufcacheFree handle).driver.count h + (w.bufcacheFree handle).contents.count h =
      w.driver.count h + w.contents.count h + [handle].count h := by
  unfold bufcacheFree
  split
  · next hroom =>
    have hwritten := Circular.written_update bufcacheSize w.bufcacheHandles
      (w.bufcacheHead + w.bufcacheNum) handle
    have hread := Circular.read_append_written hwritten hroom
    simp only [contents]
    rw [show w.bufcacheNum + 1 = w.bufcacheNum + [handle].length from rfl, hread, count_append]
    omega
  · simp only [contents, count_cons, count_nil]
    omega

theorem free_num (hnum : w.bufcacheNum ≤ bufcacheSize) (handle : ℕ) :
    (w.bufcacheFree handle).bufcacheNum ≤ bufcacheSize := by
  unfold bufcacheFree
  split
  · next hroom => exact hroom
  · exact hnum

theorem read_head {n off : ℕ} (hoff : off < n) (hend : w.bufcacheHead + n ≤ bufcacheSize)
    (hn : n ≤ w.bufcacheNum) :
    Circular.read bufcacheSize w.bufcacheHandles (w.bufcacheHead + off) (w.bufcacheNum - off) =
      w.bufcacheHandles (w.bufcacheHead + off) ::
        Circular.read bufcacheSize w.bufcacheHandles (w.bufcacheHead + (off + 1))
          (w.bufcacheNum - (off + 1)) := by
  obtain ⟨m, hm⟩ : ∃ m, w.bufcacheNum - off = m + 1 := ⟨w.bufcacheNum - off - 1, by omega⟩
  rw [hm, Circular.read_succ, Nat.mod_eq_of_lt (by omega), Nat.add_assoc,
    show w.bufcacheNum - (off + 1) = m by omega]

theorem arxAlloc_isSome (rxLen : UInt16 → UInt32) {xs : List Arx} {rxq : UInt16 → ArxQueue}
    (hroom : ∀ x ∈ xs, 32 * xs.countP (fun y => y.dbId == x.dbId) ≤ (rxq x.dbId).rxAvail.toNat) :
    (arxAlloc rxLen xs rxq).isSome := by
  induction xs generalizing rxq with
  | nil => rfl
  | cons x xs ih =>
    have hx := hroom x (by simp)
    simp only [countP_cons, beq_self_eq_true, reduceIte] at hx
    have hne : (rxq x.dbId).rxAvail ≠ 0 := by
      rintro hzero
      rw [hzero] at hx
      simp at hx
    rw [arxAlloc, if_neg hne]
    apply ih
    intro y hy
    have hroom' := hroom y (by simp [hy])
    simp only [countP_cons] at hroom'
    by_cases hid : y.dbId = x.dbId
    · -- one entry less to be reserved, and one less free
      rw [hid, update_self, ArxQueue.alloc, if_neg hne]
      rw [Word.sub_toNat (by simp; omega)]
      simp only [UInt32.reduceToNat]
      omega
    · rw [update_of_ne hid]
      omega

namespace Inv

section

variable {pc₀ pc : LoopPc} (h : Inv may all w) (hpc : w.pc = pc₀)
include h hpc

theorem goto {rxq : UInt16 → ArxQueue} {arxCache : List Arx} {fault : Option CoreFault}
    (hheld : pc.held = pc₀.held) (hused : pc.used = pc₀.used) (hle : pc.used ≤ pc.reserved)
    (hres : pc.reserved ≤ pc₀.reserved) (hsends : pc.sends ≤ pc₀.sends)
    (harx : fault = none → pc.Announces arxCache.length)
    (hfault : fault = none ∨ may ∧ fault = some .arxCacheFlush) :
    Inv may all { w with rxq := rxq, arxCache := arxCache, fault := fault, pc := pc } where
  head := h.head
  num := h.num
  once x := by
    have hx := h.once x
    simp only [places, cached, hpc] at hx ⊢
    rw [hheld, hused]
    exact hx
  used := hle
  reserved := by
    have hold := h.reserved
    rw [hpc] at hold
    exact ⟨hres.trans hold.1, (Nat.add_le_add_left hres _).trans hold.2⟩
  tx := (Nat.add_le_add_left (hpc ▸ hsends) _).trans h.tx
  arx := harx
  fault := hfault

theorem sendReserved (hheld : pc.held = pc₀.held) (hused : pc.used = pc₀.used + 1)
    (hle : pc.used ≤ pc.reserved) (hres : pc.reserved ≤ pc₀.reserved)
    (hsends : pc.sends + 1 ≤ pc₀.sends) (harx : w.fault = none → pc.Announces w.arxCache.length) :
    Inv may all { w.txSend (w.bufcacheHandles (w.bufcacheHead + pc₀.used)) with pc := pc } := by
  subst hpc
  obtain ⟨hnum, hend⟩ := h.reserved
  have htx := h.tx
  rw [txSend, if_neg (by omega)]
  refine ⟨h.head, h.num, fun x => ?_, hle, ⟨hres.trans hnum, ?_⟩, ?_, harx, h.fault⟩
  · have hx := h.once x
    simp only [places, cached] at hx ⊢
    rw [read_head (n := w.pc.reserved) (by omega) hend hnum, count_cons] at hx
    rw [hheld, hused, count_append, count_singleton]
    omega
  · dsimp only
    omega
  · simp only [length_append, length_singleton]
    omega

theorem leave (hheld : pc.held = pc₀.held) (hused : pc.used = 0) (hres : pc.reserved = 0)
    (hsends : pc.sends = 0) (harx : w.fault = none → pc.Announces w.arxCache.length) :
    Inv may all { w.bufcacheAlloc pc₀.used with pc := pc } := by
  subst hpc
  have hle := h.used
  obtain ⟨hnum, -⟩ := h.reserved
  have htx := h.tx
  have hcap := h.num
  rw [bufcacheAlloc, if_pos (by omega)]
  refine ⟨Nat.mod_lt _ (by decide), ?_, fun x => ?_, ?_, ?_, ?_, harx, h.fault⟩
  · dsimp only
    omega
  · have hx := h.once x
    simp only [places, cached] at hx ⊢
    rw [hheld, hused, Nat.add_zero, Nat.sub_zero, Circular.read_mod]
    exact hx
  · dsimp only
    omega
  · rw [hres]
    exact ⟨Nat.zero_le _, (Nat.mod_lt _ (by decide)).le⟩
  · dsimp only
    omega

theorem reserve {fresh : List ℕ} (hfresh : w.Handed fresh)
    (hlen : fresh.length ≤ bufcacheSize - w.bufcacheNum) {num : ℕ}
    (hroom : num ≤ txbufSize - w.txHandles.length) (hidle : pc₀.used = 0)
    (hheld : pc.held = pc₀.held) (hused : pc.used = 0) (hsends : pc.sends = pc.reserved)
    (hres : pc.reserved ≤ (w.bufcachePrealloc num fresh).reservable num)
    (harx : w.fault = none → pc.Announces w.arxCache.length) :
    Inv may all { w.bufcachePrealloc num fresh with pc := pc } := by
  have hhead : (w.bufcachePrealloc num fresh).bufcacheHead = w.bufcacheHead := by
    unfold bufcachePrealloc
    split <;> rfl
  obtain ⟨htx, harx', hfault⟩ : (w.bufcachePrealloc num fresh).txHandles = w.txHandles ∧
      (w.bufcachePrealloc num fresh).arxCache = w.arxCache ∧
      (w.bufcachePrealloc num fresh).fault = w.fault := by
    unfold bufcachePrealloc
    split <;> exact ⟨rfl, rfl, rfl⟩
  obtain ⟨hmax, hnum, hend⟩ :=
    reservable_le (w := w.bufcachePrealloc num fresh) (by rw [hhead]; exact h.head) num
  have hcap := h.tx
  refine ⟨by dsimp only; rw [hhead]; exact h.head, prealloc_num h.num hlen num, fun x => ?_,
    ?_, ⟨hres.trans hnum, ?_⟩, ?_, ?_, ?_⟩
  · have hx := h.once x
    have hcount := prealloc_count h.num hfresh hlen num x
    simp only [places, cached, contents, hpc, hidle, hused, hheld, htx, Nat.add_zero, Nat.sub_zero]
      at hx hcount ⊢
    omega
  · dsimp only
    omega
  · dsimp only
    omega
  · dsimp only
    rw [htx]
    omega
  · rw [harx', hfault]
    exact harx
  · rw [hfault]
    exact h.fault

end

theorem start (all : List ℕ) (bufcacheHandles : ℕ → ℕ) (rxLen : UInt16 → UInt32) :
    Inv may all (start all bufcacheHandles rxLen) where
  head := (by decide : 0 < bufcacheSize)
  num := Nat.zero_le _
  once x := by simp [places, cached, BufCore.start, LoopPc.held, LoopPc.used, Circular.read]
  used := le_rfl
  reserved := ⟨le_rfl, Nat.zero_le _⟩
  tx := Nat.zero_le _
  arx _ := rfl
  fault := .inl rfl

section

variable (h : Inv may all w)
include h

theorem receive (hfault : w.fault = none) (hpc : w.pc = .pollRx) (hbhs : w.Handed bhs)
    (hlen : bhs.length ≤ w.pollMax) :
    Inv may all { w with driver := w.driver.diff bhs, pc := .packets bhs [] } := by
  have harx := h.arx hfault
  obtain ⟨hbatch, hroom⟩ := w.pollMax_le
  have htx := h.tx
  rw [hpc] at harx
  refine ⟨h.head, h.num, fun x => ?_, le_rfl, ⟨Nat.zero_le _, h.head.le⟩, ?_, fun _ => ?_, h.fault⟩
  · have hx := h.once x
    have hdriver := count_diff_add hbhs x
    simp only [places, cached, hpc, LoopPc.held, LoopPc.used, append_nil, count_nil]
      at hx ⊢
    omega
  · simp only [LoopPc.sends]
    omega
  · simp only [LoopPc.Announces] at harx ⊢
    omega

theorem rxPacket (hfault : w.fault = none) {bh : ℕ} {todo kept : List ℕ}
    (hpc : w.pc = .packets (bh :: todo) kept) {out : FlowOut}
    (hout : out.ack.isSome = decide (out.ret > 0)) : Inv may all (w.rxPacket bh todo kept out) := by
  have harx := h.arx hfault
  have htx := h.tx
  rw [hpc] at harx htx
  simp only [LoopPc.Announces, LoopPc.sends, length_cons] at harx htx
  have hadd : out.arx.elim w w.arxCacheAdd =
      { w with arxCache := w.arxCache ++ out.arx.toList } := by
    cases out.arx with
    | none => simp
    | some x => exact if_neg (by omega)
  have hannounced : (w.arxCache ++ out.arx.toList).length ≤ w.arxCache.length + 1 := by
    cases out.arx <;> simp
  simp only [BufCore.rxPacket, hadd, hout, decide_eq_true_eq]
  split
  · -- the buffer carries the acknowledgement
    rw [txSend, if_neg (by dsimp only; omega)]
    refine ⟨h.head, h.num, fun x => ?_, le_rfl, ⟨Nat.zero_le _, h.head.le⟩, ?_, fun _ => ?_,
      h.fault⟩
    · have hx := h.once x
      simp only [places, cached, hpc, LoopPc.held, LoopPc.used, count_append, count_cons,
        count_nil] at hx ⊢
      omega
    · simp only [LoopPc.sends, length_append, length_singleton]
      omega
    · simp only [LoopPc.Announces]
      omega
  refine ⟨h.head, h.num, fun x => ?_, le_rfl, ⟨Nat.zero_le _, h.head.le⟩, ?_, fun _ => ?_, h.fault⟩
  · have hx := h.once x
    simp only [places, cached, hpc, LoopPc.held, LoopPc.used, count_append, count_cons,
      count_nil] at hx ⊢
    omega
  · simp only [LoopPc.sends]
    omega
  · simp only [LoopPc.Announces]
    omega

theorem arxCacheFlush (hroom : may ∨ w.Room .next) {kept : List ℕ} (hpc : w.pc = .packets [] kept) :
    Inv may all { w.arxCacheFlush with pc := .free kept } := by
  unfold BufCore.arxCacheFlush
  split
  · next hnone =>
    have hmay : may := by
      rcases hroom with hmay | hroom
      · exact hmay
      · have hsome := arxAlloc_isSome w.rxLen hroom
        rw [hnone] at hsome
        cases hsome
    exact h.goto hpc rfl rfl le_rfl le_rfl le_rfl nofun (.inr ⟨hmay, rfl⟩)
  · exact h.goto hpc rfl rfl le_rfl le_rfl le_rfl (fun _ => rfl) h.fault

theorem free {bh : ℕ} {kept : List ℕ} (hpc : w.pc = .free (bh :: kept)) :
    Inv may all { w.bufcacheFree bh with pc := .free kept } := by
  obtain ⟨hhead, htx, harx, hfault⟩ : (w.bufcacheFree bh).bufcacheHead = w.bufcacheHead ∧
      (w.bufcacheFree bh).txHandles = w.txHandles ∧ (w.bufcacheFree bh).arxCache = w.arxCache ∧
      (w.bufcacheFree bh).fault = w.fault := by
    unfold bufcacheFree
    split <;> exact ⟨rfl, rfl, rfl, rfl⟩
  have hroom := h.tx
  have hcached := h.arx
  have hcap := h.head
  refine ⟨by dsimp only; omega, free_num h.num bh, fun x => ?_, le_rfl, ⟨Nat.zero_le _, ?_⟩, ?_,
    ?_, ?_⟩
  · have hx := h.once x
    have hcount := w.free_count bh x
    simp only [places, cached, contents, hpc, LoopPc.held, LoopPc.used, count_cons,
      count_nil, Nat.add_zero, Nat.sub_zero] at hx hcount ⊢
    rw [htx]
    omega
  · simp only [LoopPc.reserved]
    omega
  · simp only [LoopPc.sends, htx]
    omega
  · simp only [harx, hfault]
    rw [hpc] at hcached
    exact hcached
  · simp only [hfault]
    exact h.fault

variable {pc₀ pc : LoopPc} (hpc : w.pc = pc₀)
include hpc

theorem txFlush (ret : ℕ) (hheld : pc.held = pc₀.held) (hused : pc.used = pc₀.used)
    (hle : pc.used ≤ pc.reserved) (hres : pc.reserved ≤ pc₀.reserved)
    (hsends : pc.sends ≤ pc₀.sends) (harx : w.fault = none → pc.Announces w.arxCache.length) :
    Inv may all { w.txFlush ret with pc := pc } := by
  subst hpc
  have htx := h.tx
  obtain ⟨hnum, hend⟩ := h.reserved
  refine ⟨h.head, h.num, fun x => ?_, hle, ⟨hres.trans hnum, ?_⟩, ?_, harx, h.fault⟩
  · have hx := h.once x
    have hsplit : (w.txHandles.take ret).count x + (w.txHandles.drop ret).count x =
        w.txHandles.count x := by
      rw [← count_append, take_append_drop]
    simp only [places, cached, BufCore.txFlush, hheld, hused, count_append] at hx ⊢
    omega
  · simp only [BufCore.txFlush]
    omega
  · simp only [BufCore.txFlush, length_drop]
    omega

theorem useHandle {out : FlowOut} (hout : out.seg.isSome = decide (out.ret = 0))
    (hheld : pc.held = pc₀.held) (hused : pc.used = nextOff pc₀.used out)
    (hle : pc.used ≤ pc.reserved) (hres : pc.reserved ≤ pc₀.reserved)
    (hsends : pc.sends + 1 ≤ pc₀.sends) (harx : w.fault = none → pc.Announces w.arxCache.length) :
    Inv may all { w.useHandle pc₀.used out with pc := pc } := by
  simp only [BufCore.useHandle, hout, decide_eq_true_eq]
  rw [nextOff] at hused
  split
  · next hret =>
    rw [if_pos hret] at hused
    exact h.sendReserved hpc hheld hused hle hres hsends harx
  · next hret =>
    rw [if_neg hret] at hused
    exact h.goto hpc hheld hused hle hres (by omega) harx h.fault

end

theorem nextOff_add_le (off left : ℕ) (out : FlowOut) :
    nextOff off out + left ≤ off + (left + 1) := by
  unfold nextOff
  split <;> omega

section

variable (h : Inv may all w)
include h

section

variable (hfault : w.fault = none)
include hfault

theorem next (hroom : may ∨ w.Room .next) : Inv may all (w.next w.pc) := by
  have harx := h.arx hfault
  have hle := h.used
  generalize hpc : w.pc = pc at harx hle
  unfold BufCore.next
  split
  · exact h.arxCacheFlush hroom hpc
  · exact h.free hpc
  · exact h.goto hpc rfl rfl le_rfl le_rfl le_rfl (fun _ => harx) h.fault
  · exact h.goto hpc rfl rfl le_rfl le_rfl le_rfl (fun _ => harx) h.fault
  · exact h.leave hpc rfl rfl rfl rfl fun _ => harx
  · have hleave : Inv may all { w.bufcacheAlloc _ with pc := .pollKernel } :=
      h.leave hpc rfl rfl rfl rfl fun _ => harx
    exact hleave.goto rfl rfl rfl le_rfl le_rfl le_rfl hleave.arx hleave.fault
  · split
    · exact h
    · exact h.leave hpc rfl rfl rfl rfl fun _ => harx
  · exact h

theorem kernelPoll {max k : ℕ}
    (hpc : w.pc = .kernel max k) (hk : k < max) (entry : Option KtxEntry) :
    Inv may all (w.kernelPoll max k entry) := by
  have harx := h.arx hfault
  rw [hpc] at harx
  match entry with
  | none => exact h.leave hpc rfl rfl rfl rfl fun _ => harx
  | some .packet | some .packetNots =>
    exact h.sendReserved hpc rfl rfl hk le_rfl (by simp only [LoopPc.sends]; omega) fun _ => harx
  | some (.connretran _ _) =>
    have hstay : ({ w with pc := .kernel max k } : BufCore) = w := by rw [← hpc]
    rw [BufCore.kernelPoll, hstay]
    exact h

theorem stepAt {op : LoopOp} (hok : w.DriverOk op)
    (hspace : may ∨ w.Room op) : Inv may all (w.stepAt w.pc op) := by
  have harx := h.arx hfault
  have hle := h.used
  obtain ⟨-, hroom⟩ := w.pollMax_le
  generalize hpc : w.pc = pc at harx hle
  unfold BufCore.stepAt
  split
  · exact h.goto hpc rfl rfl le_rfl le_rfl le_rfl (fun _ => harx) h.fault
  · exact h.receive hfault hpc hok.1 hok.2
  · exact h.rxPacket hfault hpc (packetOut_ret _ _ _)
  · exact h.txFlush hpc _ rfl rfl le_rfl le_rfl le_rfl fun _ => harx
  · dsimp only
    split
    · next hret =>
      exact h.reserve hpc hok.1 hok.2 hroom rfl rfl rfl rfl (Nat.zero_le _) fun _ => harx
    · exact h.reserve hpc hok.1 hok.2 hroom rfl rfl rfl (Nat.zero_add _).symm
        ((Nat.zero_add _).trans_le (Nat.min_le_right _ _)) fun _ => harx
  · exact h.useHandle hpc (fastFlowsQman_ret ..) rfl rfl (Nat.le_add_right _ _)
      (nextOff_add_le ..) le_rfl fun _ => harx
  · exact h.reserve hpc hok.1 hok.2 hroom rfl rfl rfl (Nat.zero_add _).symm
      ((Nat.zero_add _).trans_le (Nat.min_le_right _ _)) fun _ => harx
  · exact h.useHandle hpc (fastFlowsBump_ret ..) rfl rfl (Nat.le_add_right _ _)
      (nextOff_add_le ..) le_rfl fun _ => harx
  · exact h.reserve hpc hok.1 hok.2 (w.kernelMax_le.trans hroom) rfl rfl rfl (Nat.sub_zero _) le_rfl
      fun _ => harx
  · split
    · next hk => exact h.kernelPoll hfault hpc hk _
    · exact h
  · exact h.txFlush hpc _ rfl rfl le_rfl le_rfl le_rfl fun _ => harx
  · rw [← hpc]
    exact h.next hfault hspace
  · exact h.goto rfl rfl rfl h.used le_rfl le_rfl h.arx h.fault
  · exact h.goto rfl rfl rfl h.used le_rfl le_rfl h.arx h.fault
  · exact h

end

end

end Inv

theorem Inv.step (h : Inv may all w) {op : LoopOp} (hok : w.DriverOk op)
    (hspace : may ∨ w.Room op) : Inv may all (w.step op) := by
  unfold BufCore.step
  split
  · exact h
  · next hfault => exact h.stepAt hfault hok hspace

/-- Every handle is in one place, and the cache and the transmit queue are within
their bounds. -/
structure Owned (all : List ℕ) (w : BufCore) : Prop where
  once : ∀ h, w.places h = if h ∈ all then 1 else 0
  cache : w.bufcacheNum ≤ bufcacheSize
  tx : w.txHandles.length ≤ txbufSize

theorem Inv.owned (h : Inv may all w) (hall : all.Nodup) : w.Owned all where
  once x := by rw [h.once, hall.count]
  cache := h.num
  tx := (Nat.le_add_right _ _).trans h.tx

/-- Where the applications leave room in their queues, nothing ends the program
and no array is left. -/
theorem packet_buffers_owned {all : List ℕ} (hall : all.Nodup) (bufcacheHandles : ℕ → ℕ)
    (rxLen : UInt16 → UInt32) (ops : List LoopOp)
    (hrun : Run.Admissible step (fun w op => w.DriverOk op ∧ w.Room op)
      (start all bufcacheHandles rxLen) ops) :
    (ops.foldl step (start all bufcacheHandles rxLen)).Owned all ∧
      (ops.foldl step (start all bufcacheHandles rxLen)).fault = none := by
  have h : Inv False all (ops.foldl step (start all bufcacheHandles rxLen)) :=
    hrun.invariant (Inv.start all bufcacheHandles rxLen)
      fun _ _ h hok => h.step hok.1 (.inr hok.2)
  exact ⟨h.owned hall, h.fault.resolve_right fun hfault => hfault.1⟩

def firstByte (flowId : UInt32) : LoopOp :=
  .packet (some (flowId, nicifConnectionAdd default (fourByteConn 100)))
    { seqno := 100, ackno := 0, flags := {}, wnd := 0, ecnCe := false, tsVal := 0, tsEcr := 0
      payloadBytes := 1, payload := [1], payload_length := rfl } 0

def sixBuffers : BufCore := start [0, 1, 2, 3, 4, 5] (fun _ => 0) fun _ => 64

def oneIteration : List LoopOp :=
  [.receive [4, 2], firstByte 0, .packet none ⟨0, 0, {}, 0, false, 0, 0, 0, [], rfl⟩ 0, .next,
    .next, .next, .send 0, .next, .qmanPoll [0, 1, 3] 0, .fetch [] 0, .next, .kernelPoll [],
    .ktx (some .packet), .ktx none, .send 1]

theorem packet_buffers_owned_oneIteration :
    Run.Admissible step (fun w op => w.DriverOk op ∧ w.Room op) sixBuffers oneIteration ∧
      (oneIteration.foldl step sixBuffers).Owned [0, 1, 2, 3, 4, 5] ∧
      (oneIteration.foldl step sixBuffers).fault = none :=
  have hrun : Run.Admissible step (fun w op => w.DriverOk op ∧ w.Room op) sixBuffers
      oneIteration := by decide +kernel
  ⟨hrun, packet_buffers_owned (by decide) (fun _ => 0) (fun _ => 64) oneIteration hrun⟩

example : (oneIteration.foldl step sixBuffers).txHandles = [2] ∧
    (oneIteration.foldl step sixBuffers).driver = [4, 5] := by decide +kernel

def threeFirstBytes : List LoopOp :=
  [.receive [0, 1, 2], firstByte 0, firstByte 1, firstByte 2, .next]

/-- `arx_cache_flush` ends the program when an application is late. -/
theorem late_application_aborts :
    Run.Admissible step DriverOk sixBuffers threeFirstBytes ∧
      (threeFirstBytes.foldl step sixBuffers).fault = some .arxCacheFlush := by
  decide +kernel

end BufCore

end StackBench.Tas

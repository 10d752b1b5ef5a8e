import StackBench.Lib.Linked
import StackBench.Tas.FastFlows

/-!
# The TAS queue manager

`qman.c`: the queues of one thread, the list of queues without a rate limit and
the skip list of the others, linked through the array of queues. `none` is a
failed `assert`, a queue id out of range, or an endless loop.
-/

namespace StackBench.Tas

open Function

def idxlistInval : UInt32 := 0xFFFFFFFF

def skiplistLevels : ℕ := 4

def numQmqueues : ℕ := 131072

structure Queue where
  nextIdxs : ℕ → UInt32
  nextTs : UInt32
  rate : UInt32
  avail : UInt32
  maxChunk : UInt16
  /-- `FLAG_INSKIPLIST`. -/
  inSkiplist : Bool
  /-- `FLAG_INNOLIMITL`. -/
  inNolimit : Bool

/-- `struct qman_thread`, with the random words still to come. -/
structure QmanThread where
  queues : UInt32 → Queue
  headIdx : ℕ → UInt32
  nolimitHeadIdx : UInt32
  nolimitTailIdx : UInt32
  tsVirtual : UInt32
  tsReal : UInt32
  nolimitFirst : Bool
  rng : ℕ → UInt32

/-- `qman_thread_init`, on cleared memory, at the time `ts`. -/
def qmanThreadInit (rng : ℕ → UInt32) (ts : UInt32) : QmanThread where
  queues := fun _ => ⟨fun _ => 0, 0, 0, 0, 0, false, false⟩
  headIdx := fun _ => idxlistInval
  nolimitHeadIdx := idxlistInval
  nolimitTailIdx := idxlistInval
  tsVirtual := 0
  tsReal := ts
  nolimitFirst := false
  rng := rng

namespace QmanThread

variable (t : QmanThread)

/-- The links of level `l`. -/
def next (l : ℕ) : UInt32 → UInt32 := fun i => (t.queues i).nextIdxs l

def setQueue (i : UInt32) (q : Queue) : QmanThread :=
  { t with queues := update t.queues i q }

/-- `t->queues[i].next_idxs[l] = v`. -/
def setNext (i : UInt32) (l : ℕ) (v : UInt32) : QmanThread :=
  t.setQueue i { t.queues i with nextIdxs := update (t.queues i).nextIdxs l v }

end QmanThread

def relTime (curTs tsIn : UInt32) : ℤ :=
  let cur : ℤ := curTs.toNat
  let ts : ℤ := tsIn.toNat
  let middle : ℤ := 2 ^ 31
  if cur < middle then
    -- negative interval is split in half
    if cur + middle ≤ ts then ts - (cur + middle) - middle else ts - cur
  else if cur = middle then
    ts - cur
  else
    -- higher interval is split
    if ts < cur - middle + 1 then ts + (2 ^ 32 - cur) else ts - cur

variable (t : QmanThread)

def timestampLessthaneq (a b : UInt32) : Bool :=
  relTime t.tsVirtual a ≤ relTime t.tsVirtual b

def queueNewTs (q : Queue) (bytes : UInt32) : UInt32 :=
  t.tsVirtual + UInt32.ofNat (bytes.toNat * 8 * 1000000 / q.rate.toNat)

def queueActivateNolimit (idx : UInt32) : Option QmanThread :=
  let q := t.queues idx
  if q.inSkiplist || q.inNolimit then none
  else
    let t := t.setQueue idx
      { q with inNolimit := true, nextIdxs := update q.nextIdxs 0 idxlistInval }
    if t.nolimitTailIdx = idxlistInval then
      some { t with nolimitHeadIdx := idx, nolimitTailIdx := idx }
    else
      some { t.setNext t.nolimitTailIdx 0 idx with nolimitTailIdx := idx }

def ffs (x : UInt32) : ℕ := ((List.range 32).find? fun i => x.toNat.testBit i).elim 0 (· + 1)

/-- `queue_level` for a random word. -/
def queueLevel (x : UInt32) : ℕ := min ((ffs x - 1) / 3) (skiplistLevels - 1)

/-- The time stamp of `queue_activate_skiplist`: not past, and not later than after a full chunk. -/
def activateTs (q : Queue) : UInt32 :=
  let maxTs := queueNewTs t q q.maxChunk.toUInt32
  if timestampLessthaneq t q.nextTs t.tsVirtual then t.tsVirtual
  else if !timestampLessthaneq t q.nextTs maxTs then maxTs
  else q.nextTs

/-- The predecessor of the time `ts` on level `l`, looked for from the one found
on the level above. -/
def findPred (ts : UInt32) (l : ℕ) (pred : UInt32) : Option UInt32 :=
  Linked.walk (fun i => timestampLessthaneq t (t.queues i).nextTs ts) (t.next l) idxlistInval
    (numQmqueues + 1) pred (if pred ≠ idxlistInval then pred else t.headIdx l)

/-- The predecessors on the levels below `n`, top down. -/
def findPreds (t : QmanThread) (ts : UInt32) : ℕ → UInt32 → (ℕ → UInt32) → Option (ℕ → UInt32)
  | 0, _, preds => some preds
  | l + 1, pred, preds =>
    match findPred t ts l pred with
    | none => none
    | some p => findPreds t ts l p (update preds l p)

/-- Link the queue `idx` into level `l` behind `pred`. -/
def linkLevel (idx pred : UInt32) (level l : ℕ) : QmanThread :=
  if level < l then
    t.setNext idx l idxlistInval
  else if pred ≠ idxlistInval then
    (t.setNext idx l (t.next l pred)).setNext pred l idx
  else
    { t.setNext idx l (t.headIdx l) with headIdx := update t.headIdx l idx }

/-- The second loop of `queue_activate_skiplist`. -/
def linkLevels (idx : UInt32) (preds : ℕ → UInt32) (level : ℕ) : QmanThread :=
  [3, 2, 1, 0].foldl (fun t l => linkLevel t idx (preds l) level l) t

def queueActivateSkiplist (idx : UInt32) : Option QmanThread :=
  let q := t.queues idx
  if q.inSkiplist || q.inNolimit then none
  else
    let ts := activateTs t q
    let t := t.setQueue idx { q with nextTs := ts }
    match findPreds t ts skiplistLevels idxlistInval fun _ => idxlistInval with
    | none => none
    | some preds =>
      let level := queueLevel (t.rng 0)
      let t := linkLevels { t with rng := fun i => t.rng (i + 1) } idx preds level
      some (t.setQueue idx { t.queues idx with inSkiplist := true })

def queueActivate (idx : UInt32) : Option QmanThread :=
  if (t.queues idx).rate = 0 then queueActivateNolimit t idx else queueActivateSkiplist t idx

/-- `qman_set` with `QMAN_SET_RATE`, `QMAN_SET_MAXCHUNK` and one of
`QMAN_SET_AVAIL` and `QMAN_ADD_AVAIL`. -/
def qmanSet (s : QmanSet) : Option QmanThread :=
  if !qmanIdOk s.id then none
  else
    let q := t.queues s.id
    let avail := if s.add then q.avail + s.avail else s.avail
    let t := t.setQueue s.id { q with rate := s.rate, maxChunk := s.maxChunk, avail := avail }
    if avail > 0 ∧ (q.inSkiplist || q.inNolimit) = false then queueActivate t s.id else some t

/-- A queue that fired, with the bytes charged to it. -/
structure Firing where
  id : UInt32
  bytes : UInt32
deriving DecidableEq

/-- The bytes `queue_fire` charges. -/
def fireBytes (q : Queue) : UInt32 :=
  if q.avail ≤ q.maxChunk.toUInt32 then q.avail else q.maxChunk.toUInt32

def queueFire (idx : UInt32) : Option (QmanThread × Firing) :=
  let q := t.queues idx
  if q.avail = 0 then none
  else
    let bytes := fireBytes q
    let avail := q.avail - bytes
    let t := t.setQueue idx
      { q with
        avail := avail
        nextTs := if q.rate > 0 then queueNewTs t q bytes else q.nextTs }
    if avail > 0 then (queueActivate t idx).map fun t => (t, ⟨idx, bytes⟩)
    else some (t, ⟨idx, bytes⟩)

/-- Take the first queue off the list of queues without limit. -/
def nolimitPop (idx : UInt32) : QmanThread :=
  let q := t.queues idx
  { t.setQueue idx { q with inNolimit := false } with
    nolimitHeadIdx := q.nextIdxs 0
    nolimitTailIdx := if q.nextIdxs 0 = idxlistInval then idxlistInval else t.nolimitTailIdx }

def pollNolimit : ℕ → ℕ → QmanThread → Option (QmanThread × List Firing)
  | 0, _, _ => none
  | fuel + 1, num, t =>
    if num = 0 ∨ t.nolimitHeadIdx = idxlistInval then some (t, [])
    else
      let idx := t.nolimitHeadIdx
      let t := nolimitPop t idx
      if (t.queues idx).avail > 0 then
        match queueFire t idx with
        | none => none
        | some (t, f) => (pollNolimit fuel (num - 1) t).map fun r => (r.1, f :: r.2)
      else pollNolimit fuel num t

/-- Take the first queue off the skip list, on every level that it heads. -/
def skiplistPop (t : QmanThread) (idx : UInt32) : ℕ → ℕ → QmanThread
  | 0, _ => t
  | n + 1, l =>
    if t.headIdx l = idx then
      skiplistPop { t with headIdx := update t.headIdx l (t.next l idx) } idx n (l + 1)
    else t

/-- The loop of `poll_skiplist`, with the virtual time it may reach. -/
def pollSkiplistLoop (maxVts : UInt32) : ℕ → ℕ → QmanThread → Option (QmanThread × List Firing)
  | 0, _, _ => none
  | fuel + 1, num, t =>
    if num = 0 then
      -- the limit is reached
      let idx := t.headIdx 0
      if idx ≠ idxlistInval ∧ timestampLessthaneq t (t.queues idx).nextTs maxVts = true then
        some ({ t with tsVirtual := (t.queues idx).nextTs }, [])
      else some ({ t with tsVirtual := maxVts }, [])
    else
      let idx := t.headIdx 0
      if idx = idxlistInval then some ({ t with tsVirtual := maxVts }, [])
      else if !timestampLessthaneq t (t.queues idx).nextTs maxVts then
        some ({ t with tsVirtual := maxVts }, [])
      else
        let t := skiplistPop t idx skiplistLevels 0
        let q := t.queues idx
        if !q.inSkiplist then none
        else
          let t := { t.setQueue idx { q with inSkiplist := false } with tsVirtual := q.nextTs }
          if q.avail > 0 then
            match queueFire t idx with
            | none => none
            | some (t, f) =>
              (pollSkiplistLoop maxVts fuel (num - 1) t).map fun r => (r.1, f :: r.2)
          else pollSkiplistLoop maxVts fuel num t

/-- Iterations that suffice where each takes a queue off a list or uses up a firing. -/
def pollFuel (num : ℕ) : ℕ := num + numQmqueues + 1

def pollSkiplist (curTs : UInt32) (num : ℕ) : Option (QmanThread × List Firing) :=
  (pollSkiplistLoop (t.tsVirtual + (curTs - t.tsReal)) (pollFuel num) num t).map fun r =>
    ({ r.1 with tsReal := curTs }, r.2)

/-- Poll both kinds of queues, in the order the thread is at. -/
def pollBoth (ts : UInt32) (num : ℕ) : Option (QmanThread × List Firing) :=
  if t.nolimitFirst then
    match pollNolimit (pollFuel num) num t with
    | none => none
    | some (t, x) => (pollSkiplist t ts (num - x.length)).map fun r => (r.1, x ++ r.2)
  else
    match pollSkiplist t ts num with
    | none => none
    | some (t, x) =>
      (pollNolimit (pollFuel (num - x.length)) (num - x.length) t).map fun r => (r.1, x ++ r.2)

def qmanPoll (ts : UInt32) (num : ℕ) : Option (QmanThread × List Firing) :=
  (pollBoth t ts num).map fun r => ({ r.1 with nolimitFirst := !r.1.nolimitFirst }, r.2)

end StackBench.Tas

import StackBench.Lib.Run
import StackBench.Tas.FastFlows
import StackBench.Tas.QueueEntries

/-!
# The queue from an application to a fast-path core

`conns_bump` fills the entry at `txq_tail`, sets its type and moves the tail;
`txq_probe` looks for freed entries. `poll_queues` fetches up to `BATCH_SIZE`
entries, moving `tx_head`, before it applies and frees them one by one. The
steps of the two sides interleave.
-/

open List

namespace StackBench.Tas

open Entry (read)

def batchSize : ℕ := 16

/-- The message of a connection update. -/
structure AtxMsg where
  flowId : UInt32
  bump : Bump
deriving DecidableEq

/-- Where the library is between two steps. -/
inductive AtxStage where
  | idle
  /-- The type of the entry at the tail is set, `flextcp_context_tx_done` comes. -/
  | published
  /-- Inside the loop of `txq_probe`, which was called for `num` events. -/
  | probing (num : UInt32) (s : Scan)
deriving DecidableEq

/-- The queue of one context and core, with the entries `produced` and those `seen`. -/
structure AtxQueue where
  mem : ℕ → Entry AtxMsg
  txqTail : UInt32
  txqAvail : UInt32
  stage : AtxStage
  txHead : UInt32
  /-- The entries that `poll_queues` fetched and has not freed. -/
  aqes : List UInt32
  /-- The first of them was applied. -/
  busy : Bool
  aborted : Bool
  produced : List (Entry AtxMsg)
  seen : List (Entry AtxMsg)
  overwrote : Bool

inductive AtxOp where
  | publish (m : AtxMsg)
  | txDone
  | probe (num : UInt32)
  | probeStep
  | pollFetch
  | pollBump
  | bumpDone

namespace AtxQueue

variable (len : UInt32) (w : AtxQueue)

/-- A new queue of `len` bytes, cleared by the slow path. -/
def init : AtxQueue where
  mem _ := ⟨0, ⟨0, ⟨0, 0, 0, false⟩⟩⟩
  txqTail := 0
  txqAvail := len
  stage := .idle
  txHead := 0
  aqes := []
  busy := false
  aborted := false
  produced := []
  seen := []
  overwrote := false

/-- `flextcp_context_tx_alloc` and the entry that `conns_bump` fills in. -/
def publish (m : AtxMsg) : AtxQueue :=
  if w.txqAvail = 0 then w
  else
    { w with
      mem := Entry.put w.mem 16 w.txqTail ⟨1, m⟩
      stage := .published
      produced := w.produced ++ [⟨1, m⟩]
      overwrote := w.overwrote || (read w.mem 16 w.txqTail).type != 0 }

def txDone : AtxQueue :=
  { w with
    txqTail := nextEntry 16 len w.txqTail
    txqAvail := w.txqAvail - 16
    stage := .idle }

/-- `txq_probe` up to its loop. -/
def probe (num : UInt32) : AtxQueue :=
  if w.txqAvail > len / 2 then w
  else { w with stage := .probing num (scanStart len w.txqTail w.txqAvail) }

/-- One iteration of the loop of `txq_probe`; the count is stored after the loop. -/
def probeStep (num : UInt32) (s : Scan) : AtxQueue :=
  match scanStep 16 len (2 * num) w.mem s with
  | some s' => { w with stage := .probing num s' }
  | none => { w with txqAvail := s.avail, stage := .idle }

def pollFetch : AtxQueue :=
  let e := read w.mem 16 w.txHead
  if len = 0 ∨ e.type = 0 then w
  else if e.type ≠ 1 ∨ e.msg.flowId ≥ flowstNum then { w with aborted := true }
  else
    { w with
      txHead := nextEntry 16 len w.txHead
      aqes := w.aqes ++ [w.txHead] }

/-- One step of the library or of the fast path; `poll_queues` fetches while its batch has room. -/
def step : AtxOp → AtxQueue
  | .publish m => if w.stage = .idle then w.publish m else w
  | .txDone => if w.stage = .published then w.txDone len else w
  | .probe num => if w.stage = .idle then w.probe len num else w
  | .probeStep =>
    match w.stage with
    | .probing num s => w.probeStep len num s
    | _ => w
  | .pollFetch => if w.aqes.length < batchSize then w.pollFetch len else w
  | .pollBump =>
    match w.aqes with
    | p :: _ =>
      if w.busy then w else { w with busy := true, seen := w.seen ++ [read w.mem 16 p] }
    | [] => w
  | .bumpDone =>
    match w.aqes with
    | p :: ps =>
      if w.busy then { w with mem := Entry.free w.mem 16 p, aqes := ps, busy := false } else w
    | [] => w

/-- The library posts updates of flows that exist. -/
def Ok (_ : AtxQueue) : AtxOp → Prop
  | .publish m => m.flowId < flowstNum
  | _ => True

instance (w : AtxQueue) : DecidablePred w.Ok := fun op => by
  cases op <;> dsimp only [Ok] <;> infer_instance

/-- A whole call of `txq_probe`, not interrupted: the scan passes every entry at
most once. -/
def txqProbe (num : UInt32) : AtxQueue :=
  (List.replicate len.toNat .probeStep).foldl (step len) (w.step len (.probe num))

/-- What the library knows when `a` more entries can be reserved. -/
def Producer (a : ℕ) (w : AtxQueue) : AtxStage → Prop
  | .idle => At 16 len w.txqTail w.produced.length ∧ w.txqAvail.toNat = 16 * a
  | .published =>
    (∃ p, p + 1 = w.produced.length ∧ At 16 len w.txqTail p) ∧ w.txqAvail.toNat = 16 * (a + 1)
  | .probing _ s =>
    At 16 len w.txqTail w.produced.length ∧ w.txqAvail.toNat ≤ 16 * a ∧
      At 16 len s.pos (w.produced.length + a) ∧ s.avail.toNat = 16 * a

/-- The fast path freed `c` entries and the library may reserve `a`. -/
structure Inv (len : UInt32) (n c a : ℕ) (w : AtxQueue) : Prop where
  ring : Slots.Ring n (Entry.slot w.mem) w.produced c w.produced.length a
  producer : w.Producer len a w.stage
  head : At 16 len w.txHead (c + w.aqes.length)
  aqes : Ats 16 len c w.aqes
  fetched : c + w.aqes.length ≤ w.produced.length
  batch : w.aqes.length ≤ batchSize
  busy : w.busy = true → w.aqes ≠ []
  seen : w.seen = w.produced.take (c + w.busy.toNat)
  valid : ∀ e ∈ w.produced, e.type = 1 ∧ e.msg.flowId < flowstNum
  kept : w.overwrote = false
  running : w.aborted = false

/-- What holds of the queue in every state. -/
def Valid (n : ℕ) (w : AtxQueue) : Prop := ∃ c a, w.Inv len n c a

/-- A queue holds a batch, and the start of a scan does not leave the word. -/
structure Fits (len : UInt32) (n : ℕ) : Prop where
  layout : Layout 16 len n
  half : len.toNat + len.toNat / 2 < 2 ^ 32
  batch : batchSize ≤ n

variable {len} {n c a : ℕ} {w}

theorem inv_init (hfits : Fits len n) : (init len).Inv len n 0 n where
  ring := Slots.ring_empty n fun _ => rfl
  producer := ⟨at_zero 16 len, hfits.layout.len⟩
  head := at_zero 16 len
  aqes := trivial
  fetched := Nat.le_refl 0
  batch := Nat.zero_le _
  busy := nofun
  seen := rfl
  valid := nofun
  kept := rfl
  running := rfl

section

variable (h : w.Inv len n c a)
include h

theorem Inv.seen_le : c + w.busy.toNat ≤ w.produced.length := by
  have hfetched := h.fetched
  cases hb : w.busy with
  | false => simpa using h.ring.cleared
  | true =>
    have hne := length_pos_iff.mpr (h.busy hb)
    show c + 1 ≤ _
    omega

theorem Inv.publish (hfits : Fits len n) (hidle : w.stage = .idle)
    {m : AtxMsg} (hm : m.flowId < flowstNum) : ∃ a', (w.publish m).Inv len n c a' := by
  unfold AtxQueue.publish
  split
  · exact ⟨a, h⟩
  next havail =>
  have hproducer := h.producer
  rw [hidle] at hproducer
  obtain ⟨htail, hbytes⟩ := hproducer
  cases a with
  | zero => exact absurd (UInt32.toNat_inj.mp hbytes) havail
  | succ a =>
    have hreserved := h.ring.reserve
    have hfree := (htail.read_type_eq_zero hfits.layout).mpr
      (hreserved.free_next (Nat.lt_succ_self _))
    have hwrite := hreserved.write (Nat.lt_succ_self _) (⟨1, m⟩ : Entry AtxMsg)
    rw [← htail.slot_put hfits.layout (show (1 : UInt8) ≠ 0 by decide)] at hwrite
    have hlength : (w.produced ++ [(⟨1, m⟩ : Entry AtxMsg)]).length =
        w.produced.length + 1 := length_append
    refine ⟨a, ?_, ?_, h.head, h.aqes, ?_, h.batch, h.busy, ?_, ?_, ?_, h.running⟩
    · rw [hlength]
      exact hwrite
    · exact ⟨⟨w.produced.length, hlength.symm, htail⟩, hbytes⟩
    · rw [hlength]
      exact h.fetched.trans (Nat.le_succ _)
    · rw [take_append_of_le_length h.seen_le]
      exact h.seen
    · intro e he
      rcases mem_append.mp he with he | he
      · exact h.valid e he
      · rw [mem_singleton.mp he]
        exact ⟨rfl, hm⟩
    · rw [h.kept, hfree]
      rfl

theorem Inv.txDone (hfits : Fits len n) (hstage : w.stage = .published) :
    (w.txDone len).Inv len n c a := by
  have hproducer := h.producer
  rw [hstage] at hproducer
  obtain ⟨⟨p, hp, htail⟩, hbytes⟩ := hproducer
  refine { h with producer := ⟨?_, ?_⟩ }
  · have hnext := htail.next hfits.layout
    rw [hp] at hnext
    exact hnext
  · have hsub : (w.txqAvail - 16).toNat = w.txqAvail.toNat - 16 :=
      Word.sub_toNat (b := 16) (by rw [hbytes]; show 16 ≤ _; omega)
    show (w.txqAvail - 16).toNat = 16 * a
    omega

theorem Inv.probe (hfits : Fits len n) (hidle : w.stage = .idle)
    (num : UInt32) : (w.probe len num).Inv len n c a := by
  unfold AtxQueue.probe
  split
  · exact h
  next hhalf =>
  have hproducer := h.producer
  rw [hidle] at hproducer
  obtain ⟨htail, hbytes⟩ := hproducer
  have hscan := scans_start hfits.layout hfits.half h.ring htail hbytes hhalf
  exact { h with producer := ⟨htail, hbytes.le, hscan.pos, hscan.avail⟩ }

variable {num : UInt32} {s : Scan}

theorem Inv.scans (hstage : w.stage = .probing num s) : Scans 16 len n w.mem w.produced c a s := by
  have hproducer := h.producer
  rw [hstage] at hproducer
  exact ⟨h.ring, hproducer.2.2.1, hproducer.2.2.2⟩

theorem Inv.probeStep_some (hfits : Fits len n) {s' : Scan}
    (hstage : w.stage = .probing num s) (hscan : scanStep 16 len (2 * num) w.mem s = some s') :
    ({ w with stage := .probing num s' } : AtxQueue).Inv len n c (a + 1) := by
  have hproducer := h.producer
  rw [hstage] at hproducer
  obtain ⟨htail, hle, -, -⟩ := hproducer
  have hnext := (h.scans hstage).step hfits.layout hscan
  exact { h with ring := hnext.ring, producer := ⟨htail,
      hle.trans (Nat.mul_le_mul_left 16 (Nat.le_succ a)), hnext.pos, hnext.avail⟩ }

theorem Inv.probeStep_none (hstage : w.stage = .probing num s) :
    ({ w with txqAvail := s.avail, stage := .idle } : AtxQueue).Inv len n c a := by
  have hproducer := h.producer
  rw [hstage] at hproducer
  obtain ⟨htail, -, -, hbytes⟩ := hproducer
  exact { h with producer := ⟨htail, hbytes⟩ }

end

theorem Producer.congr {w' : AtxQueue} {stage : AtxStage} (h : w.Producer len a stage)
    (h₁ : w'.txqTail = w.txqTail) (h₂ : w'.txqAvail = w.txqAvail)
    (h₃ : w'.produced = w.produced) : w'.Producer len a stage := by
  cases stage <;> simpa only [Producer, h₁, h₂, h₃] using h

section

variable (h : w.Inv len n c a)
include h

section

variable (hfits : Fits len n)
include hfits

theorem Inv.head_entry (hroom : w.aqes.length < batchSize)
    (htype : (read w.mem 16 w.txHead).type ≠ 0) :
    w.produced[c + w.aqes.length]? = some (read w.mem 16 w.txHead) := by
  have hbatch := hfits.batch
  rw [← h.ring.stores (c + w.aqes.length) (Nat.le_add_right _ _) (by omega)]
  exact h.head.slot_eq_read hfits.layout htype

theorem Inv.pollFetch (hroom : w.aqes.length < batchSize) : (w.pollFetch len).Inv len n c a := by
  simp only [AtxQueue.pollFetch]
  split
  · exact h
  next hlive =>
  have htype : (read w.mem 16 w.txHead).type ≠ 0 := fun h0 => hlive (Or.inr h0)
  have hentry := h.head_entry hfits hroom htype
  obtain ⟨hlt, -⟩ := List.getElem?_eq_some_iff.mp hentry
  obtain ⟨hone, hflow⟩ := h.valid _ (mem_of_getElem? hentry)
  have hvalid : ¬ ((read w.mem 16 w.txHead).type ≠ 1 ∨
      (read w.mem 16 w.txHead).msg.flowId ≥ flowstNum) := by
    rintro (hne | hge)
    · exact hne hone
    · exact UInt32.not_lt.mpr hge hflow
  rw [if_neg hvalid]
  have hlength : (w.aqes ++ [w.txHead]).length = w.aqes.length + 1 := length_append
  refine ⟨h.ring, h.producer.congr rfl rfl rfl, ?_, h.aqes.concat h.head, ?_, ?_, ?_, h.seen,
    h.valid, h.kept, h.running⟩
  · rw [hlength]
    exact h.head.next hfits.layout
  · rw [hlength]
    exact hlt
  · rw [hlength]
    exact hroom
  · exact fun _ => append_ne_nil_of_right_ne_nil _ (cons_ne_nil _ _)

theorem Inv.pollBump {p : UInt32} {ps : List UInt32}
    (haqes : w.aqes = p :: ps) (hbusy : w.busy = false) :
    ({ w with busy := true, seen := w.seen ++ [read w.mem 16 p] } : AtxQueue).Inv
      len n c a := by
  have hat : At 16 len p c := by
    have haqes' := h.aqes
    rw [haqes] at haqes'
    exact haqes'.1
  have hlt : c < w.produced.length := by
    have hfetched := h.fetched
    rw [haqes, length_cons] at hfetched
    omega
  have hslot : Entry.slot w.mem (c % n) = some (w.produced.get ⟨c, hlt⟩) := by
    rw [h.ring.stores c (Nat.le_refl c) (Nat.lt_add_of_pos_right hfits.layout.pos)]
    exact getElem?_eq_getElem hlt
  have htype : (read w.mem 16 p).type ≠ 0 := by
    intro hzero
    rw [(hat.read_type_eq_zero hfits.layout).mp hzero] at hslot
    cases hslot
  have hentry : read w.mem 16 p = w.produced.get ⟨c, hlt⟩ := by
    rw [hat.slot_eq_read hfits.layout htype] at hslot
    exact Option.some.inj hslot
  refine { h with producer := h.producer.congr rfl rfl rfl, busy := ?_, seen := ?_ }
  · intro _
    rw [haqes]
    exact cons_ne_nil p ps
  · have hseen := h.seen
    rw [hbusy] at hseen
    show w.seen ++ [read w.mem 16 p] = w.produced.take (c + 1)
    rw [hseen, hentry, take_add_one, getElem?_eq_getElem hlt]
    rfl

theorem Inv.bumpDone {p : UInt32} {ps : List UInt32}
    (haqes : w.aqes = p :: ps) (hbusy : w.busy = true) :
    ({ w with mem := Entry.free w.mem 16 p, aqes := ps, busy := false } : AtxQueue).Inv
      len n (c + 1) a := by
  obtain ⟨hat, hrest⟩ : At 16 len p c ∧ Ats 16 len (c + 1) ps := by
    have haqes' := h.aqes
    rw [haqes] at haqes'
    exact haqes'
  have hcount : c + w.aqes.length = c + 1 + ps.length := by
    rw [haqes, length_cons]
    omega
  have hfetched := h.fetched
  have hring := h.ring.clear (by omega)
  rw [← hat.slot_free hfits.layout] at hring
  refine ⟨hring, h.producer.congr rfl rfl rfl, ?_, hrest, ?_, ?_, nofun, ?_, h.valid, h.kept,
    h.running⟩
  · rw [← hcount]
    exact h.head
  · show c + 1 + ps.length ≤ w.produced.length
    omega
  · have hbatch := h.batch
    rw [haqes, length_cons] at hbatch
    exact (Nat.le_succ _).trans hbatch
  · have hseen := h.seen
    rw [hbusy] at hseen
    exact hseen

theorem Inv.step {op : AtxOp} (hok : w.Ok op) : (w.step len op).Valid len n := by
  cases op with
  | publish m =>
    simp only [AtxQueue.step]
    split
    · next hidle =>
      obtain ⟨a', h'⟩ := h.publish hfits hidle hok
      exact ⟨c, a', h'⟩
    · exact ⟨c, a, h⟩
  | txDone =>
    simp only [AtxQueue.step]
    split
    · next hstage => exact ⟨c, a, h.txDone hfits hstage⟩
    · exact ⟨c, a, h⟩
  | probe num =>
    simp only [AtxQueue.step]
    split
    · next hidle => exact ⟨c, a, h.probe hfits hidle num⟩
    · exact ⟨c, a, h⟩
  | probeStep =>
    simp only [AtxQueue.step]
    split
    · next num s hstage =>
      unfold AtxQueue.probeStep
      split
      · next s' hscan => exact ⟨c, a + 1, h.probeStep_some hfits hstage hscan⟩
      · exact ⟨c, a, h.probeStep_none hstage⟩
    · exact ⟨c, a, h⟩
  | pollFetch =>
    simp only [AtxQueue.step]
    split
    · next hroom => exact ⟨c, a, h.pollFetch hfits hroom⟩
    · exact ⟨c, a, h⟩
  | pollBump =>
    simp only [AtxQueue.step]
    split
    · next p ps haqes =>
      split
      · exact ⟨c, a, h⟩
      · next hbusy => exact ⟨c, a, h.pollBump hfits haqes (Bool.not_eq_true _ ▸ hbusy)⟩
    · exact ⟨c, a, h⟩
  | bumpDone =>
    simp only [AtxQueue.step]
    split
    · next p ps haqes =>
      split
      · next hbusy => exact ⟨c + 1, a, h.bumpDone hfits haqes hbusy⟩
      · exact ⟨c, a, h⟩
    · exact ⟨c, a, h⟩

end

end

/-- The queue delivers in order and loses nothing, and the library gets room. -/
structure Sound (len : UInt32) (n : ℕ) (w : AtxQueue) : Prop where
  inOrder : w.seen = w.produced.take w.seen.length
  complete : w.aqes = [] → (read w.mem 16 w.txHead).type = 0 → w.seen = w.produced
  kept : w.overwrote = false
  running : w.aborted = false
  avail : w.txqAvail.toNat ≤ 16 * (freeEntries n w.mem + if w.stage = .published then 1 else 0)
  refill : w.stage = .idle → w.aqes = [] → w.seen = w.produced → ∀ num : UInt32, 2 * num ≠ 0 →
    (w.txqProbe len num).stage = .idle ∧ (w.txqProbe len num).txqAvail ≠ 0

section

variable (h : w.Inv len n c a)
include h

theorem Inv.seen_length : w.seen.length = c + w.busy.toNat := by
  rw [h.seen, length_take]
  exact Nat.min_eq_left h.seen_le

theorem Inv.not_busy (haqes : w.aqes = []) : w.busy = false := by
  cases hb : w.busy with
  | false => rfl
  | true => exact absurd haqes (h.busy hb)

theorem Inv.complete (hfits : Fits len n) (haqes : w.aqes = [])
    (htype : (read w.mem 16 w.txHead).type = 0) : w.seen = w.produced := by
  have hhead : At 16 len w.txHead c := by
    have hhead' := h.head
    rw [haqes] at hhead'
    exact hhead'
  have hslot := (hhead.read_type_eq_zero hfits.layout).mp htype
  rw [h.ring.stores c (Nat.le_refl c) (Nat.lt_add_of_pos_right hfits.layout.pos)] at hslot
  rw [h.seen, h.not_busy haqes]
  exact take_of_length_le (List.getElem?_eq_none_iff.mp hslot)

theorem Inv.avail_le :
    w.txqAvail.toNat ≤ 16 * (freeEntries n w.mem + if w.stage = .published then 1 else 0) := by
  have hfree : a + (w.produced.length - w.produced.length) ≤ freeEntries n w.mem :=
    freeEntries_ge h.ring
  have hproducer := h.producer
  cases hstage : w.stage with
  | idle =>
    rw [hstage] at hproducer
    obtain ⟨-, hbytes⟩ := hproducer
    omega
  | published =>
    rw [hstage] at hproducer
    obtain ⟨-, hbytes⟩ := hproducer
    rw [if_pos rfl]
    omega
  | probing num s =>
    rw [hstage] at hproducer
    obtain ⟨-, hbytes, -⟩ := hproducer
    omega

end

/-- `txq_probe` on a drained queue after `j` iterations: it is over with room, or has found `j`
entries. -/
def Refilling (len : UInt32) (n j : ℕ) (w : AtxQueue) : Prop :=
  ∃ a, w.Inv len n w.produced.length a ∧
    ((w.stage = .idle ∧ w.txqAvail ≠ 0) ∨
      ∃ num s, w.stage = .probing num s ∧ 2 * num ≠ 0 ∧ j ≤ a ∧ (a = 0 → s.i = 0))

theorem Refilling.step {j : ℕ} (h : w.Refilling len n j) (hfits : Fits len n) :
    (w.step len .probeStep).Refilling len n (j + 1) := by
  obtain ⟨a, hinv, ⟨hidle, havail⟩ | ⟨num, s, hstage, hnum, hj, hi⟩⟩ := h
  · have hsame : w.step len .probeStep = w := by
      rw [AtxQueue.step, hidle]
    rw [hsame]
    exact ⟨a, hinv, Or.inl ⟨hidle, havail⟩⟩
  have hstep : w.step len .probeStep = w.probeStep len num s := by
    rw [AtxQueue.step, hstage]
  rw [hstep]
  unfold AtxQueue.probeStep
  split
  · next s' hscan =>
    refine ⟨a + 1, hinv.probeStep_some hfits hstage hscan, Or.inr ⟨num, s', rfl, hnum, ?_, ?_⟩⟩
    · exact Nat.succ_le_succ hj
    · exact nofun
  next hscan =>
  refine ⟨a, hinv.probeStep_none hstage, Or.inl ⟨rfl, ?_⟩⟩
  exact (hinv.scans hstage).avail_ne_zero hfits.layout hnum hi hscan

theorem Inv.refill (h : w.Inv len n w.produced.length a) (hfits : Fits len n)
    (hidle : w.stage = .idle) {num : UInt32} (hnum : 2 * num ≠ 0) :
    (w.txqProbe len num).stage = .idle ∧ (w.txqProbe len num).txqAvail ≠ 0 := by
  have hstart : (w.step len (.probe num)).Refilling len n 0 := by
    have hinv := h.probe hfits hidle num
    have hstep : w.step len (.probe num) = w.probe len num := if_pos hidle
    rw [hstep]
    unfold AtxQueue.probe at hinv ⊢
    split
    · next hhalf =>
      rw [if_pos hhalf] at hinv
      refine ⟨a, hinv, Or.inl ⟨hidle, ?_⟩⟩
      rintro hzero
      rw [hzero] at hhalf
      exact absurd hhalf (UInt32.not_lt.mpr (UInt32.zero_le))
    · next hhalf =>
      rw [if_neg hhalf] at hinv
      exact ⟨a, hinv, Or.inr ⟨num, _, rfl, hnum, Nat.zero_le a, fun _ => rfl⟩⟩
  obtain ⟨b, hinv, hdone | ⟨num', s, -, -, hb, -⟩⟩ :=
    Run.foldl_replicate_invariant (fun _ _ h => h.step hfits) hstart len.toNat
  · exact hdone
  -- the scan cannot have found more entries than there are
  have hroom := hinv.ring.room
  have hlen : len.toNat = 16 * n := hfits.layout.len
  have hpos := hfits.layout.pos
  omega

theorem Inv.sound (h : w.Inv len n c a) (hfits : Fits len n) : w.Sound len n where
  inOrder := by
    rw [h.seen_length]
    exact h.seen
  complete := h.complete hfits
  kept := h.kept
  running := h.running
  avail := h.avail_le
  refill hidle haqes hseen num hnum := by
    have hc : w.produced.length = c := by
      rw [← hseen, h.seen_length, h.not_busy haqes]
      rfl
    rw [← hc] at h
    exact h.refill hfits hidle hnum

end AtxQueue

end StackBench.Tas

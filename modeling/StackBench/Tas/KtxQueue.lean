import StackBench.Tas.AtxQueue

/-!
# The ring from the slow path to a fast-path core

The slow path asks a core to send a packet or to retransmit a flow.
`ktx_try_alloc` takes the entry at the index `txq_tail` when its type is zero;
the type is set when the request is complete. `fast_kernel_poll` keeps a byte
offset `tx_head`, carries the request out and clears the type. The sides
interleave.
-/

namespace StackBench.Tas

open Function List
open Entry (slot slot_eq_none)

/-- The union of a ring entry; `connretran.flow_id` lies over the low half of `packet.addr`. -/
structure KtxMsg where
  addr : UInt64
  len : UInt16
deriving DecidableEq

def KtxMsg.flowId (m : KtxMsg) : UInt32 := m.addr.toUInt32

def KtxMsg.withFlowId (m : KtxMsg) (flowId : UInt32) : KtxMsg :=
  { m with addr := (m.addr &&& 0xFFFFFFFF00000000) ||| flowId.toUInt64 }

/-- What an entry asks for. -/
inductive KtxRequest where
  | packet (addr : UInt64) (len : UInt16) (noTs : Bool)
  | retransmit (flowId : UInt32)
  /-- The type is none of the three. -/
  | unknown
deriving DecidableEq

/-- How `fast_kernel_poll` reads an entry. -/
def ktxRequest (e : Entry KtxMsg) : KtxRequest :=
  if e.type = 1 then .packet e.msg.addr e.msg.len false
  else if e.type = 3 then .packet e.msg.addr e.msg.len true
  else if e.type = 2 then .retransmit e.msg.flowId
  else .unknown

/-- The lengths from the configuration, and the packet buffers of the entries. -/
structure KtxConfig where
  nicRxLen : ℕ
  nicTxLen : ℕ
  bufAddr : ℕ → UInt64

variable (cfg : KtxConfig) (w : KtxQueue)

def KtxConfig.rxqLen : UInt32 := UInt32.ofNat cfg.nicRxLen

def KtxConfig.txqLen : UInt32 := UInt32.ofNat cfg.nicTxLen

/-- `kctx->tx_len`, in bytes. -/
def KtxConfig.txLen : UInt32 := UInt32.ofNat (cfg.nicTxLen * 64)

/-- Where the slow path is between two steps. -/
inductive KtxStage where
  | idle
  /-- Between `nicif_tx_alloc` and `nicif_tx_send`, with the new tail and the
  packet that is filled in. -/
  | allocated (opaqueTail : UInt32) (addr : UInt64) (len : UInt16)
  /-- In `nicif_connection_retransmit`, before the type of the entry is set. -/
  | retransmitting (tail : UInt32) (flowId : UInt32)
deriving DecidableEq

/-- The ring of one core, with the requests made and those carried out, their slots, and whether a
slot outside was touched. -/
structure KtxQueue where
  mem : ℕ → Entry KtxMsg
  txqTail : UInt32
  stage : KtxStage
  txHead : UInt32
  /-- `fast_kernel_poll` has carried the request out and not cleared its type. -/
  polling : Bool
  aborted : Bool
  published : List KtxRequest
  consumed : List KtxRequest
  wrote : List ℕ
  read : List ℕ
  outside : Bool

inductive KtxOp where
  | txAlloc (len : UInt16)
  | txSend (noTs : Bool)
  | retransmit (flowId : UInt32)
  | retransmitDone
  | poll
  | pollDone

namespace KtxQueue

def init : KtxQueue where
  mem _ := ⟨0, ⟨0, 0⟩⟩
  txqTail := 0
  stage := .idle
  txHead := 0
  polling := false
  aborted := false
  published := []
  consumed := []
  wrote := []
  read := []
  outside := false

/-- The new tail of `ktx_try_alloc`: it wraps at the length of the other ring. -/
def nextTail (tail : UInt32) : UInt32 :=
  if tail + 1 = cfg.rxqLen then tail + 1 - cfg.rxqLen else tail + 1

def touch (i : ℕ) : KtxQueue :=
  { w with outside := w.outside || decide (cfg.nicTxLen ≤ i) }

/-- The message of an entry is written, and not its type. -/
def fill (i : ℕ) (m : KtxMsg) : KtxQueue :=
  { w with mem := update w.mem i { w.mem i with msg := m } }

def txAlloc (len : UInt16) : KtxQueue :=
  let i := w.txqTail.toNat
  let w := w.touch cfg i
  if (w.mem i).type ≠ 0 then w
  else
    { w.fill i ⟨cfg.bufAddr i, len⟩ with
      stage := .allocated (nextTail cfg w.txqTail) (cfg.bufAddr i) len }

/-- The request is complete: the type of its entry is set. -/
def publish (i : ℕ) (type : UInt8) (r : KtxRequest) : KtxQueue :=
  { w.touch cfg i with
    mem := update w.mem i { w.mem i with type := type }
    stage := .idle
    published := w.published ++ [r]
    wrote := w.wrote ++ [i] }

def txSend (opaqueTail : UInt32) (addr : UInt64) (len : UInt16) (noTs : Bool) : KtxQueue :=
  let tail := if opaqueTail = 0 then cfg.txqLen - 1 else opaqueTail - 1
  { w.publish cfg tail.toNat (if noTs then 3 else 1) (.packet addr len noTs) with
    txqTail := opaqueTail }

/-- `nicif_connection_retransmit` up to the memory barrier. -/
def retransmit (flowId : UInt32) : KtxQueue :=
  let i := w.txqTail.toNat
  let w := w.touch cfg i
  if (w.mem i).type ≠ 0 then w
  else
    { w.fill i ((w.mem i).msg.withFlowId flowId) with
      txqTail := nextTail cfg w.txqTail
      stage := .retransmitting w.txqTail flowId }

/-- `fast_kernel_poll` up to the memory barrier. -/
def poll : KtxQueue :=
  let i := w.txHead.toNat / 64
  if cfg.txLen = 0 then w
  else
    let w := w.touch cfg i
    let e := w.mem i
    if e.type = 0 then w
    else match ktxRequest e with
      | .packet addr len noTs =>
        { w with
          polling := true
          consumed := w.consumed ++ [.packet addr len noTs]
          read := w.read ++ [i] }
      | .retransmit flowId =>
        if flowId ≥ flowstNum then { w with aborted := true }
        else
          { w with
            polling := true
            consumed := w.consumed ++ [.retransmit flowId]
            read := w.read ++ [i] }
      | .unknown => { w with aborted := true }

def pollDone : KtxQueue :=
  { w with
    mem := Entry.free w.mem 64 w.txHead
    txHead := nextEntry 64 cfg.txLen w.txHead
    polling := false }

/-- One step of the slow path or of the core. Each side does one thing after the
other. -/
def step : KtxOp → KtxQueue
  | .txAlloc len => if w.stage = .idle then w.txAlloc cfg len else w
  | .txSend noTs =>
    match w.stage with
    | .allocated opaqueTail addr len => w.txSend cfg opaqueTail addr len noTs
    | _ => w
  | .retransmit flowId => if w.stage = .idle then w.retransmit cfg flowId else w
  | .retransmitDone =>
    match w.stage with
    | .retransmitting tail flowId => w.publish cfg tail.toNat 2 (.retransmit flowId)
    | _ => w
  | .poll => if w.polling then w else w.poll cfg
  | .pollDone => if w.polling then w.pollDone cfg else w

/-- The slow path asks for retransmits of flows that exist. -/
def Ok (_ : KtxQueue) : KtxOp → Prop
  | .retransmit flowId => flowId < flowstNum
  | _ => True

instance (w : KtxQueue) : DecidablePred w.Ok := fun op => by
  cases op <;> dsimp only [Ok] <;> infer_instance

/-- Requests arrive once and in order, at the slots that both sides visit in
turn. -/
structure Delivers (cfg : KtxConfig) (w : KtxQueue) : Prop where
  inside : w.outside = false
  running : w.aborted = false
  inOrder : w.consumed = w.published.take w.consumed.length
  wrote : w.wrote = (List.range w.published.length).map (· % cfg.nicTxLen)
  read : w.read = (List.range w.consumed.length).map (· % cfg.nicTxLen)
  next : w.polling = false → ∀ r, w.published[w.consumed.length]? = some r →
    (w.step cfg .poll).consumed = w.consumed ++ [r]

/-- The two lengths agree, and the ring is neither empty nor too long for the
byte offsets. -/
structure SameLength (cfg : KtxConfig) : Prop where
  same : cfg.nicRxLen = cfg.nicTxLen
  pos : 0 < cfg.nicTxLen
  bytes : cfg.nicTxLen * 64 < 2 ^ 32

/-- What the slow path knows of the entry that it fills in, the one for the
request number `p`. -/
def Filling (n p : ℕ) (w : KtxQueue) : KtxStage → Prop
  | .idle => w.txqTail.toNat = p % n
  | .allocated opaqueTail addr len =>
    opaqueTail.toNat = (p + 1) % n ∧ (w.mem (p % n)).msg = ⟨addr, len⟩
  | .retransmitting tail flowId =>
    w.txqTail.toNat = (p + 1) % n ∧ tail.toNat = p % n ∧
      (w.mem (p % n)).msg.flowId = flowId ∧ flowId < flowstNum

/-- The number of entries that the slow path has found free. -/
def KtxStage.found : KtxStage → ℕ
  | .idle => 0
  | .allocated _ _ _ | .retransmitting _ _ => 1

/-- An entry that the fast path knows. -/
def Known (e : Entry KtxMsg) : Prop :=
  e.type = 1 ∨ e.type = 3 ∨ e.type = 2 ∧ e.msg.flowId < flowstNum

/-- The core has cleared `c` entries of `log`. -/
structure Inv (cfg : KtxConfig) (log : List (Entry KtxMsg)) (c : ℕ) (w : KtxQueue) : Prop where
  ring : Slots.Ring cfg.nicTxLen (slot w.mem) log c log.length (KtxStage.found w.stage)
  requests : w.published = log.map ktxRequest
  known : ∀ e ∈ log, Known e
  filling : w.Filling cfg.nicTxLen log.length w.stage
  head : At 64 cfg.txLen w.txHead c
  polling : w.polling = true → c < log.length
  consumed : w.consumed = (log.take (c + w.polling.toNat)).map ktxRequest
  wrote : w.wrote = (List.range log.length).map (· % cfg.nicTxLen)
  read : w.read = (List.range (c + w.polling.toNat)).map (· % cfg.nicTxLen)
  inside : w.outside = false
  running : w.aborted = false

def Valid : Prop := ∃ log c, w.Inv cfg log c

variable {cfg} {log : List (Entry KtxMsg)} {c : ℕ} {w}

theorem SameLength.layout (h : SameLength cfg) : Layout 64 cfg.txLen cfg.nicTxLen where
  size_pos := by decide
  pos := h.pos
  len := by
    rw [KtxConfig.txLen, UInt32.toNat_ofNat', Nat.mod_eq_of_lt h.bytes, Nat.mul_comm]
    rfl

theorem SameLength.rxqLen (h : SameLength cfg) : cfg.rxqLen.toNat = cfg.nicTxLen := by
  have hbytes := h.bytes
  rw [KtxConfig.rxqLen, UInt32.toNat_ofNat', h.same]
  exact Nat.mod_eq_of_lt (by omega)

theorem SameLength.txqLen (h : SameLength cfg) : cfg.txqLen.toNat = cfg.nicTxLen := by
  have hbytes := h.bytes
  exact Nat.mod_eq_of_lt (by omega)

theorem inv_init (cfg : KtxConfig) : init.Inv cfg [] 0 where
  ring := by
    have hring : Slots.Ring cfg.nicTxLen (slot init.mem) [] 0 0 cfg.nicTxLen :=
      Slots.ring_empty _ fun _ => rfl
    exact ⟨hring.stores, hring.cleared, hring.reserved, Nat.zero_le _⟩
  requests := rfl
  known := nofun
  filling := (Nat.zero_mod _).symm
  head := at_zero 64 cfg.txLen
  polling := nofun
  consumed := rfl
  wrote := rfl
  read := rfl
  inside := rfl
  running := rfl

theorem nextTail_toNat (hcfg : SameLength cfg) {tail : UInt32} {p : ℕ}
    (htail : tail.toNat = p % cfg.nicTxLen) :
    (nextTail cfg tail).toNat = (p + 1) % cfg.nicTxLen := by
  have hlt := Nat.mod_lt p hcfg.pos
  have hbytes := hcfg.bytes
  have hone : (1 : UInt32).toNat = 1 := rfl
  have hadd : (tail + 1).toNat = tail.toNat + 1 := Word.add_toNat (by omega)
  have hwrap := Circular.wrap_add (n := p) hcfg.pos (d := 1) hcfg.pos
  rw [← hwrap, ← htail]
  unfold nextTail
  split
  · next heq =>
    rw [heq, UInt32.sub_self, ← hadd, heq, hcfg.rxqLen, if_pos (Nat.le_refl _), Nat.sub_self]
    rfl
  next hne =>
  have hne' : tail.toNat + 1 ≠ cfg.nicTxLen := fun hcon =>
    hne (UInt32.toNat_inj.mp (by rw [hadd, hcon, hcfg.rxqLen]))
  rw [if_neg (by omega), hadd]

theorem prevTail_toNat (hcfg : SameLength cfg) {tail : UInt32} {p : ℕ}
    (htail : tail.toNat = (p + 1) % cfg.nicTxLen) :
    (if tail = 0 then cfg.txqLen - 1 else tail - 1).toNat = p % cfg.nicTxLen := by
  have hpos := hcfg.pos
  have hwrap := Circular.wrap_sub (n := p + 1) (d := 1) hcfg.pos hcfg.pos (by omega)
  rw [← htail, Nat.add_sub_cancel] at hwrap
  rw [← hwrap]
  have hone : (1 : UInt32).toNat = 1 := rfl
  split
  · next hzero =>
    rw [hzero, UInt32.toNat_zero, if_neg (by omega), Word.sub_toNat (by rw [hcfg.txqLen]; omega),
      hcfg.txqLen]
    rfl
  next hne =>
  have hpos' : 0 < tail.toNat := Nat.pos_of_ne_zero fun h0 => hne (UInt32.toNat_inj.mp h0)
  rw [if_pos (Nat.succ_le_of_lt hpos'), Word.sub_toNat (by omega)]
  rfl

theorem touch_inside {i : ℕ} (hi : i < cfg.nicTxLen) : w.touch cfg i = w := by
  unfold touch
  rw [decide_eq_false (by omega), Bool.or_false]

theorem slot_fill {i : ℕ} (hfree : (w.mem i).type = 0) (m : KtxMsg) :
    slot (w.fill i m).mem = slot w.mem := by
  rw [fill, Entry.slot_update, if_pos hfree]
  rw [← slot_eq_none.mpr hfree]
  exact update_eq_self i _

section

variable (h : w.Inv cfg log c) (hcfg : SameLength cfg) (hidle : w.stage = .idle)
include h hcfg hidle

theorem Inv.found (hfree : (w.mem (log.length % cfg.nicTxLen)).type = 0) :
    Slots.Ring cfg.nicTxLen (slot w.mem) log c log.length 1 := by
  have hring := h.ring
  rw [hidle] at hring
  exact hring.discover rfl hcfg.pos (slot_eq_none.mpr hfree)

theorem Inv.txAlloc (len : UInt16) : (w.txAlloc cfg len).Inv cfg log c := by
  have hfilling := h.filling
  rw [hidle] at hfilling
  have htail : w.txqTail.toNat = log.length % cfg.nicTxLen := hfilling
  unfold KtxQueue.txAlloc
  dsimp only
  rw [htail, touch_inside (Nat.mod_lt _ hcfg.pos)]
  split
  · exact h
  next hfree =>
  have hfree' := not_ne_iff.mp hfree
  refine { h with ring := ?_, filling := ⟨nextTail_toNat hcfg htail, ?_⟩ }
  · rw [slot_fill hfree']
    exact h.found hcfg hidle hfree'
  · dsimp only [fill]
    rw [update_self]

end

theorem flowId_withFlowId (m : KtxMsg) (flowId : UInt32) :
    (m.withFlowId flowId).flowId = flowId := by
  unfold KtxMsg.flowId KtxMsg.withFlowId
  ext
  simp

section

variable (h : w.Inv cfg log c)
include h

section

variable (hcfg : SameLength cfg)
include hcfg

theorem Inv.retransmit (hidle : w.stage = .idle)
    {flowId : UInt32} (hflow : flowId < flowstNum) : (w.retransmit cfg flowId).Inv cfg log c := by
  have hfilling := h.filling
  rw [hidle] at hfilling
  have htail : w.txqTail.toNat = log.length % cfg.nicTxLen := hfilling
  unfold KtxQueue.retransmit
  dsimp only
  rw [htail, touch_inside (Nat.mod_lt _ hcfg.pos)]
  split
  · exact h
  next hfree =>
  have hfree' := not_ne_iff.mp hfree
  refine { h with ring := ?_, filling := ⟨nextTail_toNat hcfg htail, htail, ?_, hflow⟩ }
  · rw [slot_fill hfree']
    exact h.found hcfg hidle hfree'
  · dsimp only [fill]
    rw [update_self]
    exact flowId_withFlowId _ flowId

theorem Inv.publish (hfound : KtxStage.found w.stage = 1) {i : ℕ}
    (hi : i = log.length % cfg.nicTxLen) (type : UInt8) (tail : UInt32) {r : KtxRequest}
    (htype : type ≠ 0) (hknown : Known { w.mem i with type := type })
    (hr : ktxRequest { w.mem i with type := type } = r)
    (htail : tail.toNat = (log.length + 1) % cfg.nicTxLen) :
    ({ w.publish cfg i type r with txqTail := tail } : KtxQueue).Inv cfg
      (log ++ [{ w.mem i with type := type }]) c := by
  have hlength : (log ++ [{ w.mem i with type := type }]).length = log.length + 1 := length_append
  have hring := h.ring
  rw [hfound] at hring
  have hwrite := hring.reserve.write (Nat.lt_succ_self _) { w.mem i with type := type }
  have hslot : slot (update w.mem i { w.mem i with type := type }) =
      update (slot w.mem) (log.length % cfg.nicTxLen)
        (some { w.mem i with type := type }) := by
    rw [Entry.slot_update, if_neg htype, hi]
  have hclear : c + w.polling.toNat ≤ log.length := by
    cases hp : w.polling with
    | false => exact h.ring.cleared
    | true => exact h.polling hp
  unfold KtxQueue.publish
  rw [touch_inside (by rw [hi]; exact Nat.mod_lt _ hcfg.pos)]
  refine ⟨?_, ?_, ?_, ?_, h.head, fun hp => ?_, ?_, ?_, h.read, h.inside, h.running⟩
  · rw [hlength]
    rw [hslot]
    exact hwrite
  · rw [h.requests, map_append, ← hr]
    rfl
  · intro e he
    rcases mem_append.mp he with he | he
    · exact h.known e he
    · rw [mem_singleton.mp he]
      exact hknown
  · rw [hlength]
    exact htail
  · rw [hlength]
    exact (h.polling hp).trans (Nat.lt_succ_self _)
  · rw [h.consumed, take_append_of_le_length hclear]
  · rw [hlength, range_succ, map_append, h.wrote, hi]
    rfl

theorem Inv.txSend {opaqueTail : UInt32}
    {addr : UInt64} {len : UInt16} (hstage : w.stage = .allocated opaqueTail addr len)
    (noTs : Bool) : (w.txSend cfg opaqueTail addr len noTs).Valid cfg := by
  have hfilling := h.filling
  rw [hstage] at hfilling
  obtain ⟨htail, hmsg⟩ := hfilling
  have hfound : KtxStage.found w.stage = 1 := by
    rw [hstage]
    rfl
  have hi := prevTail_toNat hcfg htail
  refine ⟨_, c, h.publish hcfg hfound hi _ _ ?_ ?_ ?_ htail⟩
  · cases noTs <;> decide
  · cases noTs
    · exact Or.inl rfl
    · exact Or.inr (Or.inl rfl)
  · rw [hi]
    cases noTs
    · simp [ktxRequest, hmsg]
    · simp [ktxRequest, hmsg]

theorem Inv.retransmitDone {tail flowId : UInt32} (hstage : w.stage = .retransmitting tail flowId) :
    (w.publish cfg tail.toNat 2 (.retransmit flowId)).Valid cfg := by
  have hfilling := h.filling
  rw [hstage] at hfilling
  obtain ⟨htail, hi, hmsg, hflow⟩ := hfilling
  have hfound : KtxStage.found w.stage = 1 := by
    rw [hstage]
    rfl
  refine ⟨_, c, h.publish hcfg hfound hi 2 w.txqTail (by decide) ?_ ?_ htail⟩
  · refine Or.inr (Or.inr ⟨rfl, ?_⟩)
    rw [hi]
    exact hmsg ▸ hflow
  · rw [hi]
    simp [ktxRequest, hmsg]

theorem Inv.head_slot :
    slot w.mem (w.txHead.toNat / 64) = log[c]? ∧ w.txHead.toNat / 64 = c % cfg.nicTxLen := by
  have hindex : w.txHead.toNat / 64 = c % cfg.nicTxLen := h.head.index hcfg.layout
  rw [hindex]
  exact ⟨h.ring.stores c (Nat.le_refl c) (Nat.lt_add_of_pos_right hcfg.pos), rfl⟩

theorem Inv.poll_request {e : Entry KtxMsg} (he : log[c]? = some e) :
    w.poll cfg = { w with
      polling := true
      consumed := w.consumed ++ [ktxRequest e]
      read := w.read ++ [c % cfg.nicTxLen] } := by
  obtain ⟨hslot, hindex⟩ := h.head_slot hcfg
  have hlen : cfg.txLen ≠ 0 := fun hzero =>
    absurd (congrArg UInt32.toNat hzero) hcfg.layout.len_pos.ne'
  rw [he, slot] at hslot
  split at hslot
  · cases hslot
  next htype =>
  have hmem := Option.some.inj hslot
  rw [hindex] at hmem htype
  unfold KtxQueue.poll
  rw [if_neg hlen, hindex, touch_inside (Nat.mod_lt _ hcfg.pos)]
  rw [if_neg htype, hmem]
  rcases h.known e (mem_of_getElem? he) with h1 | h3 | ⟨h2, hflow⟩
  · simp [ktxRequest, h1]
  · simp [ktxRequest, h3]
  · simp [ktxRequest, h2, UInt32.not_le.mpr hflow]

theorem Inv.poll (hpolling : w.polling = false) : (w.poll cfg).Inv cfg log c := by
  cases he : log[c]? with
  | none =>
    obtain ⟨hslot, hindex⟩ := h.head_slot hcfg
    rw [he] at hslot
    have hfree := slot_eq_none.mp hslot
    have hsame : w.poll cfg = w := by
      unfold KtxQueue.poll
      split
      · rfl
      · rw [hindex] at hfree
        dsimp only
        rw [hindex, touch_inside (Nat.mod_lt _ hcfg.pos), if_pos hfree]
    rw [hsame]
    exact h
  | some e =>
    obtain ⟨hlt, -⟩ := List.getElem?_eq_some_iff.mp he
    have hconsumed := h.consumed
    have hread := h.read
    rw [hpolling] at hconsumed hread
    rw [h.poll_request hcfg he]
    refine { h with filling := ?_, polling := fun _ => hlt, consumed := ?_, read := ?_ }
    · exact h.filling
    · show w.consumed ++ [ktxRequest e] = (log.take (c + 1)).map ktxRequest
      rw [hconsumed, take_add_one, he, map_append]
      rfl
    · show w.read ++ [c % cfg.nicTxLen] = (List.range (c + 1)).map (· % cfg.nicTxLen)
      rw [hread, range_succ, map_append]
      rfl

end

end

theorem Filling.free {n p : ℕ} {stage : KtxStage} (h : w.Filling n p stage) (pos : UInt32)
    (txHead : UInt32) :
    ({ w with mem := Entry.free w.mem 64 pos, txHead := txHead, polling := false } :
      KtxQueue).Filling n p stage := by
  have hmsg : ∀ i, (Entry.free w.mem 64 pos i).msg = (w.mem i).msg := by
    intro i
    unfold Entry.free Entry.put
    by_cases hi : i = pos.toNat / (64 : UInt32).toNat
    · subst hi
      rw [update_self]
      rfl
    · rw [update_of_ne hi]
  cases stage with
  | idle => exact h
  | allocated opaqueTail addr len => exact ⟨h.1, (hmsg _).trans h.2⟩
  | retransmitting tail flowId =>
    refine ⟨h.1, h.2.1, ?_, h.2.2.2⟩
    exact (congrArg KtxMsg.flowId (hmsg _)).trans h.2.2.1

section

variable (h : w.Inv cfg log c)
include h

theorem Inv.pollDone (hcfg : SameLength cfg) (hpolling : w.polling = true) :
    (w.pollDone cfg).Inv cfg log (c + 1) := by
  have hring := h.ring.clear (h.polling hpolling)
  rw [← h.head.slot_free hcfg.layout] at hring
  have hconsumed := h.consumed
  have hread := h.read
  rw [hpolling] at hconsumed hread
  exact ⟨hring, h.requests, h.known, h.filling.free _ _, h.head.next hcfg.layout, nofun, hconsumed,
    h.wrote, hread, h.inside, h.running⟩

theorem Inv.step (hcfg : SameLength cfg) {op : KtxOp} (hok : w.Ok op) :
    (w.step cfg op).Valid cfg := by
  cases op with
  | txAlloc len =>
    rw [KtxQueue.step]
    split
    · next hidle => exact ⟨log, c, h.txAlloc hcfg hidle len⟩
    · exact ⟨log, c, h⟩
  | txSend noTs =>
    rw [KtxQueue.step]
    split
    · next hstage => exact h.txSend hcfg hstage noTs
    · exact ⟨log, c, h⟩
  | retransmit flowId =>
    rw [KtxQueue.step]
    split
    · next hidle => exact ⟨log, c, h.retransmit hcfg hidle hok⟩
    · exact ⟨log, c, h⟩
  | retransmitDone =>
    rw [KtxQueue.step]
    split
    · next hstage => exact h.retransmitDone hcfg hstage
    · exact ⟨log, c, h⟩
  | poll =>
    rw [KtxQueue.step]
    split
    · exact ⟨log, c, h⟩
    · next hpolling => exact ⟨log, c, h.poll hcfg (Bool.eq_false_iff.mpr hpolling)⟩
  | pollDone =>
    rw [KtxQueue.step]
    split
    · next hpolling => exact ⟨log, c + 1, h.pollDone hcfg hpolling⟩
    · exact ⟨log, c, h⟩

theorem Inv.consumed_length : w.consumed.length = c + w.polling.toNat := by
  rw [h.consumed, length_map, length_take]
  apply Nat.min_eq_left
  cases hp : w.polling with
  | false => exact h.ring.cleared
  | true => exact h.polling hp

theorem Inv.delivers (hcfg : SameLength cfg) : w.Delivers cfg where
  inside := h.inside
  running := h.running
  inOrder := by
    rw [h.consumed_length, h.requests, ← map_take]
    exact h.consumed
  wrote := by
    rw [h.requests, length_map]
    exact h.wrote
  read := by
    rw [h.consumed_length]
    exact h.read
  next hpolling r hr := by
    rw [h.consumed_length, hpolling, h.requests, getElem?_map] at hr
    obtain ⟨e, he, rfl⟩ := Option.map_eq_some_iff.mp hr
    rw [KtxQueue.step, hpolling, if_neg Bool.false_ne_true, h.poll_request hcfg he]

end

/-- Where the two lengths agree, the ring delivers after every interleaving. -/
theorem ktx_ring_delivers (cfg : KtxConfig) (hcfg : SameLength cfg) (ops : List KtxOp)
    (hrun : Run.Admissible (step cfg) Ok init ops) : (ops.foldl (step cfg) init).Delivers cfg := by
  obtain ⟨log, c, hinv⟩ : (ops.foldl (step cfg) init).Valid cfg := by
    refine hrun.invariant ⟨[], 0, inv_init cfg⟩ ?_
    rintro w op ⟨log, c, h⟩ hok
    exact h.step hcfg hok
  exact hinv.delivers hcfg

def shortRun : List KtxOp :=
  [.txAlloc 60, .txSend false, .retransmit 5, .poll, .retransmitDone, .pollDone, .txAlloc 80,
    .poll, .txSend true, .pollDone]

def shortConfig (nicRxLen nicTxLen : ℕ) : KtxConfig where
  nicRxLen := nicRxLen
  nicTxLen := nicTxLen
  bufAddr i := UInt64.ofNat (2048 * i)

theorem ktx_ring_delivers_short :
    (shortRun.foldl (step (shortConfig 2 2)) init).consumed =
        [.packet 0 60 false, .retransmit 5] ∧
      (shortRun.foldl (step (shortConfig 2 2)) init).Delivers (shortConfig 2 2) :=
  ⟨by decide +kernel,
    ktx_ring_delivers (shortConfig 2 2) ⟨rfl, by decide, by decide⟩ shortRun (by decide +kernel)⟩

def sends (n : ℕ) : List KtxOp :=
  (List.replicate n [KtxOp.txAlloc 60, .txSend false, .poll, .pollDone]).flatten

/-- With another length of the receive ring the tail leaves the transmit ring or its slot. -/
theorem ktx_ring_lengths_differ :
    ((sends 2 ++ [KtxOp.txAlloc 60]).foldl (step (shortConfig 3 2)) init).outside = true ∧
      ((sends 2 ++ [KtxOp.poll]).foldl (step (shortConfig 2 3)) init).published =
        [.packet 0 60 false, .packet 2048 60 false] ∧
      ((sends 2 ++ [KtxOp.poll]).foldl (step (shortConfig 2 3)) init).wrote = [0, 2] ∧
      ((sends 2 ++ [KtxOp.poll]).foldl (step (shortConfig 2 3)) init).consumed =
        [.packet 0 60 false] ∧
      ¬((sends 2).foldl (step (shortConfig 2 3)) init).Delivers (shortConfig 2 3) := by
  refine ⟨by decide +kernel, by decide +kernel, by decide +kernel, by decide +kernel, fun h => ?_⟩
  have hwrote := h.wrote
  exact absurd hwrote (by decide +kernel)

end KtxQueue

end StackBench.Tas

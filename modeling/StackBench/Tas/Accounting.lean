import StackBench.Lib.Total
import StackBench.Tas.ConnAccount
import StackBench.Tas.Conserve

/-!
# Buffer accounting between libtas and the TAS fast path

One connection and its flow, joined by a queue of updates (ATX) and one of
announcements (ARX) for each core. Bytes are moved between the counters and the
queues, and none is lost as long as the updates arrive in the order of posting.
-/

namespace StackBench.Tas

open Function
open Total (total total_update le_total)

/-- An update in a queue, with its place in the order of posting. -/
structure Posted where
  index : ℕ
  bump : Bump

/-- A connection, its flow and the queues between them, with what was posted and taken. -/
structure AppWorld where
  conn : Conn
  fs : FlowSt
  atx : UInt16 → List Posted
  arx : UInt16 → List Arx
  posted : ℕ
  drained : ℕ
  postedRx : ℕ
  postedTx : ℕ
  appliedRx : ℕ
  appliedTx : ℕ
  eos : Option ℕ
  rejected : Bool
  stuck : Bool

/-- The steps of the application, of the kernel's confirmation, and of the cores. -/
inductive AppOp where
  | opened (inev : KernelOpened) (avail : ℕ)
  | txAlloc2 (len : ℕ)
  | txSend (len : ℕ)
  | txClose
  | rxDone (len : ℕ)
  | connsBump
  | connupdate (core : UInt16) (outn : ℕ)
  | bump (core : UInt16) (ts : UInt32)
  | packet (core : UInt16) (p : Pkt) (ts : UInt32)
  | qman (core : UInt16) (steering : UInt16 → UInt16) (txBuf : ℕ → UInt8) (ts : UInt32)
  | retransmit (core : UInt16)

/-- The paths of `fast_flows_bump` that do not apply the update as posted. -/
def bumpRejected (fs : FlowSt) (b : Bump) : Bool :=
  bumpOutOfOrder fs.bumpSeq b.seq || fs.txfin && b.txBump != 0 ||
    !fs.txfin && b.txDone && b.txBump == 0 || !decide (bumpFits fs b)

namespace AppWorld

/-- A connection that was requested, and the flow that the slow path set up. -/
def init (status : ConnState) (old : FlowSt) (a : ConnArgs) : AppWorld where
  conn := Conn.requested status
  fs := nicifConnectionAdd old a
  atx := fun _ => []
  arx := fun _ => []
  posted := 0
  drained := 0
  postedRx := 0
  postedTx := 0
  appliedRx := 0
  appliedTx := 0
  eos := none
  rejected := false
  stuck := false

/-- The first update that closes, once the update `b` is posted. -/
def nextEos (w : AppWorld) (b : Bump) : Option ℕ :=
  if b.txDone && w.eos.isNone then some w.posted else w.eos

/-- `conns_bump` for the connection: post its update to the queue of its core. -/
def post (w : AppWorld) : AppWorld :=
  if w.conn.bumpPending then
    let b := w.conn.postBump.1
    let k := w.conn.fnCore
    { w with
      conn := w.conn.postBump.2
      atx := update w.atx k (w.atx k ++ [⟨w.posted, b⟩])
      posted := w.posted + 1
      postedRx := w.postedRx + b.rxBump.toNat
      postedTx := w.postedTx + b.txBump.toNat
      eos := w.nextEos b
      stuck := w.stuck || w.conn.status != .opened }
  else w

/-- `fast_flows_bump` on core `k` for the next update in its queue. -/
def drain (flowId : UInt32) (w : AppWorld) (k : UInt16) (ts : UInt32) : AppWorld :=
  match w.atx k with
  | [] => w
  | e :: q =>
    let out := fastFlowsBump flowId w.fs e.bump ts
    { w with
      fs := out.fs
      atx := update w.atx k q
      drained := w.drained + 1
      appliedRx := w.appliedRx + (out.fs.rxAvail - w.fs.rxAvail).toNat
      appliedTx := w.appliedTx + (out.fs.txAvail - w.fs.txAvail).toNat
      rejected := w.rejected || bumpRejected w.fs e.bump }

/-- `event_arx_connupdate` for the next announcement of core `k`. -/
def consume (w : AppWorld) (k : UInt16) (outn : ℕ) : AppWorld :=
  match w.arx k with
  | [] => w
  | inev :: q =>
    let out := w.conn.arxConnupdate inev outn k
    { w with
      conn := out.conn.mark out.mark
      arx := if out.events.isSome then update w.arx k q else w.arx
      stuck := w.stuck || out.aborted }

def step (flowId : UInt32) (w : AppWorld) : AppOp → AppWorld
  | .opened inev avail =>
    match w.conn.kappinOpened inev avail with
    | none => w
    | some (c, _) => { w with conn := c }
  | .txAlloc2 len =>
    match w.conn.txAlloc2 len with
    | none => w
    | some (c, _) => { w with conn := c }
  | .txSend len =>
    match w.conn.txSend len with
    | none => w
    | some c => { w with conn := c.mark true }
  | .txClose =>
    match w.conn.txClose with
    | none => w
    | some (c, mark) => { w with conn := c.mark mark }
  | .rxDone len =>
    match w.conn.rxDone len with
    | none => w
    | some (c, mark) => { w with conn := c.mark mark }
  | .connsBump => w.post
  | .connupdate k outn => w.consume k outn
  | .bump k ts => w.drain flowId k ts
  | .packet k p ts =>
    let out := fastFlowsPacket flowId w.fs p ts
    { w with fs := out.fs, arx := update w.arx k (w.arx k ++ out.arx.toList) }
  | .qman k steering txBuf ts => { w with fs := (fastFlowsQman k steering flowId w.fs txBuf ts).fs }
  | .retransmit _ => { w with fs := (fastFlowsRetransmit flowId w.fs).fs }

/-- The application uses an open connection, the kernel confirms it once, on cores in `cores`. -/
def Ok (cores : Finset UInt16) (a : ConnArgs) (w : AppWorld) : AppOp → Prop
  | .opened inev _ =>
    w.conn.status ≠ .opened ∧ inev.rxLen = a.rxLen ∧ inev.txLen = a.txLen ∧ inev.fnCore ∈ cores
  | .txAlloc2 _ => w.conn.status = .opened
  | .txSend _ => w.conn.status = .opened
  | .txClose => w.conn.status = .opened
  | .rxDone _ => w.conn.status = .opened
  | .connsBump => True
  | .connupdate k _ => k ∈ cores
  | .bump k _ => k ∈ cores
  | .packet k _ _ => k ∈ cores
  | .qman k _ _ _ => k ∈ cores
  | .retransmit k => k ∈ cores

/-- A packet is as long as its headers say, and the out-of-order interval fits when it comes. -/
def PacketFits (w : AppWorld) : AppOp → Prop
  | .packet _ p _ => p.Whole ∧ OooFits w.fs
  | _ => True

/-- An update is taken from its queue only when all updates posted before it were. -/
def InOrder (w : AppWorld) : AppOp → Prop
  | .bump k _ => ∀ e ∈ (w.atx k).head?, e.index = w.drained
  | _ => True

instance (cores : Finset UInt16) (a : ConnArgs) (w : AppWorld) : DecidablePred (w.Ok cores a) :=
  fun op => by cases op <;> dsimp only [Ok] <;> infer_instance

instance (w : AppWorld) : DecidablePred w.PacketFits := fun op => by
  cases op <;> dsimp only [PacketFits] <;> infer_instance

instance (w : AppWorld) : DecidablePred w.InOrder := fun op => by
  cases op <;> dsimp only [InOrder] <;> infer_instance

end AppWorld

def arxRx (q : List Arx) : ℕ := (q.map (·.rxBump.toNat)).sum

def arxTx (q : List Arx) : ℕ := (q.map (·.txBump.toNat)).sum

def atxRx (q : List Posted) : ℕ := (q.map (·.bump.rxBump.toNat)).sum

def atxTx (q : List Posted) : ℕ := (q.map (·.bump.txBump.toNat)).sum

@[simp] theorem arxRx_cons (x : Arx) (q : List Arx) :
    arxRx (x :: q) = x.rxBump.toNat + arxRx q := rfl

@[simp] theorem arxTx_cons (x : Arx) (q : List Arx) :
    arxTx (x :: q) = x.txBump.toNat + arxTx q := rfl

@[simp] theorem atxRx_cons (e : Posted) (q : List Posted) :
    atxRx (e :: q) = e.bump.rxBump.toNat + atxRx q := rfl

@[simp] theorem atxTx_cons (e : Posted) (q : List Posted) :
    atxTx (e :: q) = e.bump.txBump.toNat + atxTx q := rfl

@[simp] theorem atxRx_concat (q : List Posted) (e : Posted) :
    atxRx (q ++ [e]) = atxRx q + e.bump.rxBump.toNat := by
  simp [atxRx]

@[simp] theorem atxTx_concat (q : List Posted) (e : Posted) :
    atxTx (q ++ [e]) = atxTx q + e.bump.txBump.toNat := by
  simp [atxTx]

theorem arxRx_announced (q : List Arx) (out : FlowOut) :
    arxRx (q ++ out.arx.toList) = arxRx q + out.rxBump.toNat := by
  cases h : out.arx with
  | none => simp [arxRx, FlowOut.rxBump, h]
  | some x => simp [arxRx, FlowOut.rxBump, h]

theorem arxTx_announced (q : List Arx) (out : FlowOut) :
    arxTx (q ++ out.arx.toList) = arxTx q + out.txBump.toNat := by
  cases h : out.arx with
  | none => simp [arxTx, FlowOut.txBump, h]
  | some x => simp [arxTx, FlowOut.txBump, h]

namespace AppWorld

/-- What the updates in the queues say: their numbers, and which of them closes. -/
structure Queued (w : AppWorld) (e : Posted) : Prop where
  index : e.index < w.posted
  seq : e.bump.seq = UInt16.ofNat e.index
  done : e.bump.txDone = true ↔ ∃ n ∈ w.eos, n ≤ e.index
  dummy : e.index ∈ w.eos → e.bump.txBump ≠ 0
  after : (∃ n ∈ w.eos, n < e.index) → e.bump.txBump = 0

/-- The bytes of both buffers are accounted for, the updates are in order, and nothing went wrong.
-/
structure Inv (cores : Finset UInt16) (rxLen txLen : UInt32) (w : AppWorld) : Prop where
  conn : w.conn.Inv rxLen txLen
  rx : w.fs.rxAvail.toNat + total cores arxRx w.arx +
    (w.conn.rxbUsed.toNat + w.conn.rxbBump.toNat) + total cores atxRx w.atx = rxLen.toNat
  tx : w.fs.txHeld + total cores atxTx w.atx + w.conn.txbBump.toNat + total cores arxTx w.arx =
    w.conn.txbSent.toNat
  rxLen : w.fs.rxLen = rxLen
  txLen : w.fs.txLen = txLen
  core : w.conn.status = .opened → w.conn.fnCore ∈ cores
  queued : ∀ k, ∀ e ∈ w.atx k, w.Queued e
  order : w.drained ≤ w.posted
  seq : w.conn.bumpSeq.toUInt16 = UInt16.ofNat w.posted
  flowSeq : w.fs.bumpSeq = UInt16.ofNat (w.drained - 1)
  eosPosted : ∀ n ∈ w.eos, n < w.posted ∧ w.conn.txeosAlloc = true ∧ w.conn.txbBump = 0
  eosNext : w.eos = none → w.conn.txeosAlloc = true → w.conn.txbBump ≠ 0
  fin : w.fs.txfin = true ↔ ∃ n ∈ w.eos, n < w.drained
  rxSums : w.postedRx = w.appliedRx + total cores atxRx w.atx
  txSums : w.postedTx = w.appliedTx + total cores atxTx w.atx
  accepted : w.rejected = false
  running : w.stuck = false

section Step

variable {cores : Finset UInt16} {rxLen txLen : UInt32} {w : AppWorld} {w' : AppWorld} {e : Posted}

theorem Queued.congr (h : w.Queued e) (hposted : w'.posted = w.posted) (heos : w'.eos = w.eos) :
    w'.Queued e := by
  constructor
  · exact hposted ▸ h.index
  · exact h.seq
  · exact heos ▸ h.done
  · exact heos ▸ h.dummy
  · exact heos ▸ h.after

section

variable (h : w.Inv cores rxLen txLen) {arx : UInt16 → List Arx}
include h

theorem Inv.moves {c : Conn} {rx tx : ℕ} (hc : c.Inv rxLen txLen) (hmoves : w.conn.Moves rx tx c)
    (hcore : c.status = .opened → c.fnCore ∈ cores)
    (hrx : total cores arxRx arx + rx = total cores arxRx w.arx)
    (htx : total cores arxTx arx + tx = total cores arxTx w.arx) :
    Inv cores rxLen txLen { w with conn := c, arx := arx } := by
  have hrx' := h.rx
  have htx' := h.tx
  have hreceived := hmoves.received
  have hsent := hmoves.sent
  refine { h with
    conn := hc, rx := ?_, tx := ?_, core := hcore, seq := ?_, eosPosted := ?_, eosNext := ?_
    queued := fun k e he => (h.queued k e he).congr rfl rfl }
  · dsimp only
    omega
  · dsimp only
    omega
  · rw [hmoves.seq]
    exact h.seq
  · intro n hn
    obtain ⟨hlt, halloc, hbump⟩ := h.eosPosted n hn
    obtain ⟨halloc', hbump'⟩ := hmoves.eos halloc
    exact ⟨hlt, halloc', hbump'.trans hbump⟩
  · intro hnone halloc
    cases ha : w.conn.txeosAlloc with
    | false => exact hmoves.push ha halloc
    | true =>
      rw [(hmoves.eos ha).2]
      exact h.eosNext hnone ha

theorem Inv.call {c : Conn} (hopened : w.conn.status = .opened)
    (hc : c.Inv rxLen txLen ∧ w.conn.Moves 0 0 c ∧ w.conn.Keeps c) (mark : Bool) :
    Inv cores rxLen txLen { w with conn := c.mark mark } := by
  obtain ⟨hinv, hmoves, hkeeps⟩ := hc
  refine h.moves (hinv.mark (hkeeps.status.trans hopened) mark) (hmoves.mark mark) ?_ rfl rfl
  intro _
  change c.fnCore ∈ cores
  rw [hkeeps.core]
  exact h.core hopened

theorem Inv.flow {fs : FlowSt} {rx tx : UInt32} (hrx : RxTakes w.fs rx fs)
    (htx : TxTakes w.fs tx fs) (hseq : fs.bumpSeq = w.fs.bumpSeq)
    (harx : total cores arxRx arx = total cores arxRx w.arx + rx.toNat)
    (hatx : total cores arxTx arx = total cores arxTx w.arx + tx.toNat) :
    Inv cores rxLen txLen { w with fs := fs, arx := arx } := by
  have hrx' := h.rx
  have htx' := h.tx
  have havail := hrx.avail
  have hheld := htx.held
  refine { h with
    rx := ?_, tx := ?_, rxLen := hrx.len.trans h.rxLen, txLen := htx.len.trans h.txLen
    queued := fun k e he => (h.queued k e he).congr rfl rfl
    flowSeq := hseq.trans h.flowSeq, fin := ?_ }
  · dsimp only
    omega
  · dsimp only
    omega
  · rw [htx.fin]
    exact h.fin

theorem Inv.txHeld_lt : w.fs.txHeld < 2 ^ 32 := by
  have htx := h.tx
  have hlt := w.conn.txbSent.toNat_lt
  omega

theorem Inv.consume {k : UInt16} (hk : k ∈ cores) (outn : ℕ) :
    (w.consume k outn).Inv cores rxLen txLen := by
  unfold AppWorld.consume
  split
  · exact h
  next inev q hq =>
  have hrx := h.rx
  have htx := h.tx
  have hrxq := total_update hk arxRx w.arx q
  have htxq := total_update hk arxTx w.arx q
  rw [hq, arxRx_cons] at hrxq
  rw [hq, arxTx_cons] at htxq
  have hlt := rxLen.toNat_lt
  have hroom : w.conn.rxbUsed.toNat + inev.rxBump.toNat < 2 ^ 32 := by omega
  obtain ⟨hinv, habort, hkeeps, hmoves⟩ := h.conn.arxConnupdate hroom (by omega) outn k
  have hmark : (w.conn.arxConnupdate inev outn k).mark = true → w.conn.status = .opened :=
    Conn.arxConnupdate_mark
  have hconn : ((w.conn.arxConnupdate inev outn k).conn.mark
      (w.conn.arxConnupdate inev outn k).mark).Inv rxLen txLen := by
    cases hm : (w.conn.arxConnupdate inev outn k).mark with
    | true => exact hinv.mark (hkeeps.status.trans (hmark hm)) true
    | false =>
      have hsame : (w.conn.arxConnupdate inev outn k).conn.mark false =
          (w.conn.arxConnupdate inev outn k).conn := by
        simp [Conn.mark]
      rw [hsame]
      exact hinv
  have hcore : ((w.conn.arxConnupdate inev outn k).conn.mark
      (w.conn.arxConnupdate inev outn k).mark).fnCore ∈ cores := by
    change (w.conn.arxConnupdate inev outn k).conn.fnCore ∈ cores
    rw [hkeeps.core]
    exact hk
  dsimp only
  rw [habort, Bool.or_false]
  rcases hmoves with ⟨hnone, hmoves⟩ | ⟨hsome, hmoves⟩
  · rw [hnone]
    exact h.moves hconn (hmoves.mark _) (fun _ => hcore) rfl rfl
  · rw [if_pos hsome]
    exact h.moves hconn (hmoves.mark _) (fun _ => hcore) (by omega) (by omega)

end

theorem mem_nextEos (w : AppWorld) (b : Bump) (n : ℕ) :
    n ∈ w.nextEos b ↔ n ∈ w.eos ∨ (n = w.posted ∧ b.txDone = true ∧ w.eos = none) := by
  unfold nextEos
  cases he : w.eos with
  | none =>
    cases hd : b.txDone with
    | false => simp
    | true => simp [eq_comm]
  | some m => simp

theorem Queued.post {b : Bump} (h : w.Queued e) (hposted : w'.posted = w.posted + 1)
    (heos : w'.eos = w.nextEos b) : w'.Queued e := by
  have hlt := h.index
  -- the update posted now comes behind `e`
  have hmem : ∀ n, n ≤ e.index → (n ∈ w'.eos ↔ n ∈ w.eos) := by
    intro n hn
    rw [heos, mem_nextEos]
    constructor
    · rintro (hn' | ⟨rfl, -, -⟩)
      · exact hn'
      · omega
    · exact Or.inl
  constructor
  · omega
  · exact h.seq
  · rw [h.done]
    constructor
    · rintro ⟨n, hn, hle⟩
      exact ⟨n, (hmem n hle).mpr hn, hle⟩
    · rintro ⟨n, hn, hle⟩
      exact ⟨n, (hmem n hle).mp hn, hle⟩
  · intro hn
    exact h.dummy ((hmem _ le_rfl).mp hn)
  · rintro ⟨n, hn, hlt'⟩
    exact h.after ⟨n, (hmem n hlt'.le).mp hn, hlt'⟩

section

variable (h : w.Inv cores rxLen txLen)
include h

theorem Inv.queued_post (hposted : w'.posted = w.posted + 1)
    (heos : w'.eos = w.nextEos w.conn.postBump.1) :
    w'.Queued ⟨w.posted, w.conn.postBump.1⟩ := by
  have hdone : w.conn.postBump.1.txDone = w.conn.txeosAlloc := rfl
  constructor
  · rw [hposted]
    exact Nat.lt_succ_self _
  · exact h.seq
  · simp only [heos, mem_nextEos, hdone]
    constructor
    · intro halloc
      cases he : w.eos with
      | none => exact ⟨w.posted, Or.inr ⟨rfl, halloc, rfl⟩, le_rfl⟩
      | some n => exact ⟨n, Or.inl rfl, (h.eosPosted n he).1.le⟩
    · rintro ⟨n, hn | ⟨-, halloc, -⟩, -⟩
      · exact (h.eosPosted n hn).2.1
      · exact halloc
  · simp only [heos, mem_nextEos, hdone]
    rintro (hn | ⟨-, halloc, hnone⟩)
    · exact absurd (h.eosPosted _ hn).1 (lt_irrefl _)
    · exact h.eosNext hnone halloc
  · simp only [heos, mem_nextEos]
    rintro ⟨n, hn | ⟨rfl, -, -⟩, hlt⟩
    · exact (h.eosPosted n hn).2.2
    · exact absurd hlt (lt_irrefl _)

theorem Inv.post : w.post.Inv cores rxLen txLen := by
  unfold AppWorld.post
  split
  swap
  · exact h
  next hpending =>
  have hopened := h.conn.opened_of_pending hpending
  have hk := h.core hopened
  have hrx := h.rx
  have htx := h.tx
  have hrxq : total cores atxRx (update w.atx w.conn.fnCore (w.atx w.conn.fnCore ++
      [⟨w.posted, w.conn.postBump.1⟩])) = total cores atxRx w.atx + w.conn.rxbBump.toNat := by
    have hsum := total_update hk atxRx w.atx
      (w.atx w.conn.fnCore ++ [⟨w.posted, w.conn.postBump.1⟩])
    rw [atxRx_concat] at hsum
    simp only [Conn.postBump] at hsum ⊢
    omega
  have htxq : total cores atxTx (update w.atx w.conn.fnCore (w.atx w.conn.fnCore ++
      [⟨w.posted, w.conn.postBump.1⟩])) = total cores atxTx w.atx + w.conn.txbBump.toNat := by
    have hsum := total_update hk atxTx w.atx
      (w.atx w.conn.fnCore ++ [⟨w.posted, w.conn.postBump.1⟩])
    rw [atxTx_concat] at hsum
    simp only [Conn.postBump] at hsum ⊢
    omega
  refine { h with
    conn := { h.conn with
      reported := by simp [Conn.postBump]
      fresh := fun hne => absurd hopened hne }
    rx := ?_, tx := ?_, queued := ?_, order := h.order.trans (Nat.le_succ _), seq := ?_
    eosPosted := ?_, eosNext := ?_, fin := ?_, rxSums := ?_, txSums := ?_
    running := by simp [h.running, hopened] }
  · rw [hrxq]
    simp only [Conn.postBump, UInt32.toNat_zero]
    omega
  · rw [htxq]
    simp only [Conn.postBump, UInt32.toNat_zero]
    omega
  · intro j e he
    dsimp only at he
    by_cases hj : j = w.conn.fnCore
    · rw [hj, update_self] at he
      rcases List.mem_append.mp he with he | he
      · exact (h.queued _ e he).post rfl rfl
      · rw [List.mem_singleton.mp he]
        exact h.queued_post rfl rfl
    · rw [update_of_ne hj] at he
      exact (h.queued j e he).post rfl rfl
  · simp only [Conn.postBump, UInt32.toUInt16_add, h.seq, UInt16.ofNat_add]
    rfl
  · intro n hn
    rcases (mem_nextEos w _ n).mp hn with hn | ⟨rfl, halloc, -⟩
    · obtain ⟨hlt, halloc, -⟩ := h.eosPosted n hn
      exact ⟨Nat.lt_succ_of_lt hlt, halloc, rfl⟩
    · exact ⟨Nat.lt_succ_self _, halloc, rfl⟩
  · intro hnone halloc
    have hd : w.conn.postBump.1.txDone = true := halloc
    cases he : w.eos with
    | none => simp [nextEos, he, hd] at hnone
    | some m => simp [nextEos, he] at hnone
  · rw [h.fin]
    constructor
    · rintro ⟨n, hn, hlt⟩
      exact ⟨n, (mem_nextEos w _ n).mpr (Or.inl hn), hlt⟩
    · rintro ⟨n, hn, hlt⟩
      rcases (mem_nextEos w _ n).mp hn with hn | ⟨rfl, -, -⟩
      · exact ⟨n, hn, hlt⟩
      · exact absurd h.order (not_le.mpr hlt)
  · have hsums := h.rxSums
    rw [hrxq, hsums]
    simp only [Conn.postBump]
    omega
  · have hsums := h.txSums
    rw [htxq, hsums]
    simp only [Conn.postBump]
    omega

/-- The next update in the order of posting is applied as posted. -/
theorem Inv.bump_applied (hle : rxLen ≤ txLen) {k : UInt16} (hk : k ∈ cores) {q : List Posted}
    (hq : w.atx k = e :: q) (hnext : e.index = w.drained) (flowId : UInt32) (ts : UInt32) :
    bumpRejected w.fs e.bump = false ∧
      fastFlowsBump flowId w.fs e.bump ts = bumpAccept flowId w.fs e.bump ts ∧
      bumpTx w.fs e.bump = e.bump.txBump := by
  have hqueued := h.queued k e (by rw [hq]; exact List.mem_cons_self)
  have hrx := h.rx
  have htx := h.tx
  have hroom := h.conn.room
  have hrxe : e.bump.rxBump.toNat ≤ total cores atxRx w.atx := by
    have hcell := le_total hk atxRx w.atx
    rw [hq, atxRx_cons] at hcell
    omega
  have htxe : e.bump.txBump.toNat ≤ total cores atxTx w.atx := by
    have hcell := le_total hk atxTx w.atx
    rw [hq, atxTx_cons] at hcell
    omega
  have hfull : w.conn.txbLen.toNat ≤ txLen.toNat := by
    by_cases hopened : w.conn.status = .opened
    · rw [(h.conn.opened hopened).2]
    · rw [(h.conn.fresh hopened).2.1]
      exact Nat.zero_le _
  have hseq : bumpOutOfOrder w.fs.bumpSeq e.bump.seq = false := by
    rw [h.flowSeq, hqueued.seq, hnext]
    exact bumpOutOfOrder_next _
  have hafter : w.fs.txfin = true → e.bump.txBump = 0 := by
    intro hfin
    rw [h.fin, ← hnext] at hfin
    exact hqueued.after hfin
  have hdummy : w.fs.txfin = false → e.bump.txDone = true → e.bump.txBump ≠ 0 := by
    intro hfin hdone
    obtain ⟨n, hn, hle'⟩ := hqueued.done.mp hdone
    have hge : ¬n < w.drained := fun hlt =>
      absurd (hfin.symm.trans (h.fin.mpr ⟨n, hn, hlt⟩)) Bool.false_ne_true
    have heq : n = e.index := by omega
    exact hqueued.dummy (heq ▸ hn)
  have hbtx : bumpTx w.fs e.bump = e.bump.txBump := by
    unfold bumpTx
    split
    · next hfin => exact (hafter hfin).symm
    · rfl
  have hlt := txLen.toNat_lt
  rw [UInt32.le_iff_toNat_le] at hle
  have hfits : bumpFits w.fs e.bump := by
    unfold FlowSt.txHeld at htx
    have h₁ : (w.fs.txAvail + e.bump.txBump).toNat =
        w.fs.txAvail.toNat + e.bump.txBump.toNat := Word.add_toNat (by omega)
    have h₂ : (w.fs.txAvail + e.bump.txBump + w.fs.txSent).toNat =
        w.fs.txAvail.toNat + e.bump.txBump.toNat + w.fs.txSent.toNat := by
      rw [Word.add_toNat (by omega), h₁]
    have h₃ : (e.bump.rxBump + w.fs.rxAvail).toNat =
        e.bump.rxBump.toNat + w.fs.rxAvail.toNat := Word.add_toNat (by omega)
    unfold bumpFits
    simp only [hbtx, h.rxLen, h.txLen, UInt32.le_iff_toNat_le, h₁, h₂, h₃]
    omega
  have hguard : (!w.fs.txfin && e.bump.txDone && e.bump.txBump == 0) = false := by
    cases hfin : w.fs.txfin with
    | true => rfl
    | false =>
      cases hdone : e.bump.txDone with
      | false => rfl
      | true => simpa using hdummy hfin hdone
  refine ⟨?_, ?_, hbtx⟩
  · have hclosed : (w.fs.txfin && e.bump.txBump != 0) = false := by
      cases hfin : w.fs.txfin with
      | true => simpa using hafter hfin
      | false => rfl
    simp [bumpRejected, hseq, hclosed, hguard, hfits]
  · simp only [fastFlowsBump, hseq, hguard, Bool.false_eq_true, if_false, if_pos hfits]

theorem Inv.drain (hle : rxLen ≤ txLen) {k : UInt16} (hk : k ∈ cores)
    {flowId ts : UInt32} (hnext : w.InOrder (.bump k ts)) :
    (w.drain flowId k ts).Inv cores rxLen txLen := by
  unfold AppWorld.drain
  split
  · exact h
  next e q hq =>
  have hindex : e.index = w.drained := hnext e (by rw [hq]; rfl)
  obtain ⟨hrej, hout, hbtx⟩ := h.bump_applied hle hk hq hindex flowId ts
  have hqueued := h.queued k e (by rw [hq]; exact List.mem_cons_self)
  have hrx := h.rx
  have htx := h.tx
  have hrxq := total_update hk atxRx w.atx q
  have htxq := total_update hk atxTx w.atx q
  rw [hq, atxRx_cons] at hrxq
  rw [hq, atxTx_cons] at htxq
  have hfs : (bumpAccept flowId w.fs e.bump ts).fs = bumpState w.fs e.bump := rfl
  have hlt := w.conn.txbSent.toNat_lt
  have hlt' := rxLen.toNat_lt
  have hrxAvail : (w.fs.rxAvail + e.bump.rxBump).toNat =
      w.fs.rxAvail.toNat + e.bump.rxBump.toNat := Word.add_toNat (by omega)
  have htxAvail : (w.fs.txAvail + e.bump.txBump).toNat =
      w.fs.txAvail.toNat + e.bump.txBump.toNat := by
    unfold FlowSt.txHeld at htx
    exact Word.add_toNat (by omega)
  dsimp only
  rw [hout, hfs, hrej, Bool.or_false]
  refine { h with
    rx := ?_, tx := ?_, queued := ?_, order := ?_, flowSeq := ?_, fin := ?_, rxSums := ?_
    txSums := ?_ }
  · simp only [bumpState, hrxAvail]
    omega
  · simp only [bumpState, FlowSt.txHeld, hbtx, htxAvail] at htx ⊢
    omega
  · intro j e' he'
    dsimp only at he'
    by_cases hj : j = k
    · rw [hj, update_self] at he'
      exact (h.queued k e' (by rw [hq]; exact List.mem_cons_of_mem _ he')).congr rfl rfl
    · rw [update_of_ne hj] at he'
      exact (h.queued j e' he').congr rfl rfl
  · have hidx := hqueued.index
    dsimp only
    omega
  · simp only [bumpState, Nat.add_sub_cancel, hqueued.seq, hindex]
  · simp only [bumpState, Bool.or_eq_true, h.fin, hqueued.done, hindex]
    constructor
    · rintro (⟨n, hn, hlt⟩ | ⟨n, hn, hle⟩)
      · exact ⟨n, hn, by omega⟩
      · exact ⟨n, hn, by omega⟩
    · rintro ⟨n, hn, hlt⟩
      exact Or.inr ⟨n, hn, by omega⟩
  · have hsums := h.rxSums
    have hdelta : w.fs.rxAvail + e.bump.rxBump - w.fs.rxAvail = e.bump.rxBump := by grind
    simp only [bumpState, hdelta]
    omega
  · have hsums := h.txSums
    have hdelta : w.fs.txAvail + e.bump.txBump - w.fs.txAvail = e.bump.txBump := by grind
    simp only [bumpState, hbtx, hdelta]
    omega

theorem Inv.opened (hearly : w.conn.status ≠ .opened) {inev : KernelOpened}
    (hrx : inev.rxLen = rxLen) (htx : inev.txLen = txLen) (hcore : inev.fnCore ∈ cores) {avail : ℕ}
    {c : Conn} {evs : List ConnEvent} (hcall : w.conn.kappinOpened inev avail = some (c, evs)) :
    Inv cores rxLen txLen { w with conn := c } := by
  obtain ⟨-, hlen, -⟩ := h.conn.fresh hearly
  have hroom := h.conn.room
  rw [hlen, UInt32.toNat_zero] at hroom
  unfold Conn.kappinOpened at hcall
  split at hcall
  · cases hcall
  split at hcall
  · cases hcall
  cases hcall
  refine h.moves ?_ ((Conn.Moves.refl w.conn).congr rfl rfl rfl rfl rfl rfl) (fun _ => hcore)
    rfl rfl
  refine { h.conn with
    room := ?_, opened := fun _ => ⟨hrx, htx⟩, fresh := fun hne => absurd rfl hne }
  dsimp only
  omega

theorem Inv.step (hle : rxLen ≤ txLen) {a : ConnArgs}
    (hrxLen : a.rxLen = rxLen) (htxLen : a.txLen = txLen) {flowId : UInt32} {op : AppOp}
    (hok : w.Ok cores a op) (hfits : w.PacketFits op) (horder : w.InOrder op) :
    (w.step flowId op).Inv cores rxLen txLen := by
  cases op with
  | opened inev avail =>
    obtain ⟨hearly, hrx, htx, hcore⟩ := hok
    simp only [AppWorld.step]
    split
    · exact h
    · next c evs hcall =>
      exact h.opened hearly (hrx.trans hrxLen) (htx.trans htxLen) hcore hcall
  | txAlloc2 len =>
    simp only [AppWorld.step]
    split
    · exact h
    · next c r hcall => simpa [Conn.mark] using h.call hok (h.conn.txAlloc2 hcall) false
  | txSend len =>
    simp only [AppWorld.step]
    split
    · exact h
    · next c hcall => exact h.call hok (h.conn.txSend hcall) true
  | txClose =>
    simp only [AppWorld.step]
    split
    · exact h
    · next c mark hcall => exact h.call hok (h.conn.txClose hok hcall) mark
  | rxDone len =>
    simp only [AppWorld.step]
    split
    · exact h
    next c mark hcall =>
    have hrx := h.rx
    have hlt := rxLen.toNat_lt
    exact h.call hok (h.conn.rxDone (by omega) hok hcall) mark
  | connsBump => exact h.post
  | connupdate k outn => exact h.consume hok outn
  | bump k ts => exact h.drain hle hok horder
  | packet k p ts =>
    have hk : k ∈ cores := hok
    have hrx := fastFlowsPacket_rxTakes flowId hfits ts
    have htx := fastFlowsPacket_txTakes flowId h.txHeld_lt p ts
    refine h.flow hrx htx (fastFlowsPacket_bumpSeq w.fs flowId p ts) ?_ ?_
    · have hsum := total_update hk arxRx w.arx
        (w.arx k ++ (fastFlowsPacket flowId w.fs p ts).arx.toList)
      rw [arxRx_announced] at hsum
      omega
    · have hsum := total_update hk arxTx w.arx
        (w.arx k ++ (fastFlowsPacket flowId w.fs p ts).arx.toList)
      rw [arxTx_announced] at hsum
      omega
  | qman k steering txBuf ts =>
    exact h.flow (rxTakes_zero (fastFlowsQman_quiet k steering flowId w.fs txBuf ts).view)
      (fastFlowsQman_txTakes h.txHeld_lt k steering flowId txBuf ts)
      (fastFlowsQman_bumpSeq k steering flowId w.fs txBuf ts) rfl rfl
  | retransmit k =>
    exact h.flow (rxTakes_zero (fastFlowsRetransmit_quiet flowId w.fs).view)
      (fastFlowsRetransmit_txTakes h.txHeld_lt flowId)
      (fastFlowsRetransmit_bumpSeq w.fs flowId) rfl rfl

end

end Step

theorem inv_init (cores : Finset UInt16) {status : ConnState}
    (hstatus : status = .openRequested ∨ status = .acceptRequested) (old : FlowSt) {a : ConnArgs}
    (hflags : a.rxBase &&& 16 = 0) : (init status old a).Inv cores a.rxLen a.txLen := by
  have hempty : ∀ {α : Type} (f : List α → ℕ), f [] = 0 → total cores f (fun _ => []) = 0 :=
    fun f hf => Total.total_eq_zero fun _ _ => hf
  have hne : status ≠ .opened := by
    rcases hstatus with rfl | rfl
    · decide
    · decide
  have h₁ := hempty arxRx rfl
  have h₂ := hempty arxTx rfl
  have h₃ := hempty atxRx rfl
  have h₄ := hempty atxTx rfl
  constructor
  · exact ⟨le_rfl, le_rfl, fun h => absurd h hne, fun _ => ⟨hstatus, rfl, rfl, rfl, rfl⟩,
      fun halloc => absurd halloc Bool.false_ne_true, fun _ => rfl,
      fun hack => absurd hack Bool.false_ne_true⟩
  · simp only [init, h₁, h₃]
    rfl
  · simp only [init, h₂, h₄]
    rfl
  · rfl
  · rfl
  · exact fun h => absurd h hne
  · intro k e he
    cases he
  · exact le_rfl
  · rfl
  · rfl
  · intro n hn
    cases hn
  · intro _ h
    cases h
  · have hfin : (nicifConnectionAdd old a).txfin = false := by
      simp [nicifConnectionAdd, hflags]
    simp [init, hfin]
  · simp [init, h₃]
  · simp [init, h₄]
  · rfl
  · rfl

/-- The fast path applies every update it takes, and the bytes not applied are in the queues. -/
structure Delivered (cores : Finset UInt16) (w : AppWorld) : Prop where
  accepted : w.rejected = false
  rx : w.postedRx = w.appliedRx + total cores atxRx w.atx
  tx : w.postedTx = w.appliedTx + total cores atxTx w.atx
  drained : (∀ k ∈ cores, w.atx k = []) →
    w.appliedRx = w.postedRx ∧ w.appliedTx = w.postedTx

theorem Inv.delivered {cores : Finset UInt16} {rxLen txLen : UInt32} {w : AppWorld}
    (h : w.Inv cores rxLen txLen) : w.Delivered cores := by
  refine ⟨h.accepted, h.rxSums, h.txSums, ?_⟩
  intro hempty
  have hrx : total cores atxRx w.atx = 0 := Total.total_eq_zero fun k hk => by
    rw [hempty k hk]
    rfl
  have htx : total cores atxTx w.atx = 0 := Total.total_eq_zero fun k hk => by
    rw [hempty k hk]
    rfl
  have h₁ := h.rxSums
  have h₂ := h.txSums
  omega

end AppWorld

/-- If updates arrive in order and packets fit, no update is lost. -/
theorem bumps_delivered (cores : Finset UInt16) (flowId : UInt32) (status : ConnState)
    (hstatus : status = .openRequested ∨ status = .acceptRequested) (old : FlowSt) (a : ConnArgs)
    (hlen : a.rxLen ≤ a.txLen) (hflags : a.rxBase &&& 16 = 0) (ops : List AppOp)
    (hrun : Run.Admissible (AppWorld.step flowId)
      (fun w op => w.Ok cores a op ∧ w.PacketFits op ∧ w.InOrder op)
      (AppWorld.init status old a) ops) :
    (ops.foldl (AppWorld.step flowId) (AppWorld.init status old a)).Delivered cores := by
  have hinv := hrun.invariant (AppWorld.inv_init cores hstatus old hflags) fun _ _ h hok =>
    h.step hlen rfl rfl hok.1 hok.2.1 hok.2.2
  exact hinv.delivered

/-- The connection posts a byte on core 0; a packet moves it to core 1, where it posts another one.
-/
def postOnTwoCores : List AppOp :=
  [.opened ⟨0, 4, 4, 0, 0⟩ 1, .txAlloc2 1, .txSend 1, .connsBump,
    .packet 1 (dataPkt 0 [7] (by decide)) 0, .connupdate 1 4, .txAlloc2 1, .txSend 1, .connsBump]

def drainInOrder : List AppOp := postOnTwoCores ++ [.bump 0 0, .bump 1 0]

def requestedConn : AppWorld := AppWorld.init .openRequested default (fourByteConn 0)

theorem bumps_delivered_drainInOrder :
    (drainInOrder.foldl (AppWorld.step 0) requestedConn).Delivered {0, 1} ∧
      (drainInOrder.foldl (AppWorld.step 0) requestedConn).postedTx = 2 ∧
      (drainInOrder.foldl (AppWorld.step 0) requestedConn).appliedTx = 2 := by
  have hrun : Run.Admissible (AppWorld.step 0)
      (fun w op => w.Ok {0, 1} (fourByteConn 0) op ∧ w.PacketFits op ∧ w.InOrder op) requestedConn
      drainInOrder := by decide +kernel
  refine ⟨?_, by decide +kernel, by decide +kernel⟩
  exact bumps_delivered {0, 1} 0 .openRequested (Or.inl rfl) default (fourByteConn 0) (by decide)
    (by decide) drainInOrder hrun

/-- Core 1 takes its update first, and the fast path drops the update of core 0. -/
theorem overtaken_bump_lost :
    let ops := postOnTwoCores ++ [.bump 1 0, .bump 0 0]
    let w := ops.foldl (AppWorld.step 0) requestedConn
    Run.Admissible (AppWorld.step 0) (fun w op => w.Ok {0, 1} (fourByteConn 0) op ∧ w.PacketFits op)
        requestedConn ops ∧
      (w.atx 0).length = 0 ∧ (w.atx 1).length = 0 ∧ w.postedTx = 2 ∧ w.appliedTx = 1 := by
  decide +kernel

end StackBench.Tas

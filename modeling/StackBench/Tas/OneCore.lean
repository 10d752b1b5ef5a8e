import StackBench.Tas.Accounting

/-!
# Buffer accounting on one TAS core

With one core updates arrive in the order of posting, so library and fast path
agree on both buffers.
-/

namespace StackBench.Tas

open Function
open Total (total)

namespace AppWorld

/-- On one core the queue holds the updates posted and not taken yet, in order. -/
structure Fifo (k : UInt16) (w : AppWorld) : Prop where
  indices : (w.atx k).map (·.index) = List.range' w.drained (w.atx k).length
  count : w.drained + (w.atx k).length = w.posted

variable {rxLen txLen : UInt32}

section Fifo

variable {k : UInt16} {w : AppWorld}

variable (h : w.Fifo k)
include h

theorem Fifo.congr {w' : AppWorld} (h₁ : w'.atx = w.atx)
    (h₂ : w'.drained = w.drained) (h₃ : w'.posted = w.posted) : w'.Fifo k := by
  constructor
  · rw [h₁, h₂]; exact h.indices
  · rw [h₁, h₂, h₃]; exact h.count

theorem Fifo.inOrder {a : ConnArgs} {op : AppOp} (hok : w.Ok {k} a op) : w.InOrder op := by
  cases op with
  | bump j ts =>
    have hj : j = k := Finset.mem_singleton.mp hok
    subst hj
    intro e he
    have hindices := h.indices
    cases hq : w.atx j with
    | nil =>
      rw [hq] at he
      cases he
    | cons x q =>
      rw [hq] at he hindices
      rw [List.map_cons, List.length_cons, List.range'_succ, List.cons.injEq] at hindices
      rw [← Option.some.inj he]
      exact hindices.1
  | _ => trivial

theorem Fifo.post (hinv : w.Inv {k} rxLen txLen) : w.post.Fifo k := by
  unfold AppWorld.post
  split
  · next hpending =>
    have hopened := hinv.conn.opened_of_pending hpending
    have hcore : w.conn.fnCore = k := Finset.mem_singleton.mp (hinv.core hopened)
    have hcount := h.count
    constructor
    · simp only [hcore, update_self, List.map_append, List.map_cons, List.map_nil,
        List.length_append, List.length_singleton, List.range'_concat, h.indices, ← hcount]
      simp
    · simp only [hcore, update_self, List.length_append, List.length_singleton]
      omega
  · exact h

theorem Fifo.drain (flowId ts : UInt32) : (w.drain flowId k ts).Fifo k := by
  unfold AppWorld.drain
  split
  · exact h
  next e q hq =>
  have hindices := h.indices
  have hcount := h.count
  rw [hq] at hindices hcount
  rw [List.map_cons, List.length_cons, List.range'_succ, List.cons.injEq] at hindices
  rw [List.length_cons] at hcount
  constructor
  · simp only [update_self]
    exact hindices.2
  · simp only [update_self]
    omega

theorem Fifo.step (hinv : w.Inv {k} rxLen txLen) {a : ConnArgs} {flowId : UInt32}
    {op : AppOp} (hok : w.Ok {k} a op) :
    (w.step flowId op).Fifo k := by
  cases op with
  | connsBump => exact h.post hinv
  | bump j ts =>
    have hj : j = k := Finset.mem_singleton.mp hok
    subst hj
    exact h.drain flowId ts
  | connupdate j outn =>
    simp only [AppWorld.step, consume]
    split
    · exact h
    · exact h.congr rfl rfl rfl
  | packet j p ts => exact h.congr rfl rfl rfl
  | qman j steering txBuf ts => exact h.congr rfl rfl rfl
  | retransmit j => exact h.congr rfl rfl rfl
  | opened | txAlloc2 | txSend | txClose | rxDone =>
    simp only [AppWorld.step]
    split
    · exact h
    · exact h.congr rfl rfl rfl

end Fifo

/-- The two sides agree on the bytes of both buffers. -/
structure Accounted (k : UInt16) (rxLen : UInt32) (w : AppWorld) : Prop where
  room : w.conn.txbSent.toNat + w.conn.txbAllocated.toNat ≤ w.conn.txbLen.toNat
  tx : w.conn.txbSent.toNat = w.fs.txAvail.toNat + w.fs.txSent.toNat +
    (atxTx (w.atx k) + w.conn.txbBump.toNat) + arxTx (w.arx k)
  rx : w.conn.rxbUsed.toNat + w.fs.rxAvail.toNat + arxRx (w.arx k) +
    (atxRx (w.atx k) + w.conn.rxbBump.toNat) = rxLen.toNat
  accepted : w.rejected = false
  running : w.stuck = false

theorem Inv.accounted {k : UInt16} {w : AppWorld} (h : w.Inv {k} rxLen txLen) :
    w.Accounted k rxLen := by
  have hone : ∀ {α : Type} (f : List α → ℕ) (q : UInt16 → List α), total {k} f q = f (q k) :=
    fun f q => Finset.sum_singleton (fun i => f (q i)) k
  have hrx := h.rx
  have htx := h.tx
  rw [hone, hone] at hrx htx
  unfold FlowSt.txHeld at htx
  exact ⟨h.conn.room, by omega, by omega, h.accepted, h.running⟩

end AppWorld

/-- On one core library and fast path agree on the buffers in every run whose packets fit. -/
theorem buffers_accounted (k : UInt16) (flowId : UInt32) (status : ConnState)
    (hstatus : status = .openRequested ∨ status = .acceptRequested) (old : FlowSt) (a : ConnArgs)
    (hlen : a.rxLen ≤ a.txLen) (hflags : a.rxBase &&& 16 = 0) (ops : List AppOp)
    (hrun : Run.Admissible (AppWorld.step flowId) (fun w op => w.Ok {k} a op ∧ w.PacketFits op)
      (AppWorld.init status old a) ops) :
    (ops.foldl (AppWorld.step flowId) (AppWorld.init status old a)).Accounted k a.rxLen := by
  have hstart : (AppWorld.init status old a).Inv {k} a.rxLen a.txLen ∧
      (AppWorld.init status old a).Fifo k :=
    ⟨AppWorld.inv_init {k} hstatus old hflags, rfl, rfl⟩
  have hstep : ∀ (w : AppWorld) (op : AppOp), w.Inv {k} a.rxLen a.txLen ∧ w.Fifo k →
      w.Ok {k} a op ∧ w.PacketFits op →
      (w.step flowId op).Inv {k} a.rxLen a.txLen ∧ (w.step flowId op).Fifo k := fun _ _ h hok =>
    ⟨h.1.step hlen rfl rfl hok.1 hok.2 (h.2.inOrder hok.1), h.2.step h.1 hok.1⟩
  have hinv := hrun.invariant hstart hstep
  exact hinv.1.accounted

def sendCloseReceive : List AppOp :=
  [.opened ⟨0, 4, 4, 0, 0⟩ 1, .txAlloc2 2, .txSend 2, .txClose, .connsBump, .bump 0 0,
    .qman 0 (fun _ => 0) (fun _ => 0) 0, .packet 0 (ackPkt 3 4) 0,
    .packet 0 (dataPkt 0 [7, 8] (by decide)) 0, .connupdate 0 4, .connupdate 0 4, .rxDone 2]

theorem buffers_accounted_sendCloseReceive :
    (sendCloseReceive.foldl (AppWorld.step 0) requestedConn).Accounted 0 4 ∧
      (sendCloseReceive.foldl (AppWorld.step 0) requestedConn).conn.txbSent = 0 ∧
      (sendCloseReceive.foldl (AppWorld.step 0) requestedConn).conn.rxbBump = 2 ∧
      (sendCloseReceive.foldl (AppWorld.step 0) requestedConn).fs.rxAvail = 2 := by
  have hrun : Run.Admissible (AppWorld.step 0)
      (fun w op => w.Ok {0} (fourByteConn 0) op ∧ w.PacketFits op) requestedConn
        sendCloseReceive := by
    decide +kernel
  refine ⟨?_, by decide +kernel, by decide +kernel, by decide +kernel⟩
  exact buffers_accounted 0 0 .openRequested (Or.inl rfl) default (fourByteConn 0) (by decide)
    (by decide) sendCloseReceive hrun

def bulkPkt (seq : UInt32) (n : ℕ) (h : n ≤ 9000) : Pkt where
  seqno := seq
  ackno := 0
  flags := { ack := true }
  wnd := 4
  ecnCe := false
  tsVal := 0
  tsEcr := 0
  payloadBytes := UInt32.ofNat n
  payload := List.replicate n 0
  payload_length := by
    rw [List.length_replicate, UInt32.toNat_toUInt16, UInt32.toNat_ofNat']
    omega

def nearWrapConn : ConnArgs :=
  { fourByteConn 4294901286 with rxLen := 66000, txLen := 66000 }

def overfullInterval : List AppOp :=
  [.opened ⟨0, 66000, 66000, 0, 0⟩ 1] ++
    (List.range 8).map (fun i =>
      .packet 0 (bulkPkt (4294901287 + 9000 * UInt32.ofNat i) 9000 le_rfl) 0) ++
    [.packet 0 (bulkPkt 4294901286 1 (by decide)) 0, .connupdate 0 4, .rxDone 72001, .connsBump]

/-- The interval is longer than the window, and the window wraps below zero. -/
theorem overfull_interval_rejects :
    let start := AppWorld.init .openRequested default nearWrapConn
    let w := overfullInterval.foldl (AppWorld.step 0) start
    Run.Admissible (AppWorld.step 0) (fun w op => w.Ok {0} nearWrapConn op) start
        (overfullInterval ++ [.bump 0 0]) ∧
      w.fs.rxAvail = 4294961295 ∧ w.conn.rxbBump = 0 ∧ atxRx (w.atx 0) = 72001 ∧
      (w.step 0 (.bump 0 0)).rejected = true := by
  decide +kernel

end StackBench.Tas

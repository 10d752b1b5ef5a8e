import StackBench.Lib.Run
import StackBench.Tas.FastFlows

/-!
# A flow slot after its previous connection

`nicif_connection_add` leaves the duplicate-ack counter, the out-of-order
interval and the statistics as the previous connection left them. Slots that
agree on these cannot be told apart by any calls of the fast path and the slow
path, where the start of an empty interval does not count.
-/

namespace StackBench.Tas.SlotReuse

inductive Call where
  | flow (op : FlowOp)
  | qmanFwd
  | stats
  | setrate (rate : UInt32)

/-- What a call gives back. The flow state inside a `FlowOut` is not part of it and is blanked. -/
inductive Answer where
  | flow (out : FlowOut)
  | stats (s : Option ConnStats)
  | silent

def visible (out : FlowOut) : FlowOut := { out with fs := default }

/-- The call on the flow state of slot `fId`. -/
def answer (fId : UInt32) (fs : FlowSt) : Call → FlowSt × Answer
  | .flow op => ((op.run fId fs).fs, .flow (visible (op.run fId fs)))
  | .qmanFwd => (fs, .flow (visible (fastFlowsQmanFwd fId fs)))
  | .stats => (fs, .stats (nicifConnectionStats fId fs))
  | .setrate rate => (nicifConnectionSetrate fId fs rate, .silent)

/-- The flow state with another start of the out-of-order interval. -/
def withStart (fs : FlowSt) (start : UInt32) : FlowSt := { fs with rxOooStart := start }

/-- The end of a packet with another start of the out-of-order interval. -/
def endWithStart (r : PacketEnd) (start : UInt32) : PacketEnd :=
  { r with fs := withStart r.fs start }

/-- Two states that differ at most in the start of an empty out-of-order
interval. -/
inductive Alike : FlowSt → FlowSt → Prop
  | same (fs : FlowSt) : Alike fs fs
  | start (fs : FlowSt) (start : UInt32) (hempty : fs.rxOooLen = 0) :
      Alike fs (withStart fs start)

/-- The two contents of a slot agree on what `nicif_connection_add` keeps. -/
structure SameLeftovers (old₁ old₂ : FlowSt) : Prop where
  dupack : old₁.rxDupackCnt = old₂.rxDupackCnt
  oooLen : old₁.rxOooLen = old₂.rxOooLen
  oooStart : old₁.rxOooLen ≠ 0 → old₁.rxOooStart = old₂.rxOooStart
  drops : old₁.cntTxDrops = old₂.cntTxDrops
  acks : old₁.cntRxAcks = old₂.cntRxAcks
  ackBytes : old₁.cntRxAckBytes = old₂.cntRxAckBytes
  ecnBytes : old₁.cntRxEcnBytes = old₂.cntRxEcnBytes

theorem SameLeftovers.alike {old₁ old₂ : FlowSt} (h : SameLeftovers old₁ old₂) (a : ConnArgs) :
    Alike (nicifConnectionAdd old₁ a) (nicifConnectionAdd old₂ a) := by
  obtain ⟨hdup, hlen, hstart, hdrops, hacks, hackb, hecnb⟩ := h
  have heq : nicifConnectionAdd old₂ a =
      withStart (nicifConnectionAdd old₁ a) old₂.rxOooStart := by
    simp only [nicifConnectionAdd, withStart, hdup, hlen, hdrops, hacks, hackb, hecnb]
  by_cases hempty : old₁.rxOooLen = 0
  · rw [heq]
    exact .start _ _ hempty
  · rw [heq, ← hstart hempty]
    exact .same _

section Start

variable (fs : FlowSt) (start : UInt32)

theorem ackAdvance_withStart (n : UInt32) :
    ackAdvance (withStart fs start) n = withStart (ackAdvance fs n) start := by
  rw [ackAdvance, ackAdvance, apply_ite (withStart · start)]
  rfl

theorem packetAck_withStart (p : Pkt) :
    packetAck (withStart fs start) p =
      (withStart (packetAck fs p).1 start, (packetAck fs p).2) := by
  have hvalid : tcpValidRxack (countAck (withStart fs start) p) p.ackno =
      tcpValidRxack (countAck fs p) p.ackno := rfl
  unfold packetAck
  simp only [hvalid]
  cases if p.flags.ack then tcpValidRxack (countAck fs p) p.ackno else none with
  | none => rfl
  | some n =>
    have hadv : ackAdvance (countAckBytes (countAck (withStart fs start) p) p n) n =
        withStart (ackAdvance (countAckBytes (countAck fs p) p n) n) start :=
      ackAdvance_withStart (countAckBytes (countAck fs p) p n) start n
    simp only [hadv]
    generalize ackAdvance (countAckBytes (countAck fs p) p n) n = gs
    have hcount : (withStart gs start).rxDupackCnt = gs.rxDupackCnt := rfl
    by_cases hn : n ≠ 0
    · simp only [if_pos hn]
      rfl
    by_cases hp : p.payloadBytes = 0
    · by_cases hdup : gs.rxDupackCnt + 1 ≥ 3
      · simp only [if_neg hn, if_pos hp, hcount, if_pos hdup]
        rfl
      · simp only [if_neg hn, if_pos hp, hcount, if_neg hdup]
        rfl
    · simp only [if_neg hn, if_neg hp]

/-- With an empty interval the out-of-order part overwrites its start, or keeps
the state. -/
theorem packetOoo_withStart (seq n : UInt32) (payload : List UInt8) (hempty : fs.rxOooLen = 0) :
    packetOoo (withStart fs start) seq n payload = packetOoo fs seq n payload ∨
      (packetOoo fs seq n payload).fs.rxOooLen = 0 ∧
        packetOoo (withStart fs start) seq n payload =
          endWithStart (packetOoo fs seq n payload) start := by
  have hempty' : (withStart fs start).rxOooLen = 0 := hempty
  unfold packetOoo
  by_cases hn : n = 0
  · simp only [if_pos hn]
    exact .inr ⟨hempty, rfl⟩
  · simp only [if_neg hn, if_pos hempty, if_pos hempty']
    exact .inl rfl

theorem packetPayload_withStart (n : UInt32) (payload : List UInt8) (ack : Bool)
    (hempty : fs.rxOooLen = 0) : (packetPayload fs n payload ack).fs.rxOooLen = 0 ∧
      packetPayload (withStart fs start) n payload ack =
        endWithStart (packetPayload fs n payload ack) start := by
  have hmerge : oooCatchUp (rxAdvance fs n) = (rxAdvance fs n, 0) := if_pos hempty
  have hmerge' : oooCatchUp (rxAdvance (withStart fs start) n) =
      (rxAdvance (withStart fs start) n, 0) := if_pos hempty
  unfold packetPayload
  by_cases hn : n > 0
  · simp only [if_pos hn, hmerge, hmerge']
    exact ⟨hempty, rfl⟩
  · simp only [if_neg hn]
    exact ⟨hempty, rfl⟩

theorem packetFin_withStart (r : PacketEnd) (p : Pkt) :
    (packetFin r p).fs.rxOooLen = r.fs.rxOooLen ∧
      packetFin (endWithStart r start) p = endWithStart (packetFin r p) start := by
  unfold packetFin
  constructor
  · split <;> rfl
  · rw [apply_ite (endWithStart · start)]
    rfl

theorem packetInOrder_withStart (p : Pkt) (ts n : UInt32) (payload : List UInt8) (ack : Bool)
    (hempty : fs.rxOooLen = 0) : (packetInOrder fs p ts n payload ack).fs.rxOooLen = 0 ∧
      packetInOrder (withStart fs start) p ts n payload ack =
        endWithStart (packetInOrder fs p ts n payload ack) start := by
  have hupd : windowUpdate (rttUpdate (withStart fs start) p ts) p =
      withStart (windowUpdate (rttUpdate fs p ts) p) start := rfl
  have hempty' : (windowUpdate (rttUpdate fs p ts) p).rxOooLen = 0 := hempty
  unfold packetInOrder
  rw [hupd]
  generalize windowUpdate (rttUpdate fs p ts) p = gs at hempty'
  have hfin : (withStart gs start).rxfin = gs.rxfin := rfl
  obtain ⟨hlen, hpay⟩ := packetPayload_withStart gs start n payload ack hempty'
  by_cases hlate : gs.rxfin ∧ n > 0
  · simp only [hfin, if_pos hlate]
    exact ⟨hempty', rfl⟩
  · simp only [hfin, if_neg hlate, hpay]
    exact ⟨(packetFin_withStart start _ p).1.trans hlen, (packetFin_withStart start _ p).2⟩

theorem packetRx_withStart (p : Pkt) (ts : UInt32) (hempty : fs.rxOooLen = 0) :
    packetRx (withStart fs start) p ts = packetRx fs p ts ∨
      (packetRx fs p ts).fs.rxOooLen = 0 ∧
        packetRx (withStart fs start) p ts = endWithStart (packetRx fs p ts) start := by
  have htrim : tcpTrimRxbuf (withStart fs start) = tcpTrimRxbuf fs := rfl
  have hnext : (withStart fs start).rxNextSeq = fs.rxNextSeq := rfl
  unfold packetRx
  rw [htrim]
  cases tcpTrimRxbuf fs p.seqno p.payloadBytes.toUInt16 with
  | none => exact .inr ⟨hempty, rfl⟩
  | some trim =>
    simp only [hnext]
    by_cases hseq : p.seqno + trim.1.toUInt32 ≠ fs.rxNextSeq
    · simp only [if_pos hseq]
      exact packetOoo_withStart fs start _ _ _ hempty
    · simp only [if_neg hseq]
      exact .inr (packetInOrder_withStart fs start p ts _ _ _ hempty)

theorem packetAck_rxOooLen (p : Pkt) : (packetAck fs p).1.rxOooLen = fs.rxOooLen := by
  obtain ⟨-, hack⟩ | ⟨-, gs, hack, hreset⟩ := packetAck_writes fs p
  · obtain ⟨_, _, _, _, _, _, _, _, hfs⟩ := hack
    rw [hfs]
  · obtain ⟨_, _, _, _, _, _, _, _, rfl⟩ := hack
    rw [hreset]
    rfl

theorem packetBody_withStart (p : Pkt) (ts : UInt32) (hempty : fs.rxOooLen = 0) :
    packetBody (withStart fs start) p ts = packetBody fs p ts ∨
      (packetBody fs p ts).fs.rxOooLen = 0 ∧
        packetBody (withStart fs start) p ts = endWithStart (packetBody fs p ts) start := by
  have hlen : (packetAck fs p).1.rxOooLen = 0 := (packetAck_rxOooLen fs p).trans hempty
  unfold packetBody
  rw [packetAck_withStart]
  cases (packetAck fs p).2.2 with
  | true => exact .inr ⟨hlen, rfl⟩
  | false => exact packetRx_withStart _ start p ts hlen

end Start

/-- The states after two calls are alike and the results look the same. -/
def Agree (out₁ out₂ : FlowOut) : Prop := Alike out₁.fs out₂.fs ∧ visible out₁ = visible out₂

theorem Agree.refl (out : FlowOut) : Agree out out := ⟨.same _, rfl⟩

theorem fastFlowsPacket_agree (fId : UInt32) (fs : FlowSt) (start : UInt32) (p : Pkt) (ts : UInt32)
    (hempty : fs.rxOooLen = 0) :
    Agree (fastFlowsPacket fId fs p ts) (fastFlowsPacket fId (withStart fs start) p ts) := by
  have hslow : (withStart fs start).slowpath = fs.slowpath := rfl
  unfold fastFlowsPacket
  rw [hslow]
  by_cases hkernel : fs.slowpath = true
  · rw [if_pos hkernel, if_pos hkernel]
    exact ⟨.start fs start hempty, rfl⟩
  rw [if_neg hkernel, if_neg hkernel]
  by_cases hweird : p.flags.weird = true
  · rw [if_pos hweird, if_pos hweird]
    exact ⟨.start { fs with slowpath := !p.flags.syn } start hempty, rfl⟩
  rw [if_neg hweird, if_neg hweird, packetAck_withStart]
  obtain hsame | ⟨hlen, hmoved⟩ := packetBody_withStart fs start p ts hempty
  · rw [hsame]
    exact Agree.refl _
  · rw [hmoved]
    exact ⟨.start _ start hlen, rfl⟩

theorem fastFlowsBump_agree (fId : UInt32) (fs : FlowSt) (start : UInt32) (b : Bump) (ts : UInt32)
    (hempty : fs.rxOooLen = 0) :
    Agree (fastFlowsBump fId fs b ts) (fastFlowsBump fId (withStart fs start) b ts) := by
  have hseq : (withStart fs start).bumpSeq = fs.bumpSeq := rfl
  have hfin : (withStart fs start).txfin = fs.txfin := rfl
  have hkept (s : UInt16) : Agree { fs := { fs with bumpSeq := s }, ret := -1 }
      { fs := { withStart fs start with bumpSeq := s }, ret := -1 } :=
    ⟨.start { fs with bumpSeq := s } start hempty, rfl⟩
  unfold fastFlowsBump
  rw [hseq, hfin]
  by_cases hold : bumpOutOfOrder fs.bumpSeq b.seq = true
  · rw [if_pos hold, if_pos hold]
    exact hkept fs.bumpSeq
  rw [if_neg hold, if_neg hold]
  by_cases hclose : (!fs.txfin && b.txDone && b.txBump == 0) = true
  · rw [if_pos hclose, if_pos hclose]
    exact hkept b.seq
  rw [if_neg hclose, if_neg hclose]
  by_cases hfits : bumpFits fs b
  · rw [if_pos hfits, if_pos (show bumpFits (withStart fs start) b from hfits)]
    exact ⟨.start (bumpState fs b) start hempty, rfl⟩
  · rw [if_neg hfits, if_neg (show ¬ bumpFits (withStart fs start) b from hfits)]
    exact hkept b.seq

theorem fastFlowsQman_agree (core : UInt16) (steering : UInt16 → UInt16) (fId : UInt32)
    (fs : FlowSt) (start : UInt32) (txBuf : ℕ → UInt8) (ts : UInt32) (hempty : fs.rxOooLen = 0) :
    Agree (fastFlowsQman core steering fId fs txBuf ts)
      (fastFlowsQman core steering fId (withStart fs start) txBuf ts) := by
  have hgroup : (withStart fs start).flowGroup = fs.flowGroup := rfl
  have havail : tcpTxavail (withStart fs start) = tcpTxavail fs := rfl
  unfold fastFlowsQman
  rw [hgroup, havail]
  by_cases hcore : steering fs.flowGroup ≠ core
  · rw [if_pos hcore, if_pos hcore]
    exact ⟨.start fs start hempty, rfl⟩
  rw [if_neg hcore, if_neg hcore]
  by_cases hnone : tcpTxavail fs = 0
  · rw [if_pos hnone, if_pos hnone]
    exact ⟨.start fs start hempty, rfl⟩
  · rw [if_neg hnone, if_neg hnone]
    exact ⟨.start (txTake fs (segLen (tcpTxavail fs))) start hempty, rfl⟩

theorem fastFlowsRetransmit_agree (fId : UInt32) (fs : FlowSt) (start : UInt32)
    (hempty : fs.rxOooLen = 0) :
    Agree (fastFlowsRetransmit fId fs) (fastFlowsRetransmit fId (withStart fs start)) := by
  have hsent : (withStart fs start).txSent = fs.txSent := rfl
  unfold fastFlowsRetransmit
  rw [hsent]
  by_cases hidle : fs.txSent = 0
  · rw [if_pos hidle, if_pos hidle]
    exact ⟨.start fs start hempty, rfl⟩
  · rw [if_neg hidle, if_neg hidle]
    exact ⟨.start (flowResetRetransmit fs) start hempty, rfl⟩

theorem Alike.flowOp {fs gs : FlowSt} (h : Alike fs gs) (fId : UInt32) (op : FlowOp) :
    Agree (op.run fId fs) (op.run fId gs) := by
  cases h with
  | same => exact Agree.refl _
  | start start hempty =>
    cases op with
    | packet p ts => exact fastFlowsPacket_agree fId fs start p ts hempty
    | bump b ts => exact fastFlowsBump_agree fId fs start b ts hempty
    | qman core steering txBuf ts =>
      exact fastFlowsQman_agree core steering fId fs start txBuf ts hempty
    | retransmit => exact fastFlowsRetransmit_agree fId fs start hempty

/-- No call tells alike states apart, and the states after it are alike again. -/
theorem Alike.answer {fs gs : FlowSt} (h : Alike fs gs) (fId : UInt32) (call : Call) :
    Alike (answer fId fs call).1 (answer fId gs call).1 ∧
      (answer fId fs call).2 = (answer fId gs call).2 := by
  cases call with
  | flow op =>
    obtain ⟨hstate, hout⟩ := h.flowOp fId op
    exact ⟨hstate, congrArg Answer.flow hout⟩
  | qmanFwd =>
    refine ⟨h, ?_⟩
    cases h <;> rfl
  | stats =>
    refine ⟨h, ?_⟩
    cases h <;> rfl
  | setrate rate =>
    refine ⟨?_, rfl⟩
    cases h with
    | same => exact .same _
    | start start hempty =>
      change Alike (nicifConnectionSetrate fId fs rate)
        (nicifConnectionSetrate fId (withStart fs start) rate)
      unfold nicifConnectionSetrate
      by_cases hid : fId ≥ flowstNum
      · rw [if_pos hid, if_pos hid]
        exact .start fs start hempty
      · rw [if_neg hid, if_neg hid]
        exact .start { fs with txRate := rate } start hempty

/-- Connections opened alike in slots that agree on what `nicif_connection_add` keeps answer all
calls alike. -/
theorem reuse_independent (old₁ old₂ : FlowSt) (a : ConnArgs) (fId : UInt32)
    (hold : SameLeftovers old₁ old₂) (calls : List Call) :
    Run.outputs (answer fId) (nicifConnectionAdd old₁ a) calls =
      Run.outputs (answer fId) (nicifConnectionAdd old₂ a) calls :=
  Run.outputs_eq_of_simulation (fun _ _ call h => h.answer fId call) (hold.alike a) calls

def byteAt (seq : UInt32) : Pkt where
  seqno := seq
  ackno := 0
  flags := {}
  wnd := 0
  ecnCe := false
  tsVal := 0
  tsEcr := 0
  payloadBytes := 1
  payload := [7]
  payload_length := rfl

/-- What a connection leaves in a zeroed slot after it received the bytes at the given numbers. -/
def leftBy (seqs : List UInt32) : FlowSt :=
  seqs.foldl (fun fs seq => (fastFlowsPacket 0 fs (byteAt seq) 0).fs)
    (nicifConnectionAdd default (fourByteConn 0))

/-- A connection that received one byte in order leaves a slot that is as good as
a zeroed one. -/
theorem reuse_independent_in_order :
    SameLeftovers (leftBy [0]) default ∧
      Run.outputs (answer 0) (nicifConnectionAdd (leftBy [0]) (fourByteConn 1))
          [.flow (.packet (byteAt 1) 0), .stats] =
        Run.outputs (answer 0) (nicifConnectionAdd default (fourByteConn 1))
          [.flow (.packet (byteAt 1) 0), .stats] :=
  have hold : SameLeftovers (leftBy [0]) default := by constructor <;> decide +kernel
  ⟨hold, reuse_independent _ _ _ _ hold _⟩

/-- The receive bump an answer reports to the application. -/
def Answer.rxBump : Answer → Option UInt32
  | .flow out => out.arx.map Arx.rxBump
  | _ => none

/-- Behind a connection that received ahead of order, two bytes are announced in place of one. -/
theorem reuse_dependent :
    Run.outputs (answer 0) (nicifConnectionAdd (leftBy [2]) (fourByteConn 1))
        [.flow (.packet (byteAt 1) 0)] ≠
      Run.outputs (answer 0) (nicifConnectionAdd (leftBy []) (fourByteConn 1))
        [.flow (.packet (byteAt 1) 0)] := by
  intro heq
  have hbump := congrArg (List.map Answer.rxBump) heq
  revert hbump
  decide +kernel

end StackBench.Tas.SlotReuse

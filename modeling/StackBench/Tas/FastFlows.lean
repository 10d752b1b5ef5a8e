import StackBench.Tas.TcpCommon

/-!
# The TAS per-flow operations

`fast_flows_packet`, `fast_flows_bump`, `fast_flows_qman` and
`fast_flows_retransmit` on one flow state. Stores into the receive buffer,
updates for the application, queue-manager calls and packets are returned
beside it. `aborted` records a failed `assert` or `abort()`.
-/

namespace StackBench.Tas

/-- One `dma_write` into the receive buffer, at an offset from its base. -/
structure DmaWrite where
  pos : UInt32
  bytes : List UInt8
deriving DecidableEq

/-- The entry `arx_cache_add` queues for the application. -/
structure Arx where
  dbId : UInt16
  appOpaque : UInt64
  rxBump : UInt32
  rxPos : UInt32
  txBump : UInt32
  /-- `FLEXTCP_PL_ARX_FLRXDONE` is set. -/
  rxDone : Bool
deriving DecidableEq

/-- A `qman_set` call; `add` tells `QMAN_ADD_AVAIL` from `QMAN_SET_AVAIL`. -/
structure QmanSet where
  id : UInt32
  rate : UInt32
  avail : UInt32
  maxChunk : UInt16
  add : Bool
deriving DecidableEq

/-- The header `flow_tx_ack` writes over the received packet. -/
structure AckSeg where
  seqno : UInt32
  ackno : UInt32
  ece : Bool
  wnd : UInt16
  tsVal : UInt32
  tsEcr : UInt32
deriving DecidableEq

/-- The packet `flow_tx_segment` builds. -/
structure Segment where
  ethDest : UInt64
  ipSrc : UInt32
  ipDest : UInt32
  ect0 : Bool
  srcPort : UInt16
  destPort : UInt16
  seqno : UInt32
  ackno : UInt32
  fin : Bool
  wnd : UInt16
  tsVal : UInt32
  tsEcr : UInt32
  payload : List UInt8
deriving DecidableEq

/-- `MIN(0xFFFF, rxwnd)`, stored in the 16-bit window field. -/
def wndField (rxwnd : UInt32) : UInt16 := (if rxwnd < 0xFFFF then rxwnd else 0xFFFF).toUInt16

/-- `qman_set` succeeds for ids below `FLEXNIC_NUM_QMQUEUES`. -/
def qmanIdOk (id : UInt32) : Bool := id < 131072

variable (fs : FlowSt) (p : Pkt)

/-- `flow_rx_write`: the stores into the circular receive buffer. -/
def flowRxWrite (pos : UInt32) (src : List UInt8) : List DmaWrite :=
  if pos + UInt32.ofNat src.length ≤ fs.rxLen then
    [⟨pos, src⟩]
  else
    let part := (fs.rxLen - pos).toNat
    [⟨pos, src.take part⟩, ⟨0, src.drop part⟩]

/-- The buffer position of `flow_rx_seq_write`. -/
def rxSeqPos (seq : UInt32) : UInt32 :=
  let pos := fs.rxNextPos + (seq - fs.rxNextSeq)
  if pos ≥ fs.rxLen then pos - fs.rxLen else pos

/-- `flow_tx_read`: `len` bytes from position `pos` of the circular transmit
buffer `txBuf`. -/
def flowTxRead (txBuf : Nat → UInt8) (pos : UInt32) (len : Nat) : List UInt8 :=
  if pos.toNat + len ≤ fs.txLen.toNat then
    (List.range len).map fun i => txBuf (pos.toNat + i)
  else
    let part := (fs.txLen - pos).toNat
    ((List.range part).map fun i => txBuf (pos.toNat + i)) ++
      (List.range (len - part)).map txBuf

def flowTxSegment (txBuf : Nat → UInt8) (seq ack rxwnd payload payloadPos : UInt32)
    (tsEcho tsMy : UInt32) (fin : Bool) : Segment where
  ethDest := fs.remoteMac
  ipSrc := fs.localIp
  ipDest := fs.remoteIp
  ect0 := fs.ecn
  srcPort := fs.localPort
  destPort := fs.remotePort
  seqno := seq
  ackno := ack
  fin := fin
  wnd := wndField rxwnd
  tsVal := tsMy
  tsEcr := tsEcho
  payload := if payload > 0 then flowTxRead fs txBuf payloadPos payload.toNat else []

/-- `flow_reset_retransmit`: go back to the last acknowledged position. -/
def flowResetRetransmit : FlowSt :=
  { fs with
    rxDupackCnt := 0
    txNextSeq := fs.txNextSeq - fs.txSent
    txNextPos :=
      if fs.txNextPos ≥ fs.txSent then fs.txNextPos - fs.txSent
      else fs.txLen - (fs.txSent - fs.txNextPos)
    txAvail := fs.txAvail + fs.txSent
    rxRemoteAvail := fs.rxRemoteAvail + fs.txSent
    txSent := 0
    txRate := if fs.cntTxDrops = 0 then fs.txRate / 2 else fs.txRate
    cntTxDrops := fs.cntTxDrops + 1 }

/-- An acknowledgement of `txBump` bytes, which may exceed those sent (`ALLOW_FUTURE_ACKS`). -/
def ackAdvance (txBump : UInt32) : FlowSt :=
  if txBump ≤ fs.txSent then
    { fs with txSent := fs.txSent - txBump }
  else
    let pos := fs.txNextPos + (txBump - fs.txSent)
    { fs with
      txNextSeq := fs.txNextSeq + (txBump - fs.txSent)
      txNextPos := if pos ≥ fs.txLen then pos - fs.txLen else pos
      txAvail := fs.txAvail - (txBump - fs.txSent)
      txSent := 0 }

/-- `cnt_rx_acks++` for a packet with the `ACK` flag. -/
def countAck : FlowSt :=
  { fs with cntRxAcks := if p.flags.ack then fs.cntRxAcks + 1 else fs.cntRxAcks }

/-- The byte counters of a valid acknowledgement. -/
def countAckBytes (txBump : UInt32) : FlowSt :=
  { fs with
    cntRxAckBytes := fs.cntRxAckBytes + txBump
    cntRxEcnBytes := if p.flags.ece then fs.cntRxEcnBytes + txBump else fs.cntRxEcnBytes }

/-- The acknowledgement part of `fast_flows_packet`: the state, `tx_bump`, and whether it ends in a
go-back-N reset. -/
def packetAck : FlowSt × UInt32 × Bool :=
  let fs := countAck fs p
  match if p.flags.ack then tcpValidRxack fs p.ackno else none with
  | none => (fs, 0, false)
  | some txBump =>
    let fs := ackAdvance (countAckBytes fs p txBump) txBump
    if txBump ≠ 0 then
      ({ fs with rxDupackCnt := 0 }, txBump, false)
    else if p.payloadBytes = 0 then
      let fs := { fs with rxDupackCnt := fs.rxDupackCnt + 1 }
      if fs.rxDupackCnt ≥ 3 then (flowResetRetransmit fs, txBump, true)
      else (fs, txBump, false)
    else
      (fs, txBump, false)

/-- `gs` is `fs` up to the fields that an acknowledgement writes. -/
def AckWrites (fs gs : FlowSt) : Prop :=
  ∃ acks ackBytes ecnBytes dupack sent pos seq avail, gs =
    { fs with
      cntRxAcks := acks, cntRxAckBytes := ackBytes, cntRxEcnBytes := ecnBytes
      rxDupackCnt := dupack, txSent := sent, txNextPos := pos, txNextSeq := seq
      txAvail := avail }

theorem AckWrites.trans {fs gs hs : FlowSt} (h : AckWrites fs gs) (h' : AckWrites gs hs) :
    AckWrites fs hs := by
  obtain ⟨_, _, _, _, _, _, _, _, rfl⟩ := h
  obtain ⟨_, _, _, _, _, _, _, _, rfl⟩ := h'
  exact ⟨_, _, _, _, _, _, _, _, rfl⟩

theorem ackAdvance_writes (txBump : UInt32) : AckWrites fs (ackAdvance fs txBump) := by
  unfold ackAdvance
  split
  · exact ⟨_, _, _, _, _, _, _, _, rfl⟩
  · exact ⟨_, _, _, _, _, _, _, _, rfl⟩

theorem packetAck_writes : ((packetAck fs p).2.2 = false ∧ AckWrites fs (packetAck fs p).1) ∨
      ((packetAck fs p).2.2 = true ∧
        ∃ gs, AckWrites fs gs ∧ (packetAck fs p).1 = flowResetRetransmit gs) := by
  have hcount : AckWrites fs (countAck fs p) := ⟨_, _, _, _, _, _, _, _, rfl⟩
  unfold packetAck
  dsimp only
  split
  · exact Or.inl ⟨rfl, hcount⟩
  next txBump _ =>
  have hbytes : AckWrites fs (countAckBytes (countAck fs p) p txBump) :=
    hcount.trans ⟨_, _, _, _, _, _, _, _, rfl⟩
  have hadv := hbytes.trans (ackAdvance_writes _ txBump)
  have hdup (n : UInt32) : AckWrites fs
      { ackAdvance (countAckBytes (countAck fs p) p txBump) txBump with rxDupackCnt := n } :=
    hadv.trans ⟨_, _, _, _, _, _, _, _, rfl⟩
  split
  · exact Or.inl ⟨rfl, hdup _⟩
  split
  · split
    · exact Or.inr ⟨rfl, _, hdup _, rfl⟩
    · exact Or.inl ⟨rfl, hdup _⟩
  · exact Or.inl ⟨rfl, hadv⟩

/-- What `fast_flows_packet` carries to its `unlock` label. -/
structure PacketEnd where
  fs : FlowSt
  rxBump : UInt32 := 0
  finBump : Bool := false
  triggerAck : Bool
  dma : List DmaWrite := []
  aborted : Bool := false

/-- Create the out-of-order interval or extend it by a segment that touches one of its ends. -/
def packetOoo (seq payloadBytes : UInt32) (payload : List UInt8) : PacketEnd :=
  let pos := rxSeqPos fs seq
  let dma := flowRxWrite fs pos payload
  let aborted := !(decide (pos < fs.rxLen))
  if payloadBytes = 0 then
    { fs := fs, triggerAck := true }
  else if fs.rxOooLen = 0 then
    { fs := { fs with rxOooStart := seq, rxOooLen := payloadBytes }
      triggerAck := true, dma := dma, aborted := aborted }
  else if seq + payloadBytes = fs.rxOooStart then
    { fs := { fs with rxOooStart := seq, rxOooLen := fs.rxOooLen + payloadBytes }
      triggerAck := true, dma := dma, aborted := aborted }
  else if fs.rxOooStart + fs.rxOooLen = seq then
    { fs := { fs with rxOooLen := fs.rxOooLen + payloadBytes }
      triggerAck := true, dma := dma, aborted := aborted }
  else
    { fs := fs, triggerAck := true }

/-- Advance the receive pointers over `n` bytes now in order. -/
def rxAdvance (n : UInt32) : FlowSt :=
  let pos := fs.rxNextPos + n
  { fs with
    rxAvail := fs.rxAvail - n
    rxNextPos := if pos ≥ fs.rxLen then pos - fs.rxLen else pos
    rxNextSeq := fs.rxNextSeq + n }

/-- After in-order data: drop, trim or merge the out-of-order interval, with the bytes merged. -/
def oooCatchUp : FlowSt × UInt32 :=
  if fs.rxOooLen = 0 then (fs, 0)
  else
    match tcpTrimRxbuf fs fs.rxOooStart fs.rxOooLen.toUInt16 with
    | none => ({ fs with rxOooLen := 0 }, 0)
    | some (trimStart, trimEnd) =>
      let fs := { fs with
        rxOooStart := fs.rxOooStart + trimStart.toUInt32
        rxOooLen := fs.rxOooLen - (trimStart.toUInt32 + trimEnd.toUInt32) }
      if fs.rxOooLen > 0 ∧ fs.rxOooStart = fs.rxNextSeq then
        ({ rxAdvance fs fs.rxOooLen with rxOooLen := 0 }, fs.rxOooLen)
      else (fs, 0)

/-- The timestamp and round-trip update of an in-order packet. -/
def rttUpdate (ts : UInt32) : FlowSt :=
  let rtt := ts - p.tsEcr
  { fs with
    txNextTs := p.tsVal
    rttEst :=
      if p.flags.ack ∧ p.tsEcr ≠ 0 ∧ rtt < tcpMaxRtt then
        if fs.rttEst ≠ 0 then (fs.rttEst * 7 + rtt) / 8 else rtt
      else fs.rttEst }

/-- Store the window field of an in-order packet below the scale byte. -/
def windowUpdate : FlowSt :=
  { fs with rxRemoteAvail := (fs.rxRemoteAvail &&& 0xFF000000) ||| p.wnd.toUInt32 }

/-- Place the payload of an in-order packet and merge the out-of-order
interval behind it. -/
def packetPayload (payloadBytes : UInt32) (payload : List UInt8) (triggerAck : Bool) : PacketEnd :=
  if payloadBytes > 0 then
    let dma := flowRxWrite fs fs.rxNextPos payload
    let fs₁ := rxAdvance fs payloadBytes
    let (fs₂, merged) := oooCatchUp fs₁
    { fs := fs₂, rxBump := payloadBytes + merged, triggerAck := true, dma := dma
      aborted := !(decide (fs₁.rxNextPos < fs.rxLen ∧ fs₂.rxNextPos < fs.rxLen)) }
  else
    { fs := fs, triggerAck := triggerAck }

/-- The `FIN` part of `fast_flows_packet`. -/
def packetFin (r : PacketEnd) (p : Pkt) : PacketEnd :=
  if p.flags.fin ∧ !r.fs.rxfin ∧ r.fs.rxNextSeq = p.seqno + p.payloadBytes ∧
      r.fs.rxOooLen = 0 then
    { r with
      fs := { r.fs with rxfin := true, rxNextSeq := r.fs.rxNextSeq + 1 }
      finBump := true
      triggerAck := true }
  else r

/-- The in-order part of `fast_flows_packet`. -/
def packetInOrder (ts : UInt32) (payloadBytes : UInt32)
    (payload : List UInt8) (triggerAck : Bool) : PacketEnd :=
  let fs := windowUpdate (rttUpdate fs p ts) p
  -- make sure we don't receive anymore payload after FIN
  if fs.rxfin ∧ payloadBytes > 0 then
    { fs := fs, triggerAck := triggerAck }
  else
    packetFin (packetPayload fs payloadBytes payload triggerAck) p

/-- The receive part of `fast_flows_packet`: trim the segment to the free buffer, then place it. -/
def packetRx (ts : UInt32) : PacketEnd :=
  match tcpTrimRxbuf fs p.seqno p.payloadBytes.toUInt16 with
  | none => { fs := fs, triggerAck := true }
  | some (trimStart, trimEnd) =>
    let payloadBytes := p.payloadBytes - (trimStart.toUInt32 + trimEnd.toUInt32)
    let payload := (p.payload.drop trimStart.toNat).take payloadBytes.toUInt16.toNat
    let seq := p.seqno + trimStart.toUInt32
    if seq ≠ fs.rxNextSeq then
      packetOoo fs seq payloadBytes payload
    else
      packetInOrder fs p ts payloadBytes payload (decide (p.payloadBytes > 0))

/-- `gs` is `fs` up to the fields that the receive part of a packet writes. -/
def RxWrites (fs gs : FlowSt) : Prop :=
  ∃ fin avail pos seq remote oooStart oooLen nextTs rtt, gs =
    { fs with
      rxfin := fin, rxAvail := avail, rxNextPos := pos, rxNextSeq := seq
      rxRemoteAvail := remote, rxOooStart := oooStart, rxOooLen := oooLen, txNextTs := nextTs
      rttEst := rtt }

theorem RxWrites.refl : RxWrites fs fs := ⟨_, _, _, _, _, _, _, _, _, rfl⟩

theorem RxWrites.trans {fs gs hs : FlowSt} (h : RxWrites fs gs) (h' : RxWrites gs hs) :
    RxWrites fs hs := by
  obtain ⟨_, _, _, _, _, _, _, _, _, rfl⟩ := h
  obtain ⟨_, _, _, _, _, _, _, _, _, rfl⟩ := h'
  exact ⟨_, _, _, _, _, _, _, _, _, rfl⟩

theorem packetOoo_writes (seq payloadBytes : UInt32) (payload : List UInt8) :
    RxWrites fs (packetOoo fs seq payloadBytes payload).fs := by
  unfold packetOoo
  split
  · exact .refl fs
  split
  · exact ⟨_, _, _, _, _, _, _, _, _, rfl⟩
  split
  · exact ⟨_, _, _, _, _, _, _, _, _, rfl⟩
  split
  · exact ⟨_, _, _, _, _, _, _, _, _, rfl⟩
  · exact .refl fs

theorem oooCatchUp_writes : RxWrites fs (oooCatchUp fs).1 := by
  unfold oooCatchUp
  split
  · exact .refl fs
  split
  · exact ⟨_, _, _, _, _, _, _, _, _, rfl⟩
  dsimp only
  split
  · exact ⟨_, _, _, _, _, _, _, _, _, rfl⟩
  · exact ⟨_, _, _, _, _, _, _, _, _, rfl⟩

theorem packetPayload_writes (payloadBytes : UInt32) (payload : List UInt8)
    (ack : Bool) : RxWrites fs (packetPayload fs payloadBytes payload ack).fs := by
  have hadv : RxWrites fs (rxAdvance fs payloadBytes) := ⟨_, _, _, _, _, _, _, _, _, rfl⟩
  unfold packetPayload
  split
  · exact hadv.trans (oooCatchUp_writes _)
  · exact .refl fs

theorem packetRx_writes (ts : UInt32) : RxWrites fs (packetRx fs p ts).fs := by
  have hupd : RxWrites fs (windowUpdate (rttUpdate fs p ts) p) := ⟨_, _, _, _, _, _, _, _, _, rfl⟩
  unfold packetRx
  split
  · exact .refl fs
  dsimp only
  split
  · exact packetOoo_writes _ _ _ _
  unfold packetInOrder
  dsimp only
  split
  · exact hupd
  unfold packetFin
  split
  · exact (hupd.trans (packetPayload_writes _ _ _ _)).trans ⟨_, _, _, _, _, _, _, _, _, rfl⟩
  · exact hupd.trans (packetPayload_writes _ _ _ _)

/-- The result of one operation on a flow. -/
structure FlowOut where
  fs : FlowSt
  ret : Int := 0
  arx : Option Arx := none
  dma : List DmaWrite := []
  qman : Option QmanSet := none
  ack : Option AckSeg := none
  seg : Option Segment := none
  /-- The core whose forwarding ring received the flow. -/
  fwd : Option UInt16 := none
  aborted : Bool := false

/-- The `qman_set` call that adds the rise of `tcp_txavail` to the queue. -/
def qmanCredit (id : UInt32) (fs : FlowSt) (oldAvail newAvail : UInt32) : Option QmanSet :=
  if newAvail > oldAvail then
    some { id := id, rate := fs.txRate, avail := newAvail - oldAvail
           maxChunk := tcpMss.toUInt16, add := true }
  else none

/-- The code behind the `unlock` label of `fast_flows_packet`. -/
def packetUnlock (flowId : UInt32) (oldAvail rxPos txBump ts : UInt32) (p : Pkt)
    (r : PacketEnd) : FlowOut :=
  let qman := qmanCredit flowId.toUInt16.toUInt32 r.fs oldAvail (tcpTxavail r.fs)
  { fs := r.fs
    ret := if r.triggerAck then 1 else 0
    arx :=
      if r.rxBump ≠ 0 ∨ txBump ≠ 0 ∨ r.finBump then
        some { dbId := r.fs.dbId, appOpaque := r.fs.appOpaque, rxBump := r.rxBump
               rxPos := rxPos, txBump := txBump, rxDone := r.finBump }
      else none
    dma := r.dma
    qman := qman
    ack :=
      if r.triggerAck then
        some { seqno := r.fs.txNextSeq, ackno := r.fs.rxNextSeq, ece := p.ecnCe
               wnd := wndField r.fs.rxAvail, tsVal := ts, tsEcr := r.fs.txNextTs }
      else none
    aborted := r.aborted || (qman.any fun q => !qmanIdOk q.id) }

/-- `fast_flows_packet` from the acknowledgement up to the `unlock` label. -/
def packetBody (ts : UInt32) : PacketEnd :=
  if (packetAck fs p).2.2 then
    { fs := (packetAck fs p).1, triggerAck := decide (p.payloadBytes > 0) }
  else packetRx (packetAck fs p).1 p ts

def fastFlowsPacket (flowId : UInt32) (fs : FlowSt) (p : Pkt) (ts : UInt32) : FlowOut :=
  if fs.slowpath then
    { fs := fs, ret := -1 }
  else if p.flags.weird then
    -- a SYN goes to the kernel out of band, other odd flags move the flow there
    { fs := { fs with slowpath := !p.flags.syn }, ret := -1 }
  else
    packetUnlock flowId (tcpTxavail fs) fs.rxNextPos (packetAck fs p).2.1 ts p (packetBody fs p ts)

theorem fastFlowsPacket_cases (flowId : UInt32) (fs : FlowSt) (p : Pkt) (ts : UInt32) :
    (∃ slow, (!fs.slowpath && !p.flags.weird) = false ∧
        fastFlowsPacket flowId fs p ts = { fs := { fs with slowpath := slow }, ret := -1 }) ∨
      ((!fs.slowpath && !p.flags.weird) = true ∧
        fastFlowsPacket flowId fs p ts = packetUnlock flowId (tcpTxavail fs) fs.rxNextPos
          (packetAck fs p).2.1 ts p (packetBody fs p ts)) := by
  unfold fastFlowsPacket
  split
  · next hslow => exact Or.inl ⟨fs.slowpath, by simp [hslow], rfl⟩
  next hslow =>
  split
  · next hweird => exact Or.inl ⟨_, by simp [hweird], rfl⟩
  · next hweird => exact Or.inr ⟨by simp [hslow, hweird], rfl⟩

/-- The packet ends in the go-back-N reset of the third duplicate ack. -/
def packetReset : Bool :=
  !fs.slowpath && !p.flags.weird && (packetAck fs p).2.2

/-- The packet reaches the window update: it is kept by the trim and starts at
`rx_next_seq` after it. -/
def windowApplied : Bool :=
  !fs.slowpath && !p.flags.weird && !(packetAck fs p).2.2 &&
    match tcpTrimRxbuf (packetAck fs p).1 p.seqno p.payloadBytes.toUInt16 with
    | none => false
    | some (trimStart, _) => p.seqno + trimStart.toUInt32 == (packetAck fs p).1.rxNextSeq

/-- The check of `fast_flows_bump` that catches out-of-order bumps. -/
def bumpOutOfOrder (cur new : UInt16) : Bool :=
  decide ((cur ≤ new ∧ new.toNat - cur.toNat > 65535 / 2) ∨
    (new < cur ∧ (cur.toNat < 65535 / 4 * 3 ∨ new.toNat > 65535 / 4)))

/-- One posted connection update of the application. -/
structure Bump where
  seq : UInt16
  rxBump : UInt32
  txBump : UInt32
  /-- `FLEXTCP_PL_ATX_FLTXDONE` is set. -/
  txDone : Bool
deriving DecidableEq

/-- `tx_bump`, or zero once transmission is closed. -/
def bumpTx (b : Bump) : UInt32 := if fs.txfin then 0 else b.txBump

/-- The checks of `fast_flows_bump` on the two byte counts. -/
def bumpFits (b : Bump) : Prop :=
  bumpTx fs b ≤ fs.txLen ∧ fs.txAvail + bumpTx fs b ≤ fs.txLen ∧
    fs.txAvail + bumpTx fs b + fs.txSent ≤ fs.txLen ∧
    b.rxBump ≤ fs.rxLen ∧ b.rxBump + fs.rxAvail ≤ fs.txLen
deriving Decidable

/-- The flow state after an accepted bump. -/
def bumpState (b : Bump) : FlowSt :=
  { fs with
    bumpSeq := b.seq
    txfin := fs.txfin || b.txDone
    txAvail := fs.txAvail + bumpTx fs b
    rxAvail := fs.rxAvail + b.rxBump }

/-- `fast_flows_bump` behind its checks. -/
def bumpAccept (flowId : UInt32) (fs : FlowSt) (b : Bump) (ts : UInt32) : FlowOut :=
  let newAvail := tcpTxavailOf fs (fs.txAvail + bumpTx fs b)
  let qman := qmanCredit flowId fs (tcpTxavail fs) newAvail
  let fs' := bumpState fs b
  -- receive buffer freed up from empty: send a window update
  let update := decide (newAvail = 0 ∧ fs.rxAvail = 0 ∧ fs'.rxAvail ≠ 0)
  { fs := fs'
    ret := if update then 0 else -1
    qman := qman
    seg :=
      if update then
        some (flowTxSegment fs' (fun _ => 0) fs'.txNextSeq fs'.rxNextSeq fs'.rxAvail 0 0
          fs'.txNextTs ts false)
      else none
    aborted := qman.any fun q => !qmanIdOk q.id }

def fastFlowsBump (flowId : UInt32) (fs : FlowSt) (b : Bump) (ts : UInt32) : FlowOut :=
  if bumpOutOfOrder fs.bumpSeq b.seq then
    { fs := fs, ret := -1 }
  else if !fs.txfin && b.txDone && b.txBump == 0 then
    -- closing TX requires at least one byte (dummy)
    { fs := { fs with bumpSeq := b.seq }, ret := -1 }
  else if bumpFits fs b then
    bumpAccept flowId fs b ts
  else
    { fs := { fs with bumpSeq := b.seq }, ret := -1 }

theorem fastFlowsBump_cases (flowId : UInt32) (fs : FlowSt) (b : Bump) (ts : UInt32) :
    (∃ s, fastFlowsBump flowId fs b ts = { fs := { fs with bumpSeq := s }, ret := -1 }) ∨
      (bumpFits fs b ∧ (fs.txfin = false → b.txDone = true → b.txBump ≠ 0) ∧
        fastFlowsBump flowId fs b ts = bumpAccept flowId fs b ts) := by
  unfold fastFlowsBump
  split
  · exact Or.inl ⟨fs.bumpSeq, rfl⟩
  split
  · exact Or.inl ⟨_, rfl⟩
  next hclose =>
  split
  · next hfits =>
    refine Or.inr ⟨hfits, ?_, rfl⟩
    intro hfin hdone hzero
    simp [hfin, hdone, hzero] at hclose
  · exact Or.inl ⟨_, rfl⟩

/-- The state after `fast_flows_qman` has taken `len` bytes for a segment. -/
def txTake (len : UInt32) : FlowSt :=
  let pos := fs.txNextPos + len
  { fs with
    txNextSeq := fs.txNextSeq + len
    txNextPos := if pos ≥ fs.txLen then pos - fs.txLen else pos
    txSent := fs.txSent + len
    txAvail := fs.txAvail - len }

def segLen (avail : UInt32) : UInt32 := if tcpMss < avail then tcpMss else avail

/-- `fast_flows_qman` with data to send. -/
def qmanSend (txBuf : Nat → UInt8) (ts : UInt32) : FlowOut :=
  let len := segLen (tcpTxavail fs)
  let fs' := txTake fs len
  let fin := fs'.txfin && fs'.txAvail == 0
  -- make sure we don't send out dummy byte for FIN
  let payload := if fin then len - 1 else len
  { fs := fs'
    seg := some (flowTxSegment fs' txBuf fs.txNextSeq fs.rxNextSeq fs.rxAvail payload
      fs.txNextPos fs'.txNextTs ts fin)
    aborted := fin && len == 0 }

/-- `fast_flows_qman` on `core`, for the flow whose transmit buffer is `txBuf`. -/
def fastFlowsQman (core : UInt16) (steering : UInt16 → UInt16) (flowId : UInt32) (fs : FlowSt)
    (txBuf : Nat → UInt8) (ts : UInt32) : FlowOut :=
  if steering fs.flowGroup ≠ core then
    { fs := fs, ret := -1, fwd := some (steering fs.flowGroup)
      qman := some { id := flowId, rate := 0, avail := 0, maxChunk := 0, add := false }
      aborted := !qmanIdOk flowId }
  else if tcpTxavail fs = 0 then
    { fs := fs, ret := -1 }
  else
    qmanSend fs txBuf ts

/-- `fast_flows_qman_fwd`: re-arm a flow from the forwarding ring. The queue id has 16 bits. -/
def fastFlowsQmanFwd (flowId : UInt32) (fs : FlowSt) : FlowOut :=
  { fs := fs
    qman := some
      { id := flowId.toUInt16.toUInt32, rate := fs.txRate, avail := tcpTxavail fs
        maxChunk := tcpMss.toUInt16, add := false } }

def fastFlowsRetransmit (flowId : UInt32) (fs : FlowSt) : FlowOut :=
  if fs.txSent = 0 then
    { fs := fs }
  else
    let fs' := flowResetRetransmit fs
    let qman := qmanCredit flowId fs' (tcpTxavail fs) (tcpTxavail fs')
    { fs := fs', qman := qman, aborted := qman.any fun q => !qmanIdOk q.id }

/-- The operations of the fast path on one flow, with what they read besides
the flow state. -/
inductive FlowOp where
  | packet (p : Pkt) (ts : UInt32)
  | bump (b : Bump) (ts : UInt32)
  | qman (core : UInt16) (steering : UInt16 → UInt16) (txBuf : Nat → UInt8) (ts : UInt32)
  | retransmit

/-- Run one operation on the flow `flowId`. -/
def FlowOp.run (flowId : UInt32) (fs : FlowSt) : FlowOp → FlowOut
  | packet p ts => fastFlowsPacket flowId fs p ts
  | bump b ts => fastFlowsBump flowId fs b ts
  | qman core steering txBuf ts => fastFlowsQman core steering flowId fs txBuf ts
  | retransmit => fastFlowsRetransmit flowId fs

end StackBench.Tas

import StackBench.Mtcp.Stream

/-!
# Receiving in mTCP

`tcp_in.c` from the end of the handshake on, with the timers of `timer.c` and
the SACK table of `tcp_util.c`. Timestamp and SACK blocks come in parsed.
Events are left out.
-/

namespace StackBench.Mtcp

open Function

structure Packet where
  seq : UInt32
  ackSeq : UInt32
  window : UInt16 := 0
  syn : Bool := false
  fin : Bool := false
  rst : Bool := false
  ack : Bool := false
  /-- `ts_val` and `ts_ref` of the timestamp option. -/
  ts : Option (UInt32 × UInt32) := none
  /-- The edges of the SACK blocks. -/
  sack : List (UInt32 × UInt32) := []
  payload : List UInt8 := []
deriving DecidableEq

def Packet.payloadlen (pkt : Packet) : UInt32 := UInt32.ofNat pkt.payload.length

variable (st : TcpStream) (alloc : RecvAlloc) (curTs : UInt32) (pkt : Packet)

def updateRetransmissionTimer : Outcome TcpStream :=
  if st.sndvar.rto = 0 then .error .rtoZero
  else
    let st := removeFromRTOList { st with sndvar := { st.sndvar with nrtx := 0 } }
    if tcpSeqGt st.sndNxt st.sndvar.sndUna then
      .ok (addtoRTOList { st with sndvar := { st.sndvar with tsRto := curTs + st.sndvar.rto } })
    else .ok st

def lossThreshold (sndvar : SendVars) : UInt32 :=
  let half := min sndvar.cwnd sndvar.peerWnd / 2
  if half < 2 * sndvar.mss.toUInt32 then 2 * sndvar.mss.toUInt32 else half

/-- The retransmission timeout after a timeout. -/
def backoffRto (nrtx : UInt8) : UInt32 :=
  let rto := ((st.rcvvar.srtt >>> 3) + st.rcvvar.rttvar) <<< (min nrtx 7).toUInt32
  if rto = 0 then st.sndvar.rto else rto

/-- The last part of `HandleRTO`: what is sent again. -/
def retransmit : Outcome TcpStream :=
  let st := { st with sndNxt := st.sndvar.sndUna }
  match st.state with
  | .established | .closeWait => addtoSendList st
  | .finWait1 | .closing | .lastAck =>
    if tcpSeqLt st.sndNxt st.sndvar.fss then
      addtoSendList { removeFromControlList st with controlListWaiting := true }
    else .ok (addtoControlList st)
  | .closed | .finWait2 | .timeWait => .error .rtoState

/-- `HandleRTO`, called by `CheckRtmTimeout` for a stream it takes off the RTO
store. -/
def handleRTO : Outcome TcpStream :=
  let st := removeFromRTOList st
  if st.sndvar.rto = 0 then .error .rtoZero
  else if st.closeReason ≠ .notClosed then .ok st
  else if 16 ≤ st.sndvar.nrtx then
    let st := { st with state := .closed, closeReason := .connLost }
    .ok (if st.socket then st else destroyTCPStream st)
  else
    let nrtx := st.sndvar.nrtx + 1
    retransmit { st with sndvar := { st.sndvar with
      nrtx := nrtx
      maxNrtx := max st.sndvar.maxNrtx nrtx
      rto := backoffRto st nrtx
      ssthresh := lossThreshold st.sndvar
      cwnd := st.sndvar.mss.toUInt32 } }

/-- The answer to a segment outside of the window. -/
def answerInvalid : TcpStream :=
  if pkt.rst then st
  else if st.state = .established then
    if pkt.seq + 1 = st.rcvNxt || tcpSeqLeq pkt.seq st.rcvNxt then enqueueACK st .aggregate
    else enqueueACK st .now
  else
    let st := if st.state = .timeWait then addtoTimewaitList st else st
    addtoControlList st

/-- The protection against wrapped sequence numbers in `ValidateSequence`. -/
def checkTimestamp : TcpStream × Bool :=
  if pkt.rst || !st.sawTimestamp then (st, true)
  else match pkt.ts with
    | none => (st, false)
    | some (tsVal, tsRef) =>
      if tcpSeqLt tsVal st.rcvvar.tsRecent then (enqueueACK st .now, false)
      else ({ st with rcvvar := { st.rcvvar with
        tsRecent := tsVal, tsLastackRcvd := tsRef } }, true)

def validateSequence : TcpStream × Bool :=
  match checkTimestamp st pkt with
  | (st, false) => (st, false)
  | (st, true) =>
    if tcpSeqBetween (pkt.seq + pkt.payloadlen) st.rcvNxt (st.rcvNxt + st.rcvvar.rcvWnd) then
      (st, true)
    else (answerInvalid st pkt, false)

/-- `ProcessRST`, for the states from ESTABLISHED on. -/
def processRST : TcpStream :=
  match st.state with
  | .finWait1 | .finWait2 | .lastAck | .closing | .timeWait =>
    destroyTCPStream { st with state := .closed, closeReason := .activeClose }
  | .established | .closeWait | .closed =>
    if st.sndvar.onCloseq || st.sndvar.onCloseqInt || st.sndvar.onResetq ||
        st.sndvar.onResetqInt then st
    else { st with state := .closeWait, closeReason := .reset }

/-- `EstimateRTT`, for a stream that was measured before. -/
def updateRTT (m : ℤ) : RecvVars :=
  let v := st.rcvvar
  let diff := m - (v.srtt >>> 3).toNat
  let srtt := UInt32.ofInt (v.srtt.toNat + diff)
  let dev :=
    if diff < 0 then
      let d := -diff - (v.mdev >>> 2).toNat
      if 0 < d then d / 8 else d
    else diff - (v.mdev >>> 2).toNat
  let mdev := UInt32.ofInt (v.mdev.toNat + dev)
  let mdevMax := if v.mdevMax < mdev then mdev else v.mdevMax
  let rttvar := if v.mdevMax < mdev ∧ v.rttvar < mdevMax then mdevMax else v.rttvar
  if tcpSeqGt st.sndvar.sndUna v.rttSeq then
    { v with
      srtt := srtt
      mdev := mdev
      rttvar := if mdevMax < rttvar then rttvar - ((rttvar - mdevMax) >>> 2) else rttvar
      rttSeq := st.sndNxt
      mdevMax := 0 }
  else { v with srtt := srtt, mdev := mdev, mdevMax := mdevMax, rttvar := rttvar }

def estimateRTT (mrtt : UInt32) : TcpStream :=
  let m : ℤ := if mrtt = 0 then 1 else mrtt.toNat
  if st.rcvvar.srtt ≠ 0 then { st with rcvvar := updateRTT st m }
  else
    { st with rcvvar := { st.rcvvar with
      srtt := UInt32.ofInt (m * 8)
      mdev := UInt32.ofInt (m * 2)
      mdevMax := UInt32.ofInt (m * 2)
      rttvar := UInt32.ofInt (m * 2)
      rttSeq := st.sndNxt } }

/-- The first entry with the given edge is merged into entry `i` and cleared. -/
def mergeLeft (table : Fin 8 → SackEntry) (i : Fin 8) (edge : UInt32) : Fin 8 → SackEntry :=
  let table := update table i { table i with leftEdge := edge }
  match (List.finRange 8).find? fun j => (table j).rightEdge == edge with
  | none => table
  | some j =>
    update (update table i { table i with leftEdge := (table j).rightEdge }) j
      {}

def mergeRight (table : Fin 8 → SackEntry) (i : Fin 8) (edge : UInt32) : Fin 8 → SackEntry :=
  let table := update table i { table i with rightEdge := edge }
  match (List.finRange 8).find? fun j => (table j).leftEdge == edge with
  | none => table
  | some j =>
    update (update table i { table i with rightEdge := (table j).leftEdge }) j
      {}

/-- The loop of `_update_sack_table` over the entries; `none` if the block is in
the table already. -/
def sackLoop (left right : UInt32) :
    List (Fin 8) → (Fin 8 → SackEntry) × UInt32 → Option ((Fin 8 → SackEntry) × UInt32)
  | [], acc => some acc
  | i :: is, (table, newly) =>
    let e := table i
    let ld : ℤ := left.toNat - e.leftEdge.toNat
    let rd : ℤ := right.toNat - e.rightEdge.toNat
    if ld = 0 ∧ rd = 0 then none
    else if 0 < (left.toNat : ℤ) - e.rightEdge.toNat ∨
        (right.toNat : ℤ) - e.leftEdge.toNat < 0 then
      sackLoop left right is (table, newly)
    else
      let (table, newly) :=
        if ld < 0 then (mergeLeft table i left, newly + UInt32.ofInt (-ld)) else (table, newly)
      let (table, newly) :=
        if 0 < rd then (mergeRight table i right, newly + UInt32.ofInt rd) else (table, newly)
      sackLoop left right is (table, newly)

/-- A block that extends no entry goes into a new one. -/
def storeSack (v : RecvVars) (left right : UInt32) (table : Fin 8 → SackEntry) (newly : UInt32) :
    RecvVars :=
  if newly = 0 then
    { v with
      sackTable := update table v.sacks ⟨left, right⟩
      sacks := v.sacks + 1 }
  else { v with sackTable := table }

def updateSackTable (left right : UInt32) : Outcome TcpStream :=
  match sackLoop left right (List.finRange 8) (st.rcvvar.sackTable, 0) with
  | none => .ok st
  | some (table, newly) =>
    if st.sndvar.mss = 0 then .error .divideByZero
    else
      let v := storeSack st.rcvvar left right table newly
      let sacked := if newly = 0 then right - left else newly
      .ok { st with rcvvar := { v with
        sackedPkts := v.sackedPkts + sacked / st.sndvar.mss.toUInt32 } }

def parseSACKOption (st : TcpStream) : List (UInt32 × UInt32) → Outcome TcpStream
  | [] => .ok st
  | (left, right) :: blocks => do
      let st ← updateSackTable st left right
      parseSACKOption st blocks

def scaledWindow : UInt32 :=
  if pkt.syn then pkt.window.toUInt32
  else pkt.window.toUInt32 <<< st.sndvar.wscalePeer.toUInt32

/-- The ack of a FIN counts as the ack of the byte before it. -/
def dataAck (ackSeq : UInt32) : UInt32 :=
  match st.state with
  | .finWait1 | .finWait2 | .closing | .closeWait | .lastAck =>
    if st.sndvar.isFinSent && ackSeq == st.sndvar.fss + 1 then ackSeq - 1 else ackSeq
  | .closed | .established | .timeWait => ackSeq

def updateWindow (ackSeq : UInt32) : TcpStream :=
  let v := st.rcvvar
  let cwindow := scaledWindow st pkt
  if tcpSeqLt v.sndWl1 pkt.seq || (v.sndWl1 == pkt.seq && tcpSeqLt v.sndWl2 ackSeq) ||
      (v.sndWl2 == ackSeq && decide (st.sndvar.peerWnd < cwindow)) then
    { st with
      sndvar := { st.sndvar with peerWnd := cwindow }
      rcvvar := { v with sndWl1 := pkt.seq, sndWl2 := ackSeq } }
  else st

/-- Whether an ack counts as a duplicate; `rightWndEdge` is the window edge before the segment. -/
def isDupAck (ackSeq rightWndEdge : UInt32) : Bool :=
  tcpSeqLt ackSeq st.sndNxt && ackSeq == st.rcvvar.lastAckSeq && pkt.payload.isEmpty &&
    st.rcvvar.sndWl2 + st.sndvar.peerWnd == rightWndEdge

def countDupAck (dup : Bool) (ackSeq : UInt32) : TcpStream :=
  if dup then { st with rcvvar := { st.rcvvar with dupAcks := st.rcvvar.dupAcks + 1 } }
  else { st with rcvvar := { st.rcvvar with dupAcks := 0, lastAckSeq := ackSeq } }

/-- Fast retransmission, and the inflation of the window that follows it. -/
def fastRetransmit (dup : Bool) (ackSeq : UInt32) : Outcome TcpStream :=
  if dup && st.rcvvar.dupAcks == 3 then
    let sndNxt := if tcpSeqLt ackSeq st.sndNxt then ackSeq else st.sndNxt
    let ssthresh := lossThreshold st.sndvar
    let nrtx := if st.sndvar.nrtx < 16 then st.sndvar.nrtx + 1 else st.sndvar.nrtx
    addtoSendList { st with
      sndNxt := sndNxt
      sndvar := { st.sndvar with
        ssthresh := ssthresh
        cwnd := ssthresh + 3 * st.sndvar.mss.toUInt32
        nrtx := nrtx } }
  else if 3 < st.rcvvar.dupAcks then
    let cwnd := st.sndvar.cwnd + st.sndvar.mss.toUInt32
    .ok (if st.sndvar.cwnd < cwnd then { st with sndvar := { st.sndvar with cwnd := cwnd } }
      else st)
  else .ok st

def recoverFromLoss (buf : SendBuffer) (ackSeq : UInt32) : Outcome TcpStream :=
  if tcpSeqGt ackSeq st.sndNxt then
    let st := { st with
      sndNxt := ackSeq
      sndvar := { st.sndvar with cwnd := st.sndvar.ssthresh } }
    if buf.len = 0 then .ok (removeFromSendList st) else addtoSendList st
  else .ok st

/-- The number of segments that `rmlen` acked bytes stand for. -/
def ackedPackets (rmlen : UInt32) (effMss : UInt16) : UInt16 :=
  let packets := (rmlen / effMss.toUInt32).toUInt16
  if rmlen < packets.toUInt32 * effMss.toUInt32 then packets + 1 else packets

def measureRTT : Outcome TcpStream :=
  if st.sawTimestamp then
    let st := estimateRTT st (curTs - st.rcvvar.tsLastackRcvd)
    let rto := (st.rcvvar.srtt >>> 3) + st.rcvvar.rttvar
    if rto = 0 then .error .rtoZero
    else .ok { st with sndvar := { st.sndvar with rto := rto } }
  else .ok st

def growWindow (packets : UInt16) : Outcome TcpStream :=
  let v := st.sndvar
  let mss := v.mss.toUInt32
  if v.cwnd < v.ssthresh then
    .ok (if v.cwnd < v.cwnd + mss then
      { st with sndvar := { v with cwnd := v.cwnd + mss * packets.toUInt32 } } else st)
  else if v.cwnd = 0 then .error .divideByZero
  else
    let newCwnd := v.cwnd + packets.toUInt32 * mss * mss / v.cwnd
    .ok (if v.cwnd < newCwnd then { st with sndvar := { v with cwnd := newCwnd } } else st)

def removeAcked (buf : SendBuffer) (ackSeq rmlen : UInt32) : TcpStream :=
  let buf := (sbRemove buf rmlen.toNat).1
  { st with sndvar := { st.sndvar with
    sndbuf := some buf
    sndUna := ackSeq
    sndWnd := buf.size - buf.len } }

/-- `ProcessACK`, for a stream with the send buffer `buf`. -/
def processACK (buf : SendBuffer) (curTs : UInt32) (pkt : Packet) : Outcome TcpStream := do
  let rightWndEdge := st.sndvar.peerWnd + st.rcvvar.sndWl2
  let ackSeq := dataAck st pkt.ackSeq
  -- if ack overs the sending buffer, return
  if tcpSeqGt ackSeq (buf.headSeq + buf.len) then return st
  let st := updateWindow st pkt ackSeq
  let dup := isDupAck st pkt ackSeq rightWndEdge
  let st ← fastRetransmit (countDupAck st dup ackSeq) dup ackSeq
  let st ← parseSACKOption st pkt.sack
  let st ← recoverFromLoss st buf ackSeq
  let rmlen := ackSeq - buf.headSeq
  if st.sndvar.effMss = 0 then throw .divideByZero
  let packets := ackedPackets rmlen st.sndvar.effMss
  -- if ack_seq is previously acked, return
  if tcpSeqGeq buf.headSeq ackSeq then return st
  let st ← measureRTT st curTs
  let st ← growWindow st packets
  updateRetransmissionTimer (removeAcked st buf ackSeq rmlen) curTs

/-- `ProcessACK` where there is a send buffer. -/
def processACKIfBuffered : Outcome TcpStream :=
  match st.sndvar.sndbuf with
  | none => .ok st
  | some buf => processACK st buf curTs pkt

/-- The receive buffer, allocated if it does not exist. -/
def recvBuffer (chunk : ℕ → UInt8) (size : UInt32) : RingBuffer :=
  match st.rcvvar.rcvbuf with
  | some rb => rb
  | none => rbInit chunk size (st.rcvvar.irs + 1)

/-- A receive chunk from the pool, and a fragment context. -/
structure RecvAlloc where
  chunk : ℕ → UInt8
  size : UInt32
  ctx : ℕ

def processTCPPayload : Outcome (TcpStream × Bool) :=
  let endSeq := pkt.seq + pkt.payloadlen
  if tcpSeqLt endSeq st.rcvNxt then .ok (st, false)
  else if tcpSeqGt endSeq (st.rcvNxt + st.rcvvar.rcvWnd) then .ok (st, false)
  else
    let rb := recvBuffer st alloc.chunk alloc.size
    match rbPut rb alloc.ctx pkt.payload pkt.seq with
    | none => .error .ringBuffer
    | some put =>
      let discard := st.state = .finWait1 ∨ st.state = .finWait2
      -- the application has closed the connection already
      match if discard then rbRemove put.rb (sizeT put.rb.mergedLen) else some (put.rb, 0) with
      | none => .error .ringBuffer
      | some (rb, _) =>
        let rcvNxt := rb.headSeq + rb.mergedLen
        .ok ({ st with
          rcvNxt := rcvNxt
          rcvvar := { st.rcvvar with
            rcvbuf := some rb
            rcvWnd := rb.size - rb.mergedLen }
          puts := st.puts ++
            [{ seq := pkt.seq, len := pkt.payload.length, ret := put.ret
               writes := put.writes }] },
          !tcpSeqLeq rcvNxt st.rcvNxt)

def handlePayload : Outcome TcpStream :=
  if pkt.payload.length = 0 then .ok st
  else do
    let (st, aggregate) ← processTCPPayload st alloc pkt
    return enqueueACK st (if aggregate then .aggregate else .now)

def handleEstablished : Outcome TcpStream := do
  if pkt.syn then return addtoControlList { st with sndNxt := pkt.ackSeq }
  let st ← handlePayload st alloc pkt
  let st ← (if pkt.ack then processACKIfBuffered st curTs pkt else pure st)
  if pkt.fin then
    if pkt.seq + pkt.payloadlen = st.rcvNxt then
      return addtoControlList { st with state := .closeWait, rcvNxt := st.rcvNxt + 1 }
    else return enqueueACK st .now
  else return st

def handleCloseWait : Outcome TcpStream :=
  if tcpSeqLt pkt.seq st.rcvNxt then .ok (addtoControlList st)
  else processACKIfBuffered st curTs pkt

def handleLastAck : Outcome TcpStream := do
  if tcpSeqLt pkt.seq st.rcvNxt then return st
  if !pkt.ack then return addtoControlList st
  let st ← processACKIfBuffered st curTs pkt
  if !st.sndvar.isFinSent then return st
  if pkt.ackSeq = st.sndvar.fss + 1 then
    let st ← updateRetransmissionTimer
      { st with sndvar := { st.sndvar with sndUna := st.sndvar.sndUna + 1 } } curTs
    return destroyTCPStream { st with state := .closed, closeReason := .passiveClose }
  else return addtoControlList st

/-- The FIN of the peer in FIN_WAIT_1 or FIN_WAIT_2. -/
def handleFin : TcpStream :=
  if pkt.fin && pkt.seq + pkt.payloadlen == st.rcvNxt then
    let st := { st with rcvNxt := st.rcvNxt + 1 }
    addtoControlList (if st.state = .finWait1 then { st with state := .closing }
      else addtoTimewaitList { st with state := .timeWait })
  else st

def handleFinWait1 : Outcome TcpStream := do
  if tcpSeqLt pkt.seq st.rcvNxt then return addtoControlList st
  if !pkt.ack then return st
  let st ← processACKIfBuffered st curTs pkt
  let st := if st.sndvar.isFinSent && pkt.ackSeq == st.sndvar.fss + 1 then
      removeFromRTOList { st with
        state := .finWait2
        sndNxt := if tcpSeqGt pkt.ackSeq st.sndNxt then pkt.ackSeq else st.sndNxt
        sndvar := { st.sndvar with sndUna := pkt.ackSeq, nrtx := 0 } }
    else st
  let st ← handlePayload st alloc pkt
  return handleFin st pkt

def handleFinWait2 : Outcome TcpStream := do
  if !pkt.ack then return st
  let st ← processACKIfBuffered st curTs pkt
  let st ← handlePayload st alloc pkt
  return handleFin st pkt

def handleClosing : Outcome TcpStream := do
  if !pkt.ack then return st
  let st ← processACKIfBuffered st curTs pkt
  if !st.sndvar.isFinSent || pkt.ackSeq != st.sndvar.fss + 1 then return st
  let st ← updateRetransmissionTimer
    { st with sndNxt := pkt.ackSeq, sndvar := { st.sndvar with sndUna := pkt.ackSeq } } curTs
  return addtoTimewaitList { st with state := .timeWait }

/-- The state machine of `ProcessTCPPacket`. -/
def dispatch : Outcome TcpStream :=
  match st.state with
  | .established => handleEstablished st alloc curTs pkt
  | .closeWait => handleCloseWait st curTs pkt
  | .lastAck => handleLastAck st curTs pkt
  | .finWait1 => handleFinWait1 st alloc curTs pkt
  | .finWait2 => handleFinWait2 st alloc curTs pkt
  | .closing => handleClosing st curTs pkt
  | .timeWait => .ok (addtoControlList st)
  | .closed => .ok st

/-- `ProcessTCPPacket`, for a segment of a stream in the flow table. -/
def processTCPPacket : Outcome TcpStream :=
  match if st.state = .closed then (st, true) else validateSequence st pkt with
  | (st, false) => .ok st
  | (st, true) =>
    let st := { st with sndvar := { st.sndvar with peerWnd := scaledWindow st pkt } }
    if pkt.rst then
      let st := { st with haveReset := true }
      if st.state = .closed then .ok st else .ok (processRST st)
    else dispatch st alloc curTs pkt

end StackBench.Mtcp

import StackBench.Mtcp.Stream

/-!
# Sending in mTCP

`tcp_out.c`: the functions that build segments, and the three write functions
on one stream. `IPOutput` succeeds while there are packet buffers left, whose
number is an argument.
-/

namespace StackBench.Mtcp

structure OutFlags where
  fin : Bool := false
  rst : Bool := false
  ack : Bool := false
  wack : Bool := false
deriving DecidableEq

structure Segment where
  seq : UInt32
  ackSeq : UInt32
  flags : OutFlags
  window : UInt16
  payload : List UInt8
deriving DecidableEq

/-- `CalculateOptionLength` for a segment without SYN: the timestamp and two
bytes of padding. -/
def optlen : ℕ := 12

structure SendOut where
  st : TcpStream
  ret : ℤ
  sent : List Segment := []

variable (st : TcpStream) (curTs : UInt32)

/-- The number that `SendTCPPacket` writes into the header. -/
def outSeq (flags : OutFlags) : UInt32 :=
  if flags.wack then st.sndNxt - 1 else if flags.fin then st.sndvar.fss else st.sndNxt

def packetSent (flags : OutFlags) (payloadlen : ℕ) : TcpStream :=
  -- a segment with WACK carries no FIN
  let fin := flags.fin && !flags.wack
  let window32 := st.rcvvar.rcvWnd >>> st.sndvar.wscaleMine.toUInt32
  let consumed := payloadlen + fin.toNat
  let st := { st with
    needWndAdv := st.needWndAdv || window32 == 0
    sndNxt := st.sndNxt + UInt32.ofNat consumed
    sndvar := { st.sndvar with
      isFinSent := st.sndvar.isFinSent || fin
      tsLastackSent := if flags.ack then curTs else st.sndvar.tsLastackSent } }
  if 0 < consumed then
    -- update retransmission timer if have payload
    addtoRTOList { st with sndvar := { st.sndvar with tsRto := curTs + st.sndvar.rto } }
  else st

/-- `SendTCPPacket`, where `IPOutput` finds a packet buffer if `txBuf` holds. -/
def sendTCPPacket (flags : OutFlags) (payload : List UInt8) (txBuf : Bool) : SendOut :=
  if st.sndvar.mss.toNat < payload.length + optlen then { st := st, ret := -1 }
  else if !txBuf then { st := st, ret := -2 }
  else
    let window32 := st.rcvvar.rcvWnd >>> st.sndvar.wscaleMine.toUInt32
    { st := packetSent st curTs flags payload.length
      ret := payload.length + (flags.fin && !flags.wack).toNat
      sent := [{ seq := outSeq st flags
                 ackSeq := if flags.ack then st.rcvNxt else 0
                 flags := { flags with fin := flags.fin && !flags.wack }
                 window := (min window32 65535).toUInt16
                 payload := payload }] }

def seqIsSacked (seq : UInt32) : Bool :=
  (List.finRange 8).any fun i =>
    decide ((st.rcvvar.sackTable i).leftEdge ≤ seq) &&
      decide (seq < (st.rcvvar.sackTable i).rightEdge)

def tsToMsec (t : UInt32) : UInt32 := t * 1000 / 1000

structure FlushOut where
  st : TcpStream
  packets : ℤ
  sent : List Segment

/-- The window is full: ask the peer for a new one. -/
def windowFull : TcpStream :=
  if st.sndvar.peerWnd ≤ st.sndvar.cwnd ∧
      500 < tsToMsec (curTs - st.sndvar.tsLastackSent) then
    enqueueACK st .wack
  else st

def remainingWindow : ℤ :=
  int32 (min st.sndvar.cwnd st.sndvar.peerWnd - (st.sndNxt - st.sndvar.sndUna))

/-- The loop stops at the edge of the window; behind `snd_una` it waits for a full segment. -/
def windowClosed : Bool :=
  decide (remainingWindow st ≤ 0) ||
    (decide (remainingWindow st < st.sndvar.mss.toNat) && decide (0 < st.sndNxt - st.sndvar.sndUna))

/-- `pkt_len`, for `len` unsent bytes. `mss` minus the option length is unsigned. -/
def pktLen (len : UInt32) : UInt32 :=
  let len := min len (UInt32.ofNat (remainingWindow st).toNat)
  min len (st.sndvar.mss.toUInt32 - 12)

def flushLoop (buf : SendBuffer) (curTs : UInt32) : ℕ → ℕ → FlushOut → Outcome FlushOut
  | 0, _, _ => .error .flushEndless
  | fuel + 1, txBufs, out =>
    let st := out.st
    let seq := st.sndNxt
    let off := seq - buf.headSeq
    let len := buf.len - off
    if tcpSeqLt seq buf.headSeq then .error .flushCheck
    else if tcpSeqLt seq st.sndvar.sndUna then .error .flushCheck
    else if buf.len < off then .error .flushCheck
    else if len = 0 then .ok out
    else if seqIsSacked st seq then
      flushLoop buf curTs fuel txBufs { out with st := { st with sndNxt := seq + len } }
    else if windowClosed st then
      .ok { out with st := windowFull st curTs, packets := -3 }
    else
      let payload := sbRead buf off.toNat ((pktLen st len).toNat % 2 ^ 16)
      let send := sendTCPPacket st curTs { ack := true } payload (0 < txBufs)
      if send.ret < 0 then .ok { out with st := send.st, packets := -3 }
      else
        flushLoop buf curTs fuel (txBufs - 1)
          { st := send.st, packets := out.packets + 1, sent := out.sent ++ send.sent }

/-- `FlushTCPSendingBuffer`. A round takes a packet buffer, is the last, or skips to the end. -/
def flushTCPSendingBuffer (txBufs : ℕ) : Outcome FlushOut :=
  match st.sndvar.sndbuf with
  | none => .error .noSendBuffer
  | some buf =>
    if buf.len = 0 then .ok { st := st, packets := 0, sent := [] }
    else flushLoop buf curTs (txBufs + 3) txBufs { st := st, packets := 0, sent := [] }

/-- The flags of the control packet that a state asks for, if it is not to wait
for the other lists. -/
def controlFlags : Option OutFlags :=
  let delayed := st.sndvar.onSendList || st.sndvar.onAckList
  let onlyAck : OutFlags := { ack := true }
  let finAck : OutFlags := { fin := true, ack := true }
  match st.state with
  | .established | .closeWait | .finWait2 | .timeWait => some onlyAck
  | .lastAck | .finWait1 => if delayed then none else some finAck
  | .closing =>
    if st.sndvar.isFinSent && st.sndNxt != st.sndvar.fss then some onlyAck else some finAck
  | .closed => if delayed then none else some { rst := true }

def sendControlPacket (txBuf : Bool) : SendOut :=
  match controlFlags st with
  | none => { st := st, ret := -1 }
  | some flags =>
    let out := sendTCPPacket st curTs flags [] txBuf
    if st.state = .closed ∧ 0 ≤ out.ret then { out with st := destroyTCPStream out.st } else out

/-- `WriteTCPControlList` on a stream of the list. -/
def writeTCPControlList (txBuf : Bool) : SendOut :=
  if st.sndvar.onControlList then
    let out := sendControlPacket (removeFromControlList st) curTs txBuf
    if out.ret < 0 then { out with st := addtoControlList out.st } else out
  else { st := st, ret := 0 }

/-- A stream goes to the control list once the lists before it are done. -/
def controlListTurn (otherList : Bool) : TcpStream :=
  if st.controlListWaiting && !otherList then
    addtoControlList { st with controlListWaiting := false }
  else st

structure WriteOut where
  st : TcpStream
  sent : List Segment := []

/-- `WriteTCPDataList` on a stream of the list. -/
def writeTCPDataList (txBufs : ℕ) : Outcome WriteOut :=
  if !st.sndvar.onSendList then .ok { st := st }
  else
    let flushed : Outcome FlushOut := match st.state with
      | .established =>
        if st.sndvar.onControlList then .ok { st := st, packets := -1, sent := [] }
        else flushTCPSendingBuffer st curTs txBufs
      | .closeWait | .finWait1 | .lastAck => flushTCPSendingBuffer st curTs txBufs
      | _ => .ok { st := st, packets := 0, sent := [] }
    flushed.map fun out =>
      if out.packets < 0 then { st := out.st, sent := out.sent }
      else
        -- decrease ack_cnt for the piggybacked acks
        let ackCnt := if out.packets < out.st.sndvar.ackCnt.val then
            Fin.ofNat 64 (out.st.sndvar.ackCnt.val - out.packets.toNat) else 0
        let st := { out.st with sndvar := { out.st.sndvar with
          onSendList := false, ackCnt := ackCnt } }
        { st := controlListTurn st st.sndvar.onAckList, sent := out.sent }

def sendAcks (curTs : UInt32) : ℕ → ℕ → WriteOut → WriteOut × ℕ
  | 0, txBufs, out => (out, txBufs)
  | fuel + 1, txBufs, out =>
    if out.st.sndvar.ackCnt = 0 then (out, txBufs)
    else
      let send := sendTCPPacket out.st curTs { ack := true } [] (0 < txBufs)
      if send.ret < 0 then ({ out with st := send.st }, txBufs)
      else
        let st := { send.st with sndvar := { send.st.sndvar with
          ackCnt := send.st.sndvar.ackCnt - 1 } }
        sendAcks curTs fuel (txBufs - 1) { st := st, sent := out.sent ++ send.sent }

def toAck : Bool :=
  match st.state, st.rcvvar.rcvbuf with
  | .established, some rb | .closeWait, some rb | .finWait1, some rb | .finWait2, some rb
  | .timeWait, some rb => tcpSeqLeq st.rcvNxt (rb.headSeq + rb.mergedLen)
  | _, _ => false

/-- If `is_wack` is set, send a packet to get a window advertisement. -/
def sendWack (txBuf : Bool) (out : WriteOut) : WriteOut :=
  if out.st.sndvar.isWack then
    let st := { out.st with sndvar := { out.st.sndvar with isWack := false } }
    let send := sendTCPPacket st curTs { ack := true, wack := true } [] txBuf
    let st := if send.ret < 0 then
        { send.st with sndvar := { send.st.sndvar with isWack := true } } else send.st
    { st := st, sent := out.sent ++ send.sent }
  else out

/-- A stream leaves the ack list when nothing is left to send. -/
def leaveAckList : TcpStream :=
  if st.sndvar.ackCnt = 0 ∧ st.sndvar.isWack = false then
    { st with sndvar := { st.sndvar with onAckList := false } }
  else st

/-- `WriteTCPACKList` on a stream of the list. -/
def writeTCPACKList (txBufs : ℕ) : WriteOut :=
  if !st.sndvar.onAckList then { st := st }
  else if toAck st then
    let acks := sendAcks curTs 64 txBufs { st := st }
    let out := sendWack curTs (0 < acks.2) acks.1
    let st := leaveAckList out.st
    { st := controlListTurn st st.sndvar.onSendList, sent := out.sent }
  else
    let st := { st with sndvar := { st.sndvar with
      onAckList := false, ackCnt := 0, isWack := false } }
    { st := controlListTurn st st.sndvar.onSendList }

end StackBench.Mtcp

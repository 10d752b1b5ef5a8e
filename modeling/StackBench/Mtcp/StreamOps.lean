import StackBench.Mtcp.Api
import StackBench.Mtcp.TcpIn
import StackBench.Mtcp.TcpOut

/-!
# Steps of an mTCP stream

Segments, calls of the application, the queues between application and stack,
the write lists and the retransmission timer, in any order.
-/

namespace StackBench.Mtcp

structure Pools where
  recvChunk : ℕ → UInt8
  recvSize : UInt32
  sendChunk : ℕ → UInt8
  sendSize : UInt32

/-- What is agreed in the handshake of a passive open. -/
structure Handshake where
  irs : UInt32
  iss : UInt32
  /-- The MSS option of the SYN. -/
  mss : Option UInt16 := none
  wscalePeer : UInt8 := 0
  /-- `ts_val` of the timestamp option of the SYN. -/
  ts : Option UInt32 := none
  /-- The window of the ACK that ends the handshake. -/
  window : UInt16 := 0

def tcpInitialWindow : UInt32 := 14600

/-- The stream that `HandlePassiveOpen` has created, after
`Handle_TCP_ST_SYN_RCVD` and `mtcp_accept`. -/
def passiveOpen (pools : Pools) (h : Handshake) : TcpStream where
  socket := true
  state := .established
  closeReason := .notClosed
  onHashTable := true
  closed := false
  onDestroyq := false
  onTimewaitList := false
  needWndAdv := false
  onRto := false
  sawTimestamp := h.ts.isSome
  controlListWaiting := false
  haveReset := false
  sndNxt := h.iss + 1
  rcvNxt := h.irs + 1
  rcvvar :=
    { rcvWnd := tcpInitialWindow
      irs := h.irs
      sndWl1 := 0 - 1
      sndWl2 := 0
      dupAcks := 0
      lastAckSeq := 0
      tsRecent := h.ts.getD 0
      tsLastackRcvd := 0
      srtt := 0
      mdev := 0
      mdevMax := 0
      rttvar := 0
      rttSeq := 0
      sackedPkts := 0
      sackTable := fun _ => {}
      sacks := 0
      rcvbuf := none }
  sndvar :=
    { mss := h.mss.getD 1460
      -- without the option only the default of mss is set
      effMss := h.mss.elim 0 (· - 12)
      wscaleMine := 7
      wscalePeer := h.wscalePeer
      sndUna := h.iss + 1
      sndWnd := pools.sendSize
      peerWnd := h.window.toUInt32 <<< h.wscalePeer.toUInt32
      iss := h.iss
      fss := 0
      nrtx := 0
      maxNrtx := 0
      rto := 500
      tsRto := 0
      cwnd := (h.mss.getD 1460).toUInt32 * 2
      ssthresh := 0
      tsLastackSent := 0
      isWack := false
      ackCnt := 0
      onControlList := false
      onSendList := false
      onAckList := false
      onSendq := false
      onAckq := false
      onCloseq := false
      onCloseqInt := false
      onResetq := false
      onResetqInt := false
      isFinSent := false
      sndbuf := none }
  puts := []

inductive StreamOp where
  /-- A segment arrives, and the fragment context `ctx` is free. -/
  | packet (curTs : UInt32) (pkt : Packet) (ctx : ℕ)
  | recv (len : ℤ)
  | write (data : List UInt8)
  | close
  | applicationCalls
  /-- The retransmission timer of the stream expires. -/
  | timeout
  | controlList (curTs : UInt32) (txBuf : Bool)
  | ackList (curTs : UInt32) (txBufs : ℕ)
  | dataList (curTs : UInt32) (txBufs : ℕ)

/-- The stream after a step, what was sent and what the application has read. -/
structure StreamOut where
  st : TcpStream
  sent : List Segment := []
  read : List UInt8 := []

def StreamOp.runLive (pools : Pools) (st : TcpStream) : StreamOp → Outcome StreamOut
  | .packet curTs pkt ctx =>
    let alloc : RecvAlloc := { chunk := pools.recvChunk, size := pools.recvSize, ctx := ctx }
    (processTCPPacket st alloc curTs pkt).map fun st => { st := st }
  | .recv len => (mtcpRecv st len).map fun out => { st := out.st, read := out.bytes }
  | .write data =>
    let alloc : SendAlloc := { chunk := pools.sendChunk, size := pools.sendSize }
    (mtcpWrite st alloc data).map fun out => { st := out.1 }
  | .close => .ok { st := closeStreamSocket st }
  | .applicationCalls => (handleApplicationCalls st).map fun st => { st := st }
  | .timeout =>
    if st.onRto then (handleRTO st).map fun st => { st := st } else .ok { st := st }
  | .controlList curTs txBuf =>
    let out := writeTCPControlList st curTs txBuf
    .ok { st := out.st, sent := out.sent }
  | .ackList curTs txBufs =>
    let out := writeTCPACKList st curTs txBufs
    .ok { st := out.st, sent := out.sent }
  | .dataList curTs txBufs =>
    (writeTCPDataList st curTs txBufs).map fun out => { st := out.st, sent := out.sent }

/-- Nothing happens to a stream that was destroyed. -/
def StreamOp.run (pools : Pools) (st : TcpStream) (op : StreamOp) : Outcome StreamOut :=
  if st.onHashTable then op.runLive pools st else .ok { st := st }

/-- Chunks of eight bytes, for examples. -/
def smallPools : Pools where
  recvChunk := fun _ => 0
  recvSize := 8
  sendChunk := fun _ => 0
  sendSize := 8

/-- A stream whose bytes start with the number 301, and those of its peer with 101. -/
def opened : TcpStream :=
  passiveOpen smallPools { irs := 100, iss := 300, mss := some 1460, window := 1000 }

end StackBench.Mtcp

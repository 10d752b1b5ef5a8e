import StackBench.Mtcp.SendBuffer

/-!
# mTCP streams

The record `tcp_stream` from the end of the handshake on, with flags for the
lists of its manager. The lists are left out: what a list function does with a
stream depends on that stream only.
-/

namespace StackBench.Mtcp

/-- `enum tcp_state`, without the states of the handshake. -/
inductive TcpState where
  | closed
  | established
  | finWait1
  | finWait2
  | closeWait
  | closing
  | lastAck
  | timeWait
deriving DecidableEq, Inhabited

/-- `enum tcp_close_reason`, as far as the modelled functions set it. -/
inductive CloseReason where
  | notClosed
  | activeClose
  | passiveClose
  | connLost
  | reset
deriving DecidableEq, Inhabited

/-- What ends the process. -/
inductive Fault where
  /-- An `assert` of `RBPut` or `RBRemove`, or an access through `NULL` there. -/
  | ringBuffer
  /-- The `assert(0)` of a function that finds no send buffer. -/
  | noSendBuffer
  /-- One of the sanity checks in `FlushTCPSendingBuffer`. -/
  | flushCheck
  /-- The loop of `FlushTCPSendingBuffer` does not end. -/
  | flushEndless
  /-- The `assert` of `CopyFromUser`. -/
  | shortPut
  /-- An `assert` on the retransmission timeout. -/
  | rtoZero
  /-- The `assert(0)` of `HandleRTO` in a state it does not know. -/
  | rtoState
  | divideByZero
deriving DecidableEq, Inhabited

/-- The counter `ack_cnt` has six bits. -/
instance ackCnt_neZero : NeZero 64 := ⟨by decide⟩

/-- The SACK table has `MAX_SACK_ENTRY` entries. -/
instance sacks_neZero : NeZero 8 := ⟨by decide⟩

structure SackEntry where
  leftEdge : UInt32 := 0
  rightEdge : UInt32 := 0
deriving DecidableEq

/-- A call of `RBPut`, recorded for the proofs. -/
structure PutRecord where
  seq : UInt32
  len : ℕ
  ret : ℤ
  writes : List ChunkWrite
deriving DecidableEq

structure RecvVars where
  rcvWnd : UInt32
  irs : UInt32
  sndWl1 : UInt32
  sndWl2 : UInt32
  dupAcks : UInt8
  lastAckSeq : UInt32
  tsRecent : UInt32
  tsLastackRcvd : UInt32
  srtt : UInt32
  mdev : UInt32
  mdevMax : UInt32
  rttvar : UInt32
  rttSeq : UInt32
  sackedPkts : UInt32
  sackTable : Fin 8 → SackEntry
  /-- A field of 3 bits. -/
  sacks : Fin 8
  rcvbuf : Option RingBuffer

structure SendVars where
  mss : UInt16
  effMss : UInt16
  wscaleMine : UInt8
  wscalePeer : UInt8
  sndUna : UInt32
  sndWnd : UInt32
  peerWnd : UInt32
  iss : UInt32
  fss : UInt32
  nrtx : UInt8
  maxNrtx : UInt8
  rto : UInt32
  tsRto : UInt32
  cwnd : UInt32
  ssthresh : UInt32
  tsLastackSent : UInt32
  isWack : Bool
  /-- A field of 6 bits. -/
  ackCnt : Fin 64
  onControlList : Bool
  onSendList : Bool
  onAckList : Bool
  onSendq : Bool
  onAckq : Bool
  onCloseq : Bool
  onCloseqInt : Bool
  onResetq : Bool
  onResetqInt : Bool
  isFinSent : Bool
  sndbuf : Option SendBuffer

structure TcpStream where
  /-- `socket != NULL`. -/
  socket : Bool
  state : TcpState
  closeReason : CloseReason
  onHashTable : Bool
  /-- The application has closed the socket. -/
  closed : Bool
  /-- On the queue `destroyq`. -/
  onDestroyq : Bool
  onTimewaitList : Bool
  needWndAdv : Bool
  /-- `on_rto_idx >= 0`. -/
  onRto : Bool
  sawTimestamp : Bool
  controlListWaiting : Bool
  haveReset : Bool
  sndNxt : UInt32
  rcvNxt : UInt32
  rcvvar : RecvVars
  sndvar : SendVars
  /-- The calls of `RBPut` so far: not in the source. -/
  puts : List PutRecord

/-- What a stack function returns: the stream, or the end of the process. -/
abbrev Outcome (α : Type) := Except Fault α

variable (st : TcpStream)

def addtoControlList : TcpStream :=
  { st with sndvar := { st.sndvar with onControlList := true } }

def removeFromControlList : TcpStream :=
  { st with sndvar := { st.sndvar with onControlList := false } }

def addtoSendList : Outcome TcpStream :=
  match st.sndvar.sndbuf with
  | none => .error .noSendBuffer
  | some _ => .ok { st with sndvar := { st.sndvar with onSendList := true } }

def removeFromSendList : TcpStream :=
  { st with sndvar := { st.sndvar with onSendList := false } }

def addtoACKList : TcpStream :=
  { st with sndvar := { st.sndvar with onAckList := true } }

inductive AckOpt where
  | now
  | aggregate
  | wack
deriving DecidableEq

def enqueueACK (opt : AckOpt) : TcpStream :=
  let sndvar := match opt with
    | .now => { st.sndvar with ackCnt := st.sndvar.ackCnt + 1 }
    | .aggregate =>
      if st.sndvar.ackCnt = 0 then { st.sndvar with ackCnt := 1 } else st.sndvar
    | .wack => { st.sndvar with isWack := true }
  addtoACKList { st with sndvar := sndvar }

def addtoRTOList : TcpStream :=
  if st.onRto || st.onTimewaitList then st else { st with onRto := true }

def removeFromRTOList : TcpStream := { st with onRto := false }

def addtoTimewaitList : TcpStream :=
  if st.onTimewaitList then st
  else { st with onRto := false, onTimewaitList := true }

def destroyTCPStream : TcpStream :=
  { st with
    onHashTable := false
    onRto := false
    onTimewaitList := false
    rcvvar := { st.rcvvar with rcvbuf := none }
    sndvar := { st.sndvar with
      onControlList := false, onSendList := false, onAckList := false, sndbuf := none } }

end StackBench.Mtcp

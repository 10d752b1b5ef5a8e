import StackBench.Mtcp.Stream

/-!
# The application side of an mTCP stream

`CopyToUser` and `CopyFromUser` of `api.c`, and `HandleApplicationCalls` of
`core.c` on one stream.
-/

namespace StackBench.Mtcp

structure ReadOut where
  st : TcpStream
  ret : ℤ
  bytes : List UInt8 := []

def rbRead (rb : RingBuffer) (len : ℕ) : List UInt8 :=
  (List.range len).map fun i => rb.data (rb.headOffset.toNat + i)

variable (st : TcpStream)

/-- Advertise newly freed receive buffer. -/
def advertise : TcpStream :=
  if st.needWndAdv && decide (st.sndvar.effMss.toUInt32 < st.rcvvar.rcvWnd) &&
      !st.sndvar.onAckq then
    { st with needWndAdv := false, sndvar := { st.sndvar with onAckq := true } }
  else st

/-- `CopyToUser`, for a stream with the receive buffer `rb`. -/
def copyToUser (rb : RingBuffer) (len : ℤ) : Outcome ReadOut :=
  let copylen := min (int32 rb.mergedLen) len
  if copylen ≤ 0 then .ok { st := st, ret := -1 }
  else match rbRemove rb copylen.toNat with
    | none => .error .ringBuffer
    | some (rb', _) =>
      let st := { st with rcvvar := { st.rcvvar with
        rcvbuf := some rb', rcvWnd := rb'.size - rb'.mergedLen } }
      .ok { st := advertise st, ret := copylen, bytes := rbRead rb copylen.toNat }

/-- `mtcp_recv` on a socket that does not block. -/
def mtcpRecv (len : ℤ) : Outcome ReadOut :=
  match st.state, st.rcvvar.rcvbuf with
  | .established, some rb | .finWait1, some rb | .finWait2, some rb =>
    if rb.mergedLen = 0 then .ok { st := st, ret := -1 } else copyToUser st rb len
  | .closeWait, some rb =>
    if rb.mergedLen = 0 then .ok { st := st, ret := 0 } else copyToUser st rb len
  | .closeWait, none => .ok { st := st, ret := 0 }
  | _, _ => .ok { st := st, ret := -1 }

structure SendAlloc where
  chunk : ℕ → UInt8
  size : UInt32

def sendBuffer (alloc : SendAlloc) : SendBuffer :=
  match st.sndvar.sndbuf with
  | some buf => buf
  | none => sbInit alloc.chunk alloc.size (st.sndvar.iss + 1)

/-- `CopyFromUser`: the stream and the returned number. -/
def copyFromUser (alloc : SendAlloc) (data : List UInt8) : Outcome (TcpStream × ℤ) :=
  let sndlen := min (int32 st.sndvar.sndWnd) data.length
  if sndlen ≤ 0 then .ok (st, -1)
  else
    let (buf, ret) := sbPut (sendBuffer st alloc) (data.take sndlen.toNat)
    if ret ≠ sndlen then .error .shortPut
    else
      .ok ({ st with sndvar := { st.sndvar with
        sndbuf := some buf, sndWnd := buf.size - buf.len } }, ret)

/-- `mtcp_write` on a socket that does not block. -/
def mtcpWrite (alloc : SendAlloc) (data : List UInt8) : Outcome (TcpStream × ℤ) :=
  match st.state with
  | .established | .closeWait =>
    if data.length = 0 then .ok (st, -1)
    else (copyFromUser st alloc data).map fun (st, ret) =>
      if 0 < ret ∧ st.sndvar.onSendq = false ∧ st.sndvar.onSendList = false then
        ({ st with sndvar := { st.sndvar with onSendq := true } }, ret)
      else (st, ret)
  | _ => .ok (st, -1)

def handleSendq : Outcome TcpStream :=
  if st.sndvar.onSendq then
    addtoSendList { st with sndvar := { st.sndvar with onSendq := false } }
  else .ok st

def handleAckq : TcpStream :=
  if st.sndvar.onAckq then
    enqueueACK { st with sndvar := { st.sndvar with onAckq := false } } .aggregate
  else st

def closeState : TcpState → TcpState
  | .established => .finWait1
  | .closeWait => .lastAck
  | s => s

/-- The final sequence number, behind everything that was written. -/
def finalSeq : UInt32 :=
  match st.sndvar.sndbuf with
  | some buf => buf.headSeq + buf.len
  | none => st.sndNxt

/-- A stream of the close queue goes into the state that sends its FIN. -/
def startClose : TcpStream :=
  if st.haveReset then
    if st.state = .closed then st
    else destroyTCPStream { st with state := .closed, closeReason := .reset }
  else if st.sndvar.onControlList then
    { st with sndvar := { st.sndvar with onCloseqInt := true } }
  else if st.sndvar.onSendList || st.sndvar.onAckList then
    { st with state := closeState st.state, controlListWaiting := true }
  else if st.state = .closed then st
  else addtoControlList { st with state := closeState st.state }

def handleCloseq : TcpStream :=
  if st.sndvar.onCloseq then
    startClose { st with sndvar := { st.sndvar with onCloseq := false, fss := finalSeq st } }
  else st

/-- The internal close queue, of streams that were on the control list. -/
def handleCloseqInt : TcpStream :=
  if !st.sndvar.onCloseqInt || st.sndvar.onControlList then st
  else
    let st := { st with sndvar := { st.sndvar with onCloseqInt := false } }
    if st.state = .closed then st else addtoControlList { st with state := closeState st.state }

def handleDestroyq : TcpStream :=
  if st.onDestroyq then destroyTCPStream { st with onDestroyq := false } else st

/-- `HandleApplicationCalls` on a stream, without the queues of `mtcp_connect`
and `mtcp_abort`. -/
def handleApplicationCalls : Outcome TcpStream :=
  (handleSendq st).map fun st =>
    handleDestroyq (handleCloseqInt (handleCloseq (handleAckq st)))

def closeStreamSocket : TcpStream :=
  if st.closed then st
  else
    let st := { st with closed := true, socket := false }
    match st.state with
    | .closed => { st with onDestroyq := true }
    | .established | .closeWait => { st with sndvar := { st.sndvar with onCloseq := true } }
    | _ => st

end StackBench.Mtcp

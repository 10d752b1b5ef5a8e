import StackBench.Tas.FastFlows

/-!
# The application library of TAS

The buffer accounting of `conn.c`, the consumption of announcements and the
posting of updates of `init.c`. A connection is named by its address, `0` is
the null pointer.
-/

namespace StackBench.Tas

inductive ConnState where
  | closed
  | openRequested
  | acceptRequested
  | opened
  | closeRequested
deriving DecidableEq

/-- `struct flextcp_connection`, with `CONN_FLAG_TXEOS`, `CONN_FLAG_TXEOS_ALLOC`,
`CONN_FLAG_TXEOS_ACK`. -/
structure Conn where
  status : ConnState
  rxbLen : UInt32
  rxbHead : UInt32
  rxbUsed : UInt32
  rxbBump : UInt32
  txbLen : UInt32
  txbHead : UInt32
  txbSent : UInt32
  txbAllocated : UInt32
  txbBump : UInt32
  seqRx : UInt32
  flowId : UInt32
  bumpSeq : UInt32
  bumpNext : ℕ
  bumpPrev : ℕ
  fnCore : UInt16
  bumpPending : Bool
  txeos : Bool
  txeosAlloc : Bool
  txeosAck : Bool
  rxClosed : Bool
deriving DecidableEq

namespace Conn

/-- A connection that the kernel has opened, with the lengths of its buffers. -/
def opening (flowId rxLen txLen seqRx : UInt32) (core : UInt16) : Conn where
  status := .opened
  rxbLen := rxLen
  rxbHead := 0
  rxbUsed := 0
  rxbBump := 0
  txbLen := txLen
  txbHead := 0
  txbSent := 0
  txbAllocated := 0
  txbBump := 0
  seqRx := seqRx
  flowId := flowId
  bumpSeq := 0
  bumpNext := 0
  bumpPrev := 0
  fnCore := core
  bumpPending := false
  txeos := false
  txeosAlloc := false
  txeosAck := false
  rxClosed := false

/-- A connection after `flextcp_connection_open` or `flextcp_listen_accept`. -/
def requested (status : ConnState) : Conn := { opening 0 0 0 0 0 with status := status }

variable (c : Conn)

def txAllocbytes : UInt32 := c.txbLen - c.txbSent - c.txbAllocated

def txSendbytes : UInt32 := c.txbAllocated

/-- A position of the transmit buffer moved on. -/
def txWrap (pos : UInt32) : UInt32 := if pos ≥ c.txbLen then pos - c.txbLen else pos

/-- What `flextcp_connection_tx_alloc2` returns: the bytes, and position and length of the first
piece. -/
structure TxAlloc where
  len : ℕ
  head : UInt32
  len1 : ℕ

/-- `flextcp_connection_tx_alloc2`; `none` is the return value `-1`. -/
def txAlloc2 (len : ℕ) : Option (Conn × TxAlloc) :=
  -- if outgoing connection has already been closed, abort
  if c.txeos then none
  else
    let avail := c.txAllocbytes.toNat
    let len := if avail < len then avail else len
    let head := c.txWrap (c.txbHead + c.txbAllocated)
    let len1 := if head.toNat + len > c.txbLen.toNat then (c.txbLen - head).toNat else len
    some ({ c with txbAllocated := c.txbAllocated + UInt32.ofNat len }, ⟨len, head, len1⟩)

/-- `flextcp_connection_tx_send`, up to the call of `conn_mark_bump`. -/
def txSend (len : ℕ) : Option Conn :=
  if c.txSendbytes.toNat < len then none
  else
    let n := UInt32.ofNat len
    some
      { c with
        txbAllocated := c.txbAllocated - n
        txbSent := c.txbSent + n
        txbHead := c.txWrap (c.txbHead + n)
        txbBump := c.txbBump + n }

/-- `flextcp_connection_rx_done`; the flag tells whether it calls
`conn_mark_bump`. -/
def rxDone (len : ℕ) : Option (Conn × Bool) :=
  if c.rxbUsed.toNat < len then none
  else
    let n := UInt32.ofNat len
    let c := { c with rxbUsed := c.rxbUsed - n, rxbBump := c.rxbBump + n }
    some (c, decide (c.rxbBump > c.rxbLen / 4))

/-- `flextcp_conn_pushtxeos`, up to `conn_mark_bump`: the end of stream takes a byte. -/
def pushtxeos : Option Conn :=
  if c.txAllocbytes = 0 then none
  else
    some
      { c with
        txbSent := c.txbSent + 1
        txbHead := c.txWrap (c.txbHead + 1)
        txeosAlloc := true
        txbBump := c.txbBump + 1 }

/-- `flextcp_connection_tx_close`; the flag tells whether the end of stream was pushed. -/
def txClose : Option (Conn × Bool) :=
  -- if app hasn't sent all data yet, or already closed, abort
  if c.txSendbytes > 0 then none
  else if c.txeos then none
  else
    let c := { c with txeos := true }
    match c.pushtxeos with
    | none => some (c, false)
    | some c => some (c, true)

end Conn

/-- The events that `event_arx_connupdate` hands out, received bytes with their place. -/
inductive ConnEvent where
  | received (pos len : UInt32)
  | sendbuf
  | txclosed
  | rxclosed
deriving DecidableEq

/-- `event_arx_connupdate`: `events` is `none` for `-1`, `mark` tells of `conn_mark_bump`. -/
structure UpdateOut where
  conn : Conn
  events : Option (List ConnEvent)
  mark : Bool := false
  aborted : Bool := false

/-- A successful `kernel_appin_conn_opened` or `kernel_appin_accept_conn`. -/
structure KernelOpened where
  flowId : UInt32
  rxLen : UInt32
  txLen : UInt32
  seqRx : UInt32
  fnCore : UInt16

namespace Conn

variable (c : Conn)

/-- `event_kappin_conn_opened` and `event_kappin_accept_conn` for the status `0`. -/
def kappinOpened (inev : KernelOpened) (avail : ℕ) : Option (Conn × List ConnEvent) :=
  -- if we've already received updates, we'll need to inject them
  if c.rxbUsed > 0 ∧ c.rxClosed ∧ avail < 3 then none
  else if (c.rxbUsed > 0 ∨ c.rxClosed) ∧ avail < 2 then none
  else
    some
      ({ c with
          status := .opened
          seqRx := inev.seqRx + c.rxbUsed
          flowId := inev.flowId
          fnCore := inev.fnCore
          rxbLen := inev.rxLen
          txbLen := inev.txLen },
        (if c.rxbUsed > 0 then [.received 0 c.rxbUsed] else []) ++
          if c.rxClosed then [.rxclosed] else [])

/-- The received bytes wrap around the end of the receive buffer. -/
def rxSplits (rxBump : UInt32) : Bool := c.rxbHead + rxBump > c.rxbLen

/-- If the transmit buffer was depleted there will be an event. -/
def txAvailEv (txBump : UInt32) : Bool := txBump > 0 && c.txAllocbytes == 0

/-- The events that an announcement needs. -/
def evsNeeded (inev : Arx) : ℕ :=
  (if inev.rxBump > 0 then (if c.rxSplits inev.rxBump then 2 else 1) else 0) +
    (if c.txAvailEv inev.txBump then 1 else 0) +
    (if c.txeosAlloc && c.txbSent - inev.txBump == 0 then 1 else 0) +
    (if inev.rxDone then 1 else 0)

def updateRx (rxBump : UInt32) : Conn × List ConnEvent :=
  if rxBump > 0 then
    let head := c.rxbHead + rxBump
    let events :=
      if c.rxSplits rxBump then
        let rxLen := c.rxbLen - c.rxbHead
        [.received c.rxbHead rxLen, .received 0 (rxBump - rxLen)]
      else [.received c.rxbHead rxBump]
    ({ c with
        seqRx := c.seqRx + rxBump
        rxbHead := if head ≥ c.rxbLen then head - c.rxbLen else head
        rxbUsed := c.rxbUsed + rxBump }, events)
  else (c, [])

def updateTx (txBump : UInt32) (availEv : Bool) : UpdateOut :=
  if txBump > 0 then
    let c := { c with txbSent := c.txbSent - txBump }
    let events := if availEv then [ConnEvent.sendbuf] else []
    if c.txeos && !c.txeosAlloc then
      -- if we were previously unable to push out TX EOS, do so now
      match c.pushtxeos with
      | none => { conn := c, events := some events, aborted := true }
      | some c' =>
        { conn := c', events := some events, mark := true, aborted := c.txSendbytes != 0 }
    else if c.txeosAlloc && c.txbSent == 0 then
      -- if this was the last bump, mark TX EOS as acked
      { conn := { c with txeosAck := true }, events := some (events ++ [.txclosed])
        aborted := c.txeosAck }
    else { conn := c, events := some events, aborted := c.txeosAlloc && c.txeosAck }
  else { conn := c, events := some [] }

/-- `event_arx_connupdate` for an announcement of core `fnCore`, with room for
`outn` events. -/
def arxConnupdate (inev : Arx) (outn : ℕ) (fnCore : UInt16) : UpdateOut :=
  let c := { c with fnCore := fnCore }
  match c.status with
  | .openRequested | .acceptRequested =>
    -- updates seen before the confirmation from the kernel
    { conn :=
        { c with
          rxClosed := inev.rxDone
          rxbHead := c.rxbHead + inev.rxBump
          rxbUsed := c.rxbUsed + inev.rxBump }
      events := some []
      aborted := inev.txBump != 0 }
  | .closed | .closeRequested => { conn := c, events := some [] }
  | .opened =>
    if c.evsNeeded inev > outn then { conn := c, events := none }
    else
      let (c', rxEvents) := c.updateRx inev.rxBump
      let out := c'.updateTx inev.txBump (c.txAvailEv inev.txBump)
      { out with
        conn := if inev.rxDone then { out.conn with rxClosed := true } else out.conn
        events := out.events.map fun txEvents =>
          rxEvents ++ txEvents ++ if inev.rxDone then [.rxclosed] else [] }

/-- The update that `conns_bump` posts for a connection, and the connection
after it. -/
def postBump : Bump × Conn :=
  ({ seq := c.bumpSeq.toUInt16, rxBump := c.rxbBump, txBump := c.txbBump, txDone := c.txeosAlloc },
    { c with bumpSeq := c.bumpSeq + 1, rxbBump := 0, txbBump := 0, bumpPending := false })

end Conn

end StackBench.Tas

import StackBench.Lib.Linked
import StackBench.Lib.Run

/-!
# Connections of the slow path

A connection is registered in the port table, the hash table, the list of
congestion control, the timeout manager, the list of its application, the
accepts that wait at a listener, and the queue of asynchronous completions.

Connections are numbered in the order of allocation, and zero is the null
pointer. Lists that no function walks while they are damaged are lists here;
that of congestion control is kept by its links.
-/

namespace StackBench.Tas

open Function

inductive TcpStatus where
  | arpPending
  | synSent
  | regSynack
  | synWait
  | opened
  | closed
  | failed
deriving DecidableEq

/-- The fields of a connection that decide where it is registered. -/
structure TcpConn where
  status : TcpStatus
  remoteIp : UInt32
  remotePort : UInt16
  localPort : UInt16
  toArmed : Bool
  toAttempts : ℕ
  /-- The completion status is not zero. -/
  compFailed : Bool
  ccNext : ℕ
deriving DecidableEq

inductive PortUse where
  | unused
  | listen (l : ℕ)
  | lmulti (ls : List ℕ)
  | conn (c : ℕ)
deriving DecidableEq

/-- A packet in a backlog: `optsOk` tells that the options parse and contain a timestamp. -/
structure Syn where
  remoteIp : UInt32
  remotePort : UInt16
  optsOk : Bool
deriving DecidableEq

structure Listener where
  port : UInt16
  waitConns : List ℕ
  backlog : List Syn
  backlogLen : ℕ
deriving DecidableEq

inductive TimeoutType where
  | handshake
  | closed
deriving DecidableEq

/-- An active open ended by an error return of `tcp_open` or in `conn_failed`; was its port unused
then? -/
structure OpenEnd where
  byReturn : Bool
  portUnused : Bool
deriving DecidableEq

inductive SlowFault where
  | aborted
  | assertFailed
  /-- `port_alloc` does not come back to the port where it started. -/
  | portsHung
  /-- `cc_conn_remove` runs around a cycle. -/
  | ccHung
  | useAfterFree
deriving DecidableEq

/-- The slow path, with what it allocated and released, and how the opens `ended`. -/
structure SlowTcp where
  conn : ℕ → TcpConn
  size : ℕ
  freed : ℕ → ℕ
  rxAlloc : ℕ → ℕ
  rxFree : ℕ → ℕ
  txAlloc : ℕ → ℕ
  txFree : ℕ → ℕ
  ports : UInt16 → PortUse
  portHint : UInt16
  table : List ℕ
  ccConns : ℕ
  nextConn : ℕ
  timers : List (ℕ × TimeoutType)
  asyncQ : List ℕ
  arpWait : List ℕ
  appConns : List ℕ
  listeners : ℕ → Listener
  numListeners : ℕ
  active : ℕ → Bool
  ended : ℕ → Option OpenEnd
  fault : Option SlowFault

/-- A TCP packet: `valid` tells that it passes `tcp_packet`, `short` that it fits into a backlog
slot. -/
structure SlowPkt where
  valid : Bool
  remoteIp : UInt32
  remotePort : UInt16
  localPort : UInt16
  flags : UInt16
  hasTs : Bool
  copyOk : Bool
  short : Bool

/-- Whether `nicif_connection_add` succeeds, and whether the application's event queue has room. -/
structure SlowEnv where
  addOk : Bool
  room : Bool

inductive AllocResult where
  | ok
  | noMemory
  | noRxBuffer
  | noTxBuffer
deriving DecidableEq

inductive Resolve where
  | failed
  | done
  | pending
deriving DecidableEq

namespace SlowTcp

/-- The state after `tcp_init` with the first ephemeral port to try. -/
def init (hint : UInt16) : SlowTcp where
  conn _ := ⟨.failed, 0, 0, 0, false, 0, false, 0⟩
  size := 0
  freed _ := 0
  rxAlloc _ := 0
  rxFree _ := 0
  txAlloc _ := 0
  txFree _ := 0
  ports _ := .unused
  portHint := hint
  table := []
  ccConns := 0
  nextConn := 0
  timers := []
  asyncQ := []
  arpWait := []
  appConns := []
  listeners _ := ⟨0, [], [], 0⟩
  numListeners := 0
  active _ := false
  ended _ := none
  fault := none

variable (w : SlowTcp) (c : ℕ)

def setConn (x : TcpConn) : SlowTcp :=
  { w with conn := update w.conn c x }

def setListener (l : ℕ) (x : Listener) : SlowTcp :=
  { w with listeners := update w.listeners l x }

def setStatus (s : TcpStatus) : SlowTcp :=
  w.setConn c { w.conn c with status := s }

/-- `conn_alloc`; the number of the connection is `size` afterwards. -/
def connAlloc : SlowTcp :=
  let c := w.size + 1
  { w with
    size := c
    rxAlloc := update w.rxAlloc c 1
    txAlloc := update w.txAlloc c 1 }.setConn c { w.conn c with toArmed := false }

/-- `conn_alloc` when it fails: what it had allocated is freed again. -/
def connAllocFails : AllocResult → SlowTcp
  | .noRxBuffer =>
    let c := w.size + 1
    { w with size := c, freed := update w.freed c 1 }
  | .noTxBuffer =>
    let c := w.size + 1
    { w with
      size := c
      rxAlloc := update w.rxAlloc c 1
      rxFree := update w.rxFree c 1
      freed := update w.freed c 1 }
  | _ => w

def freeBuffers : SlowTcp :=
  { w with
    rxFree := update w.rxFree c (w.rxFree c + 1)
    txFree := update w.txFree c (w.txFree c + 1) }

def freeConn : SlowTcp :=
  { w with freed := update w.freed c (w.freed c + 1) }

def connFree : SlowTcp := (w.freeBuffers c).freeConn c

/-- The next port that `port_alloc` tries. -/
def portNext (p : UInt16) : UInt16 := if p + 1 < 8192 then 8192 else p + 1

def portSearch (ports : UInt16 → PortUse) (start : UInt16) :
    ℕ → UInt16 → Except SlowFault (Option UInt16)
  | 0, _ => .error .portsHung
  | fuel + 1, p =>
    if ports p = .unused then .ok (some p)
    else if portNext p = start then .ok none
    else portSearch ports start fuel (portNext p)

/-- `port_alloc`, with the result zero when no port is unused. -/
def portAlloc : Except SlowFault (SlowTcp × UInt16) := do
  match ← portSearch w.ports w.portHint 65536 w.portHint with
  | some p => pure ({ w with portHint := portNext p }, p)
  | none => pure (w, 0)

def connRegister : SlowTcp := { w with table := c :: w.table }

def connUnregister : Except SlowFault SlowTcp :=
  if c ∈ w.table then .ok { w with table := w.table.erase c } else .error .aborted

/-- `conn_timeout_arm`, and the same steps in `tcp_close`. -/
def connTimeoutArm (ty : TimeoutType) : Except SlowFault SlowTcp :=
  if (w.conn c).toArmed then .error .assertFailed
  else
    .ok { w.setConn c { w.conn c with toArmed := true } with timers := (c, ty) :: w.timers }

def connTimeoutDisarm : Except SlowFault SlowTcp :=
  if (w.conn c).toArmed then
    .ok { w.setConn c { w.conn c with toArmed := false } with
      timers := w.timers.filter fun t => t.1 ≠ c }
  else .error .assertFailed

/-- `conn_failed` disarms a timeout that is armed. -/
def connDisarmArmed : Except SlowFault SlowTcp :=
  if (w.conn c).toArmed then w.connTimeoutDisarm c else .ok w

def ccConnInit : SlowTcp :=
  { w.setConn c { w.conn c with ccNext := w.ccConns } with ccConns := c }

def next : ℕ := (w.conn c).ccNext

/-- `cc_conn_remove` moves `next_conn` on from the connection that it takes out. -/
def skipNext : SlowTcp :=
  if w.nextConn = c then { w with nextConn := w.next c } else w

/-- `cc_conn_remove`. After as many steps as there are connections the search is in a cycle. -/
def ccConnRemove : Except SlowFault SlowTcp :=
  let w := w.skipNext c
  if w.ccConns = c then .ok { w with ccConns := w.next c }
  else
    match Linked.seek (fun x => decide (w.next x ≠ c)) w.next 0 (w.size + 1) w.ccConns with
    | none => .error .ccHung
    | some cp =>
      if cp = 0 then .error .aborted
      else .ok (w.setConn cp { w.conn cp with ccNext := w.next c })

def tcpDestroy : Except SlowFault SlowTcp :=
  if (w.conn c).status = .failed then .ok (w.connFree c) else .error .assertFailed

def appifConnOpened (ok room : Bool) : Except SlowFault SlowTcp :=
  if ¬ room ∨ ok then .ok w else w.tcpDestroy c

/-- `appif_accept_conn` for an accepted connection. -/
def appifAcceptConn (room : Bool) : SlowTcp :=
  if room then { w with appConns := c :: w.appConns } else w

/-- The connections that the search for `c` in the list of the application reads. -/
def appPassed : List ℕ := w.appConns.takeWhile (· ≠ c)

def appifConnClosed (room : Bool) : Except SlowFault SlowTcp :=
  if ¬ room then .ok w
  else if ∃ x ∈ w.appPassed c, w.freed x ≠ 0 then .error .useAfterFree
  else if c ∈ w.appConns then .ok { w with appConns := w.appConns.erase c }
  else .error .aborted

/-- Record the end of the opening of `c`. -/
def endOpen (e : OpenEnd) : SlowTcp :=
  { w with ended := update w.ended c (some e) }

def connFailed (room : Bool) : Except SlowFault SlowTcp := do
  let w ← w.connUnregister c
  let w ← w.connDisarmArmed c
  let w := w.setStatus c .failed
  let w ← w.appifConnOpened c false room
  pure (if w.active c then w.endOpen c ⟨false, w.ports (w.conn c).localPort = .unused⟩ else w)

def connArpDone : Except SlowFault SlowTcp :=
  (w.setConn c { w.conn c with status := .synSent, toAttempts := 0 }).connTimeoutArm c .handshake

/-- The end of a successful `tcp_open`, and `kin_conn_open` after it. -/
def openDone (port : UInt16) : SlowTcp :=
  { w with
    ports := update w.ports port (.conn c)
    appConns := c :: w.appConns
    active := update w.active c true }

/-- The connection of `tcp_open` before the address is resolved. -/
def opening (localPort : UInt16) (ip : UInt32) (port : UInt16) : SlowTcp :=
  w.setConn c { w.conn c with
    status := .arpPending
    remoteIp := ip
    remotePort := port
    localPort := localPort
    compFailed := false }

/-- `tcp_open` for the connection `c` and its local port. -/
def openWith (localPort : UInt16) (r : Resolve) (ip : UInt32)
    (port : UInt16) : Except SlowFault SlowTcp := do
  let w := w.opening c localPort ip port
  match r with
  | .failed => pure ((w.connFree c).endOpen c ⟨true, w.ports localPort = .unused⟩)
  | .done =>
    let w ← (w.connRegister c).connArpDone c
    pure (w.openDone c localPort)
  | .pending =>
    let w := { w with arpWait := c :: w.arpWait }
    pure ((w.connRegister c).openDone c localPort)

/-- `tcp_open` when `conn_alloc` fails; no port was taken. -/
def openAllocFails (alloc : AllocResult) : SlowTcp :=
  if alloc = .noMemory then w
  else
    let w := w.connAllocFails alloc
    w.endOpen w.size ⟨true, true⟩

/-- `tcp_open` as `kin_conn_open` calls it. -/
def tcpOpen (alloc : AllocResult) (r : Resolve) (ip : UInt32) (port : UInt16) :
    Except SlowFault SlowTcp := do
  if alloc ≠ .ok then
    pure (w.openAllocFails alloc)
  else
    let w := w.connAlloc
    let (w, localPort) ← w.portAlloc
    if localPort = 0 then
      pure ((w.connFree w.size).endOpen w.size ⟨true, true⟩)
    else
      w.openWith w.size localPort r ip port

def tcpListen (port : UInt16) (backlog : ℕ) (reuseport : Bool) : SlowTcp :=
  let l := w.numListeners
  let w' := { w with numListeners := l + 1 }.setListener l ⟨port, [], [], backlog⟩
  match w.ports port, reuseport with
  | .unused, false => { w' with ports := update w.ports port (.listen l) }
  | .unused, true => { w' with ports := update w.ports port (.lmulti [l]) }
  | .lmulti ls, true =>
    if ls.length = 32 then w
    else { w' with ports := update w.ports port (.lmulti (ls ++ [l])) }
  | _, _ => w

/-- `listener_accept` up to `nicif_connection_add`: `c` takes the addresses and joins the list of
congestion control. -/
def acceptInit (s : Syn) (port : UInt16) : SlowTcp :=
  let w := w.setConn c { w.conn c with
    remoteIp := s.remoteIp
    remotePort := s.remotePort
    localPort := port }
  let w := w.ccConnInit c
  w.setConn c { w.conn c with status := .regSynack, compFailed := false }

/-- The rest of a successful `listener_accept`. -/
def acceptDone (l c : ℕ) (rest : List ℕ) : SlowTcp :=
  let w := w.setListener l { w.listeners l with waitConns := rest }
  let w := w.connRegister c
  { w with asyncQ := w.asyncQ ++ [c] }

/-- `listener_accept`. When `nicif_connection_add` fails, the connection stays in both lists. -/
def listenerAccept (l : ℕ) (env : SlowEnv) : Except SlowFault SlowTcp :=
  match (w.listeners l).waitConns, (w.listeners l).backlog with
  | c :: rest, s :: backlog =>
    let port := (w.listeners l).port
    let w := w.setListener l { w.listeners l with backlog := backlog }
    if ¬ s.optsOk then .ok w
    else if ¬ env.addOk then .ok (w.acceptInit c s port)
    else .ok ((w.acceptInit c s port).acceptDone l c rest)
  | _, _ => .error .assertFailed

/-- The new connection `c` of `tcp_accept` waits at the listener. -/
def acceptWait (l c : ℕ) : SlowTcp :=
  let w := w.setConn c { w.conn c with
    status := .synWait
    localPort := (w.listeners l).port }
  w.setListener l { w.listeners l with waitConns := c :: (w.listeners l).waitConns }

/-- `tcp_accept` as `kin_accept_conn` calls it. -/
def tcpAccept (l : ℕ) (alloc : AllocResult) (env : SlowEnv) : Except SlowFault SlowTcp :=
  if alloc ≠ .ok then .ok (w.connAllocFails alloc)
  else
    let w := w.connAlloc
    let w := w.acceptWait l w.size
    if (w.listeners l).backlog = [] then .ok w else w.listenerAccept l env

def tcpFin : UInt16 := 0x01
def tcpSyn : UInt16 := 0x02
def tcpAck : UInt16 := 0x10
/-- `TCP_ECE | TCP_CWR`. -/
def tcpEcn : UInt16 := 0xC0

/-- `conn_lookup`. The hash chains are one list here, with matching connections in the same order.
-/
def connLookup (p : SlowPkt) : Option ℕ :=
  w.table.find? fun c =>
    (w.conn c).remoteIp = p.remoteIp ∧ (w.conn c).localPort = p.localPort ∧
      (w.conn c).remotePort = p.remotePort

def hash64To32 (key : UInt64) : UInt32 :=
  let key := (~~~ key) + (key <<< 18)
  let key := key ^^^ (key >>> 31)
  let key := key * 21
  let key := key ^^^ (key >>> 11)
  let key := key + (key <<< 6)
  (key ^^^ (key >>> 22)).toUInt32

def listenerLookup (p : SlowPkt) : Option ℕ :=
  match w.ports p.localPort with
  | .listen l => some l
  | .lmulti ls =>
    let hash := hash64To32 ((p.remoteIp.toUInt64 <<< 32) |||
      (p.remotePort.toUInt32 <<< 16).toUInt64 ||| p.localPort.toUInt64)
    ls[hash.toNat % ls.length]?
  | _ => none

def listenerPacket (l : ℕ) (p : SlowPkt) (env : SlowEnv) : Except SlowFault SlowTcp :=
  let x := w.listeners l
  if p.flags &&& ~~~ tcpEcn ≠ tcpSyn ∨ ¬ p.short then .ok w
  else if x.backlog.any fun s => s.remoteIp = p.remoteIp ∧ s.remotePort = p.remotePort then .ok w
  else if x.backlogLen = x.backlog.length then .ok w
  else
    let w := w.setListener l { x with
      backlog := x.backlog ++ [⟨p.remoteIp, p.remotePort, p.copyOk⟩] }
    if x.waitConns = [] then .ok w else w.listenerAccept l env

/-- `conn_syn_sent_packet`, with `false` for the return value `-1`. -/
def connSynSentPacket (p : SlowPkt) (env : SlowEnv) : Except SlowFault (SlowTcp × Bool) := do
  let w ← w.connTimeoutDisarm c
  if p.flags &&& (tcpSyn ||| tcpAck) ≠ tcpSyn ||| tcpAck ∨ ¬ p.hasTs then
    pure (w, false)
  else
    let w := w.ccConnInit c
    let w := w.setConn c { w.conn c with compFailed := false }
    if ¬ env.addOk then
      pure (w, false)
    else
      let w ← (w.setStatus c .opened).appifConnOpened c true env.room
      pure (w, true)

/-- `conn_packet`. The packets that only cause an answer leave the state alone. -/
def connPacket (p : SlowPkt) (env : SlowEnv) : Except SlowFault SlowTcp := do
  if (w.conn c).status = .synSent then
    let (w, ok) ← w.connSynSentPacket c p env
    if ok then pure w else w.connFailed c env.room
  else if (w.conn c).status = .opened ∧ p.flags = tcpSyn ∧ ¬ p.hasTs then
    w.connFailed c env.room
  else
    pure w

def tcpPacket (p : SlowPkt) (env : SlowEnv) : Except SlowFault SlowTcp :=
  if ¬ p.valid then .ok w
  else
    match w.connLookup p with
    | some c => w.connPacket c p env
    | none =>
      match w.listenerLookup p with
      | some l => w.listenerPacket l p env
      | none => .ok w

/-- The resolution of an address that the connection `c` waits for is over. -/
def arpDone (ok : Bool) : SlowTcp :=
  if c ∈ w.arpWait then
    { w.setConn c { w.conn c with compFailed := !ok } with
      arpWait := w.arpWait.erase c
      asyncQ := w.asyncQ ++ [c] }
  else w

/-- One round of the loop of `tcp_poll`. -/
def tcpPoll (env : SlowEnv) : Except SlowFault SlowTcp :=
  match w.asyncQ with
  | [] => .ok w
  | c :: q =>
    let w := { w with asyncQ := q }
    match (w.conn c).status with
    | .arpPending =>
      if (w.conn c).compFailed then w.connFailed c env.room else w.connArpDone c
    | .regSynack =>
      if (w.conn c).compFailed then w.connFailed c env.room
      else .ok ((w.setStatus c .opened).appifAcceptConn c env.room)
    | _ => .ok w

/-- `conn_close_timeout` gives a port back that belongs to a connection. -/
def freePort (port : UInt16) : SlowTcp :=
  match w.ports port with
  | .conn _ => { w with ports := update w.ports port .unused }
  | _ => w

def connCloseTimeout (env : SlowEnv) : Except SlowFault SlowTcp := do
  let w ← (w.freePort (w.conn c).localPort).connUnregister c
  let w ← (w.freeBuffers c).appifConnClosed c env.room
  pure (w.freeConn c)

/-- The timeout manager takes out a timeout before it calls `tcp_timeout`. -/
def timerFired (ty : TimeoutType) : SlowTcp :=
  { w.setConn c { w.conn c with toArmed := false } with timers := w.timers.erase (c, ty) }

def countAttempt : SlowTcp :=
  w.setConn c { w.conn c with toAttempts := (w.conn c).toAttempts + 1 }

/-- `tcp_timeout`, with `config.tcp_handshake_retries`. -/
def tcpTimeout (retries : ℕ) (w : SlowTcp) (c : ℕ) (ty : TimeoutType) (env : SlowEnv) :
    Except SlowFault SlowTcp :=
  if (c, ty) ∈ w.timers then
    if (w.conn c).toArmed then
      let w := w.timerFired c ty
      match ty with
      | .closed => w.connCloseTimeout c env
      | .handshake =>
        if (w.conn c).status ≠ .synSent then .error .aborted
        else
          let w := w.countAttempt c
          if (w.conn c).toAttempts > retries then w.connFailed c env.room
          else w.connTimeoutArm c .handshake
    else .error .assertFailed
  else .ok w

def tcpClose : Except SlowFault SlowTcp := do
  if (w.conn c).status ≠ .opened then
    pure w
  else
    let w ← w.ccConnRemove c
    (w.setStatus c .closed).connTimeoutArm c .closed

/-- The loop of `cc_poll` from `c` on, for at most `fuel` connections, and where it stops. -/
def ccLoop (w : SlowTcp) (first : ℕ) : ℕ → Bool → ℕ → Except SlowFault ℕ
  | 0, _, c => .ok c
  | fuel + 1, started, c =>
    if started ∧ c = first then .ok c
    else if c = 0 ∨ w.freed c ≠ 0 then .error .useAfterFree
    else w.ccLoop first fuel true (if w.next c ≠ 0 then w.next c else w.ccConns)

/-- The connection where `cc_poll` starts. -/
def ccFirst : ℕ := if w.nextConn ≠ 0 then w.nextConn else w.ccConns

def ccPoll : Except SlowFault SlowTcp := do
  if w.ccFirst = 0 then
    pure w
  else
    let c ← w.ccLoop w.ccFirst 128 false w.ccFirst
    pure { w with nextConn := c }

end SlowTcp

inductive SlowOp where
  | openConn (alloc : AllocResult) (r : Resolve) (ip : UInt32) (port : UInt16)
  | listen (port : UInt16) (backlog : ℕ) (reuseport : Bool)
  | accept (l : ℕ) (alloc : AllocResult) (env : SlowEnv)
  | packet (p : SlowPkt) (env : SlowEnv)
  | arp (c : ℕ) (ok : Bool)
  | poll (env : SlowEnv)
  | timeout (c : ℕ) (ty : TimeoutType) (env : SlowEnv)
  | close (c : ℕ)
  | ccPoll

namespace SlowTcp

def exec (retries : ℕ) (w : SlowTcp) : SlowOp → Except SlowFault SlowTcp
  | .openConn alloc r ip port => w.tcpOpen alloc r ip port
  | .listen port backlog reuseport => .ok (w.tcpListen port backlog reuseport)
  | .accept l alloc env => w.tcpAccept l alloc env
  | .packet p env => w.tcpPacket p env
  | .arp c ok => .ok (w.arpDone c ok)
  | .poll env => w.tcpPoll env
  | .timeout c ty env => w.tcpTimeout retries c ty env
  | .close c => w.tcpClose c
  | .ccPoll => w.ccPoll

/-- One call; nothing happens after a fault. -/
def step (retries : ℕ) (w : SlowTcp) (op : SlowOp) : SlowTcp :=
  if w.fault ≠ none then w
  else
    match w.exec retries op with
    | .ok w' => w'
    | .error f => { w with fault := some f }

/-- The connection is allocated and not freed. -/
def Live (w : SlowTcp) (c : ℕ) : Prop := c ≠ 0 ∧ c ≤ w.size ∧ w.freed c = 0
deriving Decidable

/-- An accept names a listener, and the application closes connections that it
has. -/
def Ok (w : SlowTcp) : SlowOp → Prop
  | .accept l _ _ => l < w.numListeners
  | .close c => c ∈ w.appConns ∧ w.Live c
  | _ => True

instance (w : SlowTcp) : DecidablePred w.Ok := fun op => by
  cases op <;> dsimp only [Ok] <;> infer_instance

end SlowTcp

end StackBench.Tas

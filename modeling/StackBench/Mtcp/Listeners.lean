import StackBench.Mtcp.AddrPool
import StackBench.Mtcp.SenderLists
import StackBench.Mtcp.TcpIn

/-!
# Listeners and passive opens in mTCP

The table of listeners, `mtcp_listen`, `mtcp_accept`, `mtcp_close` and the part
of `ProcessTCPPacket` that opens connections. The listener is looked up when
the SYN arrives, and once more when the handshake is complete.

Listeners are numbered in the order of `calloc`. What happens to a stream after
the handshake, and when it is destroyed, is arbitrary.
-/

namespace StackBench.Mtcp

open Function List

/-- `enum socket_type`, as far as streams and listeners are concerned. -/
inductive EndType where
  | unused
  | stream
  | listener
deriving DecidableEq

/-- The part of `struct socket_map` that opening and accepting use. -/
structure EndSocket where
  socktype : EndType
  /-- `MTCP_ADDR_BIND`. -/
  addrBind : Bool
  saddr : SockAddr
  stream : Option ℕ
  listener : Option ℕ

/-- `struct tcp_listener`. Its accept queue holds the ids of streams. -/
structure TcpListener where
  sockid : ℕ
  backlog : ℕ
  acceptq : List ℕ
  freed : Bool

structure OpenStream where
  id : ℕ
  state : ConnState
  saddr : SockAddr
  daddr : SockAddr
  /-- There is a socket. -/
  socket : Bool
  iss : UInt32
  irs : UInt32
  sndNxt : UInt32
  /-- The close reason is `TCP_NOT_ACCEPTED`. -/
  notAccepted : Bool
deriving DecidableEq

structure ListenConfig where
  maxConcurrency : ℕ
  eths : List UInt32

/-- What happens to a stream after its handshake. -/
inductive Later where
  | keep
  | goto (s : TcpState)
  | destroy

structure ConnectEnv where
  /-- The socket's own address leads to this core. -/
  rssOk : Bool
  /-- The address from the pool. -/
  fetched : Option SockAddr
  created : Bool
  iss : UInt32

structure PacketEnv where
  /-- `CreateTCPStream` succeeds. -/
  created : Bool
  iss : UInt32
  later : Later

inductive ListenFault where
  /-- Access through a listener that is `NULL`. -/
  | nullListener
  /-- A stream is put into the queue of a freed listener. -/
  | freedListener
deriving DecidableEq

structure ListenWorld where
  smap : ℕ → EndSocket
  heap : ℕ → TcpListener
  /-- How many listeners were allocated. -/
  allocated : ℕ
  /-- The bins of `mtcp->listeners`. -/
  table : UInt16 → List ℕ
  /-- The streams of the flow table, in the order of their insertion. -/
  flows : List OpenStream
  /-- `g_id`. -/
  nextId : ℕ
  fault : Option ListenFault

/-- The state after the handshake among all states. -/
def TcpState.toConn : TcpState → ConnState
  | .closed => .closed
  | .established => .established
  | .finWait1 => .finWait1
  | .finWait2 => .finWait2
  | .closeWait => .closeWait
  | .closing => .closing
  | .lastAck => .lastAck
  | .timeWait => .timeWait

/-- `HashListener`: the bin of a port, with `NUM_BINS_LISTENERS` being 1024. -/
def hashListener (port : UInt16) : UInt16 := port &&& (1024 - 1)

namespace ListenWorld

def start : ListenWorld where
  smap _ := ⟨.unused, false, ⟨0, 0⟩, none, none⟩
  heap _ := ⟨0, 0, [], false⟩
  allocated := 0
  table _ := []
  flows := []
  nextId := 0
  fault := none

variable (w : ListenWorld)

def setSocket (sockid : ℕ) (s : EndSocket) : ListenWorld :=
  { w with smap := update w.smap sockid s }

def setListener (l : ℕ) (x : TcpListener) : ListenWorld :=
  { w with heap := update w.heap l x }

def setStream (st : OpenStream) : ListenWorld :=
  { w with flows := w.flows.map fun x => if x.id = st.id then st else x }

def destroyTCPStream (id : ℕ) : ListenWorld :=
  { w with flows := w.flows.filter (·.id != id) }

/-- `listener->socket->saddr.sin_port`. -/
def portOf (l : ℕ) : UInt16 := (w.smap (w.heap l).sockid).saddr.port

def listenerHTInsert (l : ℕ) : ListenWorld :=
  let bin := hashListener (w.portOf l)
  { w with table := update w.table bin (w.table bin ++ [l]) }

def listenerHTSearch (port : UInt16) : Option ℕ :=
  (w.table (hashListener port)).find? fun l => w.portOf l == port

def streamHTSearch (saddr daddr : SockAddr) : Option OpenStream :=
  w.flows.find? fun st => st.saddr == saddr && st.daddr == daddr

/-- `CreateTCPStream`: the new stream is in the state LISTEN. -/
def createTCPStream (socket : Bool) (saddr daddr : SockAddr) (iss : UInt32) :
    ListenWorld × OpenStream :=
  let st : OpenStream := ⟨w.nextId, .listen, saddr, daddr, socket, iss, 0, iss, false⟩
  ({ w with flows := w.flows ++ [st], nextId := w.nextId + 1 }, st)

variable (cfg : ListenConfig)

/-- `AllocateSocket`, which returns `sockid`. -/
def allocateSocket (w : ListenWorld) (sockid : ℕ) : Option ListenWorld :=
  if sockid < cfg.maxConcurrency ∧ (w.smap sockid).socktype = .unused then
    some (w.setSocket sockid
      { w.smap sockid with
        socktype := .stream, addrBind := false, stream := none, saddr := ⟨0, 0⟩ })
  else none

def freeSocket (sockid : ℕ) : ListenWorld :=
  w.setSocket sockid { w.smap sockid with socktype := .unused, stream := none }

def bind (w : ListenWorld) (sockid : ℕ) (a : SockAddr) : ListenWorld :=
  let s := w.smap sockid
  if cfg.maxConcurrency ≤ sockid ∨ s.socktype = .unused ∨ s.addrBind then w
  else w.setSocket sockid { s with saddr := a, addrBind := true }

/-- `mtcp_listen`; `mem` tells whether the listener and its queue can be
allocated. -/
def listen (w : ListenWorld) (sockid : ℕ) (backlog : ℤ) (mem : Bool) : ListenWorld :=
  if cfg.maxConcurrency ≤ sockid ∨ (w.smap sockid).socktype = .unused then w
  else
    let w := w.setSocket sockid { w.smap sockid with socktype := .listener }
    if backlog ≤ 0 ∨ cfg.maxConcurrency < backlog then w
    else if (w.listenerHTSearch (w.smap sockid).saddr.port).isSome then w
    else if !mem then w
    else
      let l := w.allocated
      let w := { w.setListener l ⟨sockid, backlog.toNat, [], false⟩ with allocated := l + 1 }
      let w := w.setSocket sockid { w.smap sockid with listener := some l }
      w.listenerHTInsert l

/-- `mtcp_accept`; `sock` is what `AllocateSocket` returns. An empty queue leaves the call waiting.
-/
def accept (w : ListenWorld) (sockid sock : ℕ) : ListenWorld :=
  if cfg.maxConcurrency ≤ sockid ∨ (w.smap sockid).socktype ≠ .listener then w
  else match (w.smap sockid).listener with
    | none => { w with fault := some .nullListener }
    | some l =>
      match (w.heap l).acceptq with
      | [] => w
      | id :: rest =>
        let w := w.setListener l { w.heap l with acceptq := rest }
        match w.flows.find? (·.id == id) with
        | none => w
        | some st =>
          if st.socket then w
          else match w.allocateSocket cfg sock with
            | none => w
            | some w =>
              (w.setSocket sock
                { w.smap sock with stream := some id, saddr := st.daddr }).setStream
                { st with socket := true }

/-- The stream of `mtcp_connect`. -/
def connectStream (sockid : ℕ) (dst : SockAddr) (env : ConnectEnv) : ListenWorld :=
  if env.created then
    let s := w.smap sockid
    let (w, st) := w.createTCPStream true s.saddr dst env.iss
    (w.setSocket sockid { s with stream := some st.id }).setStream { st with state := .synSent }
  else w

def connect (w : ListenWorld) (sockid : ℕ) (dst : SockAddr) (env : ConnectEnv) : ListenWorld :=
  let s := w.smap sockid
  if cfg.maxConcurrency ≤ sockid ∨ s.socktype ≠ .stream ∨ s.stream.isSome then w
  else if s.addrBind && s.saddr.port != 0 && s.saddr.ip != 0 then
    if env.rssOk then w.connectStream sockid dst env else w
  else match env.fetched with
    | none => w
    | some a =>
      (w.setSocket sockid { s with saddr := a, addrBind := true }).connectStream sockid dst env

def closeListeningSocket (sockid : ℕ) : ListenWorld :=
  match (w.smap sockid).listener with
  | none => w
  | some l =>
    (w.setListener l { w.heap l with acceptq := [], freed := true }).setSocket sockid
      { w.smap sockid with listener := none }

/-- The effect of `CloseStreamSocket` at once: the stream has no socket. -/
def closeStreamSocket (sockid : ℕ) : ListenWorld :=
  match (w.smap sockid).stream with
  | none => w
  | some id =>
    match w.flows.find? (·.id == id) with
    | none => w
    | some st => w.setStream { st with socket := false }

def close (w : ListenWorld) (sockid : ℕ) : ListenWorld :=
  if cfg.maxConcurrency ≤ sockid then w
  else match (w.smap sockid).socktype with
    | .unused => w
    | .stream => (w.closeStreamSocket sockid).freeSocket sockid
    | .listener => (w.closeListeningSocket sockid).freeSocket sockid

def filterSYNPacket (w : ListenWorld) (dst : SockAddr) : Bool :=
  match w.listenerHTSearch dst.port with
  | none => false
  | some l =>
    let addr := (w.smap (w.heap l).sockid).saddr
    if addr.port = dst.port then
      if addr.ip ≠ 0 then dst.ip == addr.ip else cfg.eths.contains dst.ip
    else false

/-- What follows the handshake. -/
def after (st : OpenStream) : Later → ListenWorld
  | .keep => w
  | .goto s => w.setStream { st with state := s.toConn }
  | .destroy => w.destroyTCPStream st.id

/-- `ProcessRST`, for a stream whose state is beyond SYN_SENT. -/
def processRST (st : OpenStream) (ackSeq : UInt32) (env : PacketEnv) : ListenWorld :=
  if st.state = .synRcvd then
    if ackSeq = st.sndNxt then w.destroyTCPStream st.id else w
  else w.after st env.later

def handleListen (st : OpenStream) (pkt : Packet) : ListenWorld :=
  if pkt.syn then w.setStream { st with state := .synRcvd } else w

def handleSynSent (st : OpenStream) (pkt : Packet) : ListenWorld :=
  if pkt.ack && (tcpSeqLeq pkt.ackSeq st.iss || tcpSeqGt pkt.ackSeq st.sndNxt) then w
  else if pkt.rst then
    if pkt.ack then
      if st.socket then w.setStream { st with state := .closeWait } else w.destroyTCPStream st.id
    else w
  else if pkt.syn then
    if pkt.ack then
      -- `HandleActiveOpen` always succeeds
      if st.socket then
        w.setStream { st with state := .established, irs := pkt.seq, sndNxt := pkt.ackSeq }
      else w.destroyTCPStream st.id
    else w.setStream { st with state := .synRcvd, sndNxt := st.iss }
  else w

/-- The end of the handshake in `Handle_TCP_ST_SYN_RCVD`: the stream is queued, or closed if the
queue is full. -/
def enqueueAccept (st : OpenStream) (port : UInt16) : ListenWorld :=
  match w.listenerHTSearch port with
  | none => { w with fault := some .nullListener }
  | some l =>
    let x := w.heap l
    if x.freed then { w with fault := some .freedListener }
    else if x.acceptq.length < x.backlog then
      (w.setListener l { x with acceptq := x.acceptq ++ [st.id] }).setStream st
    else w.setStream { st with state := .closed, notAccepted := true }

/-- `Handle_TCP_ST_SYN_RCVD`, and `Handle_TCP_ST_ESTABLISHED` after it if the
segment has data. -/
def handleSynRcvd (st : OpenStream) (port : UInt16) (pkt : Packet)
    (env : PacketEnv) : ListenWorld :=
  if pkt.ack then
    if pkt.ackSeq ≠ st.iss + 1 then w
    else
      let w := w.enqueueAccept { st with state := .established, sndNxt := pkt.ackSeq } port
      match w.flows.find? (·.id == st.id) with
      | some st => if st.state = .established ∧ pkt.payload ≠ [] then w.after st env.later else w
      | none => w
  else w.setStream { st with sndNxt := st.iss }

/-- The segment reaches its stream. The port is the one of the segment. -/
def dispatch (st : OpenStream) (port : UInt16) (pkt : Packet) (env : PacketEnv) : ListenWorld :=
  match st.state with
  | .closed => w
  | .listen => w.handleListen st pkt
  | .synSent => w.handleSynSent st pkt
  | .synRcvd =>
    if pkt.rst then w.processRST st pkt.ackSeq env
    else if pkt.syn && pkt.seq == st.irs then w.handleListen st pkt
    else w.handleSynRcvd st port pkt env
  | _ => if pkt.rst then w.processRST st pkt.ackSeq env else w.after st env.later

/-- `ProcessTCPPacket` for a segment, with `CreateNewFlowHTEntry` and `HandlePassiveOpen`. -/
def processTCPPacket (w : ListenWorld) (src dst : SockAddr) (pkt : Packet)
    (env : PacketEnv) : ListenWorld :=
  match w.streamHTSearch dst src with
  | some st => w.dispatch st dst.port pkt env
  | none =>
    if pkt.syn && !pkt.ack && w.filterSYNPacket cfg dst && env.created then
      let (w, st) := w.createTCPStream false dst src env.iss
      let st := { st with irs := pkt.seq }
      (w.setStream st).dispatch st dst.port pkt env
    else w

end ListenWorld

inductive ListenOp where
  /-- `mtcp_socket` returns `sockid`, or fails if the socket is used. -/
  | socket (sockid : ℕ)
  | bind (sockid : ℕ) (a : SockAddr)
  | listen (sockid : ℕ) (backlog : ℤ) (mem : Bool)
  | accept (sockid sock : ℕ)
  | connect (sockid : ℕ) (dst : SockAddr) (env : ConnectEnv)
  | close (sockid : ℕ)
  | packet (src dst : SockAddr) (pkt : Packet) (env : PacketEnv)
  /-- A segment of the stream is sent, which changes `snd_nxt`. -/
  | sent (id : ℕ) (sndNxt : UInt32)
  /-- The application or a timer changes the state of an open stream. -/
  | advance (id : ℕ) (s : TcpState)
  /-- The application or a timer has the stream destroyed. -/
  | destroy (id : ℕ)

/-- The handshake is not complete. -/
def OpenStream.Opening (st : OpenStream) : Prop :=
  st.state = .listen ∨ st.state = .synSent ∨ st.state = .synRcvd
deriving Decidable

namespace ListenWorld

variable (w : ListenWorld)

/-- An open stream changes its state. -/
def advance (id : ℕ) (s : TcpState) : ListenWorld :=
  match w.flows.find? (·.id == id) with
  | none => w
  | some st => if st.Opening then w else w.after st (.goto s)

def sent (id : ℕ) (sndNxt : UInt32) : ListenWorld :=
  match w.flows.find? (·.id == id) with
  | none => w
  | some st => w.setStream { st with sndNxt }

def step (cfg : ListenConfig) (w : ListenWorld) (op : ListenOp) : ListenWorld :=
  if w.fault.isSome then w
  else match op with
    | .socket sockid => (w.allocateSocket cfg sockid).getD w
    | .bind sockid a => w.bind cfg sockid a
    | .listen sockid backlog mem => w.listen cfg sockid backlog mem
    | .accept sockid sock => w.accept cfg sockid sock
    | .connect sockid dst env => w.connect cfg sockid dst env
    | .close sockid => w.close cfg sockid
    | .packet src dst pkt env => w.processTCPPacket cfg src dst pkt env
    | .sent id sndNxt => w.sent id sndNxt
    | .advance id s => w.advance id s
    | .destroy id => w.destroyTCPStream id

/-- `Handle_TCP_ST_SYN_RCVD` completes the handshake of `st` with this segment. -/
structure Completes (st : OpenStream) (pkt : Packet) : Prop where
  state : st.state = .synRcvd
  rst : pkt.rst = false
  notSyn : ¬(pkt.syn = true ∧ pkt.seq = st.irs)
  ack : pkt.ack = true
  ackSeq : pkt.ackSeq = st.iss + 1

def Live (l : ℕ) : Prop := l < w.allocated ∧ (w.heap l).freed = false

/-- The stream `st` went into the queue of the listener `l`, or it is closed. -/
def Taken (w w' : ListenWorld) (l : ℕ) (st : OpenStream) : Prop :=
  (w'.heap l).acceptq = (w.heap l).acceptq ++ [st.id] ∨
    ∃ st' ∈ w'.flows, st'.id = st.id ∧ st'.state = .closed ∧ st'.notAccepted = true

/-- The table has live listeners only, and a completed handshake finds one of them, which takes the
stream or has it closed. -/
structure Served (cfg : ListenConfig) (w : ListenWorld) : Prop where
  table : ∀ bin, ∀ l ∈ w.table bin, w.Live l
  completes : ∀ src dst pkt env st, w.streamHTSearch dst src = some st → Completes st pkt →
    ∃ l, w.listenerHTSearch dst.port = some l ∧ w.Live l ∧
      w.Taken (w.processTCPPacket cfg src dst pkt env) l st

def Listens (port : UInt16) : Prop := ∃ l < w.allocated, w.portOf l = port

instance (w : ListenWorld) (port : UInt16) : Decidable (w.Listens port) :=
  decidable_of_iff (∃ l ∈ List.range w.allocated, w.portOf l = port)
    (by simp [Listens])

/-- No socket is bound or closed while it is listening, and a bare SYN answers an active open on a
port with a listener only. -/
def Ok : ListenOp → Prop
  | .bind sockid _ => (w.smap sockid).socktype ≠ .listener
  | .close sockid => (w.smap sockid).socktype = .listener → (w.smap sockid).listener = none
  | .packet src dst pkt _ => ∀ st, w.streamHTSearch dst src = some st → st.state = .synSent →
      pkt.syn = true → pkt.ack = false → w.Listens dst.port
  | _ => True

instance (w : ListenWorld) : DecidablePred w.Ok := fun op => by
  cases op <;> dsimp only [Ok] <;> infer_instance

/-- The stream is on the way to a handshake that looks for a listener. -/
def Awaits (st : OpenStream) : Prop := st.state = .listen ∨ st.state = .synRcvd

structure Inv (w : ListenWorld) : Prop where
  hashed : ∀ l < w.allocated, l ∈ w.table (hashListener (w.portOf l))
  known : ∀ bin, ∀ l ∈ w.table bin, l < w.allocated
  kept : ∀ l < w.allocated, (w.heap l).freed = false
  owner : ∀ l < w.allocated, (w.smap (w.heap l).sockid).socktype = .listener ∧
    (w.smap (w.heap l).sockid).listener = some l
  awaits : ∀ st ∈ w.flows, Awaits st → w.Listens st.saddr.port

/-- The listeners are the same, and so are the sockets that have one. -/
structure SameListeners (w w' : ListenWorld) : Prop where
  allocated : w'.allocated = w.allocated
  table : w'.table = w.table
  sockid : ∀ l, (w'.heap l).sockid = (w.heap l).sockid
  freed : ∀ l, (w'.heap l).freed = (w.heap l).freed
  smap : ∀ sockid l, (w.smap sockid).socktype = .listener →
    (w.smap sockid).listener = some l → w'.smap sockid = w.smap sockid

variable {cfg : ListenConfig} {w w' : ListenWorld} {st : OpenStream} {pkt : Packet}

variable {sockid l : ℕ} {port : UInt16}

section

variable (hs : SameListeners w w') (h : w.Inv)
include hs h

theorem SameListeners.smap_owner (hl : l < w.allocated) :
    w'.smap (w'.heap l).sockid = w.smap (w.heap l).sockid := by
  rw [hs.sockid]
  exact hs.smap _ l (h.owner l hl).1 (h.owner l hl).2

theorem SameListeners.portOf_eq (hl : l < w.allocated) : w'.portOf l = w.portOf l := by
  unfold portOf
  rw [hs.smap_owner h hl]

theorem SameListeners.listens (hp : w.Listens port) : w'.Listens port := by
  obtain ⟨l, hl, rfl⟩ := hp
  exact ⟨l, hs.allocated ▸ hl, hs.portOf_eq h hl⟩

end

theorem Inv.of_same (h : w.Inv) (hs : SameListeners w w')
    (hflows : ∀ st ∈ w'.flows, Awaits st → w.Listens st.saddr.port) : w'.Inv where
  hashed l hl := by
    rw [hs.allocated] at hl
    rw [hs.table, hs.portOf_eq h hl]
    exact h.hashed l hl
  known bin l hl := by
    rw [hs.table] at hl
    rw [hs.allocated]
    exact h.known bin l hl
  kept l hl := by
    rw [hs.allocated] at hl
    rw [hs.freed]
    exact h.kept l hl
  owner l hl := by
    rw [hs.allocated] at hl
    rw [hs.smap_owner h hl]
    exact h.owner l hl
  awaits st hst haw := hs.listens h (hflows st hst haw)

theorem inv_start : start.Inv where
  hashed _ hl := absurd hl (Nat.not_lt_zero _)
  known _ _ hl := nomatch hl
  kept _ hl := absurd hl (Nat.not_lt_zero _)
  owner _ hl := absurd hl (Nat.not_lt_zero _)
  awaits _ hst := nomatch hst

theorem mem_setStream {x : OpenStream} (hx : x ∈ (w.setStream st).flows) :
    x = st ∨ (x ∈ w.flows ∧ x.id ≠ st.id) := by
  obtain ⟨y, hy, rfl⟩ := mem_map.mp hx
  split
  · exact .inl rfl
  · exact .inr ⟨hy, ‹_›⟩

theorem mem_setStream_self {st' : OpenStream} (hst : st ∈ w.flows) (hid : st'.id = st.id) :
    st' ∈ (w.setStream st').flows :=
  mem_map.mpr ⟨st, hst, if_pos hid.symm⟩

theorem find?_setStream {x : OpenStream} {id : ℕ}
    (hx : (w.setStream st).flows.find? (·.id == id) = some x) (hid : st.id = id) : x = st := by
  have hxid : x.id = id := by simpa using find?_some hx
  rcases mem_setStream (mem_of_find?_eq_some hx) with rfl | ⟨-, hne⟩
  · rfl
  · exact absurd (hxid.trans hid.symm) hne

section

variable (h : w.Inv)
include h

theorem Inv.setStream (hst : Awaits st → w.Listens st.saddr.port) : (w.setStream st).Inv := by
  refine h.of_same ⟨rfl, rfl, fun _ => rfl, fun _ => rfl, fun _ _ _ _ => rfl⟩ fun x hx haw => ?_
  rcases mem_setStream hx with rfl | ⟨hx, -⟩
  · exact hst haw
  · exact h.awaits x hx haw

theorem Inv.updateStream {st' : OpenStream} (hst : st ∈ w.flows)
    (hport : st'.saddr = st.saddr) (haw : Awaits st' → Awaits st) : (w.setStream st').Inv :=
  h.setStream fun haw' => hport ▸ h.awaits st hst (haw haw')

theorem Inv.destroyTCPStream (id : ℕ) : (w.destroyTCPStream id).Inv :=
  h.of_same ⟨rfl, rfl, fun _ => rfl, fun _ => rfl, fun _ _ _ _ => rfl⟩ fun x hx =>
    h.awaits x (mem_filter.mp hx).1

omit h in
theorem sameListeners_setSocket {s : EndSocket}
    (hfree : ∀ l, (w.smap sockid).socktype = .listener → (w.smap sockid).listener = some l →
      s = w.smap sockid) : SameListeners w (w.setSocket sockid s) where
  allocated := rfl
  table := rfl
  sockid _ := rfl
  freed _ := rfl
  smap i l ht hl := by
    by_cases hi : i = sockid
    · subst hi
      exact (update_self ..).trans (hfree l ht hl)
    · exact update_of_ne hi ..

theorem Inv.setSocket {s : EndSocket}
    (hfree : ∀ l, (w.smap sockid).socktype = .listener → (w.smap sockid).listener = some l →
      s = w.smap sockid) : (w.setSocket sockid s).Inv :=
  h.of_same (sameListeners_setSocket hfree) h.awaits

omit h in
theorem sameListeners_setQueue (w : ListenWorld) (l : ℕ) (q : List ℕ) :
    SameListeners w (w.setListener l { w.heap l with acceptq := q }) where
  allocated := rfl
  table := rfl
  sockid k := by
    simp only [setListener, update_apply]
    split <;> simp_all
  freed k := by
    simp only [setListener, update_apply]
    split <;> simp_all
  smap _ _ _ _ := rfl

theorem Inv.setQueue (l : ℕ) (q : List ℕ) : (w.setListener l { w.heap l with acceptq := q }).Inv :=
  h.of_same (sameListeners_setQueue w l q) h.awaits

theorem Inv.found (hl : w.listenerHTSearch port = some l) : l < w.allocated ∧ w.portOf l = port :=
  ⟨h.known _ l (mem_of_find?_eq_some hl), by simpa using find?_some hl⟩

theorem Inv.search (hp : w.Listens port) : ∃ l, w.listenerHTSearch port = some l ∧ w.Live l := by
  obtain ⟨k, hk, rfl⟩ := hp
  have hsome : (w.listenerHTSearch (w.portOf k)).isSome :=
    find?_isSome.mpr ⟨k, h.hashed k hk, beq_self_eq_true _⟩
  obtain ⟨l, hl⟩ := Option.isSome_iff_exists.mp hsome
  have hlt : l < w.allocated := (h.found hl).1
  exact ⟨l, hl, hlt, h.kept l hlt⟩

theorem Inv.listens_of_filter {dst : SockAddr}
    (hf : w.filterSYNPacket cfg dst = true) : w.Listens dst.port := by
  unfold filterSYNPacket at hf
  cases hl : w.listenerHTSearch dst.port with
  | none => simp [hl] at hf
  | some l => exact ⟨l, h.found hl⟩

theorem Inv.allocateSocket (hw : w.allocateSocket cfg sockid = some w') : w'.Inv := by
  unfold ListenWorld.allocateSocket at hw
  split at hw
  case isTrue hc =>
    cases hw
    exact h.setSocket fun l ht => by simp [hc.2] at ht
  case isFalse => cases hw

omit h in
theorem allocateSocket_spec (hw : w.allocateSocket cfg sockid = some w') :
    w'.flows = w.flows ∧ (w'.smap sockid).socktype = .stream := by
  unfold ListenWorld.allocateSocket at hw
  split at hw
  · cases hw
    exact ⟨rfl, by simp [ListenWorld.setSocket]⟩
  · cases hw

theorem Inv.bind (a : SockAddr)
    (hok : (w.smap sockid).socktype ≠ .listener) : (w.bind cfg sockid a).Inv := by
  unfold ListenWorld.bind
  dsimp only
  split
  · exact h
  · exact h.setSocket fun l ht => absurd ht hok

theorem Inv.insert {backlog : ℕ} (ht : (w.smap sockid).socktype = .listener)
    (hport : w.listenerHTSearch (w.smap sockid).saddr.port = none) :
    (({ w.setListener w.allocated ⟨sockid, backlog, [], false⟩ with
        allocated := w.allocated + 1 }.setSocket sockid
          { w.smap sockid with listener := some w.allocated }).listenerHTInsert
            w.allocated).Inv := by
  have hother : ∀ l < w.allocated, (w.heap l).sockid ≠ sockid := by
    rintro l hl rfl
    obtain ⟨k, hk, -⟩ := h.search ⟨l, hl, rfl⟩
    exact Option.some_ne_none k (hk.symm.trans hport)
  have hheap : ∀ l < w.allocated,
      update w.heap w.allocated ⟨sockid, backlog, [], false⟩ l = w.heap l :=
    fun l hl => update_of_ne hl.ne ..
  have hsmap : ∀ l < w.allocated, update w.smap sockid
      { w.smap sockid with listener := some w.allocated } (w.heap l).sockid =
        w.smap (w.heap l).sockid :=
    fun l hl => update_of_ne (hother l hl) ..
  simp only [listenerHTInsert, ListenWorld.setSocket, setListener, portOf, update_self]
  constructor
  case hashed =>
    intro l hl
    rcases Nat.lt_succ_iff_lt_or_eq.mp hl with hl | rfl
    · have hin := h.hashed l hl
      simp only [portOf, hheap l hl, hsmap l hl] at hin ⊢
      rw [update_apply]
      split
      case isTrue hb => exact mem_append_left _ (hb ▸ hin)
      case isFalse => exact hin
    · simp [portOf]
  case known =>
    intro bin l hl
    dsimp only at hl ⊢
    rw [update_apply] at hl
    split at hl
    · rcases mem_append.mp hl with hl | hl
      · exact Nat.lt_succ_of_lt (h.known _ l hl)
      · exact mem_singleton.mp hl ▸ Nat.lt_succ_self _
    · exact Nat.lt_succ_of_lt (h.known bin l hl)
  case kept =>
    intro l hl
    rcases Nat.lt_succ_iff_lt_or_eq.mp hl with hl | rfl
    · simpa only [hheap l hl] using h.kept l hl
    · simp
  case owner =>
    intro l hl
    rcases Nat.lt_succ_iff_lt_or_eq.mp hl with hl | rfl
    · simpa only [hheap l hl, hsmap l hl] using h.owner l hl
    · simpa using ht
  case awaits =>
    intro st hst haw
    obtain ⟨l, hl, hpl⟩ := h.awaits st hst haw
    exact ⟨l, Nat.lt_succ_of_lt hl, by simpa only [portOf, hheap l hl, hsmap l hl] using hpl⟩

theorem Inv.listen (sockid : ℕ) (backlog : ℤ) (mem : Bool) :
    (w.listen cfg sockid backlog mem).Inv := by
  unfold ListenWorld.listen
  have hmark : (w.setSocket sockid { w.smap sockid with socktype := .listener }).Inv :=
    h.setSocket fun l ht _ => by rw [← ht]
  dsimp only
  split
  · exact h
  split
  · exact hmark
  split
  · exact hmark
  split
  · exact hmark
  case isFalse hsearch _ =>
    refine hmark.insert ?_ ?_
    · simp [ListenWorld.setSocket]
    · exact Option.not_isSome_iff_eq_none.mp hsearch

theorem Inv.accept (sockid sock : ℕ) : (w.accept cfg sockid sock).Inv := by
  unfold ListenWorld.accept
  split
  · exact h
  split
  · exact h.of_same ⟨rfl, rfl, fun _ => rfl, fun _ => rfl, fun _ _ _ _ => rfl⟩ h.awaits
  case h_2 l _ =>
    split
    · exact h
    case h_2 id rest _ =>
      have hpop : (w.setListener l { w.heap l with acceptq := rest }).Inv := h.setQueue l rest
      dsimp only
      split
      · exact hpop
      case h_2 st hst =>
        split
        · exact hpop
        split
        · exact hpop
        case h_2 w₁ hw₁ =>
          obtain ⟨hflows, ht⟩ := allocateSocket_spec hw₁
          have hmem : st ∈ w₁.flows := hflows ▸ mem_of_find?_eq_some hst
          refine Inv.updateStream ((hpop.allocateSocket hw₁).setSocket fun l hl => ?_) hmem rfl
            fun haw => haw
          simp [ht] at hl

theorem Inv.connectStream (dst : SockAddr) (env : ConnectEnv)
    (ht : (w.smap sockid).socktype = .stream) : (w.connectStream sockid dst env).Inv := by
  unfold ListenWorld.connectStream
  split
  · -- the state LISTEN of the new stream does not last
    have hs : SameListeners w (w.setSocket sockid
        { w.smap sockid with stream := some w.nextId }) :=
      sameListeners_setSocket fun l hl => by simp [ht] at hl
    refine h.of_same { hs with } fun x hx haw => ?_
    rcases mem_setStream hx with rfl | ⟨hx, hid⟩
    · rcases haw with haw | haw <;> cases haw
    · rcases mem_append.mp hx with hx | hx
      · exact h.awaits x hx haw
      · exact absurd (congrArg OpenStream.id (mem_singleton.mp hx)) hid
  · exact h

theorem Inv.connect (sockid : ℕ) (dst : SockAddr) (env : ConnectEnv) :
    (w.connect cfg sockid dst env).Inv := by
  unfold ListenWorld.connect
  dsimp only
  split
  · exact h
  case isFalse hc =>
    have ht : (w.smap sockid).socktype = .stream := by
      by_contra hne
      exact hc (.inr (.inl hne))
    split
    · split
      · exact h.connectStream dst env ht
      · exact h
    split
    · exact h
    case h_2 a _ =>
      refine (h.setSocket fun l hl => ?_).connectStream dst env ?_
      · simp [ht] at hl
      · simpa [ListenWorld.setSocket] using ht

theorem Inv.close (hok : (w.smap sockid).socktype = .listener → (w.smap sockid).listener = none) :
    (w.close cfg sockid).Inv := by
  unfold ListenWorld.close
  split
  · exact h
  split
  · exact h
  case h_2 ht =>
    have hstream : (w.closeStreamSocket sockid).Inv ∧
        (w.closeStreamSocket sockid).smap = w.smap := by
      unfold closeStreamSocket
      split
      · exact ⟨h, rfl⟩
      split
      · exact ⟨h, rfl⟩
      case h_2 st hst =>
        exact ⟨h.updateStream (mem_of_find?_eq_some hst) rfl id, rfl⟩
    refine hstream.1.setSocket fun l hl => ?_
    rw [hstream.2] at hl
    simp [ht] at hl
  case h_3 ht =>
    have hnone : (w.smap sockid).listener = none := hok ht
    have hsame : w.closeListeningSocket sockid = w := by simp [closeListeningSocket, hnone]
    rw [hsame]
    exact h.setSocket fun l _ hl => by simp [hnone] at hl

omit h in
theorem not_awaits_toConn (st : OpenStream) (s : TcpState) :
    ¬Awaits { st with state := s.toConn } := by
  cases s <;> simp [Awaits, TcpState.toConn]

theorem Inv.setOpen (hst : ¬Awaits st) : (w.setStream st).Inv :=
  h.setStream fun haw => absurd haw hst

theorem Inv.after (st : OpenStream) (later : Later) : (w.after st later).Inv := by
  cases later with
  | keep => exact h
  | goto s => exact h.setOpen (not_awaits_toConn st s)
  | destroy => exact h.destroyTCPStream st.id

omit h in
theorem after_heap (w : ListenWorld) (st : OpenStream) (later : Later) :
    (w.after st later).heap = w.heap := by
  cases later <;> rfl

theorem Inv.processRST (st : OpenStream) (ackSeq : UInt32) (env : PacketEnv) :
    (w.processRST st ackSeq env).Inv := by
  unfold ListenWorld.processRST
  split
  · split
    · exact h.destroyTCPStream st.id
    · exact h
  · exact h.after st env.later

theorem Inv.handleListen (hp : w.Listens st.saddr.port) : (w.handleListen st pkt).Inv := by
  unfold ListenWorld.handleListen
  split
  · exact h.setStream fun _ => hp
  · exact h

theorem Inv.handleSynSent (hp : pkt.syn = true → pkt.ack = false → w.Listens st.saddr.port) :
    (w.handleSynSent st pkt).Inv := by
  unfold ListenWorld.handleSynSent
  split
  · exact h
  split
  · split
    · split
      · exact h.setOpen (by simp [Awaits])
      · exact h.destroyTCPStream st.id
    · exact h
  split
  case isTrue hsyn =>
    split
    · split
      · exact h.setOpen (by simp [Awaits])
      · exact h.destroyTCPStream st.id
    case isFalse hack => exact h.setStream fun _ => hp hsyn (by simpa using hack)
  · exact h

omit h in
theorem enqueueAccept_live (hl : w.listenerHTSearch port = some l)
    (hlive : w.Live l) : w.enqueueAccept st port =
      if (w.heap l).acceptq.length < (w.heap l).backlog then
        (w.setListener l { w.heap l with acceptq := (w.heap l).acceptq ++ [st.id] }).setStream st
      else w.setStream { st with state := .closed, notAccepted := true } := by
  unfold enqueueAccept
  rw [hl]
  exact if_neg (by simp [hlive.2])

theorem Inv.enqueueAccept (hp : w.Listens port)
    (hst : ¬Awaits st) : (w.enqueueAccept st port).Inv := by
  obtain ⟨l, hl, hlive⟩ := h.search hp
  rw [enqueueAccept_live hl hlive]
  split
  · exact (h.setQueue l _).setOpen hst
  · exact h.setOpen (by simp [Awaits])

theorem Inv.handleSynRcvd (hp : w.Listens st.saddr.port) (env : PacketEnv) :
    (w.handleSynRcvd st st.saddr.port pkt env).Inv := by
  unfold ListenWorld.handleSynRcvd
  split
  · split
    · exact h
    · have hacc : (w.enqueueAccept { st with state := .established, sndNxt := pkt.ackSeq }
          st.saddr.port).Inv := h.enqueueAccept hp (by simp [Awaits])
      dsimp only
      split
      · split
        · exact hacc.after _ env.later
        · exact hacc
      · exact hacc
  · exact h.setStream fun _ => hp

theorem Inv.dispatch (env : PacketEnv) (hst : Awaits st → w.Listens st.saddr.port)
    (hsyn : st.state = .synSent → pkt.syn = true → pkt.ack = false → w.Listens st.saddr.port) :
    (w.dispatch st st.saddr.port pkt env).Inv := by
  unfold ListenWorld.dispatch
  split
  case h_1 => exact h
  case h_2 hs => exact h.handleListen (hst (.inl hs))
  case h_3 hs => exact h.handleSynSent (hsyn hs)
  case h_4 hs =>
    split
    · exact h.processRST st _ env
    split
    · exact h.handleListen (hst (.inr hs))
    · exact h.handleSynRcvd (hst (.inr hs)) env
  case h_5 =>
    split
    · exact h.processRST st _ env
    · exact h.after st env.later

omit h in
theorem streamHTSearch_spec {saddr daddr : SockAddr}
    (hst : w.streamHTSearch saddr daddr = some st) : st ∈ w.flows ∧ st.saddr = saddr := by
  have heq := find?_some hst
  simp only [Bool.and_eq_true, beq_iff_eq] at heq
  exact ⟨mem_of_find?_eq_some hst, heq.1⟩

theorem Inv.processTCPPacket {src dst : SockAddr} {env : PacketEnv}
    (hok : w.Ok (.packet src dst pkt env)) : (w.processTCPPacket cfg src dst pkt env).Inv := by
  unfold ListenWorld.processTCPPacket
  split
  case h_1 st hst =>
    obtain ⟨hmem, rfl⟩ := streamHTSearch_spec hst
    exact h.dispatch env (h.awaits st hmem) (hok st hst)
  case h_2 =>
    split
    case isTrue hc =>
      simp only [Bool.and_eq_true] at hc
      have hp : w.Listens dst.port := h.listens_of_filter hc.1.2
      have hnew : (w.createTCPStream false dst src env.iss).1.Inv := by
        refine h.of_same ⟨rfl, rfl, fun _ => rfl, fun _ => rfl, fun _ _ _ _ => rfl⟩
          fun x hx haw => ?_
        rcases mem_append.mp hx with hx | hx
        · exact h.awaits x hx haw
        · exact mem_singleton.mp hx ▸ hp
      refine Inv.dispatch ?_ env (fun _ => hp) (fun _ _ _ => hp)
      exact hnew.setStream fun _ => hp
    case isFalse => exact h

theorem Inv.step {op : ListenOp} (hok : w.Ok op) : (w.step cfg op).Inv := by
  unfold ListenWorld.step
  split
  · exact h
  cases op with
  | socket sockid =>
    cases hw : w.allocateSocket cfg sockid with
    | none => simpa [hw] using h
    | some w' => simpa [hw] using h.allocateSocket hw
  | bind sockid a => exact h.bind a hok
  | listen sockid backlog mem => exact h.listen sockid backlog mem
  | accept sockid sock => exact h.accept sockid sock
  | connect sockid dst env => exact h.connect sockid dst env
  | close sockid => exact h.close hok
  | packet src dst pkt env => exact h.processTCPPacket hok
  | sent id sndNxt =>
    dsimp only [sent]
    split
    · exact h
    case h_2 st hst => exact h.updateStream (mem_of_find?_eq_some hst) rfl fun haw => haw
  | advance id s =>
    dsimp only [advance]
    split
    · exact h
    · split
      · exact h
      · exact h.after _ _
  | destroy id => exact h.destroyTCPStream id

end

theorem taken_handleSynRcvd (hmem : st ∈ w.flows)
    (hl : w.listenerHTSearch port = some l) (hlive : w.Live l) (hc : Completes st pkt)
    (env : PacketEnv) : w.Taken (w.handleSynRcvd st port pkt env) l st := by
  unfold handleSynRcvd
  rw [if_pos hc.ack, if_neg (not_not.mpr hc.ackSeq), enqueueAccept_live hl hlive]
  by_cases hroom : (w.heap l).acceptq.length < (w.heap l).backlog
  · -- later steps do not touch the queue
    left
    rw [if_pos hroom]
    dsimp only
    split
    · split
      · rw [after_heap]
        simp [setStream, setListener]
      · simp [setStream, setListener]
    · simp [setStream, setListener]
  -- the stream that is found is the closed one
  right
  rw [if_neg hroom]
  dsimp only
  split
  case h_1 x hx =>
    obtain rfl := find?_setStream hx rfl
    exact ⟨_, mem_setStream_self hmem rfl, rfl, rfl, rfl⟩
  case h_2 => exact ⟨_, mem_setStream_self hmem rfl, rfl, rfl, rfl⟩

theorem Inv.served (h : w.Inv) : w.Served cfg where
  table bin l hl := ⟨h.known bin l hl, h.kept l (h.known bin l hl)⟩
  completes src dst pkt env st hst hc := by
    obtain ⟨hmem, rfl⟩ := streamHTSearch_spec hst
    obtain ⟨l, hl, hlive⟩ := h.search (h.awaits st hmem (.inr hc.state))
    refine ⟨l, hl, hlive, ?_⟩
    have hsyn : (pkt.syn && pkt.seq == st.irs) = false := by simpa using hc.notSyn
    simp only [ListenWorld.processTCPPacket, hst, ListenWorld.dispatch, hc.state, hc.rst, hsyn,
      Bool.false_eq_true, if_false]
    exact taken_handleSynRcvd hmem hl hlive hc env

/-- While no listening socket is bound or closed, each completed handshake finds a live listener. -/
theorem passive_opens_served (cfg : ListenConfig) (ops : List ListenOp)
    (hrun : Run.Admissible (step cfg) Ok start ops) : (ops.foldl (step cfg) start).Served cfg := by
  have hinv : (ops.foldl (step cfg) start).Inv :=
    hrun.invariant inv_start fun _ _ h hok => h.step hok
  exact hinv.served

def oneHost : ListenConfig := ⟨16, [0x0A000001]⟩

def synFrom (src dst : SockAddr) : ListenOp :=
  .packet src dst { seq := 0, ackSeq := 0, syn := true } ⟨true, 100, .keep⟩

def ackOf101 : Packet := { seq := 1, ackSeq := 101, ack := true }

def ackFrom (src dst : SockAddr) : ListenOp := .packet src dst ackOf101 ⟨true, 100, .keep⟩

def webServer : SockAddr := ⟨0x0A000001, 80⟩

def client (port : UInt16) : SockAddr := ⟨0x0A000002, port⟩

def twoClients : List ListenOp :=
  [.socket 0, .bind 0 webServer, .listen 0 1 true, synFrom (client 1025) webServer,
    synFrom (client 1026) webServer, ackFrom (client 1025) webServer,
    ackFrom (client 1026) webServer]

theorem passive_opens_served_twoClients :
    ((twoClients.foldl (step oneHost) start).heap 0).acceptq = [0] ∧
      (twoClients.foldl (step oneHost) start).flows.map (·.state) = [.established, .closed] ∧
      (twoClients.foldl (step oneHost) start).Served oneHost :=
  ⟨by decide +kernel, by decide +kernel,
    passive_opens_served oneHost twoClients (by decide +kernel)⟩

def closedBetween : List ListenOp :=
  [.socket 0, .bind 0 webServer, .listen 0 8 true, synFrom (client 1025) webServer, .close 0]

def simultaneousOpen : List ListenOp :=
  [.socket 0, .connect 0 webServer ⟨true, some (client 1025), true, 100⟩,
    synFrom webServer (client 1025)]

def boundBetween : List ListenOp :=
  [.socket 0, .listen 0 8 true, synFrom (client 1025) ⟨0x0A000001, 0⟩, .bind 0 webServer]

/-- A handshake uses a closed listener's freed queue, or a port that nobody listens on. -/
theorem handshake_finds_no_listener :
    ¬(closedBetween.foldl (step oneHost) start).Served oneHost ∧
      ¬(simultaneousOpen.foldl (step oneHost) start).Served oneHost ∧
      ((closedBetween ++ [ackFrom (client 1025) webServer]).foldl (step oneHost) start).fault =
        some .freedListener ∧
      ((simultaneousOpen ++ [ackFrom webServer (client 1025)]).foldl (step oneHost) start).fault =
        some .nullListener ∧
      ((boundBetween ++ [ackFrom (client 1025) ⟨0x0A000001, 0⟩]).foldl (step oneHost)
        start).fault = some .nullListener := by
  refine ⟨fun h => ?_, fun h => ?_, by decide +kernel, by decide +kernel, by decide +kernel⟩
  · have hlive := (h.table 80 0 (by decide +kernel)).2
    exact absurd hlive (by decide +kernel)
  · have hst : (simultaneousOpen.foldl (step oneHost) start).streamHTSearch (client 1025)
        webServer = some ⟨0, .synRcvd, client 1025, webServer, true, 100, 0, 100, false⟩ := by
      decide +kernel
    obtain ⟨l, hl, -⟩ := h.completes webServer (client 1025) ackOf101 ⟨true, 100, .keep⟩ _ hst
      ⟨rfl, rfl, by decide, rfl, rfl⟩
    have hnone : (simultaneousOpen.foldl (step oneHost) start).listenerHTSearch 1025 = none := by
      decide +kernel
    exact Option.some_ne_none l (hl.symm.trans hnone)

end ListenWorld

end StackBench.Mtcp

import StackBench.Lib.Rolls
import StackBench.Lib.Run
import StackBench.Mtcp.TcpOut

/-!
# The lists of the mTCP senders

The functions that put a stream on a list or remove it, `DestroyTCPStream` as
far as the lists are concerned, and the loops `WriteTCPControlList`,
`WriteTCPDataList` and `WriteTCPACKList`.

The results of `SendTCPPacket` and `FlushTCPSendingBuffer` are arbitrary, and
so are changes of the other fields that the loops read.
-/

namespace StackBench.Mtcp

open Function

inductive ConnState where
  | closed
  | listen
  | synSent
  | synRcvd
  | established
  | finWait1
  | finWait2
  | closeWait
  | closing
  | lastAck
  | timeWait
deriving DecidableEq

inductive ListKind where
  | control
  | send
  | ack
deriving DecidableEq

/-- The fields that the lists depend on: `sndbuf` tells of a send buffer, `upToDate` of a receive
buffer that reaches `rcv_nxt`. -/
structure SenderVars where
  state : ConnState
  controlListWaiting : Bool
  isWack : Bool
  ackCnt : Fin 64
  sndbuf : Bool
  upToDate : Bool

/-- The sender of each stream, and the results of `SendTCPPacket` and of `FlushTCPSendingBuffer`,
with whether it asked for a window. -/
structure SenderConfig where
  getSender : ℕ → ℕ
  tx : ℕ → ℤ
  flush : ℕ → ℤ × Bool

structure SenderWorld where
  roll : ListKind → Roll ℕ ℕ
  vars : ℕ → SenderVars
  txCalls : ℕ
  flushCalls : ℕ
  /-- The errors "not on control list", "not on send list", "not on ack list". -/
  notOn : List (ListKind × ℕ)
  aborted : Bool

namespace SenderWorld

def start : SenderWorld where
  roll := fun _ => ⟨fun _ => [], fun _ => 0, fun _ => false⟩
  vars := fun _ => ⟨.closed, false, false, 0, false, false⟩
  txCalls := 0
  flushCalls := 0
  notOn := []
  aborted := false

variable (cfg : SenderConfig) (w : SenderWorld) (s : ℕ)

def setRoll (k : ListKind) (r : Roll ℕ ℕ) : SenderWorld :=
  { w with roll := update w.roll k r }

def setVars (v : SenderVars) : SenderWorld :=
  { w with vars := update w.vars s v }

def report (k : ListKind) (s : ℕ) : SenderWorld :=
  { w with notOn := w.notOn ++ [(k, s)] }

/-- `AddtoControlList`, `AddtoSendList` and `AddtoACKList` share this. -/
def addtoList (k : ListKind) (w : SenderWorld) (s : ℕ) : SenderWorld :=
  w.setRoll k ((w.roll k).add cfg.getSender s)

def removeFromList (k : ListKind) (w : SenderWorld) (s : ℕ) : SenderWorld :=
  w.setRoll k ((w.roll k).remove cfg.getSender s)

def addtoControlList : SenderWorld := w.addtoList cfg .control s

/-- `AddtoSendList`, which asserts that there is a send buffer. -/
def addtoSendList : SenderWorld :=
  if (w.vars s).sndbuf then w.addtoList cfg .send s else { w with aborted := true }

def enqueueACK (opt : AckOpt) : SenderWorld :=
  let v := w.vars s
  let v := match opt with
    | .now => { v with ackCnt := v.ackCnt + 1 }
    | .aggregate => { v with ackCnt := if v.ackCnt = 0 then 1 else v.ackCnt }
    | .wack => { v with isWack := true }
  (w.setVars s v).addtoList cfg .ack s

def removeFromControlList : SenderWorld := w.removeFromList cfg .control s

def removeFromSendList : SenderWorld := w.removeFromList cfg .send s

def removeFromACKList : SenderWorld := w.removeFromList cfg .ack s

def destroyTCPStream : SenderWorld :=
  ((w.removeFromControlList cfg s).removeFromSendList cfg s).removeFromACKList cfg s

def sendTCPPacket : SenderWorld × ℤ :=
  ({ w with txCalls := w.txCalls + 1 }, cfg.tx w.txCalls)

def flushTCPSendingBuffer : SenderWorld × ℤ :=
  if (w.vars s).sndbuf then
    let result := cfg.flush w.flushCalls
    let w := { w with flushCalls := w.flushCalls + 1 }
    (if result.2 then w.enqueueACK cfg s .wack else w, result.1)
  else ({ w with aborted := true }, 0)

def sendControlPacket : SenderWorld × ℤ :=
  let listed := (w.roll .send).on s || (w.roll .ack).on s
  match (w.vars s).state with
  | .listen => (w, 0)
  | .lastAck => if listed then (w, -1) else w.sendTCPPacket cfg
  | .finWait1 => if listed then (w, -1) else w.sendTCPPacket cfg
  | .closed =>
    if listed then (w, -1)
    else
      let sent := w.sendTCPPacket cfg
      if sent.2 ≥ 0 then (sent.1.destroyTCPStream cfg s, sent.2) else sent
  | _ => w.sendTCPPacket cfg

/-- The loop over the list of sender `i`, for at most `n` streams. The body tells whether to break.
-/
def walkList (k : ListKind) (body : SenderWorld → ℕ → SenderWorld × Bool) (i : ℕ)
    (last : Option ℕ) : ℕ → Option ℕ → SenderWorld → SenderWorld
  | 0, _, w => w
  | _ + 1, none, w => w
  | n + 1, some s, w =>
    let next := Roll.next ((w.roll k).list i) s
    let done := body w s
    if done.2 || some s = last then done.1 else walkList k body i last n next done.1

/-- The body of the loop of `WriteTCPControlList`. -/
def controlBody (i : ℕ) (w : SenderWorld) (s : ℕ) : SenderWorld × Bool :=
  let w := w.setRoll .control (((w.roll .control).unlink i s).count i (-1))
  if (w.roll .control).on s then
    let sent := (w.setRoll .control ((w.roll .control).flag s false)).sendControlPacket cfg s
    let r := sent.1.roll .control
    if sent.2 = -2 then
      (sent.1.setRoll .control (((r.insertHead i s).flag s true).count i 1), true)
    else if sent.2 < 0 then
      (sent.1.setRoll .control (((r.insertTail i s).flag s true).count i 1), false)
    else (sent.1, false)
  else (w.report .control s, false)

def writeTCPControlList (i : ℕ) (thresh : ℤ) : SenderWorld :=
  let l := (w.roll .control).list i
  walkList .control (controlBody cfg i) i l.getLast?
    (min thresh ((w.roll .control).cnt i)).toNat l.head? w

/-- What `WriteTCPDataList` sends for a stream. -/
def sendData : SenderWorld × ℤ :=
  match (w.vars s).state with
  | .established =>
    if (w.roll .control).on s then (w, -1) else w.flushTCPSendingBuffer cfg s
  | .closeWait => w.flushTCPSendingBuffer cfg s
  | .finWait1 => w.flushTCPSendingBuffer cfg s
  | .lastAck => w.flushTCPSendingBuffer cfg s
  | _ => (w, 0)

/-- Acks that were piggybacked are not to be sent. -/
def piggyback (packets : ℤ) : SenderWorld :=
  let v := w.vars s
  w.setVars s { v with
    ackCnt := if v.ackCnt.val > packets then ⟨v.ackCnt.val - packets.toNat, by omega⟩ else 0 }

/-- A control packet that waited for the stream to leave the list `k`. -/
def releaseControl (k : ListKind) (w : SenderWorld) (s : ℕ) : SenderWorld :=
  let v := w.vars s
  if v.controlListWaiting && !(w.roll k).on s then
    (w.setVars s { v with controlListWaiting := false }).addtoControlList cfg s
  else w

/-- The body of the loop of `WriteTCPDataList`. -/
def dataBody (i : ℕ) (w : SenderWorld) (s : ℕ) : SenderWorld × Bool :=
  let w := w.setRoll .send ((w.roll .send).unlink i s)
  if (w.roll .send).on s then
    let sent := w.sendData cfg s
    let r := sent.1.roll .send
    if sent.2 < 0 then (sent.1.setRoll .send (r.insertTail i s), true)
    else
      let w := sent.1.setRoll .send ((r.flag s false).count i (-1))
      ((w.piggyback s sent.2).releaseControl cfg .ack s, false)
  else (w.report .send s, false)

def writeTCPDataList (i : ℕ) (thresh : ℤ) : SenderWorld :=
  let l := (w.roll .send).list i
  walkList .send (dataBody cfg i) i l.getLast? thresh.toNat l.head? w

/-- The acks of a stream, as long as there are buffers for them. -/
def sendAcks (s : ℕ) : ℕ → SenderWorld → SenderWorld
  | 0, w => w
  | n + 1, w =>
    let sent := w.sendTCPPacket cfg
    if sent.2 < 0 then sent.1
    else
      let v := sent.1.vars s
      sendAcks s n (sent.1.setVars s { v with ackCnt := v.ackCnt - 1 })

/-- The packet that asks for a window advertisement. -/
def sendWack : SenderWorld :=
  if (w.vars s).isWack then
    let sent := (w.setVars s { w.vars s with isWack := false }).sendTCPPacket cfg
    if sent.2 < 0 then sent.1.setVars s { sent.1.vars s with isWack := true } else sent.1
  else w

/-- Whether `WriteTCPACKList` acknowledges data of the stream. -/
def toAck (v : SenderVars) : Bool :=
  match v.state with
  | .established => v.upToDate
  | .closeWait => v.upToDate
  | .finWait1 => v.upToDate
  | .finWait2 => v.upToDate
  | .timeWait => v.upToDate
  | _ => false

/-- The stream leaves the ack list of sender `i`. -/
def dropAck (i s : ℕ) : SenderWorld :=
  w.setRoll .ack ((((w.roll .ack).flag s false).unlink i s).count i (-1))

/-- What `WriteTCPACKList` sends for a stream. -/
def writeAck (i : ℕ) (w : SenderWorld) (s : ℕ) : SenderWorld :=
  if toAck (w.vars s) then
    let w := (sendAcks cfg s (w.vars s).ackCnt.val w).sendWack cfg s
    if (w.vars s).ackCnt ≠ 0 ∨ (w.vars s).isWack then w else w.dropAck i s
  else (w.setVars s { w.vars s with ackCnt := 0, isWack := false }).dropAck i s

/-- The body of the loop of `WriteTCPACKList`. -/
def ackBody (i : ℕ) (w : SenderWorld) (s : ℕ) : SenderWorld × Bool :=
  if (w.roll .ack).on s then ((w.writeAck cfg i s).releaseControl cfg .send s, false)
  else ((w.report .ack s).setRoll .ack (((w.roll .ack).unlink i s).count i (-1)), false)

def writeTCPACKList (i : ℕ) (thresh : ℤ) : SenderWorld :=
  let l := (w.roll .ack).list i
  walkList .ack (ackBody cfg i) i l.getLast? thresh.toNat l.head? w

end SenderWorld

inductive SenderOp where
  | addtoControlList (s : ℕ)
  | addtoSendList (s : ℕ)
  | enqueueACK (s : ℕ) (opt : AckOpt)
  | removeFromControlList (s : ℕ)
  | removeFromSendList (s : ℕ)
  | removeFromACKList (s : ℕ)
  | destroyTCPStream (s : ℕ)
  | writeTCPControlList (i : ℕ) (thresh : ℤ)
  | writeTCPDataList (i : ℕ) (thresh : ℤ)
  | writeTCPACKList (i : ℕ) (thresh : ℤ)
  /-- Anything else that happens to a stream. -/
  | change (s : ℕ) (v : SenderVars)

namespace SenderWorld

def step (cfg : SenderConfig) (w : SenderWorld) : SenderOp → SenderWorld
  | .addtoControlList s => w.addtoControlList cfg s
  | .addtoSendList s => w.addtoSendList cfg s
  | .enqueueACK s opt => w.enqueueACK cfg s opt
  | .removeFromControlList s => w.removeFromControlList cfg s
  | .removeFromSendList s => w.removeFromSendList cfg s
  | .removeFromACKList s => w.removeFromACKList cfg s
  | .destroyTCPStream s => w.destroyTCPStream cfg s
  | .writeTCPControlList i thresh => w.writeTCPControlList cfg i thresh
  | .writeTCPDataList i thresh => w.writeTCPDataList cfg i thresh
  | .writeTCPACKList i thresh => w.writeTCPACKList cfg i thresh
  | .change s v => w.setVars s v

/-- Each flag tells membership, no stream occurs twice, the counters are the lengths, and no error
branch was taken. -/
structure Consistent (cfg : SenderConfig) (w : SenderWorld) : Prop where
  rolls : ∀ k, (w.roll k).Consistent cfg.getSender
  notOn : w.notOn = []

variable {cfg : SenderConfig} {w : SenderWorld}

section Stream

variable (w) (s : ℕ) (st : TcpStream)

/-- `st` with the flags and counters of the stream `s`. The list functions act on it as those of
`Stream` and `TcpOut` do. -/
def stream : TcpStream :=
  { st with
    controlListWaiting := (w.vars s).controlListWaiting
    sndvar := { st.sndvar with
      isWack := (w.vars s).isWack
      ackCnt := (w.vars s).ackCnt
      onControlList := (w.roll .control).on s
      onSendList := (w.roll .send).on s
      onAckList := (w.roll .ack).on s } }

theorem stream_addtoControlList :
    (w.addtoControlList cfg s).stream s st = Mtcp.addtoControlList (w.stream s st) := by
  simp [addtoControlList, Mtcp.addtoControlList, addtoList, setRoll, stream]

theorem stream_addtoSendList (hbuf : (w.vars s).sndbuf = st.sndvar.sndbuf.isSome) :
    Mtcp.addtoSendList (w.stream s st) = if (w.vars s).sndbuf then
      .ok ((w.addtoSendList cfg s).stream s st) else .error .noSendBuffer := by
  cases hst : st.sndvar.sndbuf <;>
    simp [hbuf, hst, addtoSendList, Mtcp.addtoSendList, addtoList, setRoll, stream]

theorem stream_enqueueACK (opt : AckOpt) :
    (w.enqueueACK cfg s opt).stream s st = Mtcp.enqueueACK (w.stream s st) opt := by
  unfold enqueueACK Mtcp.enqueueACK
  cases opt <;> by_cases hcnt : (w.vars s).ackCnt = 0 <;>
    simp [hcnt, addtoACKList, addtoList, setRoll, setVars, stream]

theorem stream_removeFromControlList :
    (w.removeFromControlList cfg s).stream s st = Mtcp.removeFromControlList (w.stream s st) := by
  simp [removeFromControlList, Mtcp.removeFromControlList, removeFromList, setRoll, stream]

theorem stream_removeFromSendList :
    (w.removeFromSendList cfg s).stream s st = Mtcp.removeFromSendList (w.stream s st) := by
  simp [removeFromSendList, Mtcp.removeFromSendList, removeFromList, setRoll, stream]

theorem stream_releaseControl (k : ListKind) : (w.releaseControl cfg k s).stream s st =
      controlListTurn (w.stream s st) ((w.roll k).on s) := by
  unfold releaseControl controlListTurn
  rw [apply_ite (stream · s st), stream_addtoControlList]
  simp [setVars, stream]

end Stream

theorem roll_setRoll (w : SenderWorld) (k : ListKind) (r : Roll ℕ ℕ) :
    (w.setRoll k r).roll k = r := by
  unfold setRoll
  dsimp only
  rw [update_self]

theorem roll_setRoll_of_ne (w : SenderWorld) {k k' : ListKind} (hne : k' ≠ k) (r : Roll ℕ ℕ) :
    (w.setRoll k r).roll k' = w.roll k' := by
  unfold setRoll
  dsimp only
  rw [update_of_ne hne]

theorem consistent_start (cfg : SenderConfig) : start.Consistent cfg where
  rolls _ := ⟨fun _ => List.nodup_nil, fun _ _ => ⟨nofun, fun h => nomatch h.1⟩, fun _ => rfl⟩
  notOn := rfl

namespace Consistent

variable (h : w.Consistent cfg)
include h

theorem setRoll (k : ListKind) {r : Roll ℕ ℕ}
    (hr : r.Consistent cfg.getSender) : (w.setRoll k r).Consistent cfg where
  rolls k' := by
    by_cases hk : k' = k
    · subst hk
      rw [roll_setRoll]
      exact hr
    · rw [roll_setRoll_of_ne w hk]
      exact h.rolls k'
  notOn := h.notOn

theorem setVars (s : ℕ) (v : SenderVars) :
    (w.setVars s v).Consistent cfg := ⟨h.rolls, h.notOn⟩

variable (k : ListKind) (s : ℕ)

theorem addtoList :
    (w.addtoList cfg k s).Consistent cfg := h.setRoll k ((h.rolls k).add s)

theorem removeFromList :
    (w.removeFromList cfg k s).Consistent cfg := h.setRoll k ((h.rolls k).remove s)

theorem addtoSendList (s : ℕ) : (w.addtoSendList cfg s).Consistent cfg := by
  unfold SenderWorld.addtoSendList
  split
  · exact h.addtoList .send s
  · exact ⟨h.rolls, h.notOn⟩

theorem enqueueACK (s : ℕ) (opt : AckOpt) :
    (w.enqueueACK cfg s opt).Consistent cfg := (h.setVars s _).addtoList .ack s

theorem destroyTCPStream (s : ℕ) : (w.destroyTCPStream cfg s).Consistent cfg :=
  ((h.removeFromList .control s).removeFromList .send s).removeFromList .ack s

theorem sendTCPPacket : (w.sendTCPPacket cfg).1.Consistent cfg := ⟨h.rolls, h.notOn⟩

theorem releaseControl : (w.releaseControl cfg k s).Consistent cfg := by
  unfold SenderWorld.releaseControl
  dsimp only
  split
  · exact (h.setVars s _).addtoList .control s
  · exact h

end Consistent

/-- The body keeps the lists consistent and every other stream on the list. -/
structure Walks (cfg : SenderConfig) (k : ListKind) (i s : ℕ) (w w' : SenderWorld) : Prop where
  consistent : w'.Consistent cfg
  others : ∀ b ∈ (w.roll k).list i, b ≠ s → b ∈ (w'.roll k).list i

variable {i s : ℕ}

theorem Consistent.walkList {k : ListKind} {body : SenderWorld → ℕ → SenderWorld × Bool}
    (hbody : ∀ (w : SenderWorld) (s : ℕ), w.Consistent cfg → s ∈ (w.roll k).list i →
      Walks cfg k i s w (body w s).1)
    (last : Option ℕ) (n : ℕ) (h : w.Consistent cfg) {cur : Option ℕ}
    (hcur : ∀ s ∈ cur, s ∈ (w.roll k).list i) :
    (walkList k body i last n cur w).Consistent cfg := by
  induction n generalizing w cur with
  | zero => exact h
  | succ n ih =>
    cases cur with
    | none => exact h
    | some s =>
      have hs := hcur s rfl
      obtain ⟨hdone, hothers⟩ := hbody w s h hs
      unfold SenderWorld.walkList
      dsimp only
      split
      · exact hdone
      · -- the successor was found before the body ran, and it is still there
        refine ih hdone fun b hb => hothers b (Roll.mem_of_next hb) ?_
        exact Roll.next_ne ((h.rolls k).nodup i) hb

theorem mem_list_unlink {r : Roll ℕ ℕ} {b : ℕ} (hb : b ∈ r.list i) (hne : b ≠ s) :
    b ∈ (r.unlink i s).list i := by
  show b ∈ update r.list i _ i
  rw [update_self]
  exact (List.mem_erase_of_ne hne).mpr hb

theorem destroyTCPStream_control (hoff : (w.roll .control).on s = false) :
    (w.destroyTCPStream cfg s).roll .control = w.roll .control := by
  unfold destroyTCPStream removeFromACKList removeFromSendList removeFromControlList removeFromList
  rw [roll_setRoll_of_ne _ (by decide), roll_setRoll_of_ne _ (by decide), roll_setRoll, Roll.remove,
    hoff]
  rfl

theorem Consistent.sendControlPacket (h : w.Consistent cfg)
    (hoff : (w.roll .control).on s = false) : (w.sendControlPacket cfg s).1.Consistent cfg ∧
      (w.sendControlPacket cfg s).1.roll .control = w.roll .control := by
  have hsend : (w.sendTCPPacket cfg).1.Consistent cfg ∧
      (w.sendTCPPacket cfg).1.roll .control = w.roll .control := ⟨h.sendTCPPacket, rfl⟩
  unfold SenderWorld.sendControlPacket
  dsimp only
  split
  · exact ⟨h, rfl⟩
  · split
    · exact ⟨h, rfl⟩
    · exact hsend
  · split
    · exact ⟨h, rfl⟩
    · exact hsend
  · split
    · exact ⟨h, rfl⟩
    · split
      · exact ⟨hsend.1.destroyTCPStream s, destroyTCPStream_control hoff⟩
      · exact hsend
  · exact hsend

theorem controlBody_walks (w : SenderWorld) (s : ℕ) (h : w.Consistent cfg)
    (hs : s ∈ (w.roll .control).list i) : Walks cfg .control i s w (controlBody cfg i w s).1 := by
  have hroll := h.rolls .control
  obtain ⟨hon, hhome⟩ := (hroll.mem i s).mp hs
  have hon' : ((((w.roll .control).unlink i s).count i (-1))).on s = true := hon
  unfold controlBody
  dsimp only
  rw [roll_setRoll, if_pos hon']
  -- the stream is off the list now
  set r := (((w.roll .control).unlink i s).count i (-1)).flag s false
  have hdrop : r.Consistent cfg.getSender := hroll.drop hs
  have hoff : r.on s = false := by
    show update (w.roll .control).on s false s = false
    rw [update_self]
  set w1 := (w.setRoll .control (((w.roll .control).unlink i s).count i (-1))).setRoll .control r
    with hw1
  have hw : w1.Consistent cfg := by
    refine ⟨fun k => ?_, h.notOn⟩
    by_cases hk : k = .control
    · subst hk
      exact hdrop
    · rw [hw1, roll_setRoll_of_ne _ hk, roll_setRoll_of_ne _ hk]
      exact h.rolls k
  have hoff1 : (w1.roll .control).on s = false := by
    exact hoff
  obtain ⟨hsent, hsame⟩ := hw.sendControlPacket hoff1
  have hmem : ∀ b ∈ (w.roll .control).list i, b ≠ s → b ∈ r.list i :=
    fun b hb hne => mem_list_unlink hb hne
  rw [hsame]
  split
  · refine ⟨hsent.setRoll .control (hdrop.join hoff hhome (List.Perm.refl _)), fun b hb hne => ?_⟩
    show b ∈ update r.list i (s :: r.list i) i
    rw [update_self]
    exact List.mem_cons_of_mem s (hmem b hb hne)
  split
  · refine ⟨hsent.setRoll .control
      (hdrop.join hoff hhome (List.perm_append_singleton s _)), fun b hb hne => ?_⟩
    show b ∈ update r.list i (r.list i ++ [s]) i
    rw [update_self]
    exact List.mem_append_left _ (hmem b hb hne)
  · refine ⟨hsent, fun b hb hne => ?_⟩
    rw [hsame]
    exact hmem b hb hne

theorem releaseControl_roll (w : SenderWorld) (k : ListKind) (s : ℕ) {k' : ListKind}
    (hne : k' ≠ .control) : (w.releaseControl cfg k s).roll k' = w.roll k' := by
  unfold SenderWorld.releaseControl
  dsimp only
  split
  · exact roll_setRoll_of_ne _ hne _
  · rfl

/-- Of the lists only the ack list may have changed, by a new ack. -/
structure OnlyAcks (cfg : SenderConfig) (w w' : SenderWorld) : Prop where
  others : ∀ k, k ≠ .ack → w'.roll k = w.roll k
  ack : (w.roll .ack).Consistent cfg.getSender → (w'.roll .ack).Consistent cfg.getSender
  notOn : w'.notOn = w.notOn

theorem OnlyAcks.refl (w : SenderWorld) : OnlyAcks cfg w w := ⟨fun _ _ => rfl, id, rfl⟩

theorem onlyAcks_flush (w : SenderWorld) (s : ℕ) :
    OnlyAcks cfg w (w.flushTCPSendingBuffer cfg s).1 := by
  unfold flushTCPSendingBuffer
  split
  · dsimp only
    split
    · refine ⟨fun k hk => roll_setRoll_of_ne _ hk _, fun h => ?_, rfl⟩
      exact h.add s
    · exact ⟨fun _ _ => rfl, id, rfl⟩
  · exact ⟨fun _ _ => rfl, id, rfl⟩

theorem onlyAcks_sendData (cfg : SenderConfig) (w : SenderWorld) (s : ℕ) :
    OnlyAcks cfg w (w.sendData cfg s).1 := by
  unfold sendData
  split
  · split
    · exact .refl w
    · exact onlyAcks_flush w s
  · exact onlyAcks_flush w s
  · exact onlyAcks_flush w s
  · exact onlyAcks_flush w s
  · exact .refl w

theorem Consistent.afterSend (h : w.Consistent cfg) {r r' : Roll ℕ ℕ} {w' : SenderWorld}
    (hsent : OnlyAcks cfg (w.setRoll .send r) w') (hr' : r'.Consistent cfg.getSender) :
    (w'.setRoll .send r').Consistent cfg where
  rolls k := by
    cases k with
    | control =>
      rw [roll_setRoll_of_ne _ (by decide), hsent.others _ (by decide),
        roll_setRoll_of_ne _ (by decide)]
      exact h.rolls .control
    | send =>
      exact hr'
    | ack =>
      refine hsent.ack ?_
      exact h.rolls .ack
  notOn := hsent.notOn.trans h.notOn

theorem dataBody_walks (w : SenderWorld) (s : ℕ) (h : w.Consistent cfg)
    (hs : s ∈ (w.roll .send).list i) : Walks cfg .send i s w (dataBody cfg i w s).1 := by
  have hroll := h.rolls .send
  have hsent := onlyAcks_sendData cfg (w.setRoll .send ((w.roll .send).unlink i s)) s
  have hsame := hsent.others .send (by decide)
  have hon : ((w.roll .send).unlink i s).on s = true := hroll.on_of_mem hs
  unfold dataBody
  dsimp only
  rw [roll_setRoll, if_pos hon, hsame]
  split
  · refine ⟨h.afterSend hsent (hroll.requeue hs), fun b hb hne => ?_⟩
    show b ∈ update ((w.roll .send).unlink i s).list i _ i
    rw [update_self]
    exact List.mem_append_left _ (mem_list_unlink hb hne)
  refine ⟨((h.afterSend hsent (hroll.drop hs)).setVars s _).releaseControl .ack s,
    fun b hb hne => ?_⟩
  rw [releaseControl_roll _ _ _ (by decide)]
  exact mem_list_unlink hb hne

theorem sendAcks_frame (cfg : SenderConfig) (s n : ℕ) (w : SenderWorld) :
    (sendAcks cfg s n w).roll = w.roll ∧ (sendAcks cfg s n w).notOn = w.notOn := by
  induction n generalizing w with
  | zero => exact ⟨rfl, rfl⟩
  | succ n ih =>
    unfold sendAcks
    dsimp only
    split
    · exact ⟨rfl, rfl⟩
    · exact ih _

theorem sendWack_frame (cfg : SenderConfig) (w : SenderWorld) (s : ℕ) :
    (w.sendWack cfg s).roll = w.roll ∧ (w.sendWack cfg s).notOn = w.notOn := by
  unfold sendWack
  dsimp only
  split
  · split <;> exact ⟨rfl, rfl⟩
  · exact ⟨rfl, rfl⟩

theorem Consistent.dropAck (h : w.Consistent cfg) (hs : s ∈ (w.roll .ack).list i) :
    Walks cfg .ack i s w (w.dropAck i s) where
  consistent := h.setRoll .ack ((h.rolls .ack).drop hs)
  others b hb hne := by
    exact mem_list_unlink hb hne

theorem writeAck_walks (w : SenderWorld) (s : ℕ) (h : w.Consistent cfg)
    (hs : s ∈ (w.roll .ack).list i) : Walks cfg .ack i s w (w.writeAck cfg i s) := by
  unfold writeAck
  split
  · obtain ⟨hroll, hnot⟩ := sendAcks_frame cfg s (w.vars s).ackCnt.val w
    set w1 := sendAcks cfg s (w.vars s).ackCnt.val w
    obtain ⟨hroll', hnot'⟩ := sendWack_frame cfg w1 s
    dsimp only
    set w2 := w1.sendWack cfg s
    have hsame : w2.roll = w.roll := hroll'.trans hroll
    have hw : w2.Consistent cfg := by
      refine ⟨fun k => ?_, hnot'.trans (hnot.trans h.notOn)⟩
      rw [hsame]
      exact h.rolls k
    split
    · exact ⟨hw, fun b hb _ => by rw [hsame]; exact hb⟩
    · obtain ⟨hdrop, hothers⟩ := hw.dropAck (s := s) (i := i) (by rw [hsame]; exact hs)
      rw [hsame] at hothers
      exact ⟨hdrop, hothers⟩
  · obtain ⟨hdrop, hothers⟩ := (h.setVars s _).dropAck hs
    exact ⟨hdrop, hothers⟩

theorem ackBody_walks (w : SenderWorld) (s : ℕ) (h : w.Consistent cfg)
    (hs : s ∈ (w.roll .ack).list i) : Walks cfg .ack i s w (ackBody cfg i w s).1 := by
  obtain ⟨hdone, hothers⟩ := writeAck_walks w s h hs
  unfold ackBody
  rw [if_pos ((h.rolls .ack).on_of_mem hs)]
  refine ⟨hdone.releaseControl .send s, fun b hb hne => ?_⟩
  rw [releaseControl_roll _ _ _ (by decide)]
  exact hothers b hb hne

theorem Consistent.step (h : w.Consistent cfg) (op : SenderOp) :
    (w.step cfg op).Consistent cfg := by
  cases op with
  | addtoControlList s => exact h.addtoList .control s
  | addtoSendList s => exact h.addtoSendList s
  | enqueueACK s opt => exact h.enqueueACK s opt
  | removeFromControlList s => exact h.removeFromList .control s
  | removeFromSendList s => exact h.removeFromList .send s
  | removeFromACKList s => exact h.removeFromList .ack s
  | destroyTCPStream s => exact h.destroyTCPStream s
  | writeTCPControlList i thresh =>
    exact walkList controlBody_walks _ _ h fun _ hs => List.mem_of_head? hs
  | writeTCPDataList i thresh =>
    exact walkList dataBody_walks _ _ h fun _ hs => List.mem_of_head? hs
  | writeTCPACKList i thresh =>
    exact walkList ackBody_walks _ _ h fun _ hs => List.mem_of_head? hs
  | change s v => exact h.setVars s v

/-- In every order of calls, and whatever cannot be sent, flags, lists and counters agree. -/
theorem sender_lists_consistent (cfg : SenderConfig) (ops : List SenderOp) :
    (ops.foldl (step cfg) start).Consistent cfg :=
  Run.foldl_invariant (consistent_start cfg) fun _ op h => h.step op

end SenderWorld

end StackBench.Mtcp

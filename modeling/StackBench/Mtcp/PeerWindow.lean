import StackBench.Mtcp.StreamFrame

/-!
# The window of the peer in mTCP

`ProcessTCPPacket` stores the window of every accepted segment before
`ProcessACK` decides whether it updates the window and whether its ack is a
duplicate. Both decisions compare with what was just stored.
-/

namespace StackBench.Mtcp

open Attempt (Ends)

variable (st : TcpStream)

/-- What `ProcessTCPPacket` stores before it looks at the state. -/
def takeWindow (pkt : Packet) : TcpStream :=
  { st with sndvar := { st.sndvar with peerWnd := scaledWindow st pkt } }

/-- The flag `dup` of `ProcessACK`. -/
def dupFlag (buf : SendBuffer) (pkt : Packet) : Bool :=
  let ackSeq := dataAck st pkt.ackSeq
  !tcpSeqGt ackSeq (buf.headSeq + buf.len) &&
    isDupAck (updateWindow st pkt ackSeq) pkt ackSeq (st.sndvar.peerWnd + st.rcvvar.sndWl2)

/-- The five conditions of the comment in `ProcessACK`, on a segment and the stream
that it meets. -/
structure DupAck (st : TcpStream) (pkt : Packet) : Prop where
  payload : pkt.payload = []
  window : scaledWindow st pkt = st.sndvar.peerWnd
  outstanding : tcpSeqLt st.sndvar.sndUna st.sndNxt = true
  seen : pkt.ackSeq = st.rcvvar.lastAckSeq
  una : pkt.ackSeq = st.sndvar.sndUna

/-- `ProcessACK` takes the window of the segment over by its sequence numbers. -/
def Renews (pkt : Packet) (ackSeq : UInt32) : Prop :=
  tcpSeqLt st.rcvvar.sndWl1 pkt.seq = true ∨
    st.rcvvar.sndWl1 = pkt.seq ∧ tcpSeqLt st.rcvvar.sndWl2 ackSeq = true

/-- The edge of the window with the stored window is not moved. -/
def EdgeKept (pkt : Packet) (ackSeq : UInt32) : Prop :=
  Renews st pkt ackSeq → ackSeq = st.rcvvar.sndWl2

/-- What `ProcessACK` counts as a duplicate: neither the window nor `snd_una` is compared. -/
structure CountsDup (st : TcpStream) (buf : SendBuffer) (pkt : Packet) : Prop where
  payload : pkt.payload = []
  buffered : tcpSeqGt (dataAck st pkt.ackSeq) (buf.headSeq + buf.len) = false
  outstanding : tcpSeqLt (dataAck st pkt.ackSeq) st.sndNxt = true
  seen : dataAck st pkt.ackSeq = st.rcvvar.lastAckSeq
  edge : EdgeKept st pkt (dataAck st pkt.ackSeq)

/-- A documented duplicate does not ack the FIN, is not ahead of the buffer and keeps the edge; an
ack that is counted comes with the stored window and acks `snd_una`, not the FIN. -/
structure Plain (st : TcpStream) (buf : SendBuffer) (pkt : Packet) : Prop where
  documented : DupAck st pkt → dataAck st pkt.ackSeq = pkt.ackSeq ∧
    tcpSeqGt pkt.ackSeq (buf.headSeq + buf.len) = false ∧ EdgeKept st pkt pkt.ackSeq
  counted : CountsDup st buf pkt → dataAck st pkt.ackSeq = pkt.ackSeq ∧
    scaledWindow st pkt = st.sndvar.peerWnd ∧ pkt.ackSeq = st.sndvar.sndUna

variable {st} {buf : SendBuffer} {pkt : Packet} {ackSeq : UInt32}

/-- Behind the store of the window only the sequence numbers move the edge. -/
theorem updateWindow_edge (ackSeq : UInt32) (hstored : st.sndvar.peerWnd = scaledWindow st pkt) :
    (updateWindow st pkt ackSeq).rcvvar.sndWl2 + (updateWindow st pkt ackSeq).sndvar.peerWnd =
        st.sndvar.peerWnd + st.rcvvar.sndWl2 ↔ EdgeKept st pkt ackSeq := by
  have hsame : ¬st.sndvar.peerWnd < scaledWindow st pkt := hstored ▸ UInt32.lt_irrefl _
  unfold updateWindow EdgeKept Renews
  simp only [hsame, decide_false, Bool.and_false, Bool.or_false, Bool.or_eq_true,
    Bool.and_eq_true, beq_iff_eq]
  split
  · next hrenews =>
    rw [← hstored, UInt32.add_comm, UInt32.add_right_inj]
    exact ⟨fun h _ => h, fun h => h hrenews⟩
  · next hkept => exact iff_of_true (UInt32.add_comm _ _) fun h => absurd h hkept

/-- The flag of `ProcessACK` behind the store of the window. -/
theorem dupFlag_stored (st : TcpStream) (buf : SendBuffer) (pkt : Packet) :
    dupFlag (takeWindow st pkt) buf pkt = true ↔ CountsDup st buf pkt := by
  have hdata : dataAck (takeWindow st pkt) pkt.ackSeq = dataAck st pkt.ackSeq := rfl
  have haside := updateWindow_aside (takeWindow st pkt) pkt (dataAck st pkt.ackSeq)
  have hnxt : (updateWindow (takeWindow st pkt) pkt (dataAck st pkt.ackSeq)).sndNxt = st.sndNxt :=
    congrArg SendView.sndNxt haside.idle
  have hlast : (updateWindow (takeWindow st pkt) pkt (dataAck st pkt.ackSeq)).rcvvar.lastAckSeq =
      st.rcvvar.lastAckSeq := congrArg Prod.snd haside.dupView
  have hstored : (takeWindow st pkt).sndvar.peerWnd = scaledWindow (takeWindow st pkt) pkt := rfl
  have hedges := updateWindow_edge (dataAck st pkt.ackSeq) hstored
  simp only [dupFlag, isDupAck, hdata, Bool.and_eq_true, Bool.not_eq_true', beq_iff_eq,
    List.isEmpty_iff, hnxt, hlast, hedges]
  constructor
  · rintro ⟨hbuf, ⟨⟨hlt, hseen⟩, hpay⟩, hedge⟩
    exact ⟨hpay, hbuf, hlt, hseen, hedge⟩
  · rintro ⟨hpay, hbuf, hlt, hseen, hedge⟩
    exact ⟨hbuf, ⟨⟨hlt, hseen⟩, hpay⟩, hedge⟩

/-- What `ProcessACK` does after the count leaves it alone. -/
def KeepsCount (st : TcpStream) : Outcome TcpStream → Prop :=
  Ends (fun st' => st'.dupView = st.dupView) fun _ => True

theorem Aside.keepsCount {x : Outcome TcpStream} (h : Ends (Aside st) NotBuffer x) :
    KeepsCount st x :=
  (h.mono fun _ h => h.dupView).weaken fun _ _ => trivial

theorem KeepsCount.bind {x : Outcome TcpStream} {f : TcpStream → Outcome TcpStream}
    (hx : KeepsCount st x) (hf : ∀ st', KeepsCount st' (f st')) : KeepsCount st (x >>= f) :=
  Ends.bind hx fun st' h => (hf st').mono fun _ h' => h'.trans h

theorem fastRetransmit_dupView (st : TcpStream) (dup : Bool) (ackSeq : UInt32) :
    KeepsCount st (fastRetransmit st dup ackSeq) := by
  unfold fastRetransmit addtoSendList
  dsimp only
  repeat' split
  all_goals trivial

theorem recoverFromLoss_dupView (st : TcpStream) (buf : SendBuffer) (ackSeq : UInt32) :
    KeepsCount st (recoverFromLoss st buf ackSeq) := by
  unfold recoverFromLoss addtoSendList
  dsimp only
  repeat' split
  all_goals trivial

/-- `ProcessACK` counts the ack by its flag, once, unless the ack is ahead of the buffer. -/
theorem processACK_dupView (st : TcpStream) (buf : SendBuffer) (curTs : UInt32) (pkt : Packet)
    (hbuf : tcpSeqGt (dataAck st pkt.ackSeq) (buf.headSeq + buf.len) = false) :
    Ends (fun st' => st'.dupView = if dupFlag st buf pkt then
        (st.rcvvar.dupAcks + 1, st.rcvvar.lastAckSeq) else (0, dataAck st pkt.ackSeq))
      (fun _ => True) (processACK st buf curTs pkt) := by
  have hview := (updateWindow_aside st pkt (dataAck st pkt.ackSeq)).dupView
  have hcount (dup : Bool) : (countDupAck (updateWindow st pkt (dataAck st pkt.ackSeq)) dup
      (dataAck st pkt.ackSeq)).dupView = if dup then
        (st.rcvvar.dupAcks + 1, st.rcvvar.lastAckSeq) else (0, dataAck st pkt.ackSeq) := by
    cases dup with
    | true => exact congrArg (fun v : UInt8 × UInt32 => (v.1 + 1, v.2)) hview
    | false => rfl
  unfold processACK dupFlag
  simp only [hbuf, Bool.not_false, Bool.true_and, ← hcount]
  refine ((fastRetransmit_dupView _ _ _).bind fun st₁ => ?_ : KeepsCount _ _)
  refine (Aside.keepsCount (parseSACKOption_aside st₁ _)).bind fun st₂ => ?_
  refine (recoverFromLoss_dupView st₂ buf _).bind fun st₃ => ?_
  split
  · trivial
  split
  · rfl
  refine (Aside.keepsCount (measureRTT_aside st₃ curTs)).bind fun st₄ => ?_
  refine (Aside.keepsCount (growWindow_aside st₄ _)).bind fun st₅ => ?_
  exact (Aside.keepsCount (updateRetransmissionTimer_aside (removeAcked st₅ buf _ _) curTs) :)

/-- A segment is a duplicate exactly under the five conditions if and only if it is plain, and
`ProcessACK` counts it by the flag. -/
theorem dup_ack_documented (st : TcpStream) (buf : SendBuffer) (curTs : UInt32) (pkt : Packet) :
    ((dupFlag (takeWindow st pkt) buf pkt = true ↔ DupAck st pkt) ↔ Plain st buf pkt) ∧
      (tcpSeqGt (dataAck st pkt.ackSeq) (buf.headSeq + buf.len) = false →
        ∀ st', processACK (takeWindow st pkt) buf curTs pkt = .ok st' →
          st'.dupView = if dupFlag (takeWindow st pkt) buf pkt then
            (st.rcvvar.dupAcks + 1, st.rcvvar.lastAckSeq) else (0, dataAck st pkt.ackSeq)) := by
  constructor
  · rw [dupFlag_stored]
    constructor
    · intro hexact
      refine ⟨fun hdup => ?_, fun hcounts => ?_⟩
      · have hcounts := hexact.mpr hdup
        have hdata := hcounts.seen.trans hdup.seen.symm
        exact ⟨hdata, hdata ▸ hcounts.buffered, hdata ▸ hcounts.edge⟩
      · have hdup := hexact.mp hcounts
        exact ⟨hcounts.seen.trans hdup.seen.symm, hdup.window, hdup.una⟩
    · rintro ⟨hdoc, hcounted⟩
      constructor
      · intro hcounts
        obtain ⟨hdata, hwindow, huna⟩ := hcounted hcounts
        exact ⟨hcounts.payload, hwindow, huna ▸ hdata ▸ hcounts.outstanding,
          hdata.symm.trans hcounts.seen, huna⟩
      · intro hdup
        obtain ⟨hdata, hbuf, hedge⟩ := hdoc hdup
        rw [← hdata] at hbuf hedge
        exact ⟨hdup.payload, hbuf, by rw [hdata, hdup.una]; exact hdup.outstanding,
          hdata.trans hdup.seen, hedge⟩
  · intro hbuf st' hok
    have hcount := processACK_dupView (takeWindow st pkt) buf curTs pkt hbuf
    rw [hok] at hcount
    exact hcount

def threeBytes : SendBuffer := (sbPut (sbInit (fun _ => 0) 8 301) [1, 2, 3]).1

def threeSent : TcpStream :=
  { opened with
    sndNxt := 304
    rcvvar := { opened.rcvvar with sndWl1 := 101, sndWl2 := 301, lastAckSeq := 301 }
    sndvar := { opened.sndvar with sndbuf := some threeBytes } }

def ack301 (window : UInt16) : Packet :=
  { seq := 101, ackSeq := 301, ack := true, window := window }

theorem dup_ack_documented_repeated :
    Plain threeSent threeBytes (ack301 1000) ∧ DupAck threeSent (ack301 1000) ∧
      dupFlag (takeWindow threeSent (ack301 1000)) threeBytes (ack301 1000) = true := by
  have hplain : Plain threeSent threeBytes (ack301 1000) :=
    ⟨fun _ => ⟨rfl, by decide, fun _ => rfl⟩, fun _ => ⟨rfl, by decide, rfl⟩⟩
  have hdup : DupAck threeSent (ack301 1000) := ⟨rfl, by decide, by decide, rfl, rfl⟩
  exact ⟨hplain, hdup, ((dup_ack_documented _ _ 0 _).1.mpr hplain).mpr hdup⟩

/-- Segments that only open the window are counted, and the third one starts the fast
retransmission. -/
theorem window_updates_count_as_duplicates :
    ¬DupAck threeSent (ack301 1001) ∧
      dupFlag (takeWindow threeSent (ack301 1001)) threeBytes (ack301 1001) = true ∧
      ((processTCPPacket threeSent ⟨fun _ => 0, 8, 0⟩ 0 (ack301 1001)).map
        fun st => st.rcvvar.dupAcks) = .ok 1 := by
  refine ⟨fun h => absurd h.window (by decide), by decide, by rfl⟩

end StackBench.Mtcp

import StackBench.Mtcp.Flush
import StackBench.Mtcp.StreamFrame

/-!
# What moves the send side of an mTCP stream

The send buffer, `snd_una` and `snd_nxt` change in acks, retransmissions,
flushes and writes only.
-/

namespace StackBench.Mtcp

open Attempt (Ends)

variable (st : TcpStream) (alloc : RecvAlloc) (pkt : Packet)

theorem processTCPPayload_idle :
    Ends (fun out => Idle st out.1 ∧ out.1.dupView = st.dupView) NotCheck
      (processTCPPayload st alloc pkt) := by
  unfold processTCPPayload
  dsimp only
  split
  · exact ⟨rfl, rfl⟩
  split
  · exact ⟨rfl, rfl⟩
  split
  · exact Fault.noConfusion
  split
  · exact Fault.noConfusion
  · exact ⟨rfl, rfl⟩

theorem handlePayload_idle : Ends (fun st' => Idle st st' ∧ st'.dupView = st.dupView) NotCheck
      (handlePayload st alloc pkt) := by
  unfold handlePayload
  split
  · exact ⟨rfl, rfl⟩
  · refine (processTCPPayload_idle st alloc pkt).bind fun out h => ?_
    have hack := enqueueACK_aside out.1 (if out.2 then .aggregate else .now)
    exact ⟨h.1.trans hack.idle, hack.dupView.trans h.2⟩

/-- What an ack takes off the send buffer in `ProcessACK`. -/
def takeAcked (st : TcpStream) (ackSeq : UInt32) : TcpStream :=
  match st.sndvar.sndbuf with
  | none => st
  | some buf =>
    if tcpSeqGt ackSeq (buf.headSeq + buf.len) then st
    else if tcpSeqGeq buf.headSeq ackSeq then st
    else removeAcked st buf ackSeq (ackSeq - buf.headSeq)

/-- `snd_nxt` after the third duplicate of an ack, and after an ack of bytes
that were not sent yet. -/
def ackedNxt (sndNxt ackSeq : UInt32) : UInt32 := if tcpSeqGt ackSeq sndNxt then ackSeq else sndNxt

theorem fastRetransmit_view (dup : Bool) (ackSeq : UInt32) :
    Ends (fun st' => st'.sendView = st.sendView ∨
        dup = true ∧ st.rcvvar.dupAcks = 3 ∧ st'.sendView = { st.sendView with sndNxt := ackSeq })
      NotCheck (fastRetransmit st dup ackSeq) := by
  unfold fastRetransmit
  split
  · next hthird =>
    rw [Bool.and_eq_true, beq_iff_eq] at hthird
    refine (ends_idle (addtoSendList_aside _)).mono fun st' h => ?_
    by_cases hlt : tcpSeqLt ackSeq st.sndNxt = true
    · rw [if_pos hlt] at h
      exact Or.inr ⟨hthird.1, hthird.2, h⟩
    · rw [if_neg hlt] at h
      exact Or.inl h
  split
  · dsimp only
    split <;> exact Or.inl rfl
  · exact Or.inl rfl

theorem recoverFromLoss_view (buf : SendBuffer) (ackSeq : UInt32) :
    Ends (fun st' => st'.sendView = { st.sendView with sndNxt := ackedNxt st.sndNxt ackSeq })
      NotCheck (recoverFromLoss st buf ackSeq) := by
  unfold recoverFromLoss ackedNxt
  split
  · split
    · exact rfl
    · exact ends_idle (addtoSendList_aside _)
  · exact rfl

/-- An ack that is not ahead of the send buffer: `snd_nxt` moves, and the acked
bytes leave the buffer. -/
structure Acked (st : TcpStream) (ackSeq : UInt32) (v : SendView) (n : UInt32) : Prop where
  sndNxt : n = st.sndNxt ∨
    st.rcvvar.dupAcks = 2 ∧ ackSeq = st.rcvvar.lastAckSeq ∧ n = ackSeq
  view : v = { (takeAcked st ackSeq).sendView with sndNxt := ackedNxt n ackSeq }

theorem countDupAck_idle (dup : Bool) (ackSeq : UInt32) : Idle st (countDupAck st dup ackSeq) := by
  unfold countDupAck
  split <;> exact rfl

theorem removeAcked_view (buf : SendBuffer) (ackSeq rmlen : UInt32) :
    (removeAcked st buf ackSeq rmlen).sendView =
      { st.sendView with
        sndbuf := some (sbRemove buf rmlen.toNat).1
        sndUna := ackSeq
        sndWnd := (sbRemove buf rmlen.toNat).1.size - (sbRemove buf rmlen.toNat).1.len } :=
  rfl

/-- The first part of `ProcessACK`: only the third duplicate moves `snd_nxt`. -/
theorem fastRetransmit_acked (ackSeq edge : UInt32) : let upd := updateWindow st pkt ackSeq
    let dup := isDupAck upd pkt ackSeq edge
    Ends (fun st' => ∃ n, (n = st.sndNxt ∨
          st.rcvvar.dupAcks = 2 ∧ ackSeq = st.rcvvar.lastAckSeq ∧ n = ackSeq) ∧
        st'.sendView = { st.sendView with sndNxt := n })
      NotCheck (fastRetransmit (countDupAck upd dup ackSeq) dup ackSeq) := by
  intro upd dup
  have hupd := updateWindow_aside st pkt ackSeq
  have hcount : upd.rcvvar.dupAcks = st.rcvvar.dupAcks := congrArg Prod.fst hupd.dupView
  have hlast : upd.rcvvar.lastAckSeq = st.rcvvar.lastAckSeq := congrArg Prod.snd hupd.dupView
  have hview : (countDupAck upd dup ackSeq).sendView = st.sendView :=
    hupd.idle.trans (countDupAck_idle upd dup ackSeq)
  refine (fastRetransmit_view _ dup ackSeq).mono fun st' h => ?_
  rw [hview] at h
  rcases h with h | ⟨hdup, hthird, h⟩
  · exact ⟨st.sndNxt, Or.inl rfl, h⟩
  refine ⟨ackSeq, Or.inr ⟨?_, ?_, rfl⟩, h⟩
  · rw [countDupAck, if_pos hdup] at hthird
    grind
  · have hdup' : isDupAck upd pkt ackSeq edge = true := hdup
    simp only [isDupAck, Bool.and_eq_true, beq_iff_eq] at hdup'
    rw [← hlast]
    exact hdup'.1.1.2

theorem processACK_view {st : TcpStream} {buf : SendBuffer} (hbuf : st.sndvar.sndbuf = some buf)
    (curTs : UInt32) (pkt : Packet) :
    Ends (fun st' =>
        tcpSeqGt (dataAck st pkt.ackSeq) (buf.headSeq + buf.len) ∧ st'.sendView = st.sendView ∨
        ¬tcpSeqGt (dataAck st pkt.ackSeq) (buf.headSeq + buf.len) ∧
          ∃ n, Acked st (dataAck st pkt.ackSeq) st'.sendView n)
      NotCheck (processACK st buf curTs pkt) := by
  unfold processACK
  dsimp only
  generalize dataAck st pkt.ackSeq = ackSeq
  split
  · next hahead => exact Or.inl ⟨hahead, rfl⟩
  next hahead =>
    refine Ends.bind (fastRetransmit_acked st pkt ackSeq _) ?_
    rintro st₁ ⟨n, hn, h₁⟩
    refine Ends.bind (ends_idle (parseSACKOption_aside st₁ pkt.sack)) fun st₂ h₂ => ?_
    refine Ends.bind (recoverFromLoss_view st₂ buf ackSeq) fun st₃ h₃ => ?_
    have hsame : st₂.sendView = { st.sendView with sndNxt := n } := Eq.trans h₂ h₁
    have hnxt : st₂.sndNxt = n := congrArg SendView.sndNxt hsame
    rw [hsame, hnxt] at h₃
    split
    · exact Fault.noConfusion
    split
    · next hold =>
      refine Or.inr ⟨hahead, n, hn, ?_⟩
      rw [takeAcked, hbuf]
      dsimp only
      rw [if_neg hahead, if_pos hold]
      exact h₃
    next hnew =>
      refine Ends.bind (ends_idle (measureRTT_aside st₃ curTs)) fun st₄ h₄ => ?_
      refine Ends.bind (ends_idle (growWindow_aside st₄ _)) fun st₅ h₅ => ?_
      refine (ends_idle (updateRetransmissionTimer_aside _ curTs)).mono fun st₆ h₆ => ?_
      refine Or.inr ⟨hahead, n, hn, ?_⟩
      rw [takeAcked, hbuf]
      dsimp only
      rw [if_neg hahead, if_neg hnew]
      have h₇ := Eq.trans h₅ (Eq.trans h₄ h₃)
      rw [Idle, removeAcked_view, h₇] at h₆
      exact h₆

theorem advertise_idle : Idle st (advertise st) := by
  unfold advertise
  split <;> exact Idle.refl st

theorem copyToUser_idle (rb : RingBuffer) (len : ℤ) :
    Ends (fun out => Idle st out.st) NotCheck (copyToUser st rb len) := by
  unfold copyToUser
  dsimp only
  split
  · exact Idle.refl st
  split
  · exact Fault.noConfusion
  · exact advertise_idle _

theorem mtcpRecv_idle (len : ℤ) : Ends (fun out => Idle st out.st) NotCheck (mtcpRecv st len) := by
  unfold mtcpRecv
  split
  all_goals first
    | exact Idle.refl st
    | split
      · exact Idle.refl st
      · exact copyToUser_idle st _ len

end StackBench.Mtcp

import StackBench.Lib.Attempt
import StackBench.Mtcp.StreamOps

/-!
# What leaves both sides of an mTCP stream alone

Lists, timers, acks and estimates of the round trip are moved by many functions
that read neither buffer. They keep the receive side, the send side and the
count of duplicate acks.
-/

namespace StackBench.Mtcp

open Attempt (Ends)

/-- The part of a stream that the receive path reads and writes. -/
structure RecvView where
  onHashTable : Bool
  rcvNxt : UInt32
  irs : UInt32
  rcvWnd : UInt32
  rcvbuf : Option RingBuffer
  puts : List PutRecord

def TcpStream.recvView (st : TcpStream) : RecvView where
  onHashTable := st.onHashTable
  rcvNxt := st.rcvNxt
  irs := st.rcvvar.irs
  rcvWnd := st.rcvvar.rcvWnd
  rcvbuf := st.rcvvar.rcvbuf
  puts := st.puts

/-- The receive side and the state are the same. -/
structure Still (st st' : TcpStream) : Prop where
  view : st'.recvView = st.recvView
  state : st'.state = st.state

variable (st : TcpStream)

theorem Still.refl : Still st st := ⟨rfl, rfl⟩

variable {a b c : TcpStream}

theorem Still.trans (h : Still a b) (h' : Still b c) : Still a c :=
  ⟨h'.view.trans h.view, h'.state.trans h.state⟩

theorem Still.after (h : Still b c) (hview : b.recvView = a.recvView)
    (hstate : b.state = a.state) : Still a c :=
  ⟨h.view.trans hview, h.state.trans hstate⟩

/-- The errors that do not come from the receive buffer. -/
def NotRing (f : Fault) : Prop := f ≠ .ringBuffer

/-- The part of a stream that decides what is sent, without the windows. -/
structure SendView where
  onHashTable : Bool
  state : TcpState
  isFinSent : Bool
  onCloseq : Bool
  onCloseqInt : Bool
  onDestroyq : Bool
  iss : UInt32
  sndUna : UInt32
  sndWnd : UInt32
  sndNxt : UInt32
  sndbuf : Option SendBuffer

def TcpStream.sendView (st : TcpStream) : SendView where
  onHashTable := st.onHashTable
  state := st.state
  isFinSent := st.sndvar.isFinSent
  onCloseq := st.sndvar.onCloseq
  onCloseqInt := st.sndvar.onCloseqInt
  onDestroyq := st.onDestroyq
  iss := st.sndvar.iss
  sndUna := st.sndvar.sndUna
  sndWnd := st.sndvar.sndWnd
  sndNxt := st.sndNxt
  sndbuf := st.sndvar.sndbuf

def Idle (st st' : TcpStream) : Prop := st'.sendView = st.sendView

theorem Idle.refl : Idle st st := rfl

theorem Idle.trans (h : Idle a b) (h' : Idle b c) : Idle a c := Eq.trans h' h

/-- The errors that are not the sanity checks of `FlushTCPSendingBuffer`. -/
def NotCheck (f : Fault) : Prop := f ≠ .flushCheck

/-- The count of duplicate acks. -/
def TcpStream.dupView (st : TcpStream) : UInt8 × UInt32 := (st.rcvvar.dupAcks, st.rcvvar.lastAckSeq)

def TcpStream.views (st : TcpStream) : RecvView × SendView × UInt8 × UInt32 :=
  (st.recvView, st.sendView, st.dupView)

/-- Neither side of the stream moves, and no duplicate is counted. -/
def Aside (st st' : TcpStream) : Prop := st'.views = st.views

theorem Aside.refl : Aside st st := rfl

theorem Aside.trans (h : Aside a b) (h' : Aside b c) : Aside a c := Eq.trans h' h

section Views

variable {st st' : TcpStream} (h : Aside st st')
include h

theorem Aside.still : Still st st' := ⟨congrArg Prod.fst h, congrArg (fun v => v.2.1.state) h⟩

theorem Aside.idle : Idle st st' := (congrArg (·.2.1) h : st'.views.2.1 = st.views.2.1)

theorem Aside.dupView : st'.dupView = st.dupView := congrArg (fun v => v.2.2) h

end Views

/-- The errors of neither buffer. -/
def NotBuffer (f : Fault) : Prop := NotRing f ∧ NotCheck f

section Ends

variable {st : TcpStream} {x : Outcome TcpStream}

theorem ends_still (h : Ends (Aside st) NotBuffer x) : Ends (Still st) NotRing x :=
  (h.mono fun _ h => h.still).weaken fun _ hf => hf.1

theorem ends_idle (h : Ends (Aside st) NotBuffer x) : Ends (Idle st) NotCheck x :=
  (h.mono fun _ h => h.idle).weaken fun _ hf => hf.2

end Ends

variable (st : TcpStream) (pkt : Packet) (curTs : UInt32)

theorem enqueueACK_aside (opt : AckOpt) : Aside st (enqueueACK st opt) := by
  cases opt with
  | now => exact Aside.refl st
  | aggregate =>
    unfold enqueueACK
    dsimp only
    split <;> exact Aside.refl st
  | wack => exact Aside.refl st

theorem addtoControlList_aside : Aside st (addtoControlList st) := Aside.refl st

theorem addtoSendList_aside : Ends (Aside st) NotBuffer (addtoSendList st) := by
  unfold addtoSendList
  split
  · exact ⟨Fault.noConfusion, Fault.noConfusion⟩
  · exact Aside.refl st

theorem addtoRTOList_aside : Aside st (addtoRTOList st) := by
  unfold addtoRTOList
  split <;> exact Aside.refl st

theorem addtoTimewaitList_aside : Aside st (addtoTimewaitList st) := by
  unfold addtoTimewaitList
  split <;> exact Aside.refl st

theorem updateRetransmissionTimer_aside :
    Ends (Aside st) NotBuffer (updateRetransmissionTimer st curTs) := by
  unfold updateRetransmissionTimer
  dsimp only
  split
  · exact ⟨Fault.noConfusion, Fault.noConfusion⟩
  split
  · exact addtoRTOList_aside _
  · exact Aside.refl st

theorem controlListTurn_aside (otherList : Bool) : Aside st (controlListTurn st otherList) := by
  unfold controlListTurn
  split <;> exact Aside.refl st

theorem handleSendq_aside : Ends (Aside st) NotBuffer (handleSendq st) := by
  unfold handleSendq
  split
  · exact addtoSendList_aside _
  · exact Aside.refl st

theorem handleAckq_aside : Aside st (handleAckq st) := by
  unfold handleAckq
  split
  · exact enqueueACK_aside _ _
  · exact Aside.refl st

theorem checkTimestamp_aside : Aside st (checkTimestamp st pkt).1 := by
  unfold checkTimestamp
  split
  · exact Aside.refl st
  split
  · exact Aside.refl st
  split <;> exact Aside.refl st

theorem answerInvalid_aside : Aside st (answerInvalid st pkt) := by
  unfold answerInvalid
  split
  · exact Aside.refl st
  split
  · split <;> exact enqueueACK_aside st _
  split
  · exact addtoTimewaitList_aside st
  · exact Aside.refl st

theorem validateSequence_aside : Aside st (validateSequence st pkt).1 := by
  have hts := checkTimestamp_aside st pkt
  unfold validateSequence
  split
  · next h => rwa [h] at hts
  next h =>
  rw [h] at hts
  split
  · exact hts
  · exact hts.trans (answerInvalid_aside _ pkt)

theorem updateWindow_aside (ackSeq : UInt32) : Aside st (updateWindow st pkt ackSeq) := by
  unfold updateWindow
  dsimp only
  split <;> exact Aside.refl st

theorem updateSackTable_aside (left right : UInt32) :
    Ends (Aside st) NotBuffer (updateSackTable st left right) := by
  unfold updateSackTable
  split
  · exact Aside.refl st
  split
  · exact ⟨Fault.noConfusion, Fault.noConfusion⟩
  · unfold storeSack
    split <;> exact Aside.refl st

theorem parseSACKOption_aside (blocks : List (UInt32 × UInt32)) :
    Ends (Aside st) NotBuffer (parseSACKOption st blocks) := by
  induction blocks generalizing st with
  | nil => exact Aside.refl st
  | cons block blocks ih =>
    obtain ⟨left, right⟩ := block
    refine (updateSackTable_aside st left right).bind fun st' h => ?_
    exact (ih st').mono fun st'' h' => h.trans h'

theorem estimateRTT_aside (mrtt : UInt32) : Aside st (estimateRTT st mrtt) := by
  unfold estimateRTT updateRTT
  dsimp only
  split
  · split <;> exact Aside.refl st
  · exact Aside.refl st

theorem measureRTT_aside : Ends (Aside st) NotBuffer (measureRTT st curTs) := by
  unfold measureRTT
  split
  · dsimp only
    split
    · exact ⟨Fault.noConfusion, Fault.noConfusion⟩
    · exact estimateRTT_aside st _
  · exact Aside.refl st

theorem growWindow_aside (packets : UInt16) :
    Ends (Aside st) NotBuffer (growWindow st packets) := by
  unfold growWindow
  dsimp only
  split
  · split <;> exact Aside.refl st
  split
  · exact ⟨Fault.noConfusion, Fault.noConfusion⟩
  · split <;> exact Aside.refl st

theorem windowFull_aside : Aside st (windowFull st curTs) := by
  unfold windowFull
  split
  · exact enqueueACK_aside st .wack
  · exact Aside.refl st

theorem sendTCPPacket_aside (flags : OutFlags) (hfin : flags.fin = false) (txBuf : Bool) :
    Aside st (sendTCPPacket st curTs flags [] txBuf).st := by
  unfold sendTCPPacket
  split
  · exact Aside.refl st
  split
  · exact Aside.refl st
  unfold packetSent
  simp only [hfin, Bool.false_and, List.length_nil, Bool.toNat_false, Nat.add_zero, lt_irrefl,
    if_false]
  simp only [Aside, TcpStream.views, TcpStream.sendView, Bool.or_false]
  rw [show UInt32.ofNat 0 = 0 from rfl, UInt32.add_zero]
  rfl

theorem sendAcks_aside (fuel txBufs : ℕ) (out : WriteOut) :
    Aside out.st (sendAcks curTs fuel txBufs out).1.st := by
  induction fuel generalizing txBufs out with
  | zero => exact Aside.refl _
  | succ fuel ih =>
    have hsend := sendTCPPacket_aside out.st curTs { ack := true } rfl (0 < txBufs)
    unfold sendAcks
    dsimp only
    split
    · exact Aside.refl _
    split
    · exact hsend
    · exact hsend.trans (ih _ _)

theorem sendWack_aside (txBuf : Bool) (out : WriteOut) :
    Aside out.st (sendWack curTs txBuf out).st := by
  unfold sendWack
  split
  · have hsend := sendTCPPacket_aside
      { out.st with sndvar := { out.st.sndvar with isWack := false } } curTs
        { ack := true, wack := true } rfl txBuf
    dsimp only
    split
    · exact hsend
    · exact hsend
  · exact Aside.refl _

theorem leaveAckList_aside : Aside st (leaveAckList st) := by
  unfold leaveAckList
  split <;> exact Aside.refl st

theorem writeTCPACKList_aside (txBufs : ℕ) : Aside st (writeTCPACKList st curTs txBufs).st := by
  unfold writeTCPACKList
  split
  · exact Aside.refl st
  split
  · have hsent := (sendAcks_aside curTs 64 txBufs { st := st }).trans (sendWack_aside curTs
      (0 < (sendAcks curTs 64 txBufs { st := st }).2) _)
    exact hsent.trans ((leaveAckList_aside _).trans (controlListTurn_aside _ _))
  · exact controlListTurn_aside _ _

end StackBench.Mtcp

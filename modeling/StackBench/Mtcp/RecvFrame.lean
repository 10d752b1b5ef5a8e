import StackBench.Mtcp.Flush
import StackBench.Mtcp.StreamFrame

/-!
# What leaves the receive side of an mTCP stream alone

The receive buffer changes only when payload is put into it and when the
application reads.
-/

namespace StackBench.Mtcp

open Attempt (Ends)

/-- The states in which payload is taken. -/
def TcpState.takesPayload : TcpState → Bool
  | .established | .finWait1 | .finWait2 => true
  | _ => false

/-- The states that follow a close of the application. -/
def TcpState.userClosed : TcpState → Bool
  | .finWait1 | .finWait2 | .closing | .timeWait | .closed => true
  | _ => false

/-- The receive side is the same, and no state comes back that was left. -/
structure Quiet (st st' : TcpStream) : Prop where
  view : st'.recvView = st.recvView
  payload : st'.state.takesPayload → st.state.takesPayload
  closed : st.state.userClosed → st'.state.userClosed

theorem Still.quiet {st st' : TcpStream} (h : Still st st') : Quiet st st' :=
  ⟨h.view, fun hp => h.state ▸ hp, fun hc => by rw [h.state]; exact hc⟩

variable {a b c : TcpStream}

theorem Quiet.trans (h : Quiet a b) (h' : Quiet b c) : Quiet a c :=
  ⟨h'.view.trans h.view, fun hp => h.payload (h'.payload hp), fun hc => h'.closed (h.closed hc)⟩

structure Gone (st st' : TcpStream) : Prop where
  onHashTable : st'.onHashTable = false
  rcvbuf : st'.rcvvar.rcvbuf = none
  puts : st'.puts = st.puts

/-- The receive side is kept, or the stream has ended. -/
def Calm (st st' : TcpStream) : Prop := Quiet st st' ∨ Gone st st'

theorem Still.calm {st st' : TcpStream} (h : Still st st') : Calm st st' := Or.inl h.quiet

theorem Quiet.gone (h : Gone a b) (h' : Quiet b c) : Gone a c :=
  ⟨(congrArg RecvView.onHashTable h'.view).trans h.onHashTable,
    (congrArg RecvView.rcvbuf h'.view).trans h.rcvbuf,
    (congrArg RecvView.puts h'.view).trans h.puts⟩

theorem Calm.trans (h : Calm a b) (h' : Calm b c) : Calm a c := by
  rcases h with h | h
  · rcases h' with h' | h'
    · exact Or.inl (h.trans h')
    · exact Or.inr ⟨h'.onHashTable, h'.rcvbuf, h'.puts.trans (congrArg RecvView.puts h.view)⟩
  · rcases h' with h' | h'
    · exact Or.inr (h'.gone h)
    · exact Or.inr ⟨h'.onHashTable, h'.rcvbuf, h'.puts.trans h.puts⟩

variable (st : TcpStream) (buf : SendBuffer) (curTs : UInt32) (txBuf : Bool) (pkt : Packet)

theorem destroyTCPStream_gone : Gone st (destroyTCPStream st) := ⟨rfl, rfl, rfl⟩

theorem Still.addtoSendList {st st' : TcpStream} (h : Still st st') :
    Ends (Still st) NotRing (addtoSendList st') :=
  (ends_still (addtoSendList_aside st')).mono fun _ h' => h.trans h'

theorem countDupAck_still (dup : Bool) (ackSeq : UInt32) :
    Still st (countDupAck st dup ackSeq) := by
  unfold countDupAck
  split <;> exact ⟨rfl, rfl⟩

theorem fastRetransmit_still (dup : Bool) (ackSeq : UInt32) :
    Ends (Still st) NotRing (fastRetransmit st dup ackSeq) := by
  unfold fastRetransmit
  split
  · exact Still.addtoSendList ⟨rfl, rfl⟩
  split
  · dsimp only
    split <;> exact ⟨rfl, rfl⟩
  · exact Still.refl st

theorem recoverFromLoss_still (ackSeq : UInt32) :
    Ends (Still st) NotRing (recoverFromLoss st buf ackSeq) := by
  unfold recoverFromLoss
  split
  · split
    · exact ⟨rfl, rfl⟩
    · exact Still.addtoSendList ⟨rfl, rfl⟩
  · exact Still.refl st

theorem processACK_still : Ends (Still st) NotRing (processACK st buf curTs pkt) := by
  unfold processACK
  dsimp only
  split
  · exact Still.refl st
  refine Ends.bind ((fastRetransmit_still _ _ _).mono fun st' h =>
    ((updateWindow_aside _ _ _).still.trans (countDupAck_still _ _ _)).trans h) fun st₁ h₁ => ?_
  refine (ends_still (parseSACKOption_aside _ _)).bind fun st₂ h₂ => ?_
  refine (recoverFromLoss_still _ _ _).bind fun st₃ h₃ => ?_
  have hrecovered := h₁.trans (h₂.trans h₃)
  split
  · exact Fault.noConfusion
  split
  · exact hrecovered
  refine (ends_still (measureRTT_aside _ _)).bind fun st₄ h₄ => ?_
  refine (ends_still (growWindow_aside _ _)).bind fun st₅ h₅ => ?_
  refine (ends_still (updateRetransmissionTimer_aside _ _)).mono fun _ h₆ => ?_
  exact hrecovered.trans (h₄.trans (h₅.trans (h₆.after rfl rfl)))

theorem processACKIfBuffered_still :
    Ends (Still st) NotRing (processACKIfBuffered st curTs pkt) := by
  unfold processACKIfBuffered
  split
  · exact Still.refl st
  · exact processACK_still st _ curTs pkt

theorem retransmit_still : Ends (Still st) NotRing (retransmit st) := by
  unfold retransmit
  dsimp only
  split
  · exact Still.addtoSendList ⟨rfl, rfl⟩
  · exact Still.addtoSendList ⟨rfl, rfl⟩
  · split
    · exact Still.addtoSendList ⟨rfl, rfl⟩
    · exact ⟨rfl, rfl⟩
  · split
    · exact Still.addtoSendList ⟨rfl, rfl⟩
    · exact ⟨rfl, rfl⟩
  · split
    · exact Still.addtoSendList ⟨rfl, rfl⟩
    · exact ⟨rfl, rfl⟩
  all_goals exact Fault.noConfusion

theorem handleRTO_calm : Ends (Calm st) NotRing (handleRTO st) := by
  unfold handleRTO
  dsimp only
  split
  · exact Fault.noConfusion
  split
  · exact Still.calm ⟨rfl, rfl⟩
  split
  · have hlost : Calm st { removeFromRTOList st with
        state := .closed, closeReason := .connLost } :=
      Or.inl ⟨rfl, Bool.noConfusion, fun _ => rfl⟩
    split
    · exact hlost
    · exact hlost.trans (Or.inr (destroyTCPStream_gone _))
  · exact (retransmit_still _).mono fun _ h => (h.after rfl rfl : Still st _).calm

theorem packetSent_still (flags : OutFlags) (payloadlen : ℕ) :
    Still st (packetSent st curTs flags payloadlen) := by
  unfold packetSent
  dsimp only
  split
  · exact (addtoRTOList_aside _).still.after rfl rfl
  · exact ⟨rfl, rfl⟩

theorem sendTCPPacket_still (flags : OutFlags) (payload : List UInt8) (txBuf : Bool) :
    Still st (sendTCPPacket st curTs flags payload txBuf).st := by
  unfold sendTCPPacket
  split
  · exact Still.refl st
  split
  · exact Still.refl st
  · exact packetSent_still st curTs flags payload.length

theorem flushTCPSendingBuffer_still (txBufs : ℕ) :
    Ends (fun out => Still st out.st) NotRing (flushTCPSendingBuffer st curTs txBufs) := by
  have hrounds : ∀ buf, st.sndvar.sndbuf = some buf → Rounds buf curTs fun out =>
      Still st out.st := fun buf _ =>
    { skip := fun out h _ _ => h.trans ⟨rfl, rfl⟩
      full := fun out h => h.trans (windowFull_aside out.st curTs).still
      fail := fun out h => h
      sent := fun out seg h _ _ => h.trans (packetSent_still out.st curTs _ _) }
  refine (Rounds.flush hrounds txBufs (Still.refl st)).weaken fun f hf => ?_
  rcases hf with rfl | rfl | rfl <;> exact Fault.noConfusion

theorem sendControlPacket_calm : Calm st (sendControlPacket st curTs txBuf).st := by
  unfold sendControlPacket
  split
  · exact (Still.refl st).calm
  next flags _ =>
  have hsend := (sendTCPPacket_still st curTs flags [] txBuf).calm
  dsimp only
  split
  · exact hsend.trans (Or.inr (destroyTCPStream_gone _))
  · exact hsend

theorem writeTCPControlList_calm : Calm st (writeTCPControlList st curTs txBuf).st := by
  have hremove : Still st (removeFromControlList st) := ⟨rfl, rfl⟩
  unfold writeTCPControlList
  split
  · have hsend := hremove.calm.trans (sendControlPacket_calm _ curTs txBuf)
    dsimp only
    split
    · exact hsend.trans (addtoControlList_aside _).still.calm
    · exact hsend
  · exact (Still.refl st).calm

theorem writeTCPDataList_still (txBufs : ℕ) :
    Ends (fun out => Still st out.st) NotRing (writeTCPDataList st curTs txBufs) := by
  unfold writeTCPDataList
  split
  · exact Still.refl st
  refine Ends.map (Q := fun out : FlushOut => Still st out.st) ?_ ?_
  · split
    · split
      · exact Still.refl st
      · exact flushTCPSendingBuffer_still st curTs txBufs
    all_goals first
      | exact flushTCPSendingBuffer_still st curTs txBufs
      | exact Still.refl st
  · intro out hout
    split
    · exact hout
    · exact hout.trans ((controlListTurn_aside _ _).still.after rfl rfl)

variable (alloc : SendAlloc) (data : List UInt8)

theorem copyFromUser_still :
    Ends (fun out => Still st out.1) NotRing (copyFromUser st alloc data) := by
  unfold copyFromUser
  dsimp only
  split
  · exact Still.refl st
  split
  · exact Fault.noConfusion
  · exact ⟨rfl, rfl⟩

theorem mtcpWrite_still : Ends (fun out => Still st out.1) NotRing (mtcpWrite st alloc data) := by
  have hcopy := copyFromUser_still st alloc data
  unfold mtcpWrite
  split
  all_goals first
    | exact Still.refl st
    | split
      · exact Still.refl st
      · refine hcopy.map fun out hout => ?_
        dsimp only
        split
        · exact hout.trans ⟨rfl, rfl⟩
        · exact hout

theorem closeState_quiet : Quiet st { st with state := closeState st.state } := by
  refine ⟨rfl, ?_, ?_⟩
  · dsimp only
    cases st.state <;> decide
  · dsimp only
    cases st.state <;> decide

theorem Quiet.calm {st st' : TcpStream} (h : Quiet st st') : Calm st st' := Or.inl h

theorem startClose_calm : Calm st (startClose st) := by
  have hclose := (closeState_quiet st).calm
  unfold startClose
  split
  · split
    · exact (Still.refl st).calm
    · exact Or.inr ⟨rfl, rfl, rfl⟩
  split
  · exact Still.calm ⟨rfl, rfl⟩
  split
  · exact hclose.trans (Still.calm ⟨rfl, rfl⟩)
  split
  · exact (Still.refl st).calm
  · exact hclose.trans (addtoControlList_aside _).still.calm

theorem handleCloseq_calm : Calm st (handleCloseq st) := by
  unfold handleCloseq
  split
  · have htake : Still st
        { st with sndvar := { st.sndvar with onCloseq := false, fss := finalSeq st } } := ⟨rfl, rfl⟩
    exact htake.calm.trans (startClose_calm _)
  · exact (Still.refl st).calm

theorem handleCloseqInt_calm : Calm st (handleCloseqInt st) := by
  unfold handleCloseqInt
  split
  · exact (Still.refl st).calm
  have htake : Still st { st with sndvar := { st.sndvar with onCloseqInt := false } } := ⟨rfl, rfl⟩
  dsimp only
  split
  · exact htake.calm
  · exact htake.calm.trans ((closeState_quiet _).calm.trans (addtoControlList_aside _).still.calm)

theorem handleDestroyq_calm : Calm st (handleDestroyq st) := by
  unfold handleDestroyq
  split
  · exact Or.inr ⟨rfl, rfl, rfl⟩
  · exact (Still.refl st).calm

theorem handleApplicationCalls_calm : Ends (Calm st) NotRing (handleApplicationCalls st) := by
  refine (ends_still (handleSendq_aside st)).map fun st₁ h₁ => ?_
  refine h₁.calm.trans ((handleAckq_aside st₁).still.calm.trans ?_)
  exact (handleCloseq_calm _).trans ((handleCloseqInt_calm _).trans (handleDestroyq_calm _))

theorem closeStreamSocket_still : Still st (closeStreamSocket st) := by
  unfold closeStreamSocket
  split
  · exact Still.refl st
  dsimp only
  split <;> exact ⟨rfl, rfl⟩

theorem handleCloseWait_still : Ends (Still st) NotRing (handleCloseWait st curTs pkt) := by
  unfold handleCloseWait
  split
  · exact (addtoControlList_aside st).still
  · exact processACKIfBuffered_still st curTs pkt

theorem handleLastAck_calm : Ends (Calm st) NotRing (handleLastAck st curTs pkt) := by
  unfold handleLastAck
  split
  · exact (Still.refl st).calm
  split
  · exact (addtoControlList_aside st).still.calm
  refine (processACKIfBuffered_still st curTs pkt).bind fun st₁ hstill => ?_
  split
  · exact hstill.calm
  split
  · refine (ends_still (updateRetransmissionTimer_aside _ curTs)).bind fun st₂ hstill₂ => ?_
    have hstill₃ : Still st st₂ := hstill.trans (hstill₂.after rfl rfl)
    exact Or.inr ⟨rfl, rfl, (congrArg RecvView.puts hstill₃.view :)⟩
  · exact (hstill.trans (addtoControlList_aside st₁).still).calm

theorem handleClosing_quiet : Ends (Quiet st) NotRing (handleClosing st curTs pkt) := by
  unfold handleClosing
  split
  · exact (Still.refl st).quiet
  refine (processACKIfBuffered_still st curTs pkt).bind fun st₁ hstill => ?_
  split
  · exact hstill.quiet
  refine (ends_still (updateRetransmissionTimer_aside _ curTs)).bind fun st₂ hstill₂ => ?_
  have hstill₃ : Still st st₂ := hstill.trans (hstill₂.after rfl rfl)
  have hquiet : Quiet st { st₂ with state := .timeWait } :=
    ⟨hstill₃.view, fun hp => absurd hp Bool.false_ne_true, fun _ => rfl⟩
  exact hquiet.trans (addtoTimewaitList_aside _).still.quiet

end StackBench.Mtcp

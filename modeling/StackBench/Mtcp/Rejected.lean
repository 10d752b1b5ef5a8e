import StackBench.Lib.Run
import StackBench.Mtcp.StreamFrame

/-!
# Segments that mTCP rejects

`ValidateSequence` stores the timestamp of a segment before it looks at the
sequence number, so a segment that it rejects can decide about later ones.
-/

namespace StackBench.Mtcp

def TcpStream.tsView (st : TcpStream) : Bool × UInt32 × UInt32 :=
  (st.sawTimestamp, st.rcvvar.tsRecent, st.rcvvar.tsLastackRcvd)

/-- The timestamp is not looked at, is missing or old, or is the stored one. -/
def Harmless (st : TcpStream) (pkt : Packet) : Prop :=
  pkt.rst = true ∨ st.sawTimestamp = false ∨ ∀ ts, pkt.ts = some ts →
    tcpSeqLt ts.1 st.rcvvar.tsRecent = true ∨ ts = (st.rcvvar.tsRecent, st.rcvvar.tsLastackRcvd)

/-- The segment comes after the handshake, and `ValidateSequence` returns false. -/
def Rejects (st : TcpStream) (pkt : Packet) : Prop :=
  st.state ≠ .closed ∧ (validateSequence st pkt).2 = false

/-- The timestamps and the receive side are the same. -/
structure Unmoved (st st' : TcpStream) : Prop where
  ts : st'.tsView = st.tsView
  view : st'.recvView = st.recvView

variable {st st' : TcpStream} {pkt : Packet}

theorem answerInvalid_tsView (st : TcpStream) (pkt : Packet) :
    (answerInvalid st pkt).tsView = st.tsView := by
  unfold answerInvalid addtoTimewaitList
  repeat' split
  all_goals rfl

theorem checkTimestamp_tsView (h : Harmless st pkt) :
    (checkTimestamp st pkt).1.tsView = st.tsView := by
  unfold checkTimestamp
  split
  · rfl
  next hlook =>
  rw [Bool.or_eq_true, Bool.not_eq_true', not_or] at hlook
  split
  · rfl
  next hts =>
  split
  · rfl
  next hnew =>
  have hsame := ((h.resolve_left hlook.1).resolve_left hlook.2 _ hts).resolve_left hnew
  exact congrArg (Prod.mk st.sawTimestamp) hsame

theorem validateSequence_unmoved (h : Harmless st pkt) :
    Unmoved st (validateSequence st pkt).1 := by
  refine ⟨?_, (validateSequence_aside st pkt).still.view⟩
  have hts := checkTimestamp_tsView h
  unfold validateSequence
  split
  · next heq => rwa [heq] at hts
  next heq =>
  rw [heq] at hts
  split
  · exact hts
  · exact (answerInvalid_tsView _ pkt).trans hts

theorem Unmoved.accepts (h : Unmoved st st') (pkt : Packet) :
    (validateSequence st' pkt).2 = (validateSequence st pkt).2 := by
  obtain ⟨hts, hview⟩ := h
  simp only [TcpStream.tsView, TcpStream.recvView, Prod.mk.injEq, RecvView.mk.injEq] at hts hview
  unfold validateSequence checkTimestamp
  grind

/-- `ProcessTCPPacket`, where it returns. -/
def processed (st : TcpStream) (seg : RecvAlloc × UInt32 × Packet) : TcpStream :=
  ((processTCPPacket st seg.1 seg.2.1 seg.2.2).toOption).getD st

theorem processed_rejects {seg : RecvAlloc × UInt32 × Packet} (h : Rejects st seg.2.2) :
    processed st seg = (validateSequence st seg.2.2).1 := by
  unfold processed processTCPPacket
  rw [if_neg h.1, ← Prod.mk.eta (p := validateSequence st seg.2.2), h.2]
  rfl

/-- After rejected segments with harmless timestamps the stream accepts the same segments. -/
theorem rejected_without_effect (st : TcpStream) (segs : List (RecvAlloc × UInt32 × Packet))
    (hrun : Run.Admissible processed (fun st seg => Rejects st seg.2.2 ∧ Harmless st seg.2.2)
      st segs) :
    (segs.foldl processed st).tsView = st.tsView ∧
      ∀ pkt, (validateSequence (segs.foldl processed st) pkt).2 =
        (validateSequence st pkt).2 := by
  have hend : Unmoved st (segs.foldl processed st) := by
    refine hrun.invariant ⟨rfl, rfl⟩ fun s seg hs hseg => ?_
    have hstep := validateSequence_unmoved hseg.2
    rw [processed_rejects hseg.1]
    exact ⟨hstep.ts.trans hs.ts, hstep.view.trans hs.view⟩
  exact ⟨hend.ts, hend.accepts⟩

def stamped : TcpStream :=
  passiveOpen smallPools
    { irs := 100, iss := 300, mss := some 1460, ts := some 10, window := 1000 }

def stampedAck (seq tsVal : UInt32) : Packet :=
  { seq := seq, ackSeq := 301, ack := true, ts := some (tsVal, 0) }

theorem rejected_without_effect_old : (validateSequence (processed stamped
    (⟨fun _ => 0, 8, 0⟩, 0, stampedAck 7 9)) (stampedAck 101 11)).2 = true :=
  ((rejected_without_effect stamped [(⟨fun _ => 0, 8, 0⟩, 0, stampedAck 7 9)]
    ⟨⟨⟨by decide, by decide⟩, Or.inr (Or.inr fun _ h => Or.inl (by cases h; decide))⟩,
      trivial⟩).2 _).trans (by decide)

/-- A segment far outside of the window, with a later timestamp, makes the stream reject the
next segment of the peer. -/
theorem forged_timestamp_freezes :
    Rejects stamped (stampedAck 7 1000) ∧
      (validateSequence stamped (stampedAck 7 1000)).1.tsView ≠ stamped.tsView ∧
      (validateSequence stamped (stampedAck 101 11)).2 = true ∧
      (validateSequence (validateSequence stamped (stampedAck 7 1000)).1
        (stampedAck 101 11)).2 = false := by
  unfold Rejects
  decide +kernel

end StackBench.Mtcp

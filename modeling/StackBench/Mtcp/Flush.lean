import StackBench.Lib.Attempt
import StackBench.Mtcp.SendQueue
import StackBench.Mtcp.TcpOut

/-!
# What FlushTCPSendingBuffer sends

The loop sends the buffer from `snd_nxt` on, in segments that fit into window
and MSS, and changes nothing else that matters to sending.
-/

namespace StackBench.Mtcp

open Attempt (Ends)

/-- The variables that sending reads and does not write. -/
structure Sending where
  mss : UInt16
  sndUna : UInt32
  sndWnd : UInt32
  peerWnd : UInt32
  iss : UInt32
  cwnd : UInt32
  sndbuf : Option SendBuffer
  onHashTable : Bool
  state : TcpState

def TcpStream.sending (st : TcpStream) : Sending where
  mss := st.sndvar.mss
  sndUna := st.sndvar.sndUna
  sndWnd := st.sndvar.sndWnd
  peerWnd := st.sndvar.peerWnd
  iss := st.sndvar.iss
  cwnd := st.sndvar.cwnd
  sndbuf := st.sndvar.sndbuf
  onHashTable := st.onHashTable
  state := st.state

variable (st : TcpStream)

theorem addtoRTOList_sending : (addtoRTOList st).sending = st.sending := by
  unfold addtoRTOList
  split <;> rfl

theorem packetSent_sending (curTs : UInt32) (flags : OutFlags) (n : ℕ) :
    (packetSent st curTs flags n).sending = st.sending := by
  unfold packetSent
  dsimp only
  split
  · exact addtoRTOList_sending _
  · rfl

theorem windowFull_sending (curTs : UInt32) : (windowFull st curTs).sending = st.sending := by
  unfold windowFull
  split <;> rfl

section Window

variable (st : TcpStream)

theorem remainingWindow_add {st : TcpStream} (hnear : (st.sndNxt - st.sndvar.sndUna).toNat < 2 ^ 31)
    (hpos : 0 < remainingWindow st) :
    (st.sndNxt - st.sndvar.sndUna).toNat + (remainingWindow st).toNat =
      (min st.sndvar.cwnd st.sndvar.peerWnd).toNat := by
  have hwnd := (min st.sndvar.cwnd st.sndvar.peerWnd).toNat_lt
  have hsub := UInt32.toNat_sub (min st.sndvar.cwnd st.sndvar.peerWnd)
    (st.sndNxt - st.sndvar.sndUna)
  unfold remainingWindow int32 at hpos ⊢
  split at hpos
  · next hhalf =>
    omega
  · omega

theorem pktLen_le_len (len : UInt32) : (pktLen st len).toNat ≤ len.toNat := by
  unfold pktLen
  simp only [UInt32.toNat_min]
  omega

theorem pktLen_le_window (len : UInt32) : (pktLen st len).toNat ≤ (remainingWindow st).toNat := by
  unfold pktLen
  simp only [UInt32.toNat_min, UInt32.toNat_ofNat']
  omega

end Window

/-- A segment with bytes of the queue `xs`, in the window and in the MSS. -/
structure DataSegment (s : Sending) (headSeq : UInt32) (xs : List UInt8) (seg : Segment) :
    Prop where
  inside : (seg.seq - headSeq).toNat + seg.payload.length ≤ xs.length
  bytes : seg.payload = (xs.drop (seg.seq - headSeq).toNat).take seg.payload.length
  window : seg.payload ≠ [] →
    (seg.seq - s.sndUna).toNat + seg.payload.length ≤ (min s.cwnd s.peerWnd).toNat
  fits : seg.payload.length + optlen ≤ s.mss.toNat

theorem sendTCPPacket_sent {st : TcpStream} {curTs : UInt32} {payload : List UInt8} {txBuf : Bool}
    (h : ¬(sendTCPPacket st curTs { ack := true } payload txBuf).ret < 0) :
    txBuf = true ∧ payload.length + optlen ≤ st.sndvar.mss.toNat ∧
      (sendTCPPacket st curTs { ack := true } payload txBuf).st =
        packetSent st curTs { ack := true } payload.length ∧
      ∃ seg : Segment, (sendTCPPacket st curTs { ack := true } payload txBuf).sent = [seg] ∧
        seg.seq = st.sndNxt ∧ seg.payload = payload ∧ seg.flags.ack = true := by
  unfold sendTCPPacket at *
  split at h
  · exact absurd (by decide : (-1 : ℤ) < 0) h
  next hfits =>
    rw [if_neg hfits]
    split at h
    · exact absurd (by decide : (-2 : ℤ) < 0) h
    next htx =>
      rw [if_neg htx]
      have htx' : txBuf = true := by simpa using htx
      exact ⟨htx', by omega, rfl, _, rfl, rfl, rfl, rfl⟩

theorem sendTCPPacket_failed {st : TcpStream} {curTs : UInt32} {flags : OutFlags}
    {payload : List UInt8} {txBuf : Bool}
    (h : (sendTCPPacket st curTs flags payload txBuf).ret < 0) :
    (sendTCPPacket st curTs flags payload txBuf).st = st ∧
      (sendTCPPacket st curTs flags payload txBuf).sent = [] := by
  unfold sendTCPPacket at *
  split at h
  · next hfits => rw [if_pos hfits]; exact ⟨rfl, rfl⟩
  next hfits =>
    rw [if_neg hfits]
    split at h
    · next htx => rw [if_pos htx]; exact ⟨rfl, rfl⟩
    · dsimp only at h
      omega

section Rounds

/-- The part of the send buffer that is behind `snd_nxt`. -/
def unsent (buf : SendBuffer) (st : TcpStream) : UInt32 := buf.len - (st.sndNxt - buf.headSeq)

/-- What the rounds of the loop keep: the round that skips, those that end the loop, and the one
that sends. -/
structure Rounds (buf : SendBuffer) (curTs : UInt32) (I : FlushOut → Prop) : Prop where
  skip : ∀ out, I out → ¬buf.len < out.st.sndNxt - buf.headSeq →
    seqIsSacked out.st out.st.sndNxt = true →
    I { out with st := { out.st with sndNxt := out.st.sndNxt + unsent buf out.st } }
  full : ∀ out, I out → I { out with st := windowFull out.st curTs, packets := -3 }
  fail : ∀ out, I out → I { out with packets := -3 }
  sent : ∀ out seg, I out → seg.seq = out.st.sndNxt → seg.flags.ack = true →
    I { st := packetSent out.st curTs { ack := true } seg.payload.length
        packets := out.packets + 1
        sent := out.sent ++ [seg] }

variable {buf : SendBuffer} {curTs : UInt32} {I : FlushOut → Prop}

theorem Rounds.flushLoop (h : Rounds buf curTs I) (fuel txBufs : ℕ) (out : FlushOut)
    (hout : I out) : Ends I (fun f => f = .flushCheck ∨ f = .flushEndless)
      (flushLoop buf curTs fuel txBufs out) := by
  induction fuel generalizing txBufs out with
  | zero => exact Or.inr rfl
  | succ fuel ih =>
    unfold Mtcp.flushLoop
    dsimp only
    split
    · exact Or.inl rfl
    split
    · exact Or.inl rfl
    split
    · exact Or.inl rfl
    split
    · exact hout
    next hoff _ =>
    split
    · next hsacked => exact ih _ _ (h.skip out hout hoff hsacked)
    split
    · exact h.full out hout
    split
    · next hfail =>
      rw [(sendTCPPacket_failed hfail).1]
      exact h.fail out hout
    next hok =>
    obtain ⟨-, -, hst, seg, hseg, hseq, hpayload, hack⟩ := sendTCPPacket_sent hok
    rw [hst, hseg, ← hpayload]
    exact ih _ _ (h.sent out seg hout hseq hack)

theorem Rounds.flush {st : TcpStream} (h : ∀ buf, st.sndvar.sndbuf = some buf → Rounds buf curTs I)
    (txBufs : ℕ) (hst : I { st := st, packets := 0, sent := [] }) :
    Ends I (fun f => f = .flushCheck ∨ f = .flushEndless ∨ f = .noSendBuffer)
      (flushTCPSendingBuffer st curTs txBufs) := by
  unfold flushTCPSendingBuffer
  split
  · exact Or.inr (Or.inr rfl)
  next hbuf =>
  split
  · exact hst
  · exact ((h _ hbuf).flushLoop _ _ _ hst).weaken fun f hf => hf.imp_right Or.inl

end Rounds

section Loop

variable {buf : SendBuffer} {xs : List UInt8} {s : Sending} {curTs : UInt32}

structure Flushing (s : Sending) (buf : SendBuffer) (xs : List UInt8) (out : FlushOut) :
    Prop where
  sending : out.st.sending = s
  sent : ∀ seg ∈ out.sent, DataSegment s buf.headSeq xs seg

theorem DataSegment.next {st : TcpStream} {seg : Segment} (hbuf : buf.Queue xs)
    (hlt : ¬tcpSeqLt st.sndNxt st.sndvar.sndUna) (hoff : ¬buf.len < st.sndNxt - buf.headSeq)
    (hopen : ¬windowClosed st = true) (hseq : seg.seq = st.sndNxt)
    (hpayload : seg.payload = sbRead buf (st.sndNxt - buf.headSeq).toNat
      ((pktLen st (buf.len - (st.sndNxt - buf.headSeq))).toNat % 2 ^ 16))
    (hfits : seg.payload.length + optlen ≤ st.sndvar.mss.toNat) :
    DataSegment st.sending buf.headSeq xs seg := by
  generalize hn : (pktLen st (buf.len - (st.sndNxt - buf.headSeq))).toNat % 2 ^ 16 = n at hpayload
  have hlen := pktLen_le_len st (buf.len - (st.sndNxt - buf.headSeq))
  have hwnd := pktLen_le_window st (buf.len - (st.sndNxt - buf.headSeq))
  have hoff' : (st.sndNxt - buf.headSeq).toNat ≤ buf.len.toNat := by
    rw [UInt32.lt_iff_toNat_lt] at hoff
    omega
  rw [UInt32.toNat_sub_of_le _ _ (UInt32.le_iff_toNat_le.mpr hoff'), hbuf.len] at hlen
  rw [hbuf.len] at hoff'
  have hread : sbRead buf (st.sndNxt - buf.headSeq).toNat n = _ := hbuf.read (by omega)
  have hlength : seg.payload.length = n := by
    rw [hpayload, hread, List.length_take, List.length_drop]
    omega
  refine ⟨?_, ?_, fun hne => ?_, hfits⟩
  · rw [hseq, hlength]
    omega
  · rw [hlength, hseq, hpayload, hread]
  · have hpos : 0 < remainingWindow st := by
      by_contra hle
      have hclosed : windowClosed st = true := by
        rw [windowClosed, decide_eq_true (not_lt.mp hle), Bool.true_or]
      exact hopen hclosed
    rw [tcpSeqLt_iff, not_le] at hlt
    rw [hseq, hlength]
    exact (Nat.add_le_add_left (by omega) _).trans (remainingWindow_add hlt hpos).le

/-- Every round but the last one takes a packet buffer, and one may skip to the end of the buffer.
-/
theorem flushLoop_ends (hbuf : buf.Queue xs) (fuel txBufs : ℕ) (out : FlushOut)
    (hout : Flushing s buf xs out) (hfuel : txBufs + 2 ≤ fuel ∨
      1 ≤ fuel ∧ buf.len - (out.st.sndNxt - buf.headSeq) = 0) :
    Ends (Flushing s buf xs) (· = .flushCheck) (flushLoop buf curTs fuel txBufs out) := by
  induction fuel generalizing txBufs out with
  | zero => omega
  | succ fuel ih =>
    unfold flushLoop
    dsimp only
    split
    · exact rfl
    split
    · exact rfl
    split
    · exact rfl
    split
    · exact hout
    next hlow hlt hoff hlen =>
      have henough : txBufs + 2 ≤ fuel + 1 := hfuel.resolve_right fun h => hlen h.2
      split
      · refine ih txBufs _ ⟨hout.sending, hout.sent⟩ (Or.inr ⟨by omega, ?_⟩)
        grind
      split
      · exact ⟨(windowFull_sending out.st curTs).trans hout.sending, hout.sent⟩
      next hopen =>
        split
        · next hfail =>
          rw [(sendTCPPacket_failed hfail).1]
          exact ⟨hout.sending, hout.sent⟩
        next hok =>
        obtain ⟨htx, hfits, hst, seg, hseg, hseq, hpayload, -⟩ := sendTCPPacket_sent hok
        have htx' : 0 < txBufs := of_decide_eq_true htx
        refine ih (txBufs - 1) _ ⟨?_, ?_⟩ (Or.inl (by omega))
        · rw [hst, packetSent_sending, hout.sending]
        · intro seg' hmem
          rw [hseg, List.mem_append, List.mem_singleton] at hmem
          rcases hmem with hmem | rfl
          · exact hout.sent seg' hmem
          · rw [← hout.sending]
            rw [← hpayload] at hfits
            exact DataSegment.next hbuf hlt hoff hopen hseq hpayload hfits

theorem flushTCPSendingBuffer_ends {st : TcpStream} (hsome : st.sndvar.sndbuf = some buf)
    (hbuf : buf.Queue xs) (txBufs : ℕ) :
    Ends (Flushing st.sending buf xs) (· = .flushCheck)
      (flushTCPSendingBuffer st curTs txBufs) := by
  have hnone : ∀ seg ∈ ([] : List Segment), DataSegment st.sending buf.headSeq xs seg :=
    fun seg hseg => absurd hseg List.not_mem_nil
  unfold flushTCPSendingBuffer
  rw [hsome]
  dsimp only
  split
  · exact ⟨rfl, hnone⟩
  · exact flushLoop_ends hbuf _ _ _ ⟨rfl, hnone⟩ (Or.inl (by omega))

end Loop

end StackBench.Mtcp

import StackBench.Lib.Run
import StackBench.Mtcp.SendFrame

/-!
# The mTCP transmit path

A stream is followed through writes, acks and flushes, with all bytes written,
how many the ack numbers acknowledge and the segments sent. Before a flush the
windows, the MSS and `snd_nxt` may take any values. Positions are not taken
modulo `2 ^ 32`.
-/

open List

namespace StackBench.Mtcp

open Attempt (Ends)

/-- A segment with the variables it was sent under, after `acked` bytes had
left the buffer. -/
structure TxRecord where
  segment : Segment
  sending : Sending
  acked : ℕ

structure TxWorld where
  st : TcpStream
  fault : Option Fault
  written : List UInt8
  acked : ℕ
  /-- The last ack taken was half the number space ahead of an empty buffer. -/
  astray : Bool
  sent : List TxRecord

def TxWorld.start (st : TcpStream) : TxWorld where
  st := st
  fault := none
  written := []
  acked := 0
  astray := false
  sent := []

inductive TxOp where
  | write (data : List UInt8)
  | ack (ackSeq : UInt32)
  | flush (cwnd peerWnd : UInt32) (mss : UInt16) (sndNxt curTs : UInt32) (txBufs : ℕ)

/-- The stream with the given windows, MSS and `snd_nxt`. -/
def TcpStream.withWindows (st : TcpStream) (cwnd peerWnd : UInt32) (mss : UInt16)
    (sndNxt : UInt32) : TcpStream :=
  { st with
    sndNxt := sndNxt
    sndvar := { st.sndvar with cwnd := cwnd, peerWnd := peerWnd, mss := mss } }

/-- How far the ack number is ahead of the acked bytes. -/
def TxWorld.ahead (w : TxWorld) (ackSeq : UInt32) : ℕ :=
  (ackSeq - seqAt (w.st.sndvar.iss + 1) w.acked).toNat

/-- The bytes that the ack number acknowledges anew, none if it is ahead of all that was written. -/
def TxWorld.newly (w : TxWorld) (ackSeq : UInt32) : ℕ :=
  if w.acked + w.ahead ackSeq ≤ w.written.length then w.ahead ackSeq else 0

def TxWorld.apply (pools : Pools) (w : TxWorld) : TxOp → Outcome TxWorld
  | .write data => do
      let (st, ret) ← copyFromUser w.st ⟨pools.sendChunk, pools.sendSize⟩ data
      return { w with st := st, written := w.written ++ data.take ret.toNat }
  | .ack ackSeq => .ok { w with
      st := takeAcked w.st ackSeq
      acked := w.acked + w.newly ackSeq
      astray := w.newly ackSeq = 0 ∧
        (w.astray ∨ w.ahead ackSeq = 2 ^ 31 ∧ w.acked = w.written.length) }
  | .flush cwnd peerWnd mss sndNxt curTs txBufs => do
      let st := w.st.withWindows cwnd peerWnd mss sndNxt
      let out ← flushTCPSendingBuffer st curTs txBufs
      return { w with
        st := out.st
        sent := w.sent ++ out.sent.map fun seg => ⟨seg, st.sending, w.acked⟩ }

/-- Nothing happens after a fault. -/
def TxWorld.step (pools : Pools) (w : TxWorld) (op : TxOp) : TxWorld :=
  match w.fault with
  | some _ => w
  | none =>
    match w.apply pools op with
    | .ok w' => w'
    | .error f => { w with fault := some f }

/-- The send buffer holds the bytes written and not acked. -/
structure Unacked (iss : UInt32) (w : TxWorld) (buf : SendBuffer) : Prop where
  queue : buf.Queue (w.written.drop w.acked)
  headSeq : buf.headSeq = seqAt (iss + 1) w.acked
  acked_le : w.acked ≤ w.written.length

/-- The segment carries what was written at `n`, within the window and the MSS it was sent under. -/
structure SentAt (iss : UInt32) (written : List UInt8) (r : TxRecord) (n : ℕ) : Prop where
  seq : r.segment.seq = seqAt (iss + 1) n
  unacked : r.acked ≤ n
  inside : n + r.segment.payload.length ≤ written.length
  bytes : r.segment.payload = (written.drop n).take r.segment.payload.length
  window : r.segment.payload ≠ [] → (r.segment.seq - r.sending.sndUna).toNat +
    r.segment.payload.length ≤ (min r.sending.cwnd r.sending.peerWnd).toNat
  fits : r.segment.payload.length + optlen ≤ r.sending.mss.toNat

structure Transmitted (iss : UInt32) (w : TxWorld) : Prop where
  buffer : ∀ buf, w.st.sndvar.sndbuf = some buf → Unacked iss w buf
  una : w.astray = false → w.st.sndvar.sndUna = seqAt (iss + 1) w.acked
  sent : ∀ r ∈ w.sent, ∃ n, SentAt iss w.written r n
  -- only the asserts of FlushTCPSendingBuffer
  asserts : ∀ f, w.fault = some f → f = .flushCheck ∨ f = .noSendBuffer

/-- The send side of a stream after its handshake. -/
structure FreshTx (pools : Pools) (iss : UInt32) (st : TcpStream) : Prop where
  first : st.sndvar.iss = iss
  sndbuf : st.sndvar.sndbuf = none
  sndUna : st.sndvar.sndUna = iss + 1
  sndWnd : st.sndvar.sndWnd = pools.sendSize

/-- The send buffer, or the one that the next write goes into. -/
def Pools.sendBuffer (pools : Pools) (st : TcpStream) : SendBuffer :=
  Mtcp.sendBuffer st ⟨pools.sendChunk, pools.sendSize⟩

structure TxWorld.Inv (pools : Pools) (iss : UInt32) (w : TxWorld) : Prop where
  first : w.st.sndvar.iss = iss
  unacked : Unacked iss w (pools.sendBuffer w.st)
  size : (pools.sendBuffer w.st).size = pools.sendSize
  sndWnd : w.st.sndvar.sndWnd = (pools.sendBuffer w.st).size - (pools.sendBuffer w.st).len
  -- a buffer of half the number space or more refuses the first write
  half : w.acked < w.written.length → pools.sendSize.toNat < 2 ^ 31
  una : w.astray = false → w.st.sndvar.sndUna = seqAt (iss + 1) w.acked
  sent : ∀ r ∈ w.sent, ∃ n, SentAt iss w.written r n
  asserts : ∀ f, w.fault = some f → f = .flushCheck ∨ f = .noSendBuffer

section Run

variable {pools : Pools} {iss : UInt32} {w : TxWorld} {st : TcpStream} {buf : SendBuffer}

theorem Pools.sendBuffer_of_some (pools : Pools) (h : st.sndvar.sndbuf = some buf) :
    pools.sendBuffer st = buf := by
  rw [sendBuffer, Mtcp.sendBuffer, h]

theorem SentAt.append {written : List UInt8} {r : TxRecord} {n : ℕ} (h : SentAt iss written r n)
    (data : List UInt8) : SentAt iss (written ++ data) r n := by
  have hin := h.inside
  refine ⟨h.seq, h.unacked, ?_, ?_, h.window, h.fits⟩
  · rw [length_append]
    omega
  · rw [drop_append_of_le_length (by omega), take_append_of_le_length]
    · exact h.bytes
    · rw [length_drop]
      omega

theorem Unacked.sentAt {seg : Segment} {s : Sending} (h : Unacked iss w buf)
    (hseg : DataSegment s buf.headSeq (w.written.drop w.acked) seg) :
    ∃ n, SentAt iss w.written ⟨seg, s, w.acked⟩ n := by
  have hin := hseg.inside
  have hbytes := hseg.bytes
  have hle := h.acked_le
  rw [length_drop] at hin
  rw [drop_drop] at hbytes
  refine ⟨w.acked + (seg.seq - buf.headSeq).toNat, ?_, Nat.le_add_right _ _, ?_, hbytes,
    hseg.window, hseg.fits⟩
  · rw [← seqAt_add, ← h.headSeq]
    grind
  · dsimp only
    omega

/-- The stream after a write into its send buffer. -/
def TcpStream.withSendBuffer (st : TcpStream) (buf : SendBuffer) : TcpStream :=
  { st with sndvar := { st.sndvar with sndbuf := some buf, sndWnd := buf.size - buf.len } }

theorem copyFromUser_cases {xs : List UInt8} (hqueue : (pools.sendBuffer st).Queue xs)
    (hwnd : st.sndvar.sndWnd = (pools.sendBuffer st).size - (pools.sendBuffer st).len)
    (data : List UInt8) :
    copyFromUser st ⟨pools.sendChunk, pools.sendSize⟩ data = .ok (st, -1) ∨
      ∃ (n : ℕ) (buf : SendBuffer), st.sndvar.sndWnd.toNat < 2 ^ 31 ∧
        buf.Queue (xs ++ data.take n) ∧
        buf.size = (pools.sendBuffer st).size ∧ buf.headSeq = (pools.sendBuffer st).headSeq ∧
        copyFromUser st ⟨pools.sendChunk, pools.sendSize⟩ data =
          .ok (st.withSendBuffer buf, n) := by
  have hroom := hqueue.room
  rw [← hwnd] at hroom
  unfold copyFromUser
  dsimp only
  split
  · exact Or.inl rfl
  next hpos =>
    obtain ⟨n, hn⟩ : ∃ n : ℕ, min (int32 st.sndvar.sndWnd) data.length = n :=
      ⟨_, (Int.toNat_of_nonneg (by omega)).symm⟩
    have hhalf : st.sndvar.sndWnd.toNat < 2 ^ 31 := by
      have hnonneg : ¬int32 st.sndvar.sndWnd < 0 := by omega
      rw [int32_lt_zero_iff] at hnonneg
      omega
    have hint : int32 st.sndvar.sndWnd = st.sndvar.sndWnd.toNat := if_pos hhalf
    rw [hn] at hpos ⊢
    have hlength : (data.take n).length = n := by
      rw [length_take]
      omega
    have hne : data.take n ≠ [] := ne_nil_of_length_pos (by omega)
    obtain ⟨hput, hret⟩ := hqueue.sbPut hne (by omega)
    obtain ⟨hsize, hhead⟩ := sbPut_frame (pools.sendBuffer st) (data.take n)
    have hbuf : sendBuffer st ⟨pools.sendChunk, pools.sendSize⟩ = pools.sendBuffer st := rfl
    rw [hlength] at hret
    rw [hbuf, Int.toNat_natCast]
    rcases hsb : sbPut (pools.sendBuffer st) (data.take n) with ⟨buf, ret⟩
    rw [hsb] at hput hret hsize hhead
    refine Or.inr ⟨n, buf, hhalf, hput, hsize, hhead, ?_⟩
    rw [hret, if_neg (not_not.mpr rfl)]
    rfl

namespace TxWorld.Inv

variable (h : w.Inv pools iss)
include h

theorem write (data : List UInt8) :
    Ends (TxWorld.Inv pools iss) (fun _ => False) (w.apply pools (.write data)) := by
  have hle := h.unacked.acked_le
  rw [TxWorld.apply]
  rcases copyFromUser_cases h.unacked.queue h.sndWnd data with
    hcopy | ⟨n, buf, hhalf, hqueue, hsize, hhead, hcopy⟩
  · rw [hcopy]
    change TxWorld.Inv pools iss { w with written := w.written ++ [] }
    rw [append_nil]
    exact h
  rw [hcopy]
  refine ⟨h.first, ⟨?_, ?_, ?_⟩, hsize.trans h.size, rfl, fun _ => ?_, h.una, ?_, h.asserts⟩
  · rw [drop_append_of_le_length hle]
    exact hqueue
  · exact hhead.trans h.unacked.headSeq
  · change w.acked ≤ (w.written ++ data.take n).length
    rw [length_append]
    omega
  · by_cases hsome : w.acked < w.written.length
    · exact h.half hsome
    -- the buffer is empty, so the window of the write is its size
    have hroom := h.unacked.queue.room
    rw [← h.sndWnd, length_drop, h.size] at hroom
    omega
  · intro r hr
    obtain ⟨m, hm⟩ := h.sent r hr
    exact ⟨m, hm.append _⟩

/-- An ack that is not taken acknowledges nothing. One that is taken acknowledges what leaves the
buffer, and some of it unless it is half the number space ahead of an empty buffer. -/
theorem newly_eq (hbuf : w.st.sndvar.sndbuf = some buf) (ackSeq : UInt32) :
    if tcpSeqGt ackSeq (buf.headSeq + buf.len) ∨ tcpSeqGeq buf.headSeq ackSeq then
      w.newly ackSeq = 0
    else
      w.newly ackSeq = min (ackSeq - buf.headSeq).toNat (w.written.length - w.acked) ∧
        (w.newly ackSeq = (ackSeq - buf.headSeq).toNat ∧ w.newly ackSeq ≠ 0 ∨
          w.ahead ackSeq = 2 ^ 31 ∧ w.acked = w.written.length) := by
  have hunacked := h.unacked
  rw [pools.sendBuffer_of_some hbuf] at hunacked
  have hlen := hunacked.queue.len
  have hsize := hunacked.queue.length_le
  have hahead : w.ahead ackSeq = (ackSeq - buf.headSeq).toNat := by
    rw [ahead, h.first, hunacked.headSeq]
  have hpool := h.size
  rw [pools.sendBuffer_of_some hbuf] at hpool
  have hhalf := h.half
  have hle := hunacked.acked_le
  rw [length_drop] at hlen hsize
  rw [hpool] at hsize
  have hhead := buf.headSeq.toNat_lt
  have hack := ackSeq.toNat_lt
  have hend : (ackSeq - (buf.headSeq + buf.len)).toNat =
      ((ackSeq - buf.headSeq).toNat + 2 ^ 32 - buf.len.toNat) % 2 ^ 32 := by
    simp only [UInt32.toNat_sub, UInt32.toNat_add]
    omega
  have hback : (buf.headSeq - ackSeq).toNat = (2 ^ 32 - (ackSeq - buf.headSeq).toNat) % 2 ^ 32 := by
    simp only [UInt32.toNat_sub]
    omega
  have hlt := (ackSeq - buf.headSeq).toNat_lt
  simp only [tcpSeqGt_iff, tcpSeqGeq_iff, hend, hback, newly, hahead]
  split
  · split
    · omega
    · rfl
  · split
    · omega
    · omega

theorem ack (ackSeq : UInt32) :
    Ends (TxWorld.Inv pools iss) (fun _ => False) (w.apply pools (.ack ackSeq)) := by
  have hkeep (hzero : w.newly ackSeq = 0) : TxWorld.Inv pools iss { w with
      acked := w.acked + w.newly ackSeq
      astray := w.newly ackSeq = 0 ∧
        (w.astray ∨ w.ahead ackSeq = 2 ^ 31 ∧ w.acked = w.written.length) } := by
    rw [hzero, Nat.add_zero]
    refine { h with unacked := ?_, una := fun hnot => h.una ?_ }
    · exact { h.unacked with }
    · rw [decide_eq_false_iff_not] at hnot
      cases hstray : w.astray with
      | false => rfl
      | true => exact absurd ⟨rfl, Or.inl hstray⟩ hnot
  rw [TxWorld.apply, takeAcked]
  split
  next hnone =>
    -- nothing was written yet
    have hlen := h.unacked.queue.len
    rw [Pools.sendBuffer, sendBuffer, hnone, length_drop] at hlen
    replace hlen : 0 = w.written.length - w.acked := hlen
    refine hkeep ?_
    rw [newly]
    split <;> omega
  next buf hbuf =>
    have hnewly := h.newly_eq hbuf ackSeq
    split
    · exact hkeep (by rwa [if_pos (Or.inl ‹_›)] at hnewly)
    split
    · exact hkeep (by rwa [if_pos (Or.inr ‹_›)] at hnewly)
    rw [if_neg (not_or.mpr ⟨‹_›, ‹_›⟩)] at hnewly
    obtain ⟨hmin, hnew⟩ := hnewly
    have hsend := pools.sendBuffer_of_some hbuf
    have hunacked := h.unacked
    rw [hsend] at hunacked
    obtain ⟨hqueue, hsize, hhead⟩ := hunacked.queue.sbRemove (ackSeq - buf.headSeq).toNat
    have hle := hunacked.acked_le
    rw [length_drop, ← hmin] at hhead
    refine ⟨h.first, ⟨?_, ?_, ?_⟩, ?_, rfl, ?_, fun hnot => ?_, h.sent, h.asserts⟩
    · have hdrop : (w.written.drop w.acked).drop (ackSeq - buf.headSeq).toNat =
          w.written.drop (w.acked + w.newly ackSeq) := by
        rw [drop_drop, hmin]
        rcases Nat.le_total (ackSeq - buf.headSeq).toNat (w.written.length - w.acked) with
          hcase | hcase
        · rw [Nat.min_eq_left hcase]
        · rw [Nat.min_eq_right hcase, drop_eq_nil_of_le (by omega), drop_eq_nil_of_le (by omega)]
      rw [hdrop] at hqueue
      exact hqueue
    · refine hhead.trans ?_
      rw [hunacked.headSeq, seqAt, seqAt, seqAt, UInt32.ofNat_add, add_assoc]
    · dsimp only
      omega
    · rw [← h.size, hsend]
      exact hsize
    · intro hlt
      exact h.half (by dsimp only at hlt; omega)
    · rcases hnew with ⟨hall, -⟩ | hstray
      · rw [hall, ← seqAt_add, ← hunacked.headSeq]
        exact (by grind : ackSeq = buf.headSeq + (ackSeq - buf.headSeq))
      · rw [decide_eq_false_iff_not] at hnot
        exact absurd ⟨by omega, Or.inr hstray⟩ hnot

theorem flush (cwnd peerWnd : UInt32) (mss : UInt16)
    (sndNxt curTs : UInt32) (txBufs : ℕ) :
    Ends (TxWorld.Inv pools iss) (fun f => f = .flushCheck ∨ f = .noSendBuffer)
      (w.apply pools (.flush cwnd peerWnd mss sndNxt curTs txBufs)) := by
  rw [TxWorld.apply]
  cases hbuf : w.st.sndvar.sndbuf with
  | none =>
    rw [flushTCPSendingBuffer, TcpStream.withWindows, hbuf]
    exact Or.inr rfl
  | some buf =>
    have hsend := pools.sendBuffer_of_some hbuf
    have hunacked := h.unacked
    rw [hsend] at hunacked
    have hsome : (w.st.withWindows cwnd peerWnd mss sndNxt).sndvar.sndbuf = some buf := hbuf
    refine ((flushTCPSendingBuffer_ends hsome hunacked.queue txBufs).weaken fun f hf =>
      Or.inl hf).bind fun out hout => ?_
    have hiss : out.st.sndvar.iss = w.st.sndvar.iss := congrArg Sending.iss hout.sending
    have hwnd : out.st.sndvar.sndWnd = w.st.sndvar.sndWnd := congrArg Sending.sndWnd hout.sending
    have hsame : out.st.sndvar.sndbuf = some buf :=
      (congrArg Sending.sndbuf hout.sending).trans hbuf
    have hsend' := pools.sendBuffer_of_some hsame
    have huna : out.st.sndvar.sndUna = w.st.sndvar.sndUna := congrArg Sending.sndUna hout.sending
    refine ⟨hiss.trans h.first, ?_, ?_, ?_, h.half, fun hnot => huna.trans (h.una hnot), ?_,
      h.asserts⟩
    · rw [hsend']
      exact ⟨hunacked.queue, hunacked.headSeq, hunacked.acked_le⟩
    · rw [hsend', ← hsend]
      exact h.size
    · rw [hsend', ← hsend, hwnd]
      exact h.sndWnd
    · intro r hr
      rcases mem_append.mp hr with hr | hr
      · exact h.sent r hr
      · obtain ⟨seg, hseg, rfl⟩ := mem_map.mp hr
        exact hunacked.sentAt (hout.sent seg hseg)

theorem apply (op : TxOp) :
    Ends (TxWorld.Inv pools iss) (fun f => f = .flushCheck ∨ f = .noSendBuffer)
      (w.apply pools op) := by
  cases op with
  | write data => exact (h.write data).weaken fun _ hf => hf.elim
  | ack ackSeq => exact (h.ack ackSeq).weaken fun _ hf => hf.elim
  | flush cwnd peerWnd mss sndNxt curTs txBufs =>
    exact h.flush cwnd peerWnd mss sndNxt curTs txBufs

theorem step (op : TxOp) : (w.step pools op).Inv pools iss := by
  have happly := h.apply op
  unfold TxWorld.step
  split
  · exact h
  revert happly
  cases w.apply pools op with
  | ok w' => exact fun hw => hw
  | error f =>
    intro hf
    have hunacked := h.unacked
    refine { h with unacked := { hunacked with }, asserts := fun f' hf' => ?_ }
    rw [← Option.some.inj hf']
    exact hf

end TxWorld.Inv

theorem FreshTx.inv (h : FreshTx pools iss st) : (TxWorld.start st).Inv pools iss := by
  have hbuf : pools.sendBuffer (TxWorld.start st).st =
      sbInit pools.sendChunk pools.sendSize (iss + 1) := by
    rw [Pools.sendBuffer, sendBuffer, TxWorld.start, h.sndbuf, h.first]
  refine ⟨h.first, ?_, ?_, ?_, fun hlt => absurd hlt (lt_irrefl 0), fun _ => ?_,
    fun r hr => absurd hr not_mem_nil, fun f hf => nomatch hf⟩
  · rw [hbuf]
    exact ⟨sbInit_queue _ _ _, (seqAt_zero _).symm, le_rfl⟩
  · rw [hbuf]
    rfl
  · rw [hbuf]
    exact h.sndWnd.trans (UInt32.sub_zero _).symm
  · exact h.sndUna.trans (seqAt_zero _).symm

theorem TxWorld.Inv.transmitted (h : w.Inv pools iss) : Transmitted iss w := by
  refine ⟨fun buf hbuf => ?_, h.una, h.sent, h.asserts⟩
  rw [← pools.sendBuffer_of_some hbuf]
  exact h.unacked

/-- The buffer holds what was written and not acked, and segments carry what was written. -/
theorem writes_transmitted (pools : Pools) (iss : UInt32) (st : TcpStream) (ops : List TxOp)
    (hfresh : FreshTx pools iss st) :
    Transmitted iss (ops.foldl (TxWorld.step pools) (TxWorld.start st)) := by
  have hinv : TxWorld.Inv pools iss (ops.foldl (TxWorld.step pools) (TxWorld.start st)) :=
    Run.foldl_invariant hfresh.inv fun _ op h => h.step op
  exact hinv.transmitted

end Run

def twoWrites : List TxOp :=
  [.write [1, 2, 3, 4, 5, 6], .flush 100 100 15 301 0 9, .ack 304, .write [7, 8, 9],
    .flush 100 100 15 307 0 9]

theorem writes_transmitted_two :
    (twoWrites.foldl (TxWorld.step smallPools) (TxWorld.start opened)).sent.map
        (fun r => r.segment.payload) = [[1, 2, 3], [4, 5, 6], [7, 8, 9]] ∧
      Transmitted 300 (twoWrites.foldl (TxWorld.step smallPools) (TxWorld.start opened)) :=
  ⟨by decide +kernel, writes_transmitted smallPools 300 opened twoWrites ⟨rfl, rfl, rfl, rfl⟩⟩

end StackBench.Mtcp

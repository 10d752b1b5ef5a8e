import StackBench.Mtcp.Transmit

/-!
# The send sequence numbers of mTCP

`FlushTCPSendingBuffer` aborts unless `head_seq ≤ snd_una ≤ snd_nxt ≤ head_seq
+ len`. This holds along every run without stray SYNs, stale third duplicates
and acks half the number space ahead of an empty buffer.
-/

namespace StackBench.Mtcp

open Attempt (Ends)
open UInt32 (toNat_sub)
open TcpStream (sendView)

/-- The send buffer, or the one that the next write goes into. -/
def SendView.buffer (v : SendView) (pools : Pools) : SendBuffer :=
  match v.sndbuf with
  | some buf => buf
  | none => sbInit pools.sendChunk pools.sendSize (v.iss + 1)

/-- The states that a stream can be in before the application closes it. -/
def TcpState.beforeClose : TcpState → Bool
  | .established | .closeWait | .closed => true
  | _ => false

/-- The send side of a stream that the application has not closed. -/
structure SendOrder (pools : Pools) (v : SendView) : Prop where
  state : v.state.beforeClose = true
  isFinSent : v.isFinSent = false
  notClosed : v.onCloseq = false ∧ v.onCloseqInt = false ∧ v.onDestroyq = false
  queue : ∃ xs, (v.buffer pools).Queue xs
  size : (v.buffer pools).size = pools.sendSize
  short : v.sndbuf.isSome = true → pools.sendSize.toNat < 2 ^ 31
  sndWnd : v.sndWnd = (v.buffer pools).size - (v.buffer pools).len
  sndUna : v.sndUna = (v.buffer pools).headSeq
  sndNxt : (v.sndNxt - (v.buffer pools).headSeq).toNat ≤ (v.buffer pools).len.toNat

section Order

variable {pools : Pools} {v : SendView}

theorem SendOrder.len_lt (h : SendOrder pools v) : (v.buffer pools).len.toNat < 2 ^ 31 := by
  obtain ⟨xs, hqueue⟩ := h.queue
  have hle := hqueue.length_le
  rw [← hqueue.len, h.size] at hle
  cases hbuf : v.sndbuf with
  | none =>
    rw [SendView.buffer, hbuf]
    exact Nat.two_pow_pos 31
  | some buf =>
    have hshort := h.short (by rw [hbuf]; rfl)
    omega

theorem SendOrder.withState (h : SendOrder pools v) {s : TcpState} (hs : s.beforeClose = true) :
    SendOrder pools { v with state := s } :=
  { h with state := hs }

theorem SendOrder.withNxt (h : SendOrder pools v) {n : UInt32}
    (hn : (n - (v.buffer pools).headSeq).toNat ≤ (v.buffer pools).len.toNat) :
    SendOrder pools { v with sndNxt := n } :=
  { h with sndNxt := hn }

theorem ack_in_buffer {head ack len : UInt32} (hlen : len.toNat < 2 ^ 31)
    (hahead : ¬tcpSeqGt ack (head + len)) (hnear : (ack - head).toNat < 2 ^ 31) :
    (ack - head).toNat ≤ len.toNat := by
  rw [tcpSeqGt_iff] at hahead
  have hsub : ack - (head + len) = ack - head - len := by grind
  rw [hsub, toNat_sub] at hahead
  omega

theorem ackedNxt_in_buffer {head ack len n : UInt32} (hlen : len.toNat < 2 ^ 31)
    (hahead : ¬tcpSeqGt ack (head + len)) (hn : (n - head).toNat ≤ len.toNat) :
    (ackedNxt n ack - head).toNat ≤ len.toNat := by
  unfold ackedNxt
  split
  · next hgt =>
    rw [tcpSeqGt_iff] at hgt hahead
    have hsub : ack - (head + len) = ack - head - len := by grind
    have hsub' : ack - n = ack - head - (n - head) := by grind
    rw [hsub, toNat_sub] at hahead
    rw [hsub', toNat_sub] at hgt
    have hlt := (ack - head).toNat_lt
    omega
  · exact hn

theorem ack_le_ackedNxt {head ack len n : UInt32} (hlen : len.toNat < 2 ^ 31)
    (hack : (ack - head).toNat ≤ len.toNat) (hn : (n - head).toNat ≤ len.toNat) :
    (ack - head).toNat ≤ (ackedNxt n ack - head).toNat := by
  unfold ackedNxt
  split
  · exact le_rfl
  next hgt =>
  have hsub : ack - n = ack - head - (n - head) := by grind
  rw [tcpSeqGt_iff, hsub, toNat_sub] at hgt
  omega

theorem removed_in_buffer {head ack len : UInt32} (hlen : len.toNat < 2 ^ 31)
    (hahead : ¬tcpSeqGt ack (head + len)) (hnew : ¬tcpSeqGeq head ack)
    (hhalf : len = 0 → ack ≠ head + 2 ^ 31) : (ack - head).toNat ≤ len.toNat := by
  by_contra hcon
  have hneg : head - ack = 0 - (ack - head) := by grind
  have hsub : ack - (head + len) = ack - head - len := by grind
  rw [tcpSeqGeq_iff, hneg, toNat_sub] at hnew
  rw [tcpSeqGt_iff, hsub, toNat_sub] at hahead
  have hzero : (0 : UInt32).toNat = 0 := rfl
  have hlen0 : len.toNat = 0 := by omega
  have hdist : (ack - head).toNat = (2 ^ 31 : UInt32).toNat := by
    rw [show (2 ^ 31 : UInt32).toNat = 2 ^ 31 from rfl]
    omega
  refine hhalf (UInt32.toNat_inj.mp hlen0) ?_
  have heq := UInt32.toNat_inj.mp hdist
  grind

variable {st : TcpStream} {buf : SendBuffer}

section

variable (h : SendOrder pools st.sendView)
include h

theorem SendOrder.dataAck (ackSeq : UInt32) : dataAck st ackSeq = ackSeq := by
  have hfin : st.sndvar.isFinSent = false := h.isFinSent
  unfold Mtcp.dataAck
  split <;> simp [hfin]

theorem SendOrder.removeAcked (hbuf : st.sndvar.sndbuf = some buf) {ackSeq n : UInt32}
    (hack : (ackSeq - buf.headSeq).toNat ≤ buf.len.toNat)
    (hle : (ackSeq - buf.headSeq).toNat ≤ (n - buf.headSeq).toNat)
    (hn : (n - buf.headSeq).toNat ≤ buf.len.toNat) :
    SendOrder pools
      { (removeAcked st buf ackSeq (ackSeq - buf.headSeq)).sendView with sndNxt := n } := by
  have hview : st.sendView.buffer pools = buf := by
    rw [SendView.buffer, sendView, hbuf]
  obtain ⟨xs, hqueue⟩ := h.queue
  rw [hview] at hqueue
  have hlen := hqueue.len
  obtain ⟨hqueue', hsize, hhead⟩ := hqueue.sbRemove (ackSeq - buf.headSeq).toNat
  have hlen' := hqueue'.len
  rw [List.length_drop] at hlen'
  rw [Nat.min_eq_left (by omega), seqAt, UInt32.ofNat_toNat] at hhead
  have hhead' : (sbRemove buf (ackSeq - buf.headSeq).toNat).1.headSeq = ackSeq := by
    grind
  refine ⟨h.state, h.isFinSent, h.notClosed, ⟨_, hqueue'⟩, ?_, fun _ => ?_, rfl, hhead'.symm, ?_⟩
  · have hsize' := h.size
    rw [hview] at hsize'
    exact hsize.trans hsize'
  · exact h.short (by rw [sendView, hbuf]; rfl)
  · change (n - (sbRemove buf (ackSeq - buf.headSeq).toNat).1.headSeq).toNat ≤
      (sbRemove buf (ackSeq - buf.headSeq).toNat).1.len.toNat
    have hsub : n - ackSeq = n - buf.headSeq - (ackSeq - buf.headSeq) := by grind
    rw [hhead', hsub, UInt32.toNat_sub_of_le _ _ (UInt32.le_iff_toNat_le.mpr hle), hlen']
    omega

theorem SendOrder.processACK (hbuf : st.sndvar.sndbuf = some buf) (curTs : UInt32) {pkt : Packet}
    (hstale : st.rcvvar.dupAcks = 2 → pkt.ackSeq = st.rcvvar.lastAckSeq →
      tcpSeqGeq pkt.ackSeq st.sndvar.sndUna)
    (hhalf : buf.len = 0 → pkt.ackSeq ≠ buf.headSeq + 2 ^ 31) :
    Ends (fun st' => SendOrder pools st'.sendView) NotCheck
      (processACK st buf curTs pkt) := by
  have hview : st.sendView.buffer pools = buf := by
    rw [SendView.buffer, sendView, hbuf]
  have hlen := h.len_lt
  have hnxt := h.sndNxt
  have huna : st.sndvar.sndUna = buf.headSeq := hview ▸ h.sndUna
  rw [hview] at hlen hnxt
  refine (processACK_view hbuf curTs pkt).mono fun st' hst' => ?_
  rw [h.dataAck] at hst'
  rcases hst' with ⟨-, hsame⟩ | ⟨hahead, n, hn, hst'⟩
  · rw [hsame]
    exact h
  have hn' : (n - buf.headSeq).toNat ≤ buf.len.toNat := by
    rcases hn with rfl | ⟨hdup, hlast, rfl⟩
    · exact hnxt
    · have hgeq := hstale hdup hlast
      rw [huna, tcpSeqGeq_iff] at hgeq
      exact ack_in_buffer hlen hahead hgeq
  have hm := ackedNxt_in_buffer hlen hahead hn'
  rw [hst', takeAcked, hbuf]
  dsimp only
  rw [if_neg hahead]
  split
  · refine h.withNxt ?_
    rw [hview]
    exact hm
  · next hnew =>
    have hack := removed_in_buffer hlen hahead hnew hhalf
    exact h.removeAcked hbuf hack (ack_le_ackedNxt hlen hack hn') hm

omit h in
theorem packetSent_view (st : TcpStream) (curTs : UInt32) (n : ℕ) :
    (packetSent st curTs { ack := true } n).sendView =
      { st.sendView with sndNxt := st.sndNxt + UInt32.ofNat n } := by
  unfold packetSent
  dsimp only
  split
  · refine Eq.trans (addtoRTOList_aside _).idle ?_
    simp [sendView]
  · simp [sendView]

omit h in
/-- No check of the loop fails, since `snd_nxt` stays in the buffer. -/
theorem flushLoop_order {curTs : UInt32} (fuel txBufs : ℕ) (out : FlushOut)
    (h : SendOrder pools out.st.sendView) (hbuf : out.st.sndvar.sndbuf = some buf) :
    Ends (fun out' => SendOrder pools out'.st.sendView) (· = .flushEndless)
      (flushLoop buf curTs fuel txBufs out) := by
  induction fuel generalizing txBufs out with
  | zero => exact rfl
  | succ fuel ih =>
    have hview : out.st.sendView.buffer pools = buf := by
      rw [SendView.buffer, sendView, hbuf]
    have hlen := h.len_lt
    have hnxt := h.sndNxt
    have huna : out.st.sndvar.sndUna = buf.headSeq := hview ▸ h.sndUna
    have hlt : ¬tcpSeqLt out.st.sndNxt buf.headSeq := by
      rw [hview] at hlen hnxt
      rw [tcpSeqLt_iff]
      exact not_le.mpr (lt_of_le_of_lt hnxt hlen)
    have hoff : ¬buf.len < out.st.sndNxt - buf.headSeq := by
      rw [hview] at hnxt
      exact not_lt.mpr hnxt
    have hrest : (buf.len - (out.st.sndNxt - buf.headSeq)).toNat =
        buf.len.toNat - (out.st.sndNxt - buf.headSeq).toNat := by
      rw [UInt32.lt_iff_toNat_lt, not_lt, ← UInt32.le_iff_toNat_le] at hoff
      exact UInt32.toNat_sub_of_le _ _ hoff
    -- `snd_nxt` may move on by at most the unsent bytes
    have hmove : ∀ n : UInt32, n.toNat ≤ (buf.len - (out.st.sndNxt - buf.headSeq)).toNat →
        (out.st.sndNxt + n - (out.st.sendView.buffer pools).headSeq).toNat ≤
          (out.st.sendView.buffer pools).len.toNat := by
      intro n hn
      rw [hview] at hnxt hlen ⊢
      have hsub : out.st.sndNxt + n - buf.headSeq = out.st.sndNxt - buf.headSeq + n := by grind
      have hnxt' : (out.st.sndNxt - buf.headSeq).toNat ≤ buf.len.toNat := hnxt
      rw [hsub, UInt32.toNat_add]
      omega
    unfold flushLoop
    dsimp only
    rw [huna, if_neg hlt, if_neg hlt, if_neg hoff]
    split
    · exact h
    split
    · exact ih _ _ (h.withNxt (hmove _ le_rfl)) hbuf
    split
    · rw [Attempt.ends_ok, (windowFull_aside out.st curTs).idle]
      exact h
    split
    · next hfail =>
      rw [(sendTCPPacket_failed hfail).1]
      exact h
    next hok =>
    obtain ⟨-, -, hst, -⟩ := sendTCPPacket_sent hok
    have hsent := packetSent_view out.st curTs
      ((pktLen out.st (buf.len - (out.st.sndNxt - buf.headSeq))).toNat % 2 ^ 16)
    have hpkt := pktLen_le_len out.st (buf.len - (out.st.sndNxt - buf.headSeq))
    rw [sbRead_length] at hst
    refine ih _ _ ?_ ?_
    · rw [hst, hsent]
      refine h.withNxt (hmove _ ?_)
      rw [UInt32.toNat_ofNat']
      omega
    · rw [hst]
      exact (congrArg SendView.sndbuf hsent).trans hbuf

theorem SendOrder.flush (curTs : UInt32) (txBufs : ℕ) :
    Ends (fun out => SendOrder pools out.st.sendView) NotCheck
      (flushTCPSendingBuffer st curTs txBufs) := by
  cases hbuf : st.sndvar.sndbuf with
  | none =>
    rw [flushTCPSendingBuffer, hbuf]
    exact Fault.noConfusion
  | some buf =>
    rw [flushTCPSendingBuffer, hbuf]
    dsimp only
    split
    · exact h
    · refine (flushLoop_order _ _ _ h hbuf).weaken fun f hf => ?_
      rw [hf]
      exact Fault.noConfusion

theorem retransmit_order :
    Ends (fun st' => SendOrder pools st'.sendView) NotCheck (retransmit st) := by
  have hback : SendOrder pools { st with sndNxt := st.sndvar.sndUna }.sendView := by
    refine h.withNxt ?_
    have huna : st.sndvar.sndUna = (st.sendView.buffer pools).headSeq := h.sndUna
    rw [huna, UInt32.sub_self]
    exact Nat.zero_le _
  have hsend : Ends (fun st' => SendOrder pools st'.sendView) NotCheck
      (addtoSendList { st with sndNxt := st.sndvar.sndUna }) := by
    refine (ends_idle (addtoSendList_aside _)).mono fun st' hst' => ?_
    rw [hst']
    exact hback
  have hstate : st.state.beforeClose = true := h.state
  unfold retransmit
  dsimp only
  split
  · exact hsend
  · exact hsend
  all_goals first
    | exact Fault.noConfusion
    | next hs => rw [hs] at hstate; exact absurd hstate Bool.false_ne_true

end

/-- A stream that has been destroyed, or whose order is intact. -/
def SendOk (pools : Pools) (st : TcpStream) : Prop :=
  st.onHashTable = false ∨ SendOrder pools st.sendView

theorem SendOk.live (h : SendOk pools st) (hlive : st.onHashTable = true) :
    SendOrder pools st.sendView :=
  h.resolve_left fun hdead => absurd (hdead.symm.trans hlive) Bool.false_ne_true

section

variable (h : SendOrder pools st.sendView)
include h

theorem SendOrder.idle {st' : TcpStream} (hidle : Idle st st') : SendOk pools st' := by
  right
  rw [hidle]
  exact h

theorem handleRTO_order : Ends (SendOk pools) NotCheck (handleRTO st) := by
  unfold handleRTO
  dsimp only
  split
  · exact Fault.noConfusion
  split
  · exact h.idle rfl
  split
  · split
    · exact Or.inr (h.withState rfl)
    · exact Or.inl rfl
  · refine (retransmit_order ?_).mono fun st' hst' => Or.inr hst'
    exact h

theorem controlFlags_fin {flags : OutFlags}
    (hflags : controlFlags st = some flags) : flags.fin = false := by
  have hstate : st.state.beforeClose = true := h.state
  unfold controlFlags at hflags
  dsimp only at hflags
  split at hflags
  all_goals first
    | rw [← Option.some.inj hflags]
    | next hs => rw [hs] at hstate; exact absurd hstate Bool.false_ne_true
    | split at hflags
      · exact absurd hflags (Option.some_ne_none _).symm
      · rw [← Option.some.inj hflags]

variable (curTs : UInt32)

theorem sendControlPacket_order (txBuf : Bool) :
    SendOk pools (sendControlPacket st curTs txBuf).st := by
  unfold sendControlPacket
  split
  · exact Or.inr h
  next flags hflags =>
  have hidle := (sendTCPPacket_aside st curTs flags (controlFlags_fin h hflags) txBuf).idle
  dsimp only
  split
  · exact Or.inl rfl
  · exact h.idle hidle

theorem writeTCPControlList_order
    (txBuf : Bool) : SendOk pools (writeTCPControlList st curTs txBuf).st := by
  unfold writeTCPControlList
  split
  · have hremove : SendOrder pools (removeFromControlList st).sendView := h
    have hsent := sendControlPacket_order hremove curTs txBuf
    dsimp only
    split
    · exact hsent
    · exact hsent
  · exact Or.inr h

theorem writeTCPDataList_order (txBufs : ℕ) :
    Ends (fun out => SendOk pools out.st) NotCheck (writeTCPDataList st curTs txBufs) := by
  unfold writeTCPDataList
  split
  · exact Or.inr h
  refine Ends.map (Q := fun out : FlushOut => SendOrder pools out.st.sendView) ?_ ?_
  · split
    · split
      · exact h
      · exact h.flush curTs txBufs
    all_goals first
      | exact h.flush curTs txBufs
      | exact h
  · intro out hout
    split
    · exact Or.inr hout
    · exact hout.idle (controlListTurn_aside _ _).idle

end

/-- The segment does not move `snd_nxt` out of the buffer. -/
structure SafeAck (st : TcpStream) (pkt : Packet) : Prop where
  syn : st.state = .established → pkt.syn = false
  stale : st.rcvvar.dupAcks = 2 → pkt.ackSeq = st.rcvvar.lastAckSeq →
    tcpSeqGeq pkt.ackSeq st.sndvar.sndUna
  half : ∀ buf ∈ st.sndvar.sndbuf, buf.len = 0 → pkt.ackSeq ≠ buf.headSeq + 2 ^ 31

theorem SafeAck.congr {st' : TcpStream} {pkt : Packet} (h : SafeAck st pkt)
    (hidle : Idle st st') (hdup : st'.dupView = st.dupView) : SafeAck st' pkt := by
  have hstate : st'.state = st.state := congrArg SendView.state hidle
  have huna : st'.sndvar.sndUna = st.sndvar.sndUna := congrArg SendView.sndUna hidle
  have hbuf : st'.sndvar.sndbuf = st.sndvar.sndbuf := congrArg SendView.sndbuf hidle
  have hcount : st'.rcvvar.dupAcks = st.rcvvar.dupAcks := congrArg Prod.fst hdup
  have hlast : st'.rcvvar.lastAckSeq = st.rcvvar.lastAckSeq := congrArg Prod.snd hdup
  exact ⟨hstate ▸ h.syn, by rw [hcount, hlast, huna]; exact h.stale, hbuf ▸ h.half⟩

section

variable (h : SendOrder pools st.sendView)
include h

variable {pkt : Packet}

theorem processACKIfBuffered_order (hsafe : SafeAck st pkt) (curTs : UInt32) :
    Ends (fun st' => SendOrder pools st'.sendView) NotCheck
      (processACKIfBuffered st curTs pkt) := by
  unfold processACKIfBuffered
  split
  · exact h
  · next buf hbuf => exact h.processACK hbuf curTs hsafe.stale (hsafe.half buf hbuf)

theorem handleEstablished_order (hstate : st.state = .established) (hsafe : SafeAck st pkt)
    (alloc : RecvAlloc) (curTs : UInt32) :
    Ends (SendOk pools) NotCheck (handleEstablished st alloc curTs pkt) := by
  unfold handleEstablished
  rw [if_neg (by rw [hsafe.syn hstate]; exact Bool.false_ne_true)]
  refine (handlePayload_idle st alloc pkt).bind fun st₁ h₁ => ?_
  have horder₁ : SendOrder pools st₁.sendView := by
    rw [h₁.1]
    exact h
  have hack : Ends (fun st' => SendOrder pools st'.sendView) NotCheck
      (if pkt.ack then processACKIfBuffered st₁ curTs pkt else pure st₁) := by
    split
    · exact processACKIfBuffered_order horder₁ (hsafe.congr h₁.1 h₁.2) curTs
    · exact horder₁
  refine hack.bind fun st₂ h₂ => ?_
  split
  · split
    · exact Or.inr (h₂.withState rfl)
    · exact h₂.idle (enqueueACK_aside st₂ .now).idle
  · exact Or.inr h₂

theorem dispatch_order (hsafe : SafeAck st pkt) (alloc : RecvAlloc) (curTs : UInt32) :
    Ends (SendOk pools) NotCheck (dispatch st alloc curTs pkt) := by
  have hstate : st.state.beforeClose = true := h.state
  unfold dispatch
  split
  · next hs => exact handleEstablished_order h hs hsafe alloc curTs
  · unfold handleCloseWait
    split
    · exact Or.inr h
    · exact (processACKIfBuffered_order h hsafe curTs).mono fun st' hst' => Or.inr hst'
  all_goals first
    | exact Or.inr h
    | next hs => rw [hs] at hstate; exact absurd hstate Bool.false_ne_true

theorem processRST_order : SendOk pools (processRST st) := by
  have hstate : st.state.beforeClose = true := h.state
  unfold processRST
  split
  all_goals first
    | next hs => rw [hs] at hstate; exact absurd hstate Bool.false_ne_true
    | split
      · exact Or.inr h
      · exact Or.inr (h.withState rfl)

theorem processTCPPacket_order (hsafe : SafeAck st pkt) (alloc : RecvAlloc) (curTs : UInt32) :
    Ends (SendOk pools) NotCheck (processTCPPacket st alloc curTs pkt) := by
  have hvalid :
      Aside st (if st.state = .closed then (st, true) else validateSequence st pkt).1 := by
    split
    · exact Aside.refl st
    · exact validateSequence_aside st pkt
  unfold processTCPPacket
  split
  · next st₁ heq =>
    rw [heq] at hvalid
    exact h.idle hvalid.idle
  next st₁ heq =>
  rw [heq] at hvalid
  have horder : SendOrder pools st₁.sendView := by
    rw [hvalid.idle]
    exact h
  dsimp only
  split
  · split
    · exact Or.inr horder
    · exact processRST_order horder
  refine dispatch_order ?_ (hsafe.congr ?_ ?_) alloc curTs
  · exact horder
  · exact hvalid.idle
  · exact hvalid.dupView

theorem SendOrder.withSendBuffer {xs : List UInt8}
    (hqueue : buf.Queue xs) (hle : (st.sendView.buffer pools).len.toNat ≤ xs.length)
    (hhalf : st.sndvar.sndWnd.toNat < 2 ^ 31) (hsize : buf.size = (st.sendView.buffer pools).size)
    (hhead : buf.headSeq = (st.sendView.buffer pools).headSeq) :
    SendOrder pools (st.withSendBuffer buf).sendView := by
  refine ⟨h.state, h.isFinSent, h.notClosed, ⟨xs, hqueue⟩, hsize.trans h.size, fun _ => ?_, rfl,
    h.sndUna.trans hhead.symm, ?_⟩
  · cases hbuf : st.sndvar.sndbuf with
    | none =>
      have hwnd : st.sndvar.sndWnd = pools.sendSize := by
        have hwnd' := h.sndWnd
        rw [SendView.buffer, sendView, hbuf] at hwnd'
        exact hwnd'.trans (UInt32.sub_zero _)
      rw [← hwnd]
      exact hhalf
    | some buf' => exact h.short (by rw [sendView, hbuf]; rfl)
  · change (st.sndNxt - buf.headSeq).toNat ≤ buf.len.toNat
    rw [hhead, hqueue.len]
    exact h.sndNxt.trans hle

theorem copyFromUser_order (data : List UInt8) :
    Ends (fun out => SendOrder pools out.1.sendView) NotCheck
      (copyFromUser st ⟨pools.sendChunk, pools.sendSize⟩ data) := by
  obtain ⟨xs, hqueue⟩ := h.queue
  rcases copyFromUser_cases hqueue h.sndWnd data with
    hcopy | ⟨n, buf, hhalf, hqueue', hsize, hhead, hcopy⟩
  · rw [hcopy]
    exact h
  rw [hcopy]
  refine h.withSendBuffer hqueue' ?_ hhalf hsize hhead
  rw [hqueue.len, List.length_append]
  exact Nat.le_add_right _ _

theorem mtcpWrite_order (data : List UInt8) :
    Ends (fun out => SendOk pools out.1) NotCheck
      (mtcpWrite st ⟨pools.sendChunk, pools.sendSize⟩ data) := by
  unfold mtcpWrite
  split
  all_goals first
    | exact Or.inr h
    | split
      · exact Or.inr h
      · refine (copyFromUser_order h data).map fun out hout => ?_
        dsimp only
        split
        · exact Or.inr hout
        · exact Or.inr hout

/-- Without a close, the queues that end a stream are empty. -/
theorem handleApplicationCalls_order :
    Ends (SendOk pools) NotCheck (handleApplicationCalls st) := by
  refine (ends_idle (handleSendq_aside st)).map fun st₁ h₁ => ?_
  have hidle : Idle st (handleAckq st₁) := h₁.trans (handleAckq_aside st₁).idle
  have hcloseq : (handleAckq st₁).sndvar.onCloseq = false :=
    (congrArg SendView.onCloseq hidle).trans h.notClosed.1
  have hcloseqInt : (handleAckq st₁).sndvar.onCloseqInt = false :=
    (congrArg SendView.onCloseqInt hidle).trans h.notClosed.2.1
  have hdestroyq : (handleAckq st₁).onDestroyq = false :=
    (congrArg SendView.onDestroyq hidle).trans h.notClosed.2.2
  have hsame : handleDestroyq (handleCloseqInt (handleCloseq (handleAckq st₁))) =
      handleAckq st₁ := by
    rw [handleCloseq, hcloseq, if_neg Bool.false_ne_true, handleCloseqInt, hcloseqInt,
      if_pos (by rfl), handleDestroyq, hdestroyq, if_neg Bool.false_ne_true]
  rw [hsame]
  exact h.idle hidle

end

end Order

structure SeqWorld where
  st : TcpStream
  fault : Option Fault

def SeqWorld.start (st : TcpStream) : SeqWorld where
  st := st
  fault := none

/-- Nothing happens after a fault. -/
def SeqWorld.step (pools : Pools) (w : SeqWorld) (op : StreamOp) : SeqWorld :=
  match w.fault with
  | some _ => w
  | none =>
    match op.run pools w.st with
    | .ok out => { st := out.st, fault := none }
    | .error f => { w with fault := some f }

open SeqWorld (start step)

/-- The application does not close the stream. -/
def StreamOp.NoClose : StreamOp → Prop
  | .close => False
  | _ => True

instance : DecidablePred StreamOp.NoClose := fun op => by
  cases op <;> dsimp only [StreamOp.NoClose] <;> infer_instance

def SafeOp (w : SeqWorld) : StreamOp → Prop
  | .packet _ pkt _ => SafeAck w.st pkt
  | _ => True

/-- The send side of a stream after its handshake. -/
structure FreshSeq (pools : Pools) (st : TcpStream) : Prop where
  state : st.state = .established
  isFinSent : st.sndvar.isFinSent = false
  notClosed : st.sndvar.onCloseq = false ∧ st.sndvar.onCloseqInt = false ∧ st.onDestroyq = false
  sndbuf : st.sndvar.sndbuf = none
  sndWnd : st.sndvar.sndWnd = pools.sendSize
  sndUna : st.sndvar.sndUna = st.sndvar.iss + 1
  sndNxt : st.sndNxt = st.sndvar.iss + 1

/-- The order of the numbers that a flush meets, and its checks. -/
structure InOrder (w : SeqWorld) : Prop where
  order : w.st.onHashTable = true → ∀ buf, w.st.sndvar.sndbuf = some buf →
    tcpSeqLeq buf.headSeq w.st.sndvar.sndUna ∧ tcpSeqLeq w.st.sndvar.sndUna w.st.sndNxt ∧
      tcpSeqLeq w.st.sndNxt (buf.headSeq + buf.len)
  checks : w.fault ≠ some .flushCheck

section Run

variable {pools : Pools} {w : SeqWorld} {op : StreamOp} {st : TcpStream}

theorem runLive_order (h : SendOrder pools st.sendView) (hclose : op.NoClose)
    (hsafe : SafeOp { st := st, fault := none } op) :
    Ends (fun out => SendOk pools out.st) NotCheck (op.runLive pools st) := by
  cases op with
  | packet curTs pkt ctx =>
    exact (processTCPPacket_order h hsafe _ curTs).map fun st' hst' => hst'
  | recv len => exact (mtcpRecv_idle st len).map fun out hout => h.idle hout
  | write data => exact (mtcpWrite_order h data).map fun out hout => hout
  | close => exact hclose.elim
  | applicationCalls => exact (handleApplicationCalls_order h).map fun st' hst' => hst'
  | timeout =>
    rw [StreamOp.runLive]
    split
    · exact (handleRTO_order h).map fun st' hst' => hst'
    · exact Or.inr h
  | controlList curTs txBuf => exact writeTCPControlList_order h curTs txBuf
  | ackList curTs txBufs => exact h.idle (writeTCPACKList_aside st curTs txBufs).idle
  | dataList curTs txBufs => exact (writeTCPDataList_order h curTs txBufs).map fun out hout => hout

structure SeqWorld.Inv (pools : Pools) (w : SeqWorld) : Prop where
  order : SendOk pools w.st
  checks : w.fault ≠ some .flushCheck

theorem SeqWorld.Inv.step (h : w.Inv pools) (hclose : op.NoClose) (hsafe : SafeOp w op) :
    (w.step pools op).Inv pools := by
  unfold SeqWorld.step StreamOp.run
  split
  · exact h
  by_cases hlive : w.st.onHashTable = true
  · have horder := h.order.live hlive
    have hends := runLive_order horder hclose (by cases op <;> exact hsafe)
    rw [if_pos hlive]
    revert hends
    cases op.runLive pools w.st with
    | ok out => exact fun hout => ⟨hout, (Option.some_ne_none _).symm⟩
    | error f => exact fun hf => ⟨h.order, fun hcheck => hf (Option.some.inj hcheck)⟩
  · rw [if_neg hlive]
    exact ⟨h.order, (Option.some_ne_none _).symm⟩

theorem FreshSeq.inv (h : FreshSeq pools st) : (start st).Inv pools := by
  have hbuf : st.sendView.buffer pools =
      sbInit pools.sendChunk pools.sendSize (st.sndvar.iss + 1) := by
    rw [SendView.buffer, sendView, h.sndbuf]
  refine ⟨Or.inr ⟨?_, h.isFinSent, h.notClosed, ⟨[], ?_⟩, ?_, ?_, ?_, ?_, ?_⟩,
    (Option.some_ne_none _).symm⟩
  · exact congrArg TcpState.beforeClose h.state
  · exact hbuf ▸ sbInit_queue _ _ _
  · exact congrArg SendBuffer.size hbuf
  · intro hsome
    exact absurd ((congrArg Option.isSome h.sndbuf).symm.trans hsome) Bool.false_ne_true
  · refine h.sndWnd.trans ?_
    change _ = (st.sendView.buffer pools).size - (st.sendView.buffer pools).len
    rw [hbuf]
    exact (UInt32.sub_zero _).symm
  · refine h.sndUna.trans ?_
    change _ = (st.sendView.buffer pools).headSeq
    rw [hbuf]
    rfl
  · change (st.sndNxt - (st.sendView.buffer pools).headSeq).toNat ≤
      (st.sendView.buffer pools).len.toNat
    rw [hbuf, h.sndNxt]
    exact (congrArg UInt32.toNat (UInt32.sub_self _)).le

theorem SeqWorld.Inv.inOrder (h : w.Inv pools) : InOrder w := by
  refine ⟨fun hlive buf hbuf => ?_, h.checks⟩
  have horder := h.order.live hlive
  have hview : w.st.sendView.buffer pools = buf := by
    rw [SendView.buffer, sendView, hbuf]
  have hlen := horder.len_lt
  have hnxt := horder.sndNxt
  have huna : w.st.sndvar.sndUna = buf.headSeq := hview ▸ horder.sndUna
  rw [hview] at hlen hnxt
  have hnxt' : (w.st.sndNxt - buf.headSeq).toNat ≤ buf.len.toNat := hnxt
  have hback : buf.headSeq - w.st.sndNxt = 0 - (w.st.sndNxt - buf.headSeq) := by grind
  have hend : w.st.sndNxt - (buf.headSeq + buf.len) = w.st.sndNxt - buf.headSeq - buf.len := by
    grind
  have hzero : (0 : UInt32).toNat = 0 := rfl
  rw [huna]
  simp only [tcpSeqLeq_iff]
  refine ⟨Or.inl (by rw [UInt32.sub_self]; rfl), ?_, ?_⟩
  · rw [hback, toNat_sub]
    omega
  · rw [hend, toNat_sub]
    omega

/-- With safe segments and no close the numbers are in order and no check fails. -/
theorem send_numbers_in_order (pools : Pools) (st : TcpStream) (ops : List StreamOp)
    (hfresh : FreshSeq pools st)
    (hrun : Run.Admissible (step pools) (fun w op => op.NoClose ∧ SafeOp w op)
      (start st) ops) :
    InOrder (ops.foldl (step pools) (start st)) := by
  have hinv : SeqWorld.Inv pools (ops.foldl (step pools) (start st)) :=
    hrun.invariant hfresh.inv fun _ _ h hok => h.step hok.1 hok.2
  exact hinv.inOrder

end Run

instance (st : TcpStream) (pkt : Packet) : Decidable (SafeAck st pkt) :=
  decidable_of_iff (_ ∧ _ ∧ _) ⟨fun h => ⟨h.1, h.2.1, h.2.2⟩, fun h => ⟨h.syn, h.stale, h.half⟩⟩

instance (w : SeqWorld) : DecidablePred (SafeOp w) := fun op => by
  cases op <;> dsimp only [SafeOp] <;> infer_instance

def ackedWrite : List StreamOp :=
  [.write [1, 2, 3], .applicationCalls, .dataList 0 4,
    .packet 0 { seq := 101, ackSeq := 302, ack := true, window := 1000 } 1]

theorem send_numbers_in_order_acked :
    (ackedWrite.foldl (step smallPools) (start opened)).st.sndvar.sndUna = 302 ∧
      InOrder (ackedWrite.foldl (step smallPools) (start opened)) :=
  ⟨by decide +kernel,
    send_numbers_in_order smallPools opened ackedWrite
      ⟨rfl, rfl, ⟨rfl, rfl, rfl⟩, rfl, rfl, rfl, rfl⟩ (by decide +kernel)⟩

def straySyn : List StreamOp :=
  [.write [1, 2, 3], .applicationCalls, .packet 0 { seq := 101, ackSeq := 0, syn := true } 1,
    .controlList 0 true, .dataList 0 4]

/-- `snd_nxt` is what the SYN acks, and the next flush aborts. -/
theorem stray_syn_aborts :
    FreshSeq smallPools opened ∧ (∀ op ∈ straySyn, op.NoClose) ∧
      (straySyn.foldl (step smallPools) (start opened)).fault =
        some .flushCheck :=
  ⟨⟨rfl, rfl, ⟨rfl, rfl, rfl⟩, rfl, rfl, rfl, rfl⟩, by decide +kernel, by decide +kernel⟩

end StackBench.Mtcp

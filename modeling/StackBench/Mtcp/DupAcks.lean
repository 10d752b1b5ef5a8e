import StackBench.Mtcp.PeerWindow

/-!
# Duplicate acks and the fast retransmission of mTCP

The comparison of promoted integers that guards `dup_acks` against overflow
always holds, so the eight bits wrap.
-/

namespace StackBench.Mtcp

open Attempt (Ends)

/-- After `n` duplicates in a row of the ack `ackSeq`, with anything between that counts no ack. -/
inductive Duplicates (ackSeq : UInt32) : ℕ → TcpStream → Prop
  | start {st} : st.dupView = (0, ackSeq) → Duplicates ackSeq 0 st
  | other {n st st'} : Duplicates ackSeq n st → st'.dupView = st.dupView →
      Duplicates ackSeq n st'
  | dup {n st st'} {buf : SendBuffer} {curTs pkt} : Duplicates ackSeq n st →
      dupFlag st buf pkt = true → processACK st buf curTs pkt = .ok st' →
      Duplicates ackSeq (n + 1) st'

/-- The fast retransmission. -/
structure Retransmitted (st : TcpStream) (ackSeq : UInt32) (st' : TcpStream) : Prop where
  sndNxt : st'.sndNxt = ackSeq
  ssthresh : st'.sndvar.ssthresh = lossThreshold st.sndvar
  cwnd : st'.sndvar.cwnd = lossThreshold st.sndvar + 3 * st.sndvar.mss.toUInt32

/-- At most `cwnd` is different, and it is not smaller. -/
structure Inflated (st st' : TcpStream) : Prop where
  sndNxt : st'.sndNxt = st.sndNxt
  ssthresh : st'.sndvar.ssthresh = st.sndvar.ssthresh
  cwnd : st.sndvar.cwnd ≤ st'.sndvar.cwnd

section Duplicates

variable {st st' : TcpStream} {buf : SendBuffer} {pkt : Packet} {n : ℕ} {ackSeq : UInt32}

/-- The stream whose duplicate `ProcessACK` has counted. -/
def counted (st : TcpStream) (pkt : Packet) : TcpStream :=
  countDupAck (updateWindow st pkt (dataAck st pkt.ackSeq)) true (dataAck st pkt.ackSeq)

theorem counted_dupView (st : TcpStream) (pkt : Packet) :
    (counted st pkt).dupView = (st.rcvvar.dupAcks + 1, st.rcvvar.lastAckSeq) := by
  have h := (updateWindow_aside st pkt (dataAck st pkt.ackSeq)).dupView
  exact congrArg (fun v : UInt8 × UInt32 => (v.1 + 1, v.2)) h

/-- A duplicate is not ahead of the buffer, and behind what is sent next. -/
theorem dupFlag_behind (hdup : dupFlag st buf pkt = true) :
    tcpSeqGt (dataAck st pkt.ackSeq) (buf.headSeq + buf.len) = false ∧
      tcpSeqLt (dataAck st pkt.ackSeq) (counted st pkt).sndNxt = true := by
  unfold dupFlag isDupAck at hdup
  simp only [Bool.and_eq_true, Bool.not_eq_true'] at hdup
  exact ⟨hdup.1, hdup.2.1.1.1⟩

theorem Duplicates.count (h : Duplicates ackSeq n st) : st.dupView = (UInt8.ofNat n, ackSeq) := by
  induction h with
  | start h => exact h
  | other _ heq ih => rw [heq, ih]
  | @dup n st st' buf curTs pkt _ hdup hok ih =>
    have hst' := processACK_dupView st buf curTs pkt (dupFlag_behind hdup).1
    rw [hok, Attempt.ends_ok, hdup, if_pos rfl] at hst'
    have hone : UInt8.ofNat n + 1 = UInt8.ofNat (n + 1) := by rw [UInt8.ofNat_add]; rfl
    rw [hst', ← hone]
    exact congrArg (fun v : UInt8 × UInt32 => (v.1 + 1, v.2)) ih

/-- The count of a duplicate decides whether the stream is set back, and the ack stays behind what
is sent next. -/
theorem fastRetransmit_dup (st : TcpStream) (hbuf : st.sndvar.sndbuf = some buf)
    (hlt : tcpSeqLt ackSeq st.sndNxt = true) : ∃ st', fastRetransmit st true ackSeq = .ok st' ∧
      (st.rcvvar.dupAcks = 3 → Retransmitted st ackSeq st') ∧
      (st.rcvvar.dupAcks ≠ 3 → Inflated st st') ∧ tcpSeqGt ackSeq st'.sndNxt = false ∧
      st'.sndvar.mss = st.sndvar.mss ∧ st'.sndvar.effMss = st.sndvar.effMss := by
  have hbehind : tcpSeqGt ackSeq st.sndNxt = false := by
    rw [tcpSeqLt_iff] at hlt
    rw [Bool.eq_false_iff, Ne, tcpSeqGt_iff]
    omega
  have hself : tcpSeqGt ackSeq ackSeq = false := by
    rw [tcpSeqGt, UInt32.sub_self]
    rfl
  unfold fastRetransmit addtoSendList
  dsimp only
  rw [hbuf, hlt, Bool.true_and, if_pos rfl]
  split
  · next h3 =>
    exact ⟨_, rfl, fun _ => ⟨rfl, rfl, rfl⟩, fun h => absurd (beq_iff_eq.mp h3) h, hself, rfl, rfl⟩
  next h3 =>
  have h3' : st.rcvvar.dupAcks ≠ 3 := fun heq => h3 (beq_iff_eq.mpr heq)
  split
  · refine ⟨_, rfl, fun heq => absurd heq h3', fun _ => ?_, ?_⟩
    · split
      · next hgrow => exact ⟨rfl, rfl, UInt32.le_of_lt hgrow⟩
      · exact ⟨rfl, rfl, UInt32.le_refl _⟩
    · split <;> exact ⟨hbehind, rfl, rfl⟩
  · exact ⟨st, rfl, fun heq => absurd heq h3', fun _ => ⟨rfl, rfl, UInt32.le_refl _⟩, hbehind,
      rfl, rfl⟩

/-- The SACK option moves nothing of the send side. -/
theorem parseSACKOption_send (st : TcpStream) (blocks : List (UInt32 × UInt32)) :
    Ends (fun st' => ∃ v, st' = { st with rcvvar := v })
      (fun f => f = .divideByZero ∧ st.sndvar.mss = 0) (parseSACKOption st blocks) := by
  induction blocks generalizing st with
  | nil => exact ⟨_, rfl⟩
  | cons block blocks ih =>
    have hupdate : Ends (fun st' => ∃ v, st' = { st with rcvvar := v })
        (fun f => f = .divideByZero ∧ st.sndvar.mss = 0)
        (updateSackTable st block.1 block.2) := by
      unfold updateSackTable
      split
      · exact ⟨_, rfl⟩
      split
      · next hmss => exact ⟨rfl, hmss⟩
      · exact ⟨_, rfl⟩
    refine hupdate.bind fun st₁ h₁ => ?_
    obtain ⟨v, rfl⟩ := h₁
    exact ih _

theorem updateWindow_mss (st : TcpStream) (pkt : Packet) (ackSeq : UInt32) :
    (updateWindow st pkt ackSeq).sndvar.mss = st.sndvar.mss ∧
      (updateWindow st pkt ackSeq).sndvar.effMss = st.sndvar.effMss := by
  unfold updateWindow
  dsimp only
  split <;> exact ⟨rfl, rfl⟩

/-- A duplicate that acks nothing new leaves the send side as the fast retransmission left it. -/
theorem processACK_old {curTs : UInt32} {st₁ : TcpStream} (hdup : dupFlag st buf pkt = true)
    (hold : tcpSeqGeq buf.headSeq (dataAck st pkt.ackSeq) = true)
    (hst₁ : fastRetransmit (counted st pkt) true (dataAck st pkt.ackSeq) = .ok st₁)
    (hbehind : tcpSeqGt (dataAck st pkt.ackSeq) st₁.sndNxt = false) :
    Ends (fun st' => ∃ v, st' = { st₁ with rcvvar := v })
      (fun f => f = .divideByZero ∧ (st₁.sndvar.mss = 0 ∨ st₁.sndvar.effMss = 0))
      (processACK st buf curTs pkt) := by
  unfold dupFlag at hdup
  simp only [Bool.and_eq_true, Bool.not_eq_true'] at hdup
  unfold processACK
  simp only [hdup.1, hdup.2, hold, Bool.false_eq_true, if_false, if_true]
  change Ends _ _ (fastRetransmit (counted st pkt) true _ >>= _)
  rw [hst₁]
  refine ((parseSACKOption_send st₁ _).weaken fun f hf => ⟨hf.1, Or.inl hf.2⟩).bind fun st₂ h₂ => ?_
  obtain ⟨v, rfl⟩ := h₂
  unfold recoverFromLoss
  simp only [hbehind, Bool.false_eq_true, if_false]
  change Ends _ _ (if st₁.sndvar.effMss = 0 then _ else _)
  split
  · next heff => exact ⟨rfl, Or.inr heff⟩
  · exact ⟨v, rfl⟩

/-- Of up to 258 duplicates in a row that ack nothing new the third one sets the stream back, and
any other one only inflates its window; both are seen in what `ProcessACK` returns. -/
theorem fast_retransmit_once (ackSeq : UInt32) (n : ℕ) (st : TcpStream) (buf : SendBuffer)
    (curTs : UInt32) (pkt : Packet) (hrun : Duplicates ackSeq n st) (hn : n < 258)
    (hdup : dupFlag st buf pkt = true) (hbuf : st.sndvar.sndbuf = some buf)
    (hold : tcpSeqGeq buf.headSeq (dataAck st pkt.ackSeq) = true) :
    Ends (fun st' => (n + 1 = 3 → Retransmitted (counted st pkt) (dataAck st pkt.ackSeq) st') ∧
        (n + 1 ≠ 3 → Inflated (counted st pkt) st'))
      (fun f => f = .divideByZero ∧ (st.sndvar.mss = 0 ∨ st.sndvar.effMss = 0))
      (processACK st buf curTs pkt) := by
  have hidle := (updateWindow_aside st pkt (dataAck st pkt.ackSeq)).idle
  have hthree : (counted st pkt).rcvvar.dupAcks = 3 ↔ n + 1 = 3 := by
    have hview : (counted st pkt).dupView = (UInt8.ofNat n + 1, ackSeq) := by
      rw [counted_dupView]
      exact congrArg (fun v : UInt8 × UInt32 => (v.1 + 1, v.2)) hrun.count
    rw [show (counted st pkt).rcvvar.dupAcks = _ from congrArg Prod.fst hview,
      ← UInt8.toNat_inj, UInt8.toNat_add, UInt8.toNat_ofNat']
    change (n % 2 ^ 8 + 1) % 2 ^ 8 = 3 ↔ _
    omega
  have hmss : (counted st pkt).sndvar.mss = st.sndvar.mss ∧
      (counted st pkt).sndvar.effMss = st.sndvar.effMss := updateWindow_mss st pkt _
  obtain ⟨st₁, hst₁, hset, hinflate, hbehind, hmss₁, heff₁⟩ :=
    fastRetransmit_dup (counted st pkt) ((congrArg SendView.sndbuf hidle).trans hbuf)
      (dupFlag_behind hdup).2
  rw [hthree] at hset
  rw [Ne, hthree] at hinflate
  refine ((processACK_old hdup hold hst₁ hbehind).mono fun st' h => ?_).weaken fun f hf => ?_
  · obtain ⟨v, rfl⟩ := h
    exact ⟨fun h3 => { hset h3 with }, fun h3 => { hinflate h3 with }⟩
  · rwa [hmss₁, heff₁, hmss.1, hmss.2] at hf

def threeDup (d : UInt8) : TcpStream :=
  { threeSent with rcvvar := { threeSent.rcvvar with dupAcks := d } }

theorem threeDup_duplicates (n : ℕ) : Duplicates 301 n (threeDup (UInt8.ofNat n)) := by
  induction n with
  | zero => exact .start rfl
  | succ n ih =>
    have hdup : ∀ d : Fin 256, dupFlag (threeDup (.ofFin d)) threeBytes (ack301 1000) = true ∧
        ((processACK (threeDup (.ofFin d)) threeBytes 0 (ack301 1000)).map TcpStream.dupView) =
          .ok (.ofFin (d + 1), 301) := by
      decide +kernel
    obtain ⟨hflag, hview⟩ := hdup (UInt8.ofNat n).toFin
    cases hok : processACK (threeDup (UInt8.ofNat n)) threeBytes 0 (ack301 1000) with
    | error f => rw [UInt8.ofFin_toFin, hok] at hview; cases hview
    | ok st =>
      rw [UInt8.ofFin_toFin, hok] at hview
      have hst : st.dupView = _ := Except.ok.inj hview
      refine (ih.dup hflag hok).other ?_
      rw [hst]
      exact congrArg (·, (301 : UInt32)) (UInt8.ofNat_add n 1)

theorem fast_retransmit_once_third : ∃ st', processACK (threeDup 2) threeBytes 0 (ack301 1000) =
    .ok st' ∧ Retransmitted (counted (threeDup 2) (ack301 1000)) 301 st' := by
  have h := fast_retransmit_once 301 2 (threeDup 2) threeBytes 0 (ack301 1000)
    (threeDup_duplicates 2) (by decide) (by decide) rfl (by decide)
  obtain ⟨st', hst', hthird, -⟩ := (h.weaken fun f hf => absurd hf.2 (by decide)).returns
  exact ⟨st', hst', hthird rfl⟩

/-- The counter wraps, and the duplicate with the number 259 starts another one. -/
theorem fast_retransmit_twice :
    Duplicates 301 258 (threeDup 2) ∧ dupFlag (threeDup 2) threeBytes (ack301 1000) = true ∧
      (threeDup 2).sndNxt = 304 ∧
      ((processACK (threeDup 2) threeBytes 0 (ack301 1000)).map fun st => st.sndNxt) = .ok 301 :=
  ⟨threeDup_duplicates 258, by decide +kernel⟩

end Duplicates

end StackBench.Mtcp

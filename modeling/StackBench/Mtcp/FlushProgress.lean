import StackBench.Mtcp.PeerWindow
import StackBench.Mtcp.SendSeq

/-!
# Progress of FlushTCPSendingBuffer

A round of the loop ends it, skips to the end of the buffer, or sends a segment.
The segment is empty where the peer has announced an MSS as long as the options,
and the skip tests only the first byte.
-/

namespace StackBench.Mtcp

variable {buf : SendBuffer} {curTs : UInt32} {st : TcpStream}

theorem unsent_packetSent {n : ℕ} (hn : n ≤ (unsent buf st).toNat) :
    (unsent buf (packetSent st curTs { ack := true } n)).toNat = (unsent buf st).toNat - n := by
  have hnxt : (packetSent st curTs { ack := true } n).sndNxt = st.sndNxt + UInt32.ofNat n :=
    congrArg SendView.sndNxt (packetSent_view st curTs n)
  have hsub : unsent buf (packetSent st curTs { ack := true } n) =
      unsent buf st - UInt32.ofNat n := by
    unfold unsent
    grind
  have hlt := (unsent buf st).toNat_lt
  rw [hsub, UInt32.toNat_sub, UInt32.toNat_ofNat']
  omega

theorem pktLen_pos {len : UInt32} (hmss : 12 < st.sndvar.mss.toNat) (hlen : len ≠ 0)
    (hopen : ¬windowClosed st = true) : 0 < (pktLen st len).toNat % 2 ^ 16 := by
  have hwnd : 0 < remainingWindow st ∧ remainingWindow st < 2 ^ 32 := by
    constructor
    · by_contra hle
      exact hopen (by rw [windowClosed, decide_eq_true (not_lt.mp hle), Bool.true_or])
    · have hword := (min st.sndvar.cwnd st.sndvar.peerWnd - (st.sndNxt - st.sndvar.sndUna)).toNat_lt
      unfold remainingWindow int32
      split <;> omega
  have hopt : (st.sndvar.mss.toUInt32 - 12).toNat = st.sndvar.mss.toNat - 12 := by
    rw [UInt32.toNat_sub_of_le _ _ (UInt32.le_iff_toNat_le.mpr (by simpa using hmss.le))]
    rfl
  have hpos : 0 < len.toNat := Nat.pos_of_ne_zero fun h => hlen (UInt32.toNat_inj.mp h)
  have hlt := st.sndvar.mss.toNat_lt
  unfold pktLen
  simp only [UInt32.toNat_min, UInt32.toNat_ofNat', hopt]
  omega

/-- The options leave no room for data in a segment, and the loop comes to sending one. -/
structure Stuck (buf : SendBuffer) (st : TcpStream) : Prop where
  mss : st.sndvar.mss = 12
  head : ¬tcpSeqLt st.sndNxt buf.headSeq = true
  una : ¬tcpSeqLt st.sndNxt st.sndvar.sndUna = true
  inside : ¬buf.len < st.sndNxt - buf.headSeq
  left : unsent buf st ≠ 0
  sacked : ¬seqIsSacked st st.sndNxt = true
  opened : ¬windowClosed st = true

section Stuck

variable (h : Stuck buf st)
include h

theorem Stuck.again : Stuck buf (packetSent st curTs { ack := true } 0) := by
  have hsent : ∃ adv fin ts, packetSent st curTs { ack := true } 0 =
      { st with
        needWndAdv := adv
        sndvar := { st.sndvar with isFinSent := fin, tsLastackSent := ts } } := by
    simp [packetSent]
  obtain ⟨adv, fin, ts, hsent⟩ := hsent
  rw [hsent]
  exact ⟨h.mss, h.head, h.una, h.inside, h.left, h.sacked, h.opened⟩

theorem Stuck.empty (len : UInt32) : (pktLen st len).toNat % 2 ^ 16 = 0 := by
  unfold pktLen
  rw [h.mss]
  simp [UInt32.toNat_min]

end Stuck

/-- A stream that is stuck sends an empty segment for every packet buffer. -/
theorem Stuck.endless (fuel txBufs : ℕ) (out : FlushOut) (h : Stuck buf out.st)
    (htx : fuel ≤ txBufs) : flushLoop buf curTs fuel txBufs out = .error .flushEndless := by
  induction fuel generalizing txBufs out with
  | zero => rfl
  | succ fuel ih =>
    have hread (off : ℕ) (len : UInt32) :
        sbRead buf off ((pktLen out.st len).toNat % 2 ^ 16) = [] := by
      rw [h.empty]
      rfl
    have hfits : ¬out.st.sndvar.mss.toNat < 0 + optlen := by
      rw [h.mss]
      decide
    have hbuf : decide (0 < txBufs) = true := decide_eq_true (by omega)
    unfold flushLoop
    dsimp only
    rw [if_neg h.head, if_neg h.una, if_neg h.inside, if_neg (show ¬buf.len - _ = 0 from h.left),
      if_neg h.sacked, if_neg h.opened, hread, sendTCPPacket, List.length_nil, if_neg hfits, hbuf]
    exact ih _ _ h.again (by omega)

/-- With packet buffers enough, the loop ends after at most one round for each unsent byte and
one more, unless the stream is stuck. -/
theorem flush_terminates (buf : SendBuffer) (curTs : UInt32) (fuel txBufs : ℕ) (out : FlushOut)
    (hfuel : (unsent buf out.st).toNat < fuel) (htx : fuel ≤ txBufs) :
    flushLoop buf curTs fuel txBufs out ≠ .error .flushEndless ↔ ¬Stuck buf out.st := by
  refine ⟨fun hends h => hends (h.endless fuel txBufs out htx), fun hfree => ?_⟩
  induction fuel generalizing txBufs out with
  | zero => omega
  | succ fuel ih =>
    unfold flushLoop
    dsimp only
    split
    · simp
    split
    · simp
    split
    · simp
    split
    · simp
    next hhead huna hinside hlen =>
    split
    · have hend : unsent buf { out.st with sndNxt := out.st.sndNxt + unsent buf out.st } = 0 := by
        unfold unsent
        grind
      refine ih _ _ (lt_of_eq_of_lt (congrArg UInt32.toNat hend) ?_) (by omega) fun h =>
        h.left hend
      have hpos : 0 < (unsent buf out.st).toNat :=
        Nat.pos_of_ne_zero fun h => hlen (UInt32.toNat_inj.mp h)
      exact hpos.trans_le (Nat.le_of_lt_succ hfuel)
    next hsacked =>
    split
    · simp
    next hopen =>
    split
    · simp
    next hok =>
    obtain ⟨-, hfits, hst, -⟩ := sendTCPPacket_sent hok
    rw [sbRead_length] at hst hfits
    have hmss : out.st.sndvar.mss ≠ 12 := fun hmss =>
      hfree ⟨hmss, hhead, huna, hinside, hlen, hsacked, hopen⟩
    have hbig : 12 < out.st.sndvar.mss.toNat := by
      have hne : out.st.sndvar.mss.toNat ≠ 12 := fun h => hmss (UInt16.toNat_inj.mp h)
      unfold optlen at hfits
      omega
    have hpos := pktLen_pos hbig hlen hopen
    have hle := (Nat.mod_le _ (2 ^ 16)).trans (pktLen_le_len out.st (unsent buf out.st))
    rw [hst]
    refine ih _ _ ?_ (by omega) fun h => ?_
    · refine lt_of_eq_of_lt (unsent_packetSent hle) ?_
      have hpos' : 0 < (pktLen out.st (unsent buf out.st)).toNat % 2 ^ 16 := hpos
      omega
    · exact hmss ((congrArg Sending.mss (packetSent_sending out.st curTs _ _)).symm.trans h.mss)

def resend (mss : UInt16) : TcpStream :=
  { threeSent with sndNxt := 301, sndvar := { threeSent.sndvar with mss := mss } }

theorem flush_terminates_thirteen : flushLoop threeBytes 0 4 4 ⟨resend 13, 0, []⟩ ≠
    .error .flushEndless :=
  (flush_terminates threeBytes 0 4 4 ⟨resend 13, 0, []⟩ (by decide) le_rfl).mpr
    fun h => absurd h.mss (by decide)

/-- With an MSS of twelve bytes the loop sends empty segments without end. -/
theorem flush_endless :
    unsent threeBytes (resend 12) = 3 ∧
      ∀ n, flushLoop threeBytes 0 n n ⟨resend 12, 0, []⟩ = .error .flushEndless := by
  have hstuck : Stuck threeBytes (resend 12) := by
    constructor <;> decide
  exact ⟨by decide, fun n => hstuck.endless n n _ le_rfl⟩

/-- A byte of the buffer that is in the SACK table is followed by such bytes only. -/
def SackedToEnd (buf : SendBuffer) (st : TcpStream) : Prop :=
  ∀ seq, ¬buf.len < seq - buf.headSeq → seqIsSacked st seq = true →
    ∀ i < (buf.len - (seq - buf.headSeq)).toNat, seqIsSacked st (seqAt seq i) = true

/-- The byte was sent, or is in the SACK table. -/
def SentOrSacked (st : TcpStream) (sent : List Segment) (seq : UInt32) : Prop :=
  seqIsSacked st seq = true ∨ ∃ seg ∈ sent, (seq - seg.seq).toNat < seg.payload.length

/-- So is every byte that `snd_nxt` has passed. -/
structure Covered (st : TcpStream) (out : FlushOut) : Prop where
  table : out.st.rcvvar.sackTable = st.rcvvar.sackTable
  bytes : ∀ k < (out.st.sndNxt - st.sndNxt).toNat, SentOrSacked st out.sent (seqAt st.sndNxt k)

/-- A property of the numbers that were passed, when `n` more are. -/
theorem passed_add {P : UInt32 → Prop} {start nxt n : UInt32}
    (h : ∀ k < (nxt - start).toNat, P (seqAt start k)) (hn : ∀ i < n.toNat, P (seqAt nxt i)) :
    ∀ k < (nxt + n - start).toNat, P (seqAt start k) := by
  intro k hk
  by_cases hlt : k < (nxt - start).toNat
  · exact h k hlt
  have hsum : nxt + n - start = nxt - start + n := by grind
  rw [hsum, UInt32.toNat_add] at hk
  have hseq : seqAt start k = seqAt nxt (k - (nxt - start).toNat) := by
    unfold seqAt
    rw [UInt32.ofNat_sub (not_lt.mp hlt), UInt32.ofNat_toNat]
    grind
  rw [hseq]
  exact hn _ (by omega)

theorem Covered.rounds (hend : SackedToEnd buf st) : Rounds buf curTs (Covered st) where
  skip out h hoff hsacked := by
    have hsame : ∀ seq, seqIsSacked out.st seq = seqIsSacked st seq := by
      intro seq
      unfold seqIsSacked
      rw [h.table]
    rw [hsame] at hsacked
    exact ⟨h.table, passed_add h.bytes fun i hi => Or.inl (hend _ hoff hsacked i hi)⟩
  full out h := by
    unfold windowFull
    split <;> exact ⟨h.table, h.bytes⟩
  fail out h := ⟨h.table, h.bytes⟩
  sent out seg h hseq _ := by
    have hnxt : (packetSent out.st curTs { ack := true } seg.payload.length).sndNxt =
        out.st.sndNxt + UInt32.ofNat seg.payload.length :=
      congrArg SendView.sndNxt (packetSent_view out.st curTs _)
    refine ⟨?_, ?_⟩
    · unfold packetSent addtoRTOList
      dsimp only
      repeat' split
      all_goals exact h.table
    rw [hnxt]
    refine passed_add (fun k hk => ?_) fun i hi => Or.inr ⟨seg, by simp, ?_⟩
    · exact (h.bytes k hk).imp_right fun ⟨seg', hmem, hin⟩ =>
        ⟨seg', List.mem_append_left _ hmem, hin⟩
    · have hpos := seqAt_sub_toNat out.st.sndNxt i 0
      rw [seqAt_zero] at hpos
      rw [UInt32.toNat_ofNat'] at hi
      rw [hseq]
      omega

/-- A call passes nothing else either. -/
theorem Covered.flush {txBufs : ℕ} {out : FlushOut} (hbuf : st.sndvar.sndbuf = some buf)
    (hend : SackedToEnd buf st) (hout : flushTCPSendingBuffer st curTs txBufs = .ok out) :
    Covered st out := by
  have hrounds : ∀ buf', st.sndvar.sndbuf = some buf' → Rounds buf' curTs (Covered st) := by
    intro buf' hbuf'
    cases hbuf.symm.trans hbuf'
    exact Covered.rounds hend
  have hflush := Rounds.flush hrounds txBufs ⟨rfl, by simp⟩
  rwa [hout] at hflush

end StackBench.Mtcp

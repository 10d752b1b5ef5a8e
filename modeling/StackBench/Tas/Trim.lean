import StackBench.Tas.TcpCommon

/-!
# Trimming a segment to the receive window

Segment and window are intervals on the circle of sequence numbers.
`tcp_trim_rxbuf` keeps what they have in common, and `tcp_valid_rxseq` that of
a segment that covers `rx_next_seq`. Both tell cases apart by which of the two
wraps.
-/

namespace StackBench.Tas

open UInt32 (le_iff_toNat_le lt_iff_toNat_lt toNat_toUInt16)
open Word (add_cases sub_cases)

variable {fs : FlowSt} {seq : UInt32} {bytes : UInt16}

def InWindow (fs : FlowSt) (x : UInt32) : Prop := (x - fs.rxNextSeq).toNat < fs.rxAvail.toNat

theorem inWindow_iff {i : ℕ} (hi : i < 2 ^ 16) (havail : fs.rxAvail.toNat < 2 ^ 31) :
    InWindow fs (seq + UInt32.ofNat i) ↔
      (fs.rxNextSeq.toNat ≤ seq.toNat + i ∧
        seq.toNat + i < fs.rxNextSeq.toNat + fs.rxAvail.toNat) ∨
      (seq.toNat + i < fs.rxNextSeq.toNat ∧
        seq.toNat + i + 2 ^ 32 < fs.rxNextSeq.toNat + fs.rxAvail.toNat) ∨
      (fs.rxNextSeq.toNat + 2 ^ 32 ≤ seq.toNat + i ∧
        seq.toNat + i < fs.rxNextSeq.toNat + fs.rxAvail.toNat + 2 ^ 32) := by
  have hofNat : (UInt32.ofNat i).toNat = i := UInt32.toNat_ofNat_of_lt' (hi.trans (by decide))
  have hadd := add_cases seq (UInt32.ofNat i)
  have hsub := sub_cases (seq + UInt32.ofNat i) fs.rxNextSeq
  unfold InWindow
  omega

/-- A dropped segment has no byte in the window, and of a kept one exactly the bytes of the window
are left. -/
def TrimExact (fs : FlowSt) (seq : UInt32) (bytes : UInt16) : Option (UInt16 × UInt16) → Prop
  | none => ∀ i < bytes.toNat, ¬InWindow fs (seq + UInt32.ofNat i)
  | some (trimStart, trimEnd) =>
    trimStart.toNat + trimEnd.toNat ≤ bytes.toNat ∧
      ∀ i < bytes.toNat, InWindow fs (seq + UInt32.ofNat i) ↔
        trimStart.toNat ≤ i ∧ i < bytes.toNat - trimEnd.toNat

/-- The segment wraps and the window does not; it starts behind the window's start and not behind
its end. -/
def Overhangs (fs : FlowSt) (seq : UInt32) (bytes : UInt16) : Prop :=
  seq + bytes.toUInt32 < seq ∧ fs.rxNextSeq ≤ fs.rxNextSeq + fs.rxAvail ∧
    fs.rxNextSeq < seq ∧ seq ≤ fs.rxNextSeq + fs.rxAvail
deriving Decidable

theorem cut_toNat {c : Prop} [Decidable c] {a b : UInt32} (h : c → (a - b).toNat < 2 ^ 16) :
    (if c then a - b else 0).toUInt16.toNat = if c then (a - b).toNat else 0 := by
  split
  · next hc =>
    exact Nat.mod_eq_of_lt (h hc)
  · rfl

theorem trimExact_cuts {c d : Prop} [Decidable c] [Decidable d] {a b a' b' : UInt32}
    (hstart : c → (a - b).toNat < 2 ^ 16) (hend : d → (a' - b').toNat < 2 ^ 16)
    (hle : (if c then (a - b).toNat else 0) + (if d then (a' - b').toNat else 0) ≤ bytes.toNat)
    (hin : ∀ i < bytes.toNat, InWindow fs (seq + UInt32.ofNat i) ↔
      (if c then (a - b).toNat else 0) ≤ i ∧
        i < bytes.toNat - if d then (a' - b').toNat else 0) :
    TrimExact fs seq bytes (some ((if c then a - b else 0).toUInt16,
      (if d then a' - b' else 0).toUInt16)) := by
  simp only [TrimExact]
  rw [cut_toNat hstart, cut_toNat hend]
  exact ⟨hle, hin⟩

/-- An overhanging segment is kept whole, so that its tail lies behind the window. -/
theorem tcpTrimRxbuf_overhang (havail : fs.rxAvail.toNat < 2 ^ 31)
    (hover : Overhangs fs seq bytes) : tcpTrimRxbuf fs seq bytes = some (0, 0) := by
  have hbytes := bytes.toNat_lt
  have hpkt := add_cases seq bytes.toUInt32
  have hwin := add_cases fs.rxNextSeq fs.rxAvail
  rw [UInt16.toNat_toUInt32] at hpkt
  unfold Overhangs at hover
  unfold tcpTrimRxbuf
  simp only [le_iff_toNat_le, lt_iff_toNat_lt, gt_iff_lt, ge_iff_le] at hover ⊢
  rw [if_neg (by omega), if_neg (by omega), if_pos (by omega), if_neg (by omega),
    if_neg (by omega), if_neg (by omega)]
  rfl

/-- The byte at the end of the window is not in it, but kept. -/
theorem not_trimExact_of_overhangs (havail : fs.rxAvail.toNat < 2 ^ 31)
    (hexact : TrimExact fs seq bytes (tcpTrimRxbuf fs seq bytes)) : ¬Overhangs fs seq bytes := by
  intro hover
  rw [tcpTrimRxbuf_overhang havail hover] at hexact
  have hbytes := bytes.toNat_lt
  have hpkt := add_cases seq bytes.toUInt32
  have hwin := add_cases fs.rxNextSeq fs.rxAvail
  rw [UInt16.toNat_toUInt32] at hpkt
  simp only [Overhangs, le_iff_toNat_le, lt_iff_toNat_lt] at hover
  obtain ⟨i, hi⟩ := Nat.exists_eq_add_of_le hover.2.2.2
  have hin := (hexact.2 i (by omega)).mpr ⟨Nat.zero_le _, by simp; omega⟩
  rw [inWindow_iff (by omega) havail] at hin
  omega

/-- For all windows below half of the circle, a segment is trimmed exactly if it does not overhang.
-/
theorem tcpTrimRxbuf_exact (fs : FlowSt) (seq : UInt32) (bytes : UInt16)
    (havail : fs.rxAvail.toNat < 2 ^ 31) :
    TrimExact fs seq bytes (tcpTrimRxbuf fs seq bytes) ↔ ¬Overhangs fs seq bytes := by
  refine ⟨not_trimExact_of_overhangs havail, fun hover => ?_⟩
  have hbytes := bytes.toNat_lt
  have hseq := seq.toNat_lt
  have hnext := fs.rxNextSeq.toNat_lt
  have hpkt := add_cases seq bytes.toUInt32
  have hwin := add_cases fs.rxNextSeq fs.rxAvail
  have hstart := sub_cases fs.rxNextSeq seq
  have hend := sub_cases (seq + bytes.toUInt32) (fs.rxNextSeq + fs.rxAvail)
  have hpktB := (seq + bytes.toUInt32).toNat_lt
  have hwinB := (fs.rxNextSeq + fs.rxAvail).toNat_lt
  have hin : ∀ i < bytes.toNat, InWindow fs (seq + UInt32.ofNat i) ↔ _ :=
    fun i hi => inWindow_iff (hi.trans bytes.toNat_lt) havail
  rw [UInt16.toNat_toUInt32] at hpkt
  unfold Overhangs at hover
  unfold tcpTrimRxbuf
  generalize seq + bytes.toUInt32 = pseqB at hover hpkt hend hpktB ⊢
  generalize fs.rxNextSeq + fs.rxAvail = sseqB at hover hwin hend hwinB ⊢
  simp only [le_iff_toNat_le, lt_iff_toNat_lt, gt_iff_lt, ge_iff_le] at hover ⊢
  -- the cases of the source, by which of the two intervals wraps
  split
  · split
    · intro i hi
      rw [hin i hi]
      omega
    split
    · intro i hi
      rw [hin i hi]
      omega
    refine trimExact_cuts (by omega) (by omega) ?_ fun i hi => ?_
    · split <;> split <;> omega
    · rw [hin i hi]
      split <;> split <;> omega
  split
  · split
    · intro i hi
      rw [hin i hi]
      omega
    · refine trimExact_cuts (by omega) (by omega) ?_ fun i hi => ?_
      · split <;> split <;> omega
      · rw [hin i hi]
        split <;> split <;> omega
  split
  · split
    · intro i hi
      rw [hin i hi]
      omega
    · refine trimExact_cuts (by omega) (by omega) ?_ fun i hi => ?_
      · split <;> split <;> omega
      · rw [hin i hi]
        split <;> split <;> omega
  refine trimExact_cuts (by omega) (by omega) ?_ fun i hi => ?_
  · split <;> split <;> omega
  · rw [hin i hi]
    split <;> split <;> omega

def receiver (next avail : UInt32) : FlowSt :=
  { (default : FlowSt) with rxNextSeq := next, rxAvail := avail }

/-- A segment with ten bytes before a window of four and six behind it. -/
theorem tcpTrimRxbuf_exact_both_ends :
    TrimExact (receiver 10 4) 0 20 (tcpTrimRxbuf (receiver 10 4) 0 20) ∧
      tcpTrimRxbuf (receiver 10 4) 0 20 = some (10, 6) :=
  ⟨(tcpTrimRxbuf_exact _ _ _ (by decide)).mpr (by decide), by decide⟩

/-- The window ends ten bytes into a segment that wraps around, and all hundred
bytes of it are kept. -/
theorem tcpTrimRxbuf_keeps_tail :
    (receiver 4294967196 60).rxAvail.toNat < 2 ^ 31 ∧
      tcpTrimRxbuf (receiver 4294967196 60) 4294967246 100 = some (0, 0) ∧
      ¬InWindow (receiver 4294967196 60) (4294967246 + UInt32.ofNat 10) ∧
      ¬TrimExact (receiver 4294967196 60) 4294967246 100
        (tcpTrimRxbuf (receiver 4294967196 60) 4294967246 100) := by
  have hkept : tcpTrimRxbuf (receiver 4294967196 60) 4294967246 100 = some (0, 0) :=
    tcpTrimRxbuf_overhang (by decide) (by decide)
  have hout : ¬InWindow (receiver 4294967196 60) (4294967246 + UInt32.ofNat 10) := by
    unfold InWindow
    decide
  refine ⟨by decide, hkept, hout, ?_⟩
  rintro ⟨-, hin⟩
  exact hout ((hin 10 (by decide)).mpr ⟨by decide, by decide⟩)

/-- `tcp_valid_rxseq`: `none` is the return value `-1`, `some` carries `trim_start`
and `trim_end`. -/
def tcpValidRxseq (fs : FlowSt) (pktSeq : UInt32) (pktBytes : UInt16) : Option (UInt16 × UInt16) :=
  let pseqA := pktSeq
  let pseqB := pktSeq + pktBytes.toUInt32
  let sseqA := fs.rxNextSeq
  let sseqB := fs.rxNextSeq + fs.rxAvail
  if pseqA ≤ pseqB ∧ sseqA ≤ sseqB then
    -- neither packet interval nor receive buffer split
    if pseqB < sseqA then none
    else if pseqA > sseqA then none
    else some
      ((sseqA - pseqA).toUInt16, (if pseqB > sseqB then pseqB - sseqB else 0).toUInt16)
  else if pseqA ≤ pseqB ∧ sseqA > sseqB then
    -- packet interval not split, but receive buffer split
    if pseqA ≥ sseqB ∧ pseqB < sseqA then none
    else if pseqA > sseqA ∨ pseqA < sseqB then none
    else some ((sseqA - pseqA).toUInt16, 0)
  else if pseqA > pseqB ∧ sseqA ≤ sseqB then
    -- packet interval split, receive buffer not split
    if pseqB < sseqA then none
    else if pseqA > sseqA then none
    else some
      ((sseqA - pseqA).toUInt16, (if pseqB > sseqB then pseqB - sseqB else 0).toUInt16)
  else
    -- both intervals split
    if pseqA > sseqA then none
    else some
      ((sseqA - pseqA).toUInt16, (if pseqB > sseqB then pseqB - sseqB else 0).toUInt16)

/-- The numbers of the segment and the one behind it, with `rx_next_seq` among them. -/
def ReachesNext (fs : FlowSt) (seq : UInt32) (bytes : UInt16) : Prop :=
  (fs.rxNextSeq - seq).toNat ≤ bytes.toNat
deriving Decidable

/-- The segment is refused if it does not reach `rx_next_seq`, and else cut to the window. -/
def RxseqExact (fs : FlowSt) (seq : UInt32) (bytes : UInt16) : Option (UInt16 × UInt16) → Prop
  | none => ¬ReachesNext fs seq bytes
  | some (trimStart, trimEnd) =>
    ReachesNext fs seq bytes ∧ trimStart.toNat = (fs.rxNextSeq - seq).toNat ∧
      trimEnd.toNat = bytes.toNat - ((fs.rxNextSeq - seq).toNat + fs.rxAvail.toNat)

/-- The segment wraps around and the window does not. -/
def OnlySegmentWraps (fs : FlowSt) (seq : UInt32) (bytes : UInt16) : Prop :=
  seq + bytes.toUInt32 < seq ∧ fs.rxNextSeq ≤ fs.rxNextSeq + fs.rxAvail
deriving Decidable

/-- A segment that wraps is refused at every window that does not: no number is below its end and
behind its start. -/
theorem tcpValidRxseq_onlySegmentWraps (h : OnlySegmentWraps fs seq bytes) :
    tcpValidRxseq fs seq bytes = none := by
  unfold OnlySegmentWraps at h
  unfold tcpValidRxseq
  simp only [le_iff_toNat_le, lt_iff_toNat_lt, gt_iff_lt, ge_iff_le] at h ⊢
  rw [if_neg (by omega), if_neg (by omega), if_pos (by omega)]
  split
  · rfl
  · rw [if_pos (by omega)]

/-- `tcp_valid_rxseq` is exact, unless a segment that reaches `rx_next_seq` wraps alone. -/
theorem tcpValidRxseq_exact (fs : FlowSt) (seq : UInt32) (bytes : UInt16)
    (havail : fs.rxAvail.toNat < 2 ^ 31) :
    RxseqExact fs seq bytes (tcpValidRxseq fs seq bytes) ↔
      (ReachesNext fs seq bytes → ¬OnlySegmentWraps fs seq bytes) := by
  by_cases honly : OnlySegmentWraps fs seq bytes
  · rw [tcpValidRxseq_onlySegmentWraps honly]
    exact ⟨fun hrefused hreach => absurd hreach hrefused, fun hwrap hreach => hwrap hreach honly⟩
  refine ⟨fun _ _ => honly, fun _ => ?_⟩
  have hbytes := bytes.toNat_lt
  have hseq := seq.toNat_lt
  have hnext := fs.rxNextSeq.toNat_lt
  have hpkt := add_cases seq bytes.toUInt32
  have hwin := add_cases fs.rxNextSeq fs.rxAvail
  have hstart := sub_cases fs.rxNextSeq seq
  have hend := sub_cases (seq + bytes.toUInt32) (fs.rxNextSeq + fs.rxAvail)
  have hpktB := (seq + bytes.toUInt32).toNat_lt
  have hwinB := (fs.rxNextSeq + fs.rxAvail).toNat_lt
  rw [UInt16.toNat_toUInt32] at hpkt
  unfold OnlySegmentWraps at honly
  unfold tcpValidRxseq
  generalize seq + bytes.toUInt32 = pseqB at honly hpkt hend hpktB ⊢
  generalize fs.rxNextSeq + fs.rxAvail = sseqB at honly hwin hend hwinB ⊢
  simp only [le_iff_toNat_le, lt_iff_toNat_lt, gt_iff_lt, ge_iff_le] at honly ⊢
  split
  · split
    · simp only [RxseqExact, ReachesNext]
      omega
    split
    · simp only [RxseqExact, ReachesNext]
      omega
    · simp only [RxseqExact, ReachesNext]
      rw [cut_toNat (by omega), toNat_toUInt16, Nat.mod_eq_of_lt (by omega)]
      split <;> omega
  split
  · split
    · simp only [RxseqExact, ReachesNext]
      omega
    split
    · simp only [RxseqExact, ReachesNext]
      omega
    · simp only [RxseqExact, ReachesNext]
      rw [toNat_toUInt16, Nat.mod_eq_of_lt (by omega), UInt16.toNat_zero]
      omega
  split
  · simp only [RxseqExact, ReachesNext]
    omega
  · simp only [RxseqExact, ReachesNext]
    rw [cut_toNat (by omega), toNat_toUInt16, Nat.mod_eq_of_lt (by omega)]
    split <;> omega

theorem tcpValidRxseq_exact_both_ends :
    RxseqExact (receiver 10 4) 0 20 (tcpValidRxseq (receiver 10 4) 0 20) ∧
      tcpValidRxseq (receiver 10 4) 0 20 = some (10, 6) :=
  ⟨(tcpValidRxseq_exact _ _ _ (by decide)).mpr (by decide), by decide⟩

/-- The flow waits for the third byte of a segment that wraps around, and the
segment is refused. -/
theorem tcpValidRxseq_refuses_usable :
    (receiver 0 60).rxAvail.toNat < 2 ^ 31 ∧ ReachesNext (receiver 0 60) 4294967294 10 ∧
      tcpValidRxseq (receiver 0 60) 4294967294 10 = none ∧
      ¬RxseqExact (receiver 0 60) 4294967294 10
        (tcpValidRxseq (receiver 0 60) 4294967294 10) := by
  have hreach : ReachesNext (receiver 0 60) 4294967294 10 := by decide
  have hrefused : tcpValidRxseq (receiver 0 60) 4294967294 10 = none :=
    tcpValidRxseq_onlySegmentWraps (by decide)
  refine ⟨by decide, hreach, hrefused, ?_⟩
  exact fun hexact => hexact hreach

end StackBench.Tas

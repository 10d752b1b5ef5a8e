import StackBench.Lib.Word
import StackBench.Tas.FlowState

/-!
# Sequence and window arithmetic of the TAS fast path

The functions of `tcp_common.h`, in the machine arithmetic of the source.
-/

namespace StackBench.Tas

open UInt32 (le_iff_toNat_le lt_iff_toNat_lt toNat_add toNat_inj toNat_sub)

/-- `tcp_trim_rxbuf`: `none` is the return value `-1`, `some` carries
`trim_start` and `trim_end`. -/
def tcpTrimRxbuf (fs : FlowSt) (pktSeq : UInt32) (pktBytes : UInt16) : Option (UInt16 × UInt16) :=
  let pseqA := pktSeq
  let pseqB := pktSeq + pktBytes.toUInt32
  let sseqA := fs.rxNextSeq
  let sseqB := fs.rxNextSeq + fs.rxAvail
  if pseqA ≤ pseqB ∧ sseqA ≤ sseqB then
    -- neither packet interval nor receive buffer split
    if pseqB < sseqA then none
    else if pseqA > sseqB then none
    else some
      ((if pseqA < sseqA then sseqA - pseqA else 0).toUInt16,
       (if pseqB > sseqB then pseqB - sseqB else 0).toUInt16)
  else if pseqA ≤ pseqB ∧ sseqA > sseqB then
    -- packet interval not split, but receive buffer split
    if pseqA > sseqB ∧ pseqB < sseqA then none
    else some
      ((if pseqA > sseqB ∧ pseqA < sseqA then sseqA - pseqA else 0).toUInt16,
       (if pseqB ≥ sseqB ∧ pseqB < sseqA then pseqB - sseqB else 0).toUInt16)
  else if pseqA > pseqB ∧ sseqA ≤ sseqB then
    -- packet interval split, receive buffer not split
    if pseqA > sseqB ∧ pseqB < sseqA then none
    else some
      ((if sseqA ≤ pseqB ∨ sseqA > pseqA then sseqA - pseqA else 0).toUInt16,
       (if pseqB > sseqB ∨ sseqA ≥ pseqA then pseqB - sseqB else 0).toUInt16)
  else
    -- both intervals split
    some
      ((if pseqA < sseqA then sseqA - pseqA else 0).toUInt16,
       (if pseqB > sseqB then pseqB - sseqB else 0).toUInt16)

theorem tcpTrimRxbuf_some {fs : FlowSt} {seq : UInt32} {bytes trimStart trimEnd : UInt16}
    (hseg : seq.toNat + bytes.toNat < 2 ^ 32)
    (hwin : fs.rxNextSeq.toNat + fs.rxAvail.toNat < 2 ^ 32)
    (h : tcpTrimRxbuf fs seq bytes = some (trimStart, trimEnd)) :
    fs.rxNextSeq.toNat ≤ seq.toNat + bytes.toNat ∧
      seq.toNat ≤ fs.rxNextSeq.toNat + fs.rxAvail.toNat ∧
      trimStart.toNat = fs.rxNextSeq.toNat - seq.toNat ∧
      trimEnd.toNat = seq.toNat + bytes.toNat - (fs.rxNextSeq.toNat + fs.rxAvail.toNat) := by
  have hbytes := bytes.toNat_lt
  unfold tcpTrimRxbuf at h
  simp only [le_iff_toNat_le, lt_iff_toNat_lt, toNat_add, gt_iff_lt,
    UInt16.toNat_toUInt32, Nat.mod_eq_of_lt hseg, Nat.mod_eq_of_lt hwin] at h
  rw [if_pos (by omega)] at h
  split at h
  · cases h
  split at h
  · cases h
  rw [Option.some.injEq, Prod.mk.injEq, ← UInt16.toNat_inj, ← UInt16.toNat_inj,
    UInt32.toNat_toUInt16, UInt32.toNat_toUInt16] at h
  obtain ⟨hstart, hend⟩ := h
  refine ⟨by omega, by omega, ?_, ?_⟩
  · rw [← hstart]
    split
    · rw [UInt32.toNat_sub_of_le _ _ (by rw [le_iff_toNat_le]; omega)]
      omega
    · simp
      omega
  · rw [← hend]
    split
    · rw [UInt32.toNat_sub_of_le]
      · simp only [toNat_add, UInt16.toNat_toUInt32, Nat.mod_eq_of_lt hseg,
          Nat.mod_eq_of_lt hwin]
        omega
      · simp only [le_iff_toNat_le, toNat_add, UInt16.toNat_toUInt32,
          Nat.mod_eq_of_lt hseg, Nat.mod_eq_of_lt hwin]
        omega
    · simp
      omega

/-- `tcp_valid_rxack` with and without `ALLOW_FUTURE_ACKS`: the newly acknowledged bytes, `none` for
`-1`. -/
def tcpValidRxackIf (future : Bool) (fs : FlowSt) (ack : UInt32) : Option UInt32 :=
  let fsackA := fs.txNextSeq - fs.txSent
  let fsackB := if future then fs.txNextSeq + fs.txAvail else fs.txNextSeq
  if fsackA ≤ fsackB then
    if ack < fsackA ∨ ack > fsackB then none else some (ack - fsackA)
  else
    if fsackA > ack ∧ ack > fsackB then none else some (ack - fsackA)

/-- As TAS is built, with `ALLOW_FUTURE_ACKS`. -/
def tcpValidRxack : FlowSt → UInt32 → Option UInt32 := tcpValidRxackIf true

/-- The bytes from the last acknowledgement that the next one may cover. -/
def ackable (future : Bool) (fs : FlowSt) : ℕ :=
  fs.txSent.toNat + (if future then fs.txAvail else 0).toNat

theorem tcpValidRxackIf_eq {future : Bool} {fs : FlowSt} (hsum : ackable future fs < 2 ^ 32)
    (ack : UInt32) : tcpValidRxackIf future fs ack =
      if (ack - (fs.txNextSeq - fs.txSent)).toNat ≤ ackable future fs then
        some (ack - (fs.txNextSeq - fs.txSent)) else none := by
  have hto : (if future then fs.txNextSeq + fs.txAvail else fs.txNextSeq) =
      fs.txNextSeq + if future then fs.txAvail else 0 := by
    cases future <;> simp
  unfold ackable at hsum ⊢
  unfold tcpValidRxackIf
  rw [hto]
  generalize (if future then fs.txAvail else 0) = len at hsum ⊢
  have hdist := Word.sub_cases ack (fs.txNextSeq - fs.txSent)
  have hstart := Word.sub_cases fs.txNextSeq fs.txSent
  have hend := Word.add_cases fs.txNextSeq len
  have hseq := fs.txNextSeq.toNat_lt
  have hack := ack.toNat_lt
  simp only [le_iff_toNat_le, lt_iff_toNat_lt, gt_iff_lt]
  -- an interval on one side of the wrap, and one around it
  split
  · split <;> split <;> first | rfl | omega
  · split <;> split <;> first | rfl | omega

/-- An acknowledgement is valid exactly if it lies in the modular interval from the last one to the
end of the bytes that it may cover, and tells its distance from the last one. -/
theorem valid_rxack_modular (future : Bool) (fs : FlowSt) (ack : UInt32)
    (hsum : fs.txSent.toNat + fs.txAvail.toNat < 2 ^ 31) : tcpValidRxackIf future fs ack =
      if (ack - (fs.txNextSeq - fs.txSent)).toNat ≤ ackable future fs then
        some (ack - (fs.txNextSeq - fs.txSent)) else none := by
  refine tcpValidRxackIf_eq ?_ ack
  have hle : (if future then fs.txAvail else 0).toNat ≤ fs.txAvail.toNat := by
    cases future <;> simp
  unfold ackable
  omega

/-- Ten bytes sent around the wrap and five more to send. -/
theorem valid_rxack_modular_wrap :
    let fs : FlowSt := { (default : FlowSt) with txNextSeq := 4, txSent := 10, txAvail := 5 }
    tcpValidRxackIf true fs 9 = some 15 ∧ tcpValidRxackIf false fs 9 = none :=
  ⟨(valid_rxack_modular true _ 9 (by decide)).trans (by decide),
    (valid_rxack_modular false _ 9 (by decide)).trans (by decide)⟩

theorem tcpValidRxack_le {fs : FlowSt} {ack bump : UInt32}
    (hsum : fs.txSent.toNat + fs.txAvail.toNat < 2 ^ 32) (h : tcpValidRxack fs ack = some bump) :
    bump.toNat ≤ fs.txSent.toNat + fs.txAvail.toNat := by
  rw [tcpValidRxack, tcpValidRxackIf_eq (show ackable true fs < 2 ^ 32 from hsum)] at h
  split at h
  · next hle =>
    cases h
    exact hle
  · cases h

/-- The scaled flow-control window of `tcp_txavail`. The hardware takes a
shift amount modulo the word size. -/
def remoteWindow (fs : FlowSt) : UInt32 :=
  (fs.rxRemoteAvail &&& 0xFFFFFF) <<< (fs.rxRemoteAvail >>> 24)

/-- `tcp_txavail`, with `*pavail` (or `fs->tx_avail` where `pavail` is `NULL`) as an argument. -/
def tcpTxavailOf (fs : FlowSt) (bufAvail : UInt32) : UInt32 :=
  let fcAvail := remoteWindow fs - fs.txSent
  if fcAvail < bufAvail then fcAvail else bufAvail

def tcpTxavail (fs : FlowSt) : UInt32 := tcpTxavailOf fs fs.txAvail

theorem tcpTxavailOf_le (fs : FlowSt) (bufAvail : UInt32) :
    (tcpTxavailOf fs bufAvail).toNat ≤ bufAvail.toNat := by
  simp only [tcpTxavailOf, lt_iff_toNat_lt]
  split
  · omega
  · exact le_rfl

end StackBench.Tas

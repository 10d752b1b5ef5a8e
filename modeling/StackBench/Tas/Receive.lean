import StackBench.Lib.Run
import StackBench.Tas.FastFlows

/-!
# Reassembly on the TAS receive path

A flow is followed with its receive buffer, the bytes announced and the number
given back. The peer sends slices of one byte stream, numbered from the initial
`rx_next_seq`.
-/

namespace StackBench.Tas

open Circular (Holds SliceAt Written)
open UInt32 (toNat_inj toNat_zero)
open Word (add_toNat sub_toNat)

/-- The receive buffer after the stores of an operation. -/
def applyDma (mem : ℕ → UInt8) (dma : List DmaWrite) : ℕ → UInt8 :=
  Circular.storeAll mem (dma.map fun d => (d.pos.toNat, d.bytes))

@[simp]
theorem applyDma_nil (mem : ℕ → UInt8) : applyDma mem [] = mem := rfl

theorem flowRxWrite_pieces {fs : FlowSt} {pos : UInt32} {src : List UInt8}
    (hpos : pos.toNat ≤ fs.rxLen.toNat) (hsum : pos.toNat + src.length < 2 ^ 32) :
    (flowRxWrite fs pos src).map (fun d => (d.pos.toNat, d.bytes)) =
      Circular.pieces fs.rxLen.toNat pos.toNat src := by
  have hsrc : (UInt32.ofNat src.length).toNat = src.length :=
    UInt32.toNat_ofNat_of_lt' (by rw [UInt32.size]; omega)
  have hend : (pos + UInt32.ofNat src.length).toNat = pos.toNat + src.length := by
    rw [add_toNat (by omega), hsrc]
  simp only [flowRxWrite, Circular.pieces, UInt32.le_iff_toNat_le, hend]
  split
  · rfl
  · simp [sub_toNat hpos]

/-- No store leaves the buffer, and none touches the position of an offset
from `lo` up to `hi`. -/
def WritesAvoid (L lo hi : ℕ) (dma : List DmaWrite) : Prop :=
  ∀ d ∈ dma, d.pos.toNat + d.bytes.length ≤ L ∧
    ∀ i, lo ≤ i → i < hi → ¬ (d.pos.toNat ≤ i % L ∧ i % L < d.pos.toNat + d.bytes.length)

theorem writesAvoid_nil (L lo hi : ℕ) : WritesAvoid L lo hi [] := by
  intro d hd
  cases hd

section Write

variable {fs : FlowSt} {pos : UInt32} {src : List UInt8} {a : ℕ}

theorem flowRxWrite_written (mem : ℕ → UInt8) (hpos : pos.toNat = a % fs.rxLen.toNat)
    (hL : 0 < fs.rxLen.toNat) (hlen : src.length ≤ fs.rxLen.toNat)
    (hsum : a + src.length < 2 ^ 32) :
    Written fs.rxLen.toNat mem (applyDma mem (flowRxWrite fs pos src)) a src := by
  have hlt := Nat.mod_lt a hL
  have hle := Nat.mod_le a fs.rxLen.toNat
  rw [applyDma, flowRxWrite_pieces (by omega) (by omega), hpos]
  exact Circular.written_pieces mem hL hlen

theorem flowRxWrite_avoid {lo hi : ℕ} (hpos : pos.toNat = a % fs.rxLen.toNat)
    (hL : 0 < fs.rxLen.toNat) (hlen : src.length ≤ fs.rxLen.toNat)
    (hsum : a + src.length < 2 ^ 32) (hlo : hi ≤ a) (hhi : a + src.length ≤ lo + fs.rxLen.toNat) :
    WritesAvoid fs.rxLen.toNat lo hi (flowRxWrite fs pos src) := by
  have hlt := Nat.mod_lt a hL
  have hle := Nat.mod_le a fs.rxLen.toNat
  intro d hd
  have hmem : (d.pos.toNat, d.bytes) ∈ Circular.pieces fs.rxLen.toNat (a % fs.rxLen.toNat) src := by
    rw [← hpos, ← flowRxWrite_pieces (by omega) (by omega)]
    exact List.mem_map_of_mem hd
  obtain ⟨hbound, htouch⟩ := Circular.pieces_touch hL hlen hmem
  refine ⟨hbound, ?_⟩
  rintro i hi₀ hi₁ ⟨hge, hlt'⟩
  obtain ⟨k, hk, hki⟩ := htouch _ hge hlt'
  have := Circular.mod_inj_of_window lo (by omega) (by omega) hi₀ (by omega) hki
  omega

end Write

/-- `n` bytes were announced, `consumed` given back, and `fin` tells whether the end was accepted.
-/
structure RxInv (S : List UInt8) (irs : UInt32) (fs : FlowSt) (mem : ℕ → UInt8)
    (n consumed : ℕ) (fin : Bool) : Prop where
  n_le : n ≤ S.length
  seq : fs.rxNextSeq.toNat = irs.toNat + n + fin.toNat
  pos : fs.rxNextPos.toNat = n % fs.rxLen.toNat
  avail : fs.rxAvail.toNat + n ≤ consumed + fs.rxLen.toNat
  consumed_le : consumed ≤ n
  fin_end : fin = true → fs.rxfin = true ∧ n = S.length
  held : Holds S fs.rxLen.toNat mem consumed n
  ooo : fs.rxOooLen.toNat ≠ 0 → ∃ a, fs.rxOooStart.toNat = irs.toNat + a ∧ consumed ≤ a ∧
    a + fs.rxOooLen.toNat ≤ n + fs.rxAvail.toNat ∧ a + fs.rxOooLen.toNat ≤ S.length ∧
    Holds S fs.rxLen.toNat mem a (a + fs.rxOooLen.toNat)

/-- The out-of-order interval lies behind the announced bytes. -/
def OooAhead (irs : UInt32) (fs : FlowSt) (n : ℕ) : Prop :=
  fs.rxOooLen.toNat ≠ 0 → irs.toNat + n ≤ fs.rxOooStart.toNat

/-- Before the packet the flow satisfied the invariant; behind `unlock` it does again, with the
bytes announced. -/
structure RxSound (S : List UInt8) (irs : UInt32) (fs : FlowSt) (mem : ℕ → UInt8)
    (n consumed : ℕ) (fin : Bool) (r : PacketEnd) : Prop where
  inv : RxInv S irs r.fs (applyDma mem r.dma) (n + r.rxBump.toNat) consumed (fin || r.finBump)
  ahead : OooAhead irs r.fs (n + r.rxBump.toNat)
  avoid : WritesAvoid fs.rxLen.toNat consumed n r.dma
  rxLen_eq : r.fs.rxLen = fs.rxLen

/-- The fields of a flow state that the receive path depends on. -/
structure RxView where
  rxfin : Bool
  rxLen : UInt32
  rxAvail : UInt32
  rxNextPos : UInt32
  rxNextSeq : UInt32
  rxOooStart : UInt32
  rxOooLen : UInt32
deriving DecidableEq

def FlowSt.rxView (fs : FlowSt) : RxView :=
  ⟨fs.rxfin, fs.rxLen, fs.rxAvail, fs.rxNextPos, fs.rxNextSeq, fs.rxOooStart, fs.rxOooLen⟩

section Invariant

variable {S : List UInt8} {irs : UInt32} {fs : FlowSt} {mem : ℕ → UInt8} {n consumed : ℕ}
  {fin : Bool} {o : ℕ}

section

variable (h : RxInv S irs fs mem n consumed fin) {fs' : FlowSt}
include h

theorem RxInv.congr (hview : fs'.rxView = fs.rxView) : RxInv S irs fs' mem n consumed fin := by
  simp only [FlowSt.rxView, RxView.mk.injEq] at hview
  obtain ⟨h₁, h₂, h₃, h₄, h₅, h₆, h₇⟩ := hview
  constructor
  · exact h.n_le
  · rw [h₅]; exact h.seq
  · rw [h₄, h₂]; exact h.pos
  · rw [h₃, h₂]; exact h.avail
  · exact h.consumed_le
  · rw [h₁]; exact h.fin_end
  · rw [h₂]; exact h.held
  · rw [h₂, h₃, h₆, h₇]; exact h.ooo

omit h in
theorem OooAhead.congr (h : OooAhead irs fs n) (hview : fs'.rxView = fs.rxView) :
    OooAhead irs fs' n := by
  simp only [FlowSt.rxView, RxView.mk.injEq] at hview
  obtain ⟨-, -, -, -, -, h₆, h₇⟩ := hview
  unfold OooAhead
  rw [h₆, h₇]
  exact h

theorem RxInv.sound_of_view {ack : Bool} (hahead : OooAhead irs fs n)
    (hview : fs'.rxView = fs.rxView) :
    RxSound S irs fs mem n consumed fin { fs := fs', triggerAck := ack } where
  inv := by simpa using h.congr hview
  ahead := hahead.congr hview
  avoid := writesAvoid_nil _ _ _
  rxLen_eq := congrArg RxView.rxLen hview

theorem RxInv.written {mem' : ℕ → UInt8} {bytes : List UInt8}
    (hw : Written fs.rxLen.toNat mem mem' o bytes) (hs : SliceAt S o bytes) (hlo : consumed ≤ o)
    (hhi : o + bytes.length ≤ n + fs.rxAvail.toNat) : RxInv S irs fs mem' n consumed fin := by
  have havail := h.avail
  refine { h with held := ?_, ooo := ?_ }
  · exact h.held.written hw hs hlo (by omega) le_rfl (by omega)
  · intro hne
    obtain ⟨a, hstart, hca, hend, hS, hheld⟩ := h.ooo hne
    exact ⟨a, hstart, hca, hend, hS, hheld.written hw hs hlo (by omega) hca (by omega)⟩

end

section

variable (h : RxInv S irs fs mem n consumed false)
include h

section

variable (hwin : fs.rxNextSeq.toNat + fs.rxAvail.toNat < 2 ^ 32)
include hwin

theorem RxInv.advance {d : UInt32} (hd : d.toNat ≤ fs.rxAvail.toNat)
    (hS : n + d.toNat ≤ S.length) (hheld : Holds S fs.rxLen.toNat mem n (n + d.toNat)) :
    RxInv S irs (rxAdvance fs d) mem (n + d.toNat) consumed false := by
  have hseq := h.seq
  have havail := h.avail
  have hle := h.consumed_le
  have hpos := h.pos
  simp only [Bool.toNat_false] at hseq
  constructor
  · exact hS
  · simp only [rxAdvance, Bool.toNat_false]
    rw [add_toNat (by omega)]
    omega
  · rcases Nat.eq_zero_or_pos fs.rxLen.toNat with hL | hL
    · have hd₀ : d = 0 := by rw [← toNat_inj]; simp; omega
      subst hd₀
      simpa [rxAdvance, UInt32.le_iff_toNat_le, hL] using hpos
    · have := Nat.mod_le n fs.rxLen.toNat
      exact Word.wrap_toNat hL hpos (by omega) (by omega)
  · simp only [rxAdvance]
    rw [sub_toNat hd]
    omega
  · omega
  · intro hf
    cases hf
  · exact h.held.append hheld
  · intro hne
    obtain ⟨a, hstart, hca, hend, hSa, hheld'⟩ := h.ooo hne
    refine ⟨a, hstart, hca, ?_, hSa, hheld'⟩
    simp only [rxAdvance]
    rw [sub_toNat hd]
    omega

theorem RxInv.oooCatchUp :
    RxInv S irs (oooCatchUp fs).1 mem (n + (oooCatchUp fs).2.toNat) consumed false ∧
      OooAhead irs (oooCatchUp fs).1 (n + (oooCatchUp fs).2.toNat) ∧
      (oooCatchUp fs).2.toNat ≤ fs.rxAvail.toNat ∧
      (oooCatchUp fs).1.rxLen = fs.rxLen := by
  unfold Tas.oooCatchUp
  split
  · next hzero =>
    refine ⟨by simpa using h, ?_, by simp, rfl⟩
    intro hne
    exact absurd (by simp [hzero]) hne
  next hne =>
  have hne' : fs.rxOooLen.toNat ≠ 0 := by
    intro hcon
    exact hne (by rw [← toNat_inj, hcon]; rfl)
  obtain ⟨a, hstart, hca, hend, hSa, hheld⟩ := h.ooo hne'
  have hseq := h.seq
  simp only [Bool.toNat_false] at hseq
  have hlow : fs.rxOooLen.toUInt16.toNat ≤ fs.rxOooLen.toNat := by
    exact Nat.mod_le _ _
  have hseg : fs.rxOooStart.toNat + fs.rxOooLen.toUInt16.toNat < 2 ^ 32 := by omega
  split
  · refine ⟨?_, ?_, by simp, rfl⟩
    · refine { h with ooo := ?_ }
      intro hcon
      exact absurd rfl hcon
    · intro hcon
      exact absurd rfl hcon
  next trimStart trimEnd htrim =>
  obtain ⟨hmeet, -, hts, hte⟩ := tcpTrimRxbuf_some hseg hwin htrim
  have hte₀ : trimEnd.toNat = 0 := by omega
  have hcut : (trimStart.toUInt32 + trimEnd.toUInt32).toNat = trimStart.toNat := by
    simp [hte₀]
  have hnewLen : (fs.rxOooLen - (trimStart.toUInt32 + trimEnd.toUInt32)).toNat =
      fs.rxOooLen.toNat - trimStart.toNat := by
    rw [sub_toNat (by omega), hcut]
  have hnewStart : (fs.rxOooStart + trimStart.toUInt32).toNat =
      irs.toNat + (a + trimStart.toNat) := by
    rw [add_toNat (by simp; omega)]
    simp only [UInt16.toNat_toUInt32]
    omega
  have htrimmed : RxInv S irs { fs with
      rxOooStart := fs.rxOooStart + trimStart.toUInt32
      rxOooLen := fs.rxOooLen - (trimStart.toUInt32 + trimEnd.toUInt32) }
      mem n consumed false := by
    refine { h with ooo := ?_ }
    intro _
    refine ⟨a + trimStart.toNat, hnewStart, by omega, ?_⟩
    simp only [hnewLen]
    exact ⟨by omega, by omega, hheld.mono (by omega) (by omega)⟩
  simp only
  split
  · next hmerge =>
    obtain ⟨-, heq⟩ := hmerge
    rw [← toNat_inj, hnewStart, hseq] at heq
    have hadv := htrimmed.advance hwin
      (d := fs.rxOooLen - (trimStart.toUInt32 + trimEnd.toUInt32))
      (by rw [hnewLen]; simp only; omega) (by rw [hnewLen]; omega)
      (by rw [hnewLen]; exact hheld.mono (by omega) (by omega))
    refine ⟨?_, ?_, by rw [hnewLen]; omega, rfl⟩
    · refine { hadv with ooo := ?_ }
      intro hcon
      exact absurd rfl hcon
    · intro hcon
      exact absurd rfl hcon
  refine ⟨by simpa using htrimmed, ?_, by simp, rfl⟩
  intro _
  simp only [hnewStart, toNat_zero]
  omega

/-- An out-of-order segment at offset `o` is stored at the position of `o`. -/
theorem RxInv.rxSeqPos {seq : UInt32} (hseq : seq.toNat = irs.toNat + o) (hlo : n ≤ o)
    (hhi : o < n + fs.rxAvail.toNat) :
    (rxSeqPos fs seq).toNat = o % fs.rxLen.toNat := by
  have hnext := h.seq
  have havail := h.avail
  have hle := h.consumed_le
  simp only [Bool.toNat_false] at hnext
  have hmod := Nat.mod_le n fs.rxLen.toNat
  have hpos := h.pos
  have hdiff : (seq - fs.rxNextSeq).toNat = o - n := by
    rw [sub_toNat (by omega)]
    omega
  have hwrap := Word.wrap_toNat (by omega) hpos
    (by omega : (seq - fs.rxNextSeq).toNat ≤ fs.rxLen.toNat) (by omega)
  rw [Tas.rxSeqPos, hwrap, hdiff]
  congr 1
  omega

end

end

/-- The interval may be set to any part of the window behind the announced bytes that is held. -/
theorem RxInv.setOoo {start len : UInt32} {dma : List DmaWrite} {aborted : Bool} {a : ℕ}
    (h : RxInv S irs fs (applyDma mem dma) n consumed fin)
    (hav : WritesAvoid fs.rxLen.toNat consumed n dma) (hstart : start.toNat = irs.toNat + a)
    (hlo : n ≤ a) (hhi : a + len.toNat ≤ n + fs.rxAvail.toNat) (hS : a + len.toNat ≤ S.length)
    (hheld : Holds S fs.rxLen.toNat (applyDma mem dma) a (a + len.toNat)) :
    RxSound S irs fs mem n consumed fin
      { fs := { fs with rxOooStart := start, rxOooLen := len }
        triggerAck := true, dma := dma, aborted := aborted } := by
  have hle := h.consumed_le
  refine ⟨?_, ?_, hav, rfl⟩
  · simp only [toNat_zero, Nat.add_zero, Bool.or_false]
    refine { h with ooo := ?_ }
    intro _
    exact ⟨a, hstart, by omega, hhi, hS, hheld⟩
  · intro _
    simp only [toNat_zero, hstart]
    omega

theorem RxInv.packetOoo {seq payloadBytes : UInt32} {payload : List UInt8}
    (h : RxInv S irs fs mem n consumed fin) (hahead : OooAhead irs fs n)
    (hwin : fs.rxNextSeq.toNat + fs.rxAvail.toNat < 2 ^ 32) (hseq : seq.toNat = irs.toNat + o)
    (hlo : n + fin.toNat ≤ o) (hhi : o + payloadBytes.toNat ≤ n + fin.toNat + fs.rxAvail.toNat)
    (hlen : payload.length = payloadBytes.toNat) (hs : SliceAt S o payload) :
    RxSound S irs fs mem n consumed fin (packetOoo fs seq payloadBytes payload) := by
  have hkeep : RxSound S irs fs mem n consumed fin { fs := fs, triggerAck := true } :=
    h.sound_of_view hahead rfl
  rcases Nat.eq_zero_or_pos payloadBytes.toNat with hzero | hpos
  · have hz : payloadBytes = 0 := by rw [← toNat_inj, hzero]; rfl
    simpa only [Tas.packetOoo, hz, if_true] using hkeep
  have hnz : payloadBytes ≠ 0 := by
    rintro rfl
    simp at hpos
  have hSend : o + payloadBytes.toNat ≤ S.length := by
    rw [← hlen]
    apply hs.length_le
    rintro rfl
    simp only [List.length_nil] at hlen
    omega
  have hfin : fin = false := by
    cases fin with
    | false => rfl
    | true =>
      have hend := (h.fin_end rfl).2
      omega
  subst hfin
  simp only [Bool.toNat_false, Nat.add_zero] at hlo hhi
  have hnext := h.seq
  have havail := h.avail
  have hle := h.consumed_le
  have hposn := h.rxSeqPos hwin hseq hlo (by omega)
  have hw := flowRxWrite_written mem hposn (by omega) (by omega : payload.length ≤ _) (by omega)
  have hav : WritesAvoid fs.rxLen.toNat consumed n (flowRxWrite fs (Tas.rxSeqPos fs seq) payload) :=
    flowRxWrite_avoid hposn (by omega) (by omega) (by omega) hlo (by omega)
  have hinv := h.written hw hs (by omega) (by omega)
  have hnew := hw.holds hs
  simp only [Tas.packetOoo, if_neg hnz]
  split
  · exact hinv.setOoo hav hseq hlo hhi hSend (by rw [← hlen]; exact hnew)
  next hne =>
  have hne' : fs.rxOooLen.toNat ≠ 0 := by
    intro hcon
    exact hne (by rw [← toNat_inj, hcon]; rfl)
  have hahead' := hahead hne'
  obtain ⟨a, hstart, hca, hend, hSa, hheld⟩ := hinv.ooo hne'
  split
  · next heq =>
    rw [← toNat_inj, add_toNat (by omega)] at heq
    have hsum : (fs.rxOooLen + payloadBytes).toNat =
        fs.rxOooLen.toNat + payloadBytes.toNat := add_toNat (by omega)
    apply hinv.setOoo hav hseq hlo (by omega) (by omega)
    exact (hnew.mono le_rfl (by omega : a ≤ _)).append (hheld.mono le_rfl (by omega))
  split
  · next heq =>
    rw [← toNat_inj, add_toNat (by omega)] at heq
    have hsum : (fs.rxOooLen + payloadBytes).toNat =
        fs.rxOooLen.toNat + payloadBytes.toNat := add_toNat (by omega)
    apply hinv.setOoo hav hstart (by omega) (by omega) (by omega)
    exact (hheld.mono le_rfl (by omega : o ≤ _)).append (hnew.mono le_rfl (by omega))
  · exact hkeep

theorem RxInv.packetPayload {payloadBytes : UInt32} {payload : List UInt8} (ack : Bool)
    (h : RxInv S irs fs mem n consumed fin) (hahead : OooAhead irs fs n)
    (hwin : fs.rxNextSeq.toNat + fs.rxAvail.toNat < 2 ^ 32)
    (hhi : payloadBytes.toNat ≤ fs.rxAvail.toNat)
    (hlen : payload.length = payloadBytes.toNat) (hs : SliceAt S (n + fin.toNat) payload) :
    RxSound S irs fs mem n consumed fin (packetPayload fs payloadBytes payload ack) := by
  rcases Nat.eq_zero_or_pos payloadBytes.toNat with hzero | hpos
  · have hz : payloadBytes = 0 := by rw [← toNat_inj, hzero]; rfl
    simpa [Tas.packetPayload, hz] using h.sound_of_view hahead rfl
  have hSend : n + fin.toNat + payloadBytes.toNat ≤ S.length := by
    rw [← hlen]
    apply hs.length_le
    rintro rfl
    simp only [List.length_nil] at hlen
    omega
  have hfin : fin = false := by
    cases fin with
    | false => rfl
    | true =>
      have hend := (h.fin_end rfl).2
      omega
  subst hfin
  have hnext := h.seq
  have havail := h.avail
  have hle := h.consumed_le
  have hw := flowRxWrite_written mem h.pos (by omega) (by omega : payload.length ≤ _) (by omega)
  have hav : WritesAvoid fs.rxLen.toNat consumed n (flowRxWrite fs fs.rxNextPos payload) :=
    flowRxWrite_avoid h.pos (by omega) (by omega) (by omega) le_rfl (by omega)
  have hinv := h.written hw hs hle (by omega)
  have hadv := hinv.advance hwin hhi hSend (by rw [← hlen]; exact hw.holds hs)
  have hwin₁ : (rxAdvance fs payloadBytes).rxNextSeq.toNat +
      (rxAdvance fs payloadBytes).rxAvail.toNat < 2 ^ 32 := by
    simp only [rxAdvance]
    rw [add_toNat (by omega), sub_toNat hhi]
    omega
  obtain ⟨hcatch, hahead', hmerged, hlen'⟩ := hadv.oooCatchUp hwin₁
  have hmerged' : (Tas.oooCatchUp (rxAdvance fs payloadBytes)).2.toNat ≤
      fs.rxAvail.toNat - payloadBytes.toNat := by
    rw [← sub_toNat hhi]
    exact hmerged
  have hbump : (payloadBytes + (Tas.oooCatchUp (rxAdvance fs payloadBytes)).2).toNat =
      payloadBytes.toNat + (Tas.oooCatchUp (rxAdvance fs payloadBytes)).2.toNat :=
    add_toNat (by have := fs.rxAvail.toNat_lt; omega)
  rw [Nat.add_assoc, ← hbump] at hcatch hahead'
  have hgt : payloadBytes > 0 := UInt32.lt_iff_toNat_lt.mpr hpos
  simp only [Tas.packetPayload, if_pos hgt]
  exact ⟨hcatch, hahead', hav, hlen'⟩

end Invariant

/-- The payload is the part of `S` at its numbers, and a `FIN` stands only at the end of `S`. -/
def SegOf (S : List UInt8) (irs : UInt32) (p : Pkt) : Prop :=
  p.Whole ∧ (∀ k < p.payload.length, S[(p.seqno + UInt32.ofNat k - irs).toNat]? = p.payload[k]?) ∧
    (p.flags.fin = true → (p.seqno + p.payloadBytes - irs).toNat = S.length)

instance (S : List UInt8) (irs : UInt32) (p : Pkt) : Decidable (SegOf S irs p) :=
  inferInstanceAs (Decidable (_ ∧ _))

/-- The end of the segment, with its `FIN`, and the end of the receive window
lie below the sequence wrap. -/
def BelowWrap (fs : FlowSt) (p : Pkt) : Prop :=
  p.seqno.toNat + p.payload.length + p.flags.fin.toNat < 2 ^ 32 ∧
    fs.rxNextSeq.toNat + fs.rxAvail.toNat < 2 ^ 32
deriving Decidable

section Packet

variable {S : List UInt8} {irs : UInt32} {fs : FlowSt} {mem : ℕ → UInt8} {n consumed : ℕ}
  {fin : Bool} {p : Pkt}

theorem RxInv.trimmed {trimStart trimEnd : UInt16} (h : RxInv S irs fs mem n consumed fin)
    (hseg : SegOf S irs p) (hwrap : BelowWrap fs p)
    (htrim : tcpTrimRxbuf fs p.seqno p.payloadBytes.toUInt16 = some (trimStart, trimEnd)) :
    let payloadBytes := p.payloadBytes - (trimStart.toUInt32 + trimEnd.toUInt32)
    let payload := (p.payload.drop trimStart.toNat).take payloadBytes.toUInt16.toNat
    ∃ o, (p.seqno + trimStart.toUInt32).toNat = irs.toNat + o ∧ n + fin.toNat ≤ o ∧
      o + payloadBytes.toNat ≤ n + fin.toNat + fs.rxAvail.toNat ∧
      payload.length = payloadBytes.toNat ∧ SliceAt S o payload := by
  intro payloadBytes payload
  obtain ⟨hend, hwin⟩ := hwrap
  have hbytes := p.payload_length.symm
  have hwhole := hseg.1.payloadBytes_toNat
  obtain ⟨hmeet, hmeet', hts, hte⟩ := tcpTrimRxbuf_some (by omega) hwin htrim
  have hseq := h.seq
  have hcut : (trimStart.toUInt32 + trimEnd.toUInt32).toNat = trimStart.toNat + trimEnd.toNat := by
    rw [add_toNat (by simp; omega)]
    simp
  have hpb : payloadBytes.toNat = p.payload.length - (trimStart.toNat + trimEnd.toNat) := by
    rw [sub_toNat (by rw [hcut, hwhole]; omega), hcut, hwhole]
  have hstart : (p.seqno + trimStart.toUInt32).toNat = p.seqno.toNat + trimStart.toNat := by
    rw [add_toNat (by simp; omega)]
    simp
  have hlow : payloadBytes.toUInt16.toNat = payloadBytes.toNat := by
    have hlt := p.payloadBytes.toUInt16.toNat_lt
    exact Nat.mod_eq_of_lt (by omega)
  have hlen : payload.length = payloadBytes.toNat := by
    simp only [payload, List.length_take, List.length_drop]
    omega
  refine ⟨p.seqno.toNat + trimStart.toNat - irs.toNat, by omega, by omega, by omega, hlen, ?_⟩
  intro k hk
  have hk' : trimStart.toNat + k < p.payload.length := by omega
  have hbyte := hseg.2.1 (trimStart.toNat + k) hk'
  have hof : (UInt32.ofNat (trimStart.toNat + k)).toNat = trimStart.toNat + k :=
    UInt32.toNat_ofNat_of_lt' (by rw [UInt32.size]; omega)
  have hoff : (p.seqno + UInt32.ofNat (trimStart.toNat + k) - irs).toNat =
      p.seqno.toNat + trimStart.toNat - irs.toNat + k := by
    have hadd : (p.seqno + UInt32.ofNat (trimStart.toNat + k)).toNat =
        p.seqno.toNat + (trimStart.toNat + k) := by
      rw [add_toNat (by omega), hof]
    rw [sub_toNat (by omega), hadd]
    omega
  rw [hoff] at hbyte
  rw [hbyte, List.getElem?_take_of_lt (by omega), List.getElem?_drop]

theorem RxSound.packetFin {r : PacketEnd} (h : RxSound S irs fs mem n consumed fin r)
    (hbump : r.finBump = false) (hseg : SegOf S irs p)
    (hend : p.seqno.toNat + p.payload.length + p.flags.fin.toNat < 2 ^ 32) :
    RxSound S irs fs mem n consumed fin (packetFin r p) := by
  unfold Tas.packetFin
  split
  · next hcond =>
    obtain ⟨hflag, hrxfin, hnext, hzero⟩ := hcond
    have hfin : fin = false := by
      cases fin with
      | false => rfl
      | true =>
        have := (h.inv.fin_end (by simp)).1
        simp [this] at hrxfin
    have hseq := h.inv.seq
    have hpb := hseg.1.payloadBytes_toNat
    simp only [hfin, hbump, Bool.or_self, Bool.toNat_false] at hseq
    rw [hflag, Bool.toNat_true] at hend
    have hsum : (p.seqno + p.payloadBytes).toNat = p.seqno.toNat + p.payload.length := by
      rw [add_toNat (by omega), hpb]
    rw [← toNat_inj, hsum] at hnext
    have hlast : n + r.rxBump.toNat = S.length := by
      rw [← hseg.2.2 hflag, sub_toNat (by omega), hsum]
      omega
    refine ⟨?_, h.ahead, h.avoid, h.rxLen_eq⟩
    refine { h.inv with seq := ?_, fin_end := ?_ }
    · simp
      omega
    · intro _
      exact ⟨rfl, hlast⟩
  · exact h

theorem packetPayload_finBump (fs : FlowSt) (payloadBytes : UInt32) (payload : List UInt8)
    (ack : Bool) : (packetPayload fs payloadBytes payload ack).finBump = false := by
  unfold packetPayload
  split <;> rfl

theorem RxInv.packetRx (ts : UInt32) (h : RxInv S irs fs mem n consumed fin)
    (hahead : OooAhead irs fs n) (hseg : SegOf S irs p) (hwrap : BelowWrap fs p) :
    RxSound S irs fs mem n consumed fin (packetRx fs p ts) := by
  unfold Tas.packetRx
  split
  · exact h.sound_of_view hahead rfl
  next trimStart trimEnd htrim =>
  obtain ⟨o, hseq, hlo, hhi, hlen, hs⟩ := h.trimmed hseg hwrap htrim
  dsimp only
  split
  · exact h.packetOoo hahead hwrap.2 hseq hlo hhi hlen hs
  next heq =>
  have ho : o = n + fin.toNat := by
    have hnext := h.seq
    rw [← not_not.mp heq] at hnext
    omega
  subst ho
  have hview : (windowUpdate (rttUpdate fs p ts) p).rxView = fs.rxView := rfl
  unfold packetInOrder
  dsimp only
  split
  · exact h.sound_of_view hahead hview
  have hhi' : (p.payloadBytes - (trimStart.toUInt32 + trimEnd.toUInt32)).toNat ≤
      fs.rxAvail.toNat := by omega
  have hdata := (h.congr hview).packetPayload (decide (p.payloadBytes > 0)) (hahead.congr hview)
    hwrap.2 hhi' hlen hs
  exact RxSound.packetFin { hdata with }
    (packetPayload_finBump _ _ _ _) hseg hwrap.1

end Packet

theorem packetAck_rxView (fs : FlowSt) (p : Pkt) : (packetAck fs p).1.rxView = fs.rxView := by
  obtain ⟨-, hack⟩ | ⟨-, gs, hack, hreset⟩ := packetAck_writes fs p
  · obtain ⟨_, _, _, _, _, _, _, _, hfs⟩ := hack
    rw [hfs]
    rfl
  · obtain ⟨_, _, _, _, _, _, _, _, rfl⟩ := hack
    rw [hreset]
    rfl

/-- The operation changed no receive field, stored nothing into the receive
buffer and announced nothing. -/
structure RxQuiet (fs : FlowSt) (out : FlowOut) : Prop where
  view : out.fs.rxView = fs.rxView
  dma : out.dma = []
  arx : out.arx = none

theorem fastFlowsQman_quiet (core : UInt16) (steering : UInt16 → UInt16) (flowId : UInt32)
    (fs : FlowSt) (txBuf : ℕ → UInt8) (ts : UInt32) :
    RxQuiet fs (fastFlowsQman core steering flowId fs txBuf ts) := by
  unfold fastFlowsQman
  split
  · exact ⟨rfl, rfl, rfl⟩
  split
  · exact ⟨rfl, rfl, rfl⟩
  · exact ⟨rfl, rfl, rfl⟩

theorem fastFlowsRetransmit_quiet (flowId : UInt32) (fs : FlowSt) :
    RxQuiet fs (fastFlowsRetransmit flowId fs) := by
  unfold fastFlowsRetransmit
  split
  · exact ⟨rfl, rfl, rfl⟩
  · exact ⟨rfl, rfl, rfl⟩

/-- A flow, its receive buffer, the bytes announced to the application, how many it gave back, and
whether the stream ended. -/
structure RxWorld where
  fs : FlowSt
  mem : ℕ → UInt8
  announced : List UInt8
  consumed : ℕ
  fin : Bool

/-- A new connection in a flow slot. -/
def RxWorld.init (old : FlowSt) (a : ConnArgs) (mem : ℕ → UInt8) : RxWorld :=
  { fs := nicifConnectionAdd old a, mem := mem, announced := [], consumed := 0, fin := false }

/-- The bytes an update announces: `rx_bump` of them from `rx_pos` on. -/
def arxBytes (L : ℕ) (mem : ℕ → UInt8) : Option Arx → List UInt8
  | none => []
  | some x => Circular.read L mem x.rxPos.toNat x.rxBump.toNat

/-- One operation, its stores and the update it posts. A bump gives back the bytes it names. -/
def RxWorld.step (flowId : UInt32) (w : RxWorld) (op : FlowOp) : RxWorld :=
  let out := op.run flowId w.fs
  let mem := applyDma w.mem out.dma
  { fs := out.fs
    mem := mem
    announced := w.announced ++ arxBytes w.fs.rxLen.toNat mem out.arx
    consumed := w.consumed + match op with
      | .bump b _ => b.rxBump.toNat
      | _ => 0
    fin := w.fin || out.arx.any Arx.rxDone }

open RxWorld (init step)

/-- Packets carry slices of `S` and satisfy `clear`, and bumps give back announced bytes. -/
def RxOk (S : List UInt8) (irs : UInt32) (clear : FlowSt → Pkt → Prop) (w : RxWorld) :
    FlowOp → Prop
  | .packet p _ => SegOf S irs p ∧ clear w.fs p
  | .bump b _ => w.consumed + b.rxBump.toNat ≤ w.announced.length
  | _ => True

instance (S : List UInt8) (irs : UInt32) (clear : FlowSt → Pkt → Prop)
    [∀ fs p, Decidable (clear fs p)] (w : RxWorld) : DecidablePred (RxOk S irs clear w) :=
  fun op => by cases op <;> dsimp only [RxOk] <;> infer_instance

/-- The invariant of the receive path along a run. -/
structure RxWorld.Inv (S : List UInt8) (irs : UInt32) (w : RxWorld) : Prop where
  announced_eq : w.announced = S.take w.announced.length
  rx : RxInv S irs w.fs w.mem w.announced.length w.consumed w.fin
  ahead : OooAhead irs w.fs w.announced.length

theorem RxInv.read_eq {S : List UInt8} {irs : UInt32} {fs : FlowSt} {mem : ℕ → UInt8}
    {n d consumed : ℕ} {fin : Bool} {L : ℕ} (h : RxInv S irs fs mem (n + d) consumed fin)
    (hL : fs.rxLen.toNat = L) (hn : consumed ≤ n) :
    S.take n ++ Circular.read L mem (n % L) d = S.take (n + d) := by
  have hheld : Holds S L mem n (n + d) := hL ▸ h.held.mono hn le_rfl
  rw [hheld.read_eq, List.take_add]

variable (flowId oldAvail rxPos txBump ts : UInt32) (p : Pkt) (r : PacketEnd)

theorem arxBytes_packetUnlock (L : ℕ) (mem : ℕ → UInt8) :
    arxBytes L mem (packetUnlock flowId oldAvail rxPos txBump ts p r).arx =
      Circular.read L mem rxPos.toNat r.rxBump.toNat := by
  simp only [packetUnlock]
  split
  · rfl
  next hnone =>
  have hzero : r.rxBump = 0 := by
    by_contra hcon
    exact hnone (Or.inl hcon)
  simp [arxBytes, hzero, Circular.read]

theorem rxDone_packetUnlock :
    (packetUnlock flowId oldAvail rxPos txBump ts p r).arx.any Arx.rxDone = r.finBump := by
  simp only [packetUnlock]
  split
  · rfl
  next hnone =>
  cases hbump : r.finBump with
  | false => rfl
  | true => exact absurd (Or.inr (Or.inr hbump)) hnone

theorem fastFlowsBump_rx (flowId : UInt32) (fs : FlowSt) (b : Bump) (ts : UInt32) :
    (fastFlowsBump flowId fs b ts).dma = [] ∧ (fastFlowsBump flowId fs b ts).arx = none ∧
      ((fastFlowsBump flowId fs b ts).fs.rxView = fs.rxView ∨
        (fastFlowsBump flowId fs b ts).fs.rxView =
          { fs.rxView with rxAvail := fs.rxAvail + b.rxBump }) := by
  rcases fastFlowsBump_cases flowId fs b ts with ⟨s, hout⟩ | ⟨-, -, hout⟩
  · rw [hout]
    exact ⟨rfl, rfl, Or.inl rfl⟩
  · rw [hout]
    exact ⟨rfl, rfl, Or.inr rfl⟩

namespace RxWorld.Inv

variable {S : List UInt8} {irs flowId : UInt32} {w : RxWorld}

section

variable (h : w.Inv S irs)
include h

theorem of_view {w' : RxWorld} (hview : w'.fs.rxView = w.fs.rxView)
    (hmem : w'.mem = w.mem) (hann : w'.announced = w.announced) (hcons : w.consumed ≤ w'.consumed)
    (hle : w'.consumed ≤ w'.announced.length) (hfin : w'.fin = w.fin) : w'.Inv S irs := by
  obtain ⟨fs', mem', ann', cons', fin'⟩ := w'
  simp only at hview hmem hann hcons hle hfin
  subst hmem hann hfin
  have hrx := h.rx.congr hview
  have havail := hrx.avail
  refine ⟨h.announced_eq, ?_, h.ahead.congr hview⟩
  refine { hrx with avail := ?_, consumed_le := hle, held := ?_, ooo := ?_ }
  · simp only
    omega
  · exact hrx.held.mono hcons le_rfl
  · intro hne
    obtain ⟨a, hstart, -, hrest⟩ := hrx.ooo hne
    have hbehind := h.ahead.congr hview hne
    refine ⟨a, hstart, ?_, hrest⟩
    simp only at hle ⊢
    omega

theorem packet {p : Pkt} {ts : UInt32} (hok : RxOk S irs BelowWrap w (.packet p ts)) :
    (w.step flowId (.packet p ts)).Inv S irs ∧
      WritesAvoid w.fs.rxLen.toNat w.consumed w.announced.length
        (fastFlowsPacket flowId w.fs p ts).dma := by
  obtain ⟨hseg, hwrap⟩ := hok
  have hview := packetAck_rxView w.fs p
  have hrx := h.rx.congr hview
  have hahead := h.ahead.congr hview
  have hwrap' : BelowWrap (packetAck w.fs p).1 p := by
    simp only [FlowSt.rxView, RxView.mk.injEq] at hview
    unfold BelowWrap
    rw [hview.2.2.1, hview.2.2.2.2.1]
    exact hwrap
  have hlen : (packetAck w.fs p).1.rxLen = w.fs.rxLen := congrArg RxView.rxLen hview
  rcases fastFlowsPacket_cases flowId w.fs p ts with ⟨slow, -, hslow⟩ | ⟨-, hout⟩
  · simp only [step, FlowOp.run, hslow, applyDma_nil]
    refine ⟨h.of_view rfl rfl ?_ le_rfl ?_ ?_, writesAvoid_nil _ _ _⟩
    · simp [arxBytes]
    · simpa [arxBytes] using h.rx.consumed_le
    · simp
  have hsound : RxSound S irs (packetAck w.fs p).1 w.mem w.announced.length w.consumed w.fin
      (packetBody w.fs p ts) := by
    unfold packetBody
    split
    · exact hrx.sound_of_view hahead rfl
    · exact hrx.packetRx ts hahead hseg hwrap'
  generalize packetBody w.fs p ts = r at hsound hout
  have hpos : w.fs.rxNextPos.toNat = w.announced.length % w.fs.rxLen.toNat := h.rx.pos
  have hbytes : w.announced ++ Circular.read w.fs.rxLen.toNat (applyDma w.mem r.dma)
      w.fs.rxNextPos.toNat r.rxBump.toNat = S.take (w.announced.length + r.rxBump.toNat) := by
    rw [hpos, ← hsound.inv.read_eq (by rw [hsound.rxLen_eq, hlen]) h.rx.consumed_le,
      ← h.announced_eq]
  have hcount : (S.take (w.announced.length + r.rxBump.toNat)).length =
      w.announced.length + r.rxBump.toNat := List.length_take_of_le hsound.inv.n_le
  simp only [step, FlowOp.run, hout, arxBytes_packetUnlock, rxDone_packetUnlock]
  refine ⟨⟨?_, ?_, ?_⟩, ?_⟩
  · simp only [packetUnlock, hbytes, hcount]
  · simp only [packetUnlock, hbytes, hcount]
    exact hsound.inv
  · simp only [packetUnlock, hbytes, hcount]
    exact hsound.ahead
  · rw [← hlen]
    exact hsound.avoid

theorem bump {b : Bump} {ts : UInt32}
    (hok : w.consumed + b.rxBump.toNat ≤ w.announced.length) :
    (w.step flowId (.bump b ts)).Inv S irs := by
  obtain ⟨hdma, harx, hview⟩ := fastFlowsBump_rx flowId w.fs b ts
  have hann : (w.step flowId (.bump b ts)).announced = w.announced := by
    simp [step, FlowOp.run, harx, arxBytes]
  have hfin : (w.step flowId (.bump b ts)).fin = w.fin := by
    simp [step, FlowOp.run, harx]
  have hmem : (w.step flowId (.bump b ts)).mem = w.mem := by
    simp [step, FlowOp.run, hdma]
  have hcons : (w.step flowId (.bump b ts)).consumed = w.consumed + b.rxBump.toNat := rfl
  rcases hview with hview | hview
  · exact h.of_view hview hmem hann (by omega) (by rw [hcons, hann]; exact hok) hfin
  let v : RxWorld := { w with fs := { w.fs with rxAvail := w.fs.rxAvail + b.rxBump } }
  have havail := h.rx.avail
  have hsum : (w.fs.rxAvail + b.rxBump).toNat = w.fs.rxAvail.toNat + b.rxBump.toNat := by
    have := w.fs.rxLen.toNat_lt
    exact add_toNat (by omega)
  have hv : RxInv S irs v.fs w.mem w.announced.length (w.consumed + b.rxBump.toNat) w.fin := by
    refine { h.rx with avail := ?_, consumed_le := hok, held := ?_, ooo := ?_ }
    · simp only [v, hsum]
      omega
    · exact h.rx.held.mono (by omega) le_rfl
    · intro hne
      obtain ⟨a, hstart, -, hend, hS, hheld⟩ := h.rx.ooo hne
      have hbehind := h.ahead hne
      refine ⟨a, hstart, by omega, ?_, hS, hheld⟩
      simp only [v, hsum]
      omega
  have hview' : (w.step flowId (.bump b ts)).fs.rxView = v.fs.rxView := hview
  refine ⟨by rw [hann]; exact h.announced_eq, ?_, ?_⟩
  · rw [hmem, hann, hcons, hfin]
    exact hv.congr hview'
  · rw [hann]
    have hahead : OooAhead irs v.fs w.announced.length := h.ahead
    exact hahead.congr hview'

theorem quiet {op : FlowOp} (hq : RxQuiet w.fs (op.run flowId w.fs))
    (hcons : (w.step flowId op).consumed = w.consumed) : (w.step flowId op).Inv S irs := by
  have hann : (w.step flowId op).announced = w.announced := by
    simp [step, hq.arx, arxBytes]
  apply h.of_view hq.view _ hann hcons.ge
  · rw [hcons, hann]
    exact h.rx.consumed_le
  · simp [step, hq.arx]
  · simp [step, hq.dma]

theorem step {op : FlowOp} (hok : RxOk S irs BelowWrap w op) :
    (w.step flowId op).Inv S irs := by
  cases op with
  | packet p ts => exact (h.packet hok).1
  | bump b ts => exact h.bump hok
  | qman core steering txBuf ts =>
    exact h.quiet (fastFlowsQman_quiet core steering flowId w.fs txBuf ts) rfl
  | retransmit => exact h.quiet (fastFlowsRetransmit_quiet flowId w.fs) rfl

theorem writesAvoid {op : FlowOp} (hok : RxOk S irs BelowWrap w op) :
    WritesAvoid w.fs.rxLen.toNat w.consumed w.announced.length (op.run flowId w.fs).dma := by
  cases op with
  | packet p ts => exact (h.packet hok).2
  | bump b ts =>
    rw [FlowOp.run, (fastFlowsBump_rx flowId w.fs b ts).1]
    exact writesAvoid_nil _ _ _
  | qman core steering txBuf ts =>
    rw [FlowOp.run, (fastFlowsQman_quiet core steering flowId w.fs txBuf ts).dma]
    exact writesAvoid_nil _ _ _
  | retransmit =>
    rw [FlowOp.run, (fastFlowsRetransmit_quiet flowId w.fs).dma]
    exact writesAvoid_nil _ _ _

end

end RxWorld.Inv

/-- The bytes announced are the stream up to `rx_next_seq`, where the number of an accepted `FIN`
does not count. -/
structure RxWorld.Reassembled (S : List UInt8) (irs : UInt32) (w : RxWorld) : Prop where
  announced_eq : w.announced = S.take ((w.fs.rxNextSeq - irs).toNat - w.fin.toNat)
  announced_length : w.announced.length = (w.fs.rxNextSeq - irs).toNat - w.fin.toNat
  unconsumed_held : Holds S w.fs.rxLen.toNat w.mem w.consumed w.announced.length
  ooo_held : Holds S w.fs.rxLen.toNat w.mem (w.fs.rxOooStart - irs).toNat
    ((w.fs.rxOooStart - irs).toNat + w.fs.rxOooLen.toNat)

theorem RxWorld.Inv.reassembled {S : List UInt8} {irs : UInt32} {w : RxWorld} (h : w.Inv S irs) :
    w.Reassembled S irs := by
  have hseq := h.rx.seq
  have hoff : (w.fs.rxNextSeq - irs).toNat - w.fin.toNat = w.announced.length := by
    rw [sub_toNat (by omega)]
    omega
  refine ⟨by rw [hoff]; exact h.announced_eq, hoff.symm, h.rx.held, ?_⟩
  by_cases hne : w.fs.rxOooLen.toNat = 0
  · rw [hne]
    exact Holds.empty _ _ _ _
  obtain ⟨a, hstart, -, -, -, hheld⟩ := h.rx.ooo hne
  have ha : (w.fs.rxOooStart - irs).toNat = a := by
    rw [sub_toNat (by omega)]
    omega
  rw [ha]
  exact hheld

theorem RxWorld.inv_init (S : List UInt8) (old : FlowSt) (a : ConnArgs) (mem : ℕ → UInt8)
    (hooo : old.rxOooLen = 0) : (init old a mem).Inv S a.remoteSeq := by
  have hzero : ¬ (init old a mem).fs.rxOooLen.toNat ≠ 0 := by
    simp [init, nicifConnectionAdd, hooo]
  refine ⟨by simp [init], ?_, fun hne => absurd hne hzero⟩
  constructor
  · simp [init]
  · simp [init, nicifConnectionAdd]
  · simp [init, nicifConnectionAdd]
  · simp [init, nicifConnectionAdd]
  · simp [init]
  · simp [init]
  · exact Holds.empty _ _ _ _
  · intro hne
    exact absurd hne hzero

/-- If segments and windows end below the wrap, the application sees a prefix of the stream. -/
theorem receive_reassembles (S : List UInt8) (old : FlowSt) (a : ConnArgs) (mem : ℕ → UInt8)
    (flowId : UInt32) (ops : List FlowOp) (hooo : old.rxOooStart = 0 ∧ old.rxOooLen = 0)
    (hrun : Run.Admissible (step flowId) (RxOk S a.remoteSeq BelowWrap)
      (init old a mem) ops) :
    let w := ops.foldl (step flowId) (init old a mem)
    w.Reassembled S a.remoteSeq ∧
      ∀ op, RxOk S a.remoteSeq BelowWrap w op →
        WritesAvoid w.fs.rxLen.toNat w.consumed w.announced.length (op.run flowId w.fs).dma := by
  intro w
  have hinv : w.Inv S a.remoteSeq :=
    hrun.invariant (RxWorld.inv_init S old a mem hooo.2) fun _ _ h hok => h.step hok
  exact ⟨hinv.reassembled, fun op hok => hinv.writesAvoid hok⟩

def dataPkt (seq : UInt32) (payload : List UInt8) (h : payload.length ≤ 8) : Pkt where
  seqno := seq
  ackno := 0
  flags := {}
  wnd := 0
  ecnCe := false
  tsVal := 0
  tsEcr := 0
  payloadBytes := UInt32.ofNat payload.length
  payload := payload
  payload_length := by
    rw [UInt32.toNat_toUInt16, UInt32.toNat_ofNat']
    omega

def lateThenEarly (irs : UInt32) : List FlowOp :=
  [.packet (dataPkt (irs + 3) [4, 5, 6, 7, 8] (by decide)) 0,
   .packet (dataPkt irs [1, 2, 3] (by decide)) 0]

theorem receive_reassembles_lateThenEarly :
    Run.Admissible (step 0) (RxOk [1, 2, 3, 4, 5, 6, 7, 8] 100 BelowWrap)
        (init default (fourByteConn 100) fun _ => 0) (lateThenEarly 100) ∧
      RxWorld.Reassembled [1, 2, 3, 4, 5, 6, 7, 8] 100
        ((lateThenEarly 100).foldl (step 0)
          (init default (fourByteConn 100) fun _ => 0)) ∧
      ((lateThenEarly 100).foldl (step 0)
          (init default (fourByteConn 100) fun _ => 0)).announced = [1, 2, 3, 4] := by
  have hrun : Run.Admissible (step 0) (RxOk [1, 2, 3, 4, 5, 6, 7, 8] 100 BelowWrap)
      (init default (fourByteConn 100) fun _ => 0) (lateThenEarly 100) := by decide
  exact ⟨hrun, (receive_reassembles _ default (fourByteConn 100) _ 0 _ (by decide) hrun).1,
    by decide⟩

/-- The numbers of the segment, with its `FIN`, and of the window lie on one side of the wrap;
either may end exactly there. -/
def NoStraddle (fs : FlowSt) (p : Pkt) : Prop :=
  p.seqno.toNat + p.payload.length + p.flags.fin.toNat ≤ 2 ^ 32 ∧
    fs.rxNextSeq.toNat + fs.rxAvail.toNat ≤ 2 ^ 32
deriving Decidable

/-- A segment whose last byte has the number `2 ^ 32 - 1` is not cut, and byte four is lost. -/
theorem segment_ending_at_wrap_corrupts :
    let irs : UInt32 := 0xFFFFFFF8
    let w := init default (fourByteConn irs) fun _ => 0
    Run.Admissible (step 0) (RxOk [1, 2, 3, 4, 5, 6, 7, 8] irs NoStraddle) w
        (lateThenEarly irs) ∧
      ((lateThenEarly irs).foldl (step 0) w).announced = [1, 2, 3, 8] ∧
      ¬ ((lateThenEarly irs).foldl (step 0) w).Reassembled
        [1, 2, 3, 4, 5, 6, 7, 8] irs := by
  refine ⟨by decide, by decide, ?_⟩
  intro h
  exact absurd h.announced_eq (by decide)

end StackBench.Tas

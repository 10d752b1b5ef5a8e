import StackBench.Tas.Receive
import StackBench.Tas.Transmit

/-!
# What a TAS packet moves between the buffer counters

A packet takes bytes out of the receive window and acknowledged bytes out of
the transmit counters, and announces both. The counts agree, also where numbers
wrap, as long as the out-of-order interval lies in the window or its length
fits 16 bits.
-/

namespace StackBench.Tas

open UInt32 (le_iff_toNat_le toNat_zero)
open UInt16 (toNat_ofNat toNat_toUInt32)
open Word (add_cases add_toNat sub_toNat)

variable {fs fs' : FlowSt}

theorem trim_cases {c : Prop} [Decidable c] {a b : UInt32} {t : UInt16}
    (h : (if c then a - b else 0).toUInt16 = t) :
    (c ∧ (a - b).toNat % 2 ^ 16 = t.toNat) ∨ (¬c ∧ t.toNat = 0) := by
  subst h
  by_cases hc : c
  · left
    rw [if_pos hc, UInt32.toNat_toUInt16]
    exact ⟨hc, rfl⟩
  · right
    rw [if_neg hc]
    exact ⟨hc, rfl⟩

theorem tcpTrimRxbuf_inOrder {seq : UInt32} {bytes trimStart trimEnd : UInt16}
    (h : tcpTrimRxbuf fs seq bytes = some (trimStart, trimEnd))
    (hseq : seq + trimStart.toUInt32 = fs.rxNextSeq) :
    trimStart.toNat + trimEnd.toNat ≤ bytes.toNat ∧
      bytes.toNat - (trimStart.toNat + trimEnd.toNat) ≤ fs.rxAvail.toNat := by
  have hbytes := bytes.toNat_lt
  have hs := seq.toNat_lt
  have hp := add_cases seq bytes.toUInt32
  have hw := add_cases fs.rxNextSeq fs.rxAvail
  have hover := Word.sub_cases (seq + bytes.toUInt32) (fs.rxNextSeq + fs.rxAvail)
  have hinto := add_cases seq trimStart.toUInt32
  have hpb := (seq + bytes.toUInt32).toNat_lt
  have hsb := (fs.rxNextSeq + fs.rxAvail).toNat_lt
  rw [hseq] at hinto
  rw [toNat_toUInt32] at hp hinto
  unfold tcpTrimRxbuf at h
  generalize seq + bytes.toUInt32 = pseqB at h hp hover hpb
  generalize fs.rxNextSeq + fs.rxAvail = sseqB at h hw hover hsb
  simp only [le_iff_toNat_le, UInt32.lt_iff_toNat_lt, gt_iff_lt, ge_iff_le] at h
  -- the four cases of the source, each with the two cuts wrapped or not
  split at h
  · split at h
    · cases h
    split at h
    · cases h
    obtain ⟨hts, hte⟩ := Prod.mk.injEq _ _ _ _ ▸ Option.some.inj h
    have hts := trim_cases hts
    have hte := trim_cases hte
    clear h
    omega
  split at h
  · split at h
    · cases h
    obtain ⟨hts, hte⟩ := Prod.mk.injEq _ _ _ _ ▸ Option.some.inj h
    have hts := trim_cases hts
    have hte := trim_cases hte
    clear h
    omega
  split at h
  · split at h
    · cases h
    obtain ⟨hts, hte⟩ := Prod.mk.injEq _ _ _ _ ▸ Option.some.inj h
    have hts := trim_cases hts
    have hte := trim_cases hte
    clear h
    omega
  obtain ⟨hts, hte⟩ := Prod.mk.injEq _ _ _ _ ▸ Option.some.inj h
  have hts := trim_cases hts
  have hte := trim_cases hte
  clear h
  omega

/-- The out-of-order interval is inside the window, or its length fits in the 16
bits of `tcp_trim_rxbuf`. -/
def OooFits (fs : FlowSt) : Prop :=
  fs.rxOooLen.toNat < 2 ^ 16 ∨
    (fs.rxOooStart - fs.rxNextSeq).toNat + fs.rxOooLen.toNat ≤ fs.rxAvail.toNat
deriving Decidable

theorem OooFits.congr (h : OooFits fs) (hview : fs'.rxView = fs.rxView) : OooFits fs' := by
  simp only [FlowSt.rxView, RxView.mk.injEq] at hview
  obtain ⟨-, -, h₃, -, h₅, h₆, h₇⟩ := hview
  unfold OooFits
  rw [h₃, h₅, h₆, h₇]
  exact h

/-- What a step of the receive path took out of the window it announced. -/
structure RxTakes (fs : FlowSt) (n : UInt32) (fs' : FlowSt) : Prop where
  avail : fs'.rxAvail.toNat + n.toNat = fs.rxAvail.toNat
  len : fs'.rxLen = fs.rxLen

theorem rxTakes_zero (hview : fs'.rxView = fs.rxView) : RxTakes fs 0 fs' := by
  simp only [FlowSt.rxView, RxView.mk.injEq] at hview
  obtain ⟨-, h₂, h₃, -, -, -, -⟩ := hview
  refine ⟨?_, h₂⟩
  rw [h₃]
  rfl

theorem rxAdvance_takes {n : UInt32} (hn : n.toNat ≤ fs.rxAvail.toNat) :
    RxTakes fs n (rxAdvance fs n) := by
  refine ⟨?_, rfl⟩
  have hsub := sub_toNat hn
  simp only [rxAdvance, hsub]
  omega

/-- Merging the out-of-order interval after `n` bytes in order takes no more than
the window has. -/
theorem oooCatchUp_takes (hfits : OooFits fs) {n : UInt32} (hn : n.toNat ≤ fs.rxAvail.toNat) :
    RxTakes (rxAdvance fs n) (oooCatchUp (rxAdvance fs n)).2 (oooCatchUp (rxAdvance fs n)).1 := by
  set fs₁ := rxAdvance fs n
  have havail : fs₁.rxAvail.toNat = fs.rxAvail.toNat - n.toNat := sub_toNat hn
  have hnext : fs₁.rxNextSeq = fs.rxNextSeq + n := rfl
  have hstart : fs₁.rxOooStart = fs.rxOooStart := rfl
  have hlen : fs₁.rxOooLen = fs.rxOooLen := rfl
  unfold oooCatchUp
  split
  · exact rxTakes_zero rfl
  split
  · exact ⟨rfl, rfl⟩
  next trimStart trimEnd htrim =>
  dsimp only
  split
  · next hmerge =>
    obtain ⟨hcut, hroom⟩ := tcpTrimRxbuf_inOrder htrim hmerge.2
    have hmod : fs₁.rxOooLen.toUInt16.toNat = fs₁.rxOooLen.toNat % 2 ^ 16 := by simp
    have hsum : (trimStart.toUInt32 + trimEnd.toUInt32).toNat =
        trimStart.toNat + trimEnd.toNat := by
      rw [add_toNat (by simp only [toNat_toUInt32]; omega), toNat_toUInt32,
        toNat_toUInt32]
    have hsub : (fs₁.rxOooLen - (trimStart.toUInt32 + trimEnd.toUInt32)).toNat =
        fs₁.rxOooLen.toNat - (trimStart.toNat + trimEnd.toNat) := by
      rw [← hsum]
      exact sub_toNat (by omega)
    have htake : (fs₁.rxOooLen - (trimStart.toUInt32 + trimEnd.toUInt32)).toNat ≤
        fs₁.rxAvail.toNat → RxTakes fs₁ (fs₁.rxOooLen - (trimStart.toUInt32 + trimEnd.toUInt32))
          (rxAdvance fs₁ (fs₁.rxOooLen - (trimStart.toUInt32 + trimEnd.toUInt32))) :=
      rxAdvance_takes
    suffices hle : fs₁.rxOooLen.toNat - (trimStart.toNat + trimEnd.toNat) ≤ fs₁.rxAvail.toNat by
      obtain ⟨h₁, h₂⟩ := htake (hsub ▸ hle)
      exact ⟨h₁, h₂⟩
    rcases hfits with hshort | hinside
    · rw [hmod, hlen, Nat.mod_eq_of_lt hshort] at hroom
      exact hroom
    -- the distance of the interval from the old window start is what the trim cut
    have hdist : fs.rxOooStart - fs.rxNextSeq + trimStart.toUInt32 = n := by
      grind
    have hadd := add_cases (fs.rxOooStart - fs.rxNextSeq) trimStart.toUInt32
    rw [hdist, toNat_toUInt32] at hadd
    rw [hlen, havail]
    omega
  · exact ⟨rfl, rfl⟩

theorem packetPayload_takes (hfits : OooFits fs) {payloadBytes : UInt32}
    (hn : payloadBytes.toNat ≤ fs.rxAvail.toNat) (payload : List UInt8) (ack : Bool) :
    RxTakes fs (packetPayload fs payloadBytes payload ack).rxBump
      (packetPayload fs payloadBytes payload ack).fs := by
  unfold packetPayload
  split
  · have hadv := rxAdvance_takes hn
    have hmerge := oooCatchUp_takes hfits hn
    have hlt := fs.rxAvail.toNat_lt
    have h₁ := hadv.avail
    have h₂ := hmerge.avail
    refine ⟨?_, hmerge.len.trans hadv.len⟩
    dsimp only
    rw [add_toNat (by omega)]
    omega
  · exact rxTakes_zero rfl

theorem packetFin_takes {r : PacketEnd} (h : RxTakes fs r.rxBump r.fs) (p : Pkt) :
    RxTakes fs (packetFin r p).rxBump (packetFin r p).fs := by
  unfold packetFin
  split
  · exact ⟨h.avail, h.len⟩
  · exact h

theorem packetOoo_takes (fs : FlowSt) (seq payloadBytes : UInt32) (payload : List UInt8) :
    RxTakes fs (packetOoo fs seq payloadBytes payload).rxBump
      (packetOoo fs seq payloadBytes payload).fs := by
  unfold packetOoo
  split
  · exact rxTakes_zero rfl
  split
  · exact ⟨rfl, rfl⟩
  split
  · exact ⟨rfl, rfl⟩
  split
  · exact ⟨rfl, rfl⟩
  · exact rxTakes_zero rfl

theorem trimmedBytes_toNat {p : Pkt} (hwhole : p.Whole) {trimStart trimEnd : UInt16}
    (h : trimStart.toNat + trimEnd.toNat ≤ p.payloadBytes.toUInt16.toNat) :
    (p.payloadBytes - (trimStart.toUInt32 + trimEnd.toUInt32)).toNat =
      p.payloadBytes.toUInt16.toNat - (trimStart.toNat + trimEnd.toNat) := by
  have hmod : p.payloadBytes.toUInt16.toNat = p.payloadBytes.toNat := Nat.mod_eq_of_lt hwhole
  have hlt := p.payloadBytes.toNat_lt
  have hsum : (trimStart.toUInt32 + trimEnd.toUInt32).toNat = trimStart.toNat + trimEnd.toNat := by
    rw [add_toNat (by simp only [toNat_toUInt32]; omega), toNat_toUInt32,
      toNat_toUInt32]
  rw [sub_toNat (by omega), hsum, hmod]

theorem packetRx_takes (hfits : OooFits fs) {p : Pkt} (hwhole : p.Whole) (ts : UInt32) :
    RxTakes fs (packetRx fs p ts).rxBump (packetRx fs p ts).fs := by
  unfold packetRx
  split
  · exact rxTakes_zero rfl
  next trimStart trimEnd htrim =>
  dsimp only
  split
  · exact packetOoo_takes _ _ _ _
  next hseq =>
  obtain ⟨hcut, hroom⟩ := tcpTrimRxbuf_inOrder htrim (not_not.mp hseq)
  have hbytes := trimmedBytes_toNat hwhole hcut
  unfold packetInOrder
  dsimp only
  split
  · exact ⟨rfl, rfl⟩
  have hfits' : OooFits (windowUpdate (rttUpdate fs p ts) p) := hfits.congr rfl
  have hroom' : (p.payloadBytes - (trimStart.toUInt32 + trimEnd.toUInt32)).toNat ≤
      (windowUpdate (rttUpdate fs p ts) p).rxAvail.toNat := by
    rw [hbytes]
    exact hroom
  have hsame := packetPayload_takes hfits' hroom'
    ((p.payload.drop trimStart.toNat).take
      (p.payloadBytes - (trimStart.toUInt32 + trimEnd.toUInt32)).toUInt16.toNat)
    (decide (p.payloadBytes > 0))
  obtain ⟨h₁, h₂⟩ := packetFin_takes hsame p
  exact ⟨h₁, h₂⟩

/-- The bytes a packet announces as received. -/
def FlowOut.rxBump (out : FlowOut) : UInt32 := out.arx.elim 0 Arx.rxBump

theorem packetUnlock_rxBump (flowId oldAvail rxPos txBump ts : UInt32) (p : Pkt) (r : PacketEnd) :
    (packetUnlock flowId oldAvail rxPos txBump ts p r).rxBump = r.rxBump := by
  simp only [FlowOut.rxBump, packetUnlock]
  split
  · rfl
  · next hnone =>
    by_contra hcon
    exact hnone (Or.inl (Ne.symm hcon))

theorem fastFlowsPacket_rxTakes (flowId : UInt32) {p : Pkt} (hfits : p.Whole ∧ OooFits fs)
    (ts : UInt32) :
    RxTakes fs (fastFlowsPacket flowId fs p ts).rxBump (fastFlowsPacket flowId fs p ts).fs := by
  rcases fastFlowsPacket_cases flowId fs p ts with ⟨slow, -, hout⟩ | ⟨-, hout⟩
  · rw [hout]
    exact rxTakes_zero rfl
  rw [hout, packetUnlock_rxBump]
  have hview := packetAck_rxView fs p
  have hack := rxTakes_zero hview
  change RxTakes fs (packetBody fs p ts).rxBump (packetBody fs p ts).fs
  unfold packetBody
  split
  · exact hack
  have hrx := packetRx_takes (hfits.2.congr hview) hfits.1 ts
  have havail := hack.avail
  refine ⟨?_, hrx.len.trans hack.len⟩
  rw [hrx.avail]
  simpa using havail

/-- The bytes committed and not acknowledged. -/
def FlowSt.txHeld (fs : FlowSt) : ℕ := fs.txAvail.toNat + fs.txSent.toNat

theorem txHeld_congr (h : fs'.txView = fs.txView) : fs'.txHeld = fs.txHeld := by
  simp only [FlowSt.txView, TxView.mk.injEq] at h
  obtain ⟨-, -, h₃, h₄, -, -, -⟩ := h
  rw [FlowSt.txHeld, h₃, h₄]
  rfl

theorem ackAdvance_txHeld {b : UInt32} (hb : b.toNat ≤ fs.txHeld) :
    (ackAdvance fs b).txHeld + b.toNat = fs.txHeld := by
  unfold FlowSt.txHeld at hb ⊢
  unfold ackAdvance
  split
  · next hle =>
    rw [le_iff_toNat_le] at hle
    have hsub := sub_toNat hle
    dsimp only
    omega
  next hle =>
  rw [le_iff_toNat_le] at hle
  have hsub : (b - fs.txSent).toNat = b.toNat - fs.txSent.toNat := sub_toNat (by omega)
  have hsub' : (fs.txAvail - (b - fs.txSent)).toNat =
      fs.txAvail.toNat - (b - fs.txSent).toNat := sub_toNat (by omega)
  dsimp only
  rw [toNat_zero]
  omega

theorem flowResetRetransmit_txHeld (h : fs.txHeld < 2 ^ 32) :
    (flowResetRetransmit fs).txHeld = fs.txHeld := by
  unfold FlowSt.txHeld at h ⊢
  have hsum := add_toNat h
  simp only [flowResetRetransmit, hsum, toNat_zero]
  omega

/-- What was taken out of the transmit counters was announced; length and closing flag are the same.
-/
structure TxTakes (fs : FlowSt) (n : UInt32) (fs' : FlowSt) : Prop where
  held : fs'.txHeld + n.toNat = fs.txHeld
  len : fs'.txLen = fs.txLen
  fin : fs'.txfin = fs.txfin

theorem ackAdvance_takes {b : UInt32} (hb : b.toNat ≤ fs.txHeld) :
    TxTakes fs b (ackAdvance fs b) := by
  refine ⟨ackAdvance_txHeld hb, ?_, ?_⟩
  · unfold ackAdvance
    split <;> rfl
  · unfold ackAdvance
    split <;> rfl

theorem TxTakes.of_view {fs fs' fs'' : FlowSt} {n : UInt32} (h : TxTakes fs n fs')
    (hview : fs''.txView = fs'.txView) : TxTakes fs n fs'' := by
  refine ⟨?_, (congrArg TxView.txLen hview).trans h.len, (congrArg TxView.txfin hview).trans h.fin⟩
  rw [txHeld_congr hview]
  exact h.held

theorem flowResetRetransmit_takes (h : fs.txHeld < 2 ^ 32) :
    TxTakes fs 0 (flowResetRetransmit fs) :=
  ⟨flowResetRetransmit_txHeld h, rfl, rfl⟩

theorem fastFlowsPacket_txTakes (flowId : UInt32) (h : fs.txHeld < 2 ^ 32) (p : Pkt) (ts : UInt32) :
    TxTakes fs (fastFlowsPacket flowId fs p ts).txBump (fastFlowsPacket flowId fs p ts).fs := by
  rcases fastFlowsPacket_tx flowId fs p ts with ⟨-, -, hbump, hview⟩ | ⟨-, b, hb, hbump, hview⟩
  · rw [hbump]
    exact (flowResetRetransmit_takes h).of_view hview
  rw [hbump]
  have hle : b.toNat ≤ fs.txHeld := by
    rcases hb with rfl | hb
    · exact Nat.zero_le _
    · have hack := tcpValidRxack_le (by rw [Nat.add_comm]; exact h) hb
      rw [FlowSt.txHeld]
      omega
  have hadv := ackAdvance_takes hle
  split at hview
  · have hwin : TxTakes fs b (windowUpdate (ackAdvance fs b) p) := ⟨hadv.held, hadv.len, hadv.fin⟩
    exact hwin.of_view hview
  · exact hadv.of_view hview

theorem txTake_takes {len : UInt32} (hlen : len.toNat ≤ fs.txAvail.toNat)
    (h : fs.txHeld < 2 ^ 32) : TxTakes fs 0 (txTake fs len) := by
  refine ⟨?_, rfl, rfl⟩
  unfold FlowSt.txHeld at h ⊢
  have hsub := sub_toNat hlen
  have hadd : (fs.txSent + len).toNat = fs.txSent.toNat + len.toNat := add_toNat (by omega)
  simp only [txTake, hsub, hadd, toNat_zero]
  omega

theorem fastFlowsQman_txTakes (h : fs.txHeld < 2 ^ 32) (core : UInt16)
    (steering : UInt16 → UInt16) (flowId : UInt32) (txBuf : ℕ → UInt8) (ts : UInt32) :
    TxTakes fs 0 (fastFlowsQman core steering flowId fs txBuf ts).fs := by
  unfold fastFlowsQman
  split
  · exact ⟨rfl, rfl, rfl⟩
  split
  · exact ⟨rfl, rfl, rfl⟩
  · have hle := segLen_le (tcpTxavail fs)
    have hav : (tcpTxavail fs).toNat ≤ fs.txAvail.toNat := tcpTxavailOf_le _ _
    exact txTake_takes (hle.trans hav) h

theorem fastFlowsRetransmit_txTakes (h : fs.txHeld < 2 ^ 32) (flowId : UInt32) :
    TxTakes fs 0 (fastFlowsRetransmit flowId fs).fs := by
  unfold fastFlowsRetransmit
  split
  · exact ⟨rfl, rfl, rfl⟩
  · exact flowResetRetransmit_takes h

section BumpSeq

variable (flowId : UInt32) (fs) (p : Pkt)

theorem packetAck_bumpSeq : (packetAck fs p).1.bumpSeq = fs.bumpSeq := by
  obtain ⟨-, hack⟩ | ⟨-, gs, hack, hreset⟩ := packetAck_writes fs p
  · obtain ⟨_, _, _, _, _, _, _, _, hfs⟩ := hack
    rw [hfs]
  · obtain ⟨_, _, _, _, _, _, _, _, rfl⟩ := hack
    rw [hreset]
    rfl

theorem packetRx_bumpSeq (ts : UInt32) : (packetRx fs p ts).fs.bumpSeq = fs.bumpSeq := by
  obtain ⟨_, _, _, _, _, _, _, _, _, hfs⟩ := packetRx_writes fs p ts
  rw [hfs]

theorem fastFlowsPacket_bumpSeq (ts : UInt32) :
    (fastFlowsPacket flowId fs p ts).fs.bumpSeq = fs.bumpSeq := by
  rcases fastFlowsPacket_cases flowId fs p ts with ⟨slow, -, hout⟩ | ⟨-, hout⟩
  · rw [hout]
  rw [hout]
  unfold packetBody
  split
  · exact packetAck_bumpSeq fs p
  · exact (packetRx_bumpSeq _ p ts).trans (packetAck_bumpSeq fs p)

theorem fastFlowsQman_bumpSeq (core : UInt16) (steering : UInt16 → UInt16) (flowId : UInt32)
    (fs : FlowSt) (txBuf : ℕ → UInt8) (ts : UInt32) :
    (fastFlowsQman core steering flowId fs txBuf ts).fs.bumpSeq = fs.bumpSeq := by
  unfold fastFlowsQman
  split
  · rfl
  split <;> rfl

theorem fastFlowsRetransmit_bumpSeq : (fastFlowsRetransmit flowId fs).fs.bumpSeq = fs.bumpSeq := by
  unfold fastFlowsRetransmit
  split <;> rfl

end BumpSeq

theorem bumpOutOfOrder_next (n : ℕ) :
    bumpOutOfOrder (UInt16.ofNat (n - 1)) (UInt16.ofNat n) = false := by
  have h₁ : (UInt16.ofNat (n - 1)).toNat = (n - 1) % 2 ^ 16 := toNat_ofNat
  have h₂ : (UInt16.ofNat n).toNat = n % 2 ^ 16 := toNat_ofNat
  simp only [bumpOutOfOrder, decide_eq_false_iff_not, UInt16.le_iff_toNat_le,
    UInt16.lt_iff_toNat_lt, h₁, h₂]
  omega

/-- The part of an update that is about transmission passes its checks. -/
def BumpTxFits (fs : FlowSt) (b : Bump) : Prop :=
  (fs.txfin = false → b.txDone = true → b.txBump ≠ 0) ∧ bumpTx fs b ≤ fs.txLen ∧
    fs.txAvail + bumpTx fs b ≤ fs.txLen ∧ fs.txAvail + bumpTx fs b + fs.txSent ≤ fs.txLen
deriving Decidable

/-- `fast_flows_bump` reaches the code behind its checks. -/
def BumpTaken (fs : FlowSt) (b : Bump) : Prop :=
  bumpOutOfOrder fs.bumpSeq b.seq = false ∧
    (fs.txfin = false → b.txDone = true → b.txBump ≠ 0) ∧ bumpFits fs b
deriving Decidable

theorem fastFlowsBump_taken {b : Bump} (h : BumpTaken fs b) (flowId ts : UInt32) :
    fastFlowsBump flowId fs b ts = bumpAccept flowId fs b ts := by
  obtain ⟨horder, hclose, hfits⟩ := h
  have hclose' : (!fs.txfin && b.txDone && b.txBump == 0) = false := by
    by_contra hcon
    simp only [Bool.not_eq_false, Bool.and_eq_true, Bool.not_eq_true', beq_iff_eq] at hcon
    exact hclose hcon.1.1 hcon.1.2 hcon.2
  unfold fastFlowsBump
  rw [if_neg (by simp [horder]), if_neg (by simp [hclose']), if_pos hfits]

theorem fastFlowsBump_refused {b : Bump} (h : ¬BumpTaken fs b) (flowId ts : UInt32) :
    ∃ s, fastFlowsBump flowId fs b ts = { fs := { fs with bumpSeq := s }, ret := -1 } := by
  unfold fastFlowsBump
  split
  · exact ⟨fs.bumpSeq, rfl⟩
  next horder =>
  split
  · exact ⟨_, rfl⟩
  next hclose =>
  split
  · next hfits =>
    refine absurd ⟨Bool.not_eq_true _ ▸ horder, ?_, hfits⟩ h
    intro hfin hdone hzero
    simp [hfin, hdone, hzero] at hclose
  · exact ⟨_, rfl⟩

/-- An update in sequence is refused for its receive part only. -/
theorem fastFlowsBump_unfit {b : Bump} (hseq : bumpOutOfOrder fs.bumpSeq b.seq = false)
    (htx : BumpTxFits fs b) (h : ¬BumpTaken fs b) (flowId ts : UInt32) :
    fastFlowsBump flowId fs b ts = { fs := { fs with bumpSeq := b.seq }, ret := -1 } := by
  have hfits : ¬bumpFits fs b := fun hfits => h ⟨hseq, htx.1, hfits⟩
  unfold fastFlowsBump
  rw [if_neg (by simp [hseq]), if_neg hfits, ite_self]

/-- The window is no larger than the buffer, and both buffers have the same length,
below half of the words. -/
structure RxAccount (len : UInt32) (fs : FlowSt) : Prop where
  rxLen : fs.rxLen = len
  txLen : fs.txLen = len
  half : len.toNat < 2 ^ 31
  avail : fs.rxAvail.toNat ≤ len.toNat

section RxAccount

variable {len : UInt32}

section

variable (h : RxAccount len fs)
include h

theorem RxAccount.rxBump_iff (n : UInt32) :
    n ≤ fs.rxLen ∧ n + fs.rxAvail ≤ fs.txLen ↔
      n.toNat ≤ fs.rxLen.toNat - fs.rxAvail.toNat := by
  have havail := h.avail
  have hhalf := h.half
  have hsum := add_cases n fs.rxAvail
  rw [le_iff_toNat_le, le_iff_toNat_le, h.rxLen, h.txLen]
  omega

theorem RxAccount.taken_iff {b : Bump}
    (hseq : bumpOutOfOrder fs.bumpSeq b.seq = false) (htx : BumpTxFits fs b) :
    BumpTaken fs b ↔ b.rxBump.toNat ≤ fs.rxLen.toNat - fs.rxAvail.toNat := by
  obtain ⟨hclose, h₁, h₂, h₃⟩ := htx
  rw [← h.rxBump_iff]
  refine ⟨fun htaken => htaken.2.2.2.2.2, fun hrx => ⟨hseq, hclose, h₁, h₂, h₃, hrx⟩⟩

theorem RxAccount.congr (hrx : fs'.rxLen = fs.rxLen)
    (htx : fs'.txLen = fs.txLen) (havail : fs'.rxAvail.toNat ≤ fs.rxAvail.toNat) :
    RxAccount len fs' :=
  ⟨hrx.trans h.rxLen, htx.trans h.txLen, h.half, havail.trans h.avail⟩

theorem RxAccount.bump (flowId : UInt32) (b : Bump) (ts : UInt32) :
    RxAccount len (fastFlowsBump flowId fs b ts).fs := by
  by_cases htaken : BumpTaken fs b
  · rw [fastFlowsBump_taken htaken]
    have hfits := (h.rxBump_iff b.rxBump).mp htaken.2.2.2.2.2
    have havail := h.avail
    have hhalf := h.half
    refine ⟨h.rxLen, h.txLen, h.half, ?_⟩
    change (fs.rxAvail + b.rxBump).toNat ≤ _
    rw [h.rxLen] at hfits
    rw [add_toNat (by omega)]
    omega
  · obtain ⟨s, hout⟩ := fastFlowsBump_refused htaken flowId ts
    rw [hout]
    exact h.congr rfl rfl le_rfl

/-- Every packet is as long as its headers say, and the out-of-order interval fits when it comes. -/
def PacketFitsAt (fs : FlowSt) : FlowOp → Prop
  | .packet p _ => p.Whole ∧ OooFits fs
  | _ => True

instance (fs : FlowSt) : DecidablePred (PacketFitsAt fs)
  | .packet p _ => inferInstanceAs (Decidable (p.Whole ∧ OooFits fs))
  | .bump _ _ | .qman _ _ _ _ | .retransmit => instDecidableTrue

omit h in
theorem ackAdvance_txLen (fs : FlowSt) (b : UInt32) : (ackAdvance fs b).txLen = fs.txLen := by
  unfold ackAdvance
  split <;> rfl

omit h in
theorem fastFlowsPacket_txLen (flowId : UInt32) (fs : FlowSt) (p : Pkt) (ts : UInt32) :
    (fastFlowsPacket flowId fs p ts).fs.txLen = fs.txLen := by
  rcases fastFlowsPacket_tx flowId fs p ts with ⟨-, -, -, hview⟩ | ⟨-, b, -, -, hview⟩
  · exact congrArg TxView.txLen hview
  have hlen := congrArg TxView.txLen hview
  split at hlen
  · exact hlen.trans (ackAdvance_txLen fs b)
  · exact hlen.trans (ackAdvance_txLen fs b)

theorem RxAccount.quiet {out : FlowOut} (hquiet : RxQuiet fs out)
    (htx : out.fs.txLen = fs.txLen) : RxAccount len out.fs := by
  have havail : out.fs.rxAvail = fs.rxAvail := congrArg RxView.rxAvail hquiet.view
  exact h.congr (congrArg RxView.rxLen hquiet.view) htx (by rw [havail])

theorem RxAccount.step (flowId : UInt32) {op : FlowOp}
    (hok : PacketFitsAt fs op) : RxAccount len (op.run flowId fs).fs := by
  cases op with
  | packet p ts =>
    have htakes := fastFlowsPacket_rxTakes flowId hok ts
    have havail := htakes.avail
    exact h.congr htakes.len (fastFlowsPacket_txLen flowId fs p ts) (by rw [FlowOp.run]; omega)
  | bump b ts => exact h.bump flowId b ts
  | qman core steering txBuf ts =>
    refine h.quiet (fastFlowsQman_quiet core steering flowId fs txBuf ts) ?_
    rw [FlowOp.run]
    unfold fastFlowsQman
    split
    · rfl
    split <;> rfl
  | retransmit =>
    refine h.quiet (fastFlowsRetransmit_quiet flowId fs) ?_
    rw [FlowOp.run]
    unfold fastFlowsRetransmit
    split <;> rfl

end

end RxAccount

/-- While packets and the out-of-order interval fit, the window is within the buffer, and an update
is taken exactly if the bytes it frees are not in the window. -/
theorem receive_accounting (flowId : UInt32) (fs : FlowSt) (ops : List FlowOp)
    (hlen : fs.rxLen = fs.txLen) (hhalf : fs.rxLen.toNat < 2 ^ 31) (havail : fs.rxAvail ≤ fs.rxLen)
    (hrun : Run.Admissible (fun fs op => (op.run flowId fs).fs) PacketFitsAt fs ops) :
    let fs' := ops.foldl (fun fs op => (op.run flowId fs).fs) fs
    fs'.rxAvail ≤ fs'.rxLen ∧ ∀ b ts,
      let out := fastFlowsBump flowId fs' b ts
      (bumpOutOfOrder fs'.bumpSeq b.seq = false → BumpTxFits fs' b →
        (b.rxBump.toNat ≤ fs'.rxLen.toNat - fs'.rxAvail.toNat →
            out = bumpAccept flowId fs' b ts) ∧
          (¬b.rxBump.toNat ≤ fs'.rxLen.toNat - fs'.rxAvail.toNat →
            out = { fs := { fs' with bumpSeq := b.seq }, ret := -1 })) ∧
      (out = bumpAccept flowId fs' b ts ∨ out.fs.rxAvail = fs'.rxAvail ∧
        out.fs.txAvail = fs'.txAvail ∧ out.fs.txfin = fs'.txfin ∧ out.qman = none) := by
  have hstart : RxAccount fs.rxLen fs := ⟨rfl, hlen.symm, hhalf, havail⟩
  intro fs'
  have hend : RxAccount fs.rxLen fs' :=
    hrun.invariant hstart fun _ _ h hok => h.step flowId hok
  refine ⟨?_, fun b ts => ⟨fun hseq htx => ?_, ?_⟩⟩
  · rw [le_iff_toNat_le, hend.rxLen]
    exact hend.avail
  · rw [← hend.taken_iff hseq htx]
    exact ⟨fun htaken => fastFlowsBump_taken htaken flowId ts,
      fun href => fastFlowsBump_unfit hseq htx href flowId ts⟩
  · by_cases htaken : BumpTaken fs' b
    · exact Or.inl (fastFlowsBump_taken htaken flowId ts)
    · obtain ⟨s, hout⟩ := fastFlowsBump_refused htaken flowId ts
      rw [hout]
      exact Or.inr ⟨rfl, rfl, rfl, rfl⟩

/-- A byte arrives, and the application may free one byte and not two. -/
theorem receive_accounting_oneByte :
    let fs := (fastFlowsPacket 0 (nicifConnectionAdd default (fourByteConn 0))
      (dataPkt 0 [7] (by decide)) 0).fs
    fs.rxAvail = 3 ∧
      fastFlowsBump 0 fs ⟨1, 1, 0, false⟩ 0 = bumpAccept 0 fs ⟨1, 1, 0, false⟩ 0 ∧
      fastFlowsBump 0 fs ⟨1, 2, 0, false⟩ 0 = { fs := { fs with bumpSeq := 1 }, ret := -1 } := by
  intro fs
  have hrun := (receive_accounting 0 (nicifConnectionAdd default (fourByteConn 0))
    [.packet (dataPkt 0 [7] (by decide)) 0] (by decide) (by decide) (by decide) (by decide)).2
  exact ⟨by decide, ((hrun ⟨1, 1, 0, false⟩ 0).1 (by decide) (by decide)).1 (by decide),
    ((hrun ⟨1, 2, 0, false⟩ 0).1 (by decide) (by decide)).2 (by decide)⟩

def wideTransmit : FlowSt := nicifConnectionAdd default { fourByteConn 0 with txLen := 8 }

def wideReceive : FlowSt :=
  { nicifConnectionAdd default { fourByteConn 0 with rxLen := 8 } with rxAvail := 2 }

/-- The check takes the length of the other buffer: bytes are added to a full window, and free ones
refused. -/
theorem receive_window_exceeds_buffer :
    (wideTransmit.rxAvail = 4 ∧ (fastFlowsBump 0 wideTransmit ⟨1, 4, 0, false⟩ 0).fs.rxAvail = 8 ∧
        (fastFlowsBump 0 wideTransmit ⟨1, 4, 0, false⟩ 0).fs.rxLen = 4) ∧
      bumpOutOfOrder wideReceive.bumpSeq 1 = false ∧ BumpTxFits wideReceive ⟨1, 6, 0, false⟩ ∧
        (6 : UInt32).toNat ≤ wideReceive.rxLen.toNat - wideReceive.rxAvail.toNat ∧
        (fastFlowsBump 0 wideReceive ⟨1, 6, 0, false⟩ 0).fs.rxAvail = 2 := by
  decide

end StackBench.Tas

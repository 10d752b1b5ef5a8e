import StackBench.Lib.Run
import StackBench.Tas.FastFlows

/-!
# The TAS transmit path

A flow is followed with its transmit buffer, the bytes committed, the number
acknowledged and the segments sent. Stream offsets are not taken modulo `2 ^
32`.
-/

namespace StackBench.Tas

open Circular (Holds)
open UInt32 (le_iff_toNat_le toNat_add toNat_inj toNat_ofNat' toNat_zero)
open Word (add_toNat sub_toNat)

/-- The fields of a flow state that the transmit path depends on. -/
structure TxView where
  txfin : Bool
  txLen : UInt32
  txAvail : UInt32
  txSent : UInt32
  txNextPos : UInt32
  txNextSeq : UInt32
  rxRemoteAvail : UInt32
deriving DecidableEq

variable (fs : FlowSt)

def FlowSt.txView : TxView :=
  ⟨fs.txfin, fs.txLen, fs.txAvail, fs.txSent, fs.txNextPos, fs.txNextSeq, fs.rxRemoteAvail⟩

theorem ackAdvance_txView_congr {fs fs' : FlowSt} (b : UInt32) (h : fs'.txView = fs.txView) :
    (ackAdvance fs' b).txView = (ackAdvance fs b).txView := by
  simp only [FlowSt.txView, TxView.mk.injEq] at h
  obtain ⟨h₁, h₂, h₃, h₄, h₅, h₆, h₇⟩ := h
  simp only [ackAdvance, h₂, h₃, h₄, h₅, h₆]
  split <;> simp only [FlowSt.txView, h₁, h₇]

theorem ackAdvance_zero_txView : (ackAdvance fs 0).txView = fs.txView := by
  simp [ackAdvance, FlowSt.txView]

theorem flowResetRetransmit_txView_congr {fs fs' : FlowSt} (h : fs'.txView = fs.txView) :
    (flowResetRetransmit fs').txView = (flowResetRetransmit fs).txView := by
  simp only [FlowSt.txView, TxView.mk.injEq] at h
  obtain ⟨h₁, h₂, h₃, h₄, h₅, h₆, h₇⟩ := h
  simp only [FlowSt.txView, flowResetRetransmit, h₁, h₂, h₃, h₄, h₅, h₆, h₇]

/-- The acknowledgement part changes nothing, advances, or goes back to the last byte acknowledged.
-/
theorem packetAck_cases (p : Pkt) :
    ((packetAck fs p).2 = (0, false) ∧ (packetAck fs p).1.txView = fs.txView) ∨
      (∃ b, tcpValidRxack fs p.ackno = some b ∧ (packetAck fs p).2 = (b, false) ∧
        (packetAck fs p).1.txView = (ackAdvance fs b).txView) ∨
      ((packetAck fs p).2 = (0, true) ∧
        (packetAck fs p).1.txView = (flowResetRetransmit fs).txView) := by
  unfold packetAck
  dsimp only
  split
  · exact Or.inl ⟨rfl, rfl⟩
  next b hsome =>
  have hvalid : tcpValidRxack fs p.ackno = some b := by
    split at hsome
    · exact hsome
    · cases hsome
  have hview : (ackAdvance (countAckBytes (countAck fs p) p b) b).txView =
      (ackAdvance fs b).txView := ackAdvance_txView_congr b rfl
  split
  · exact Or.inr (Or.inl ⟨b, hvalid, rfl, hview⟩)
  next hzero =>
  split
  · split
    · refine Or.inr (Or.inr ⟨by simp [not_not.mp hzero], ?_⟩)
      apply flowResetRetransmit_txView_congr
      rw [not_not.mp hzero] at hview ⊢
      exact hview.trans (ackAdvance_zero_txView fs)
    · exact Or.inr (Or.inl ⟨b, hvalid, rfl, hview⟩)
  · exact Or.inr (Or.inl ⟨b, hvalid, rfl, hview⟩)

theorem oooCatchUp_txView : (oooCatchUp fs).1.txView = fs.txView := by
  unfold oooCatchUp
  split
  · rfl
  split
  · rfl
  dsimp only
  split <;> rfl

theorem packetOoo_txView (seq payloadBytes : UInt32) (payload : List UInt8) :
    (packetOoo fs seq payloadBytes payload).fs.txView = fs.txView := by
  unfold packetOoo
  split
  · rfl
  split
  · rfl
  split
  · rfl
  split <;> rfl

theorem packetInOrder_txView (p : Pkt) (ts payloadBytes : UInt32)
    (payload : List UInt8) (ack : Bool) :
    (packetInOrder fs p ts payloadBytes payload ack).fs.txView = (windowUpdate fs p).txView := by
  have hdata : (packetPayload (windowUpdate (rttUpdate fs p ts) p) payloadBytes payload
      ack).fs.txView = (windowUpdate fs p).txView := by
    unfold packetPayload
    split
    · exact oooCatchUp_txView _
    · rfl
  unfold packetInOrder
  dsimp only
  split
  · rfl
  unfold packetFin
  split
  · exact hdata
  · exact hdata

/-- The bytes a packet acknowledges to the application. -/
def FlowOut.txBump (out : FlowOut) : UInt32 := out.arx.elim 0 Arx.txBump

theorem packetUnlock_txBump (flowId oldAvail rxPos txBump ts : UInt32) (p : Pkt) (r : PacketEnd) :
    (packetUnlock flowId oldAvail rxPos txBump ts p r).txBump = txBump := by
  simp only [FlowOut.txBump, packetUnlock]
  split
  · rfl
  · next hnone =>
    by_contra hcon
    exact hnone (Or.inr (Or.inl (Ne.symm hcon)))

theorem packetBody_txView (p : Pkt) (ts : UInt32)
    (hfast : (!fs.slowpath && !p.flags.weird) = true) : (packetBody fs p ts).fs.txView =
      if windowApplied fs p then (windowUpdate (packetAck fs p).1 p).txView
      else (packetAck fs p).1.txView := by
  unfold packetBody windowApplied
  rw [hfast, Bool.true_and]
  cases hreset : (packetAck fs p).2.2 with
  | true => rfl
  | false =>
    rw [if_neg Bool.false_ne_true, Bool.not_false, Bool.true_and, packetRx]
    split
    · simp
    next trimStart trimEnd _ =>
    simp only [beq_iff_eq]
    by_cases heq : p.seqno + trimStart.toUInt32 = (packetAck fs p).1.rxNextSeq
    · rw [if_neg (not_not.mpr heq), if_pos heq]
      exact packetInOrder_txView _ _ _ _ _ _
    · rw [if_pos heq, if_neg heq]
      exact packetOoo_txView _ _ _ _

theorem windowUpdate_txView_congr {fs fs' : FlowSt} (p : Pkt) (h : fs'.txView = fs.txView) :
    (windowUpdate fs' p).txView = (windowUpdate fs p).txView := by
  simp only [FlowSt.txView, TxView.mk.injEq] at h
  obtain ⟨h₁, h₂, h₃, h₄, h₅, h₆, h₇⟩ := h
  simp only [FlowSt.txView, windowUpdate, h₁, h₂, h₃, h₄, h₅, h₆, h₇]

/-- A packet resets the transmit fields, or advances over `b` acknowledged bytes. -/
theorem fastFlowsPacket_tx (flowId : UInt32) (fs : FlowSt) (p : Pkt) (ts : UInt32) :
    (packetReset fs p = true ∧ windowApplied fs p = false ∧
        (fastFlowsPacket flowId fs p ts).txBump = 0 ∧
        (fastFlowsPacket flowId fs p ts).fs.txView = (flowResetRetransmit fs).txView) ∨
      (packetReset fs p = false ∧ ∃ b, (b = 0 ∨ tcpValidRxack fs p.ackno = some b) ∧
        (fastFlowsPacket flowId fs p ts).txBump = b ∧
        (fastFlowsPacket flowId fs p ts).fs.txView =
          if windowApplied fs p then (windowUpdate (ackAdvance fs b) p).txView
          else (ackAdvance fs b).txView) := by
  rcases fastFlowsPacket_cases flowId fs p ts with ⟨slow, hfast, hout⟩ | ⟨hfast, hout⟩
  · have happ : windowApplied fs p = false := by simp [windowApplied, hfast]
    refine Or.inr ⟨by simp [packetReset, hfast], 0, Or.inl rfl, by rw [hout]; rfl, ?_⟩
    rw [hout, happ, if_neg Bool.false_ne_true, ackAdvance_zero_txView]
    rfl
  have hview := packetBody_txView fs p ts hfast
  rw [hout, packetUnlock_txBump]
  change (_ ∧ _ ∧ _ ∧ (packetBody fs p ts).fs.txView = _) ∨
    (_ ∧ ∃ b, _ ∧ _ ∧ (packetBody fs p ts).fs.txView = _)
  rw [hview]
  have hreset : packetReset fs p = (packetAck fs p).2.2 := by
    rw [packetReset, hfast, Bool.true_and]
  rcases packetAck_cases fs p with ⟨hb, hback⟩ | ⟨b, hvalid, hb, hback⟩ | ⟨hb, hback⟩
  · rw [hreset, hb]
    have hback' := hback.trans (ackAdvance_zero_txView fs).symm
    refine Or.inr ⟨rfl, 0, Or.inl rfl, rfl, ?_⟩
    rw [windowUpdate_txView_congr p hback', hback']
  · rw [hreset, hb]
    refine Or.inr ⟨rfl, b, Or.inr hvalid, rfl, ?_⟩
    rw [windowUpdate_txView_congr p hback, hback]
  · have happ : windowApplied fs p = false := by simp [windowApplied, hb]
    rw [hreset, hb, happ]
    exact Or.inl ⟨rfl, rfl, rfl, hback⟩

/-- What a flow and its buffer `mem` say about the committed bytes, `acked` of them acknowledged. -/
structure TxInv (iss : UInt32) (fs : FlowSt) (mem : ℕ → UInt8) (committed : List UInt8)
    (acked : ℕ) : Prop where
  len_pos : 0 < fs.txLen.toNat
  len_lt : fs.txLen.toNat < 2 ^ 31
  seq : fs.txNextSeq.toNat = (iss.toNat + (acked + fs.txSent.toNat)) % 2 ^ 32
  pos : fs.txNextPos.toNat = (acked + fs.txSent.toNat) % fs.txLen.toNat
  total : acked + fs.txSent.toNat + fs.txAvail.toNat = committed.length
  fit : fs.txAvail.toNat + fs.txSent.toNat ≤ fs.txLen.toNat
  held : Holds committed fs.txLen.toNat mem acked committed.length

namespace TxInv

variable {iss : UInt32} {fs} {mem : ℕ → UInt8} {committed : List UInt8} {acked : ℕ}

section

variable (h : TxInv iss fs mem committed acked)
include h

theorem pos_lt : fs.txNextPos.toNat < fs.txLen.toNat := by
  rw [h.pos]
  exact Nat.mod_lt _ h.len_pos

theorem congr {fs' : FlowSt} (hlen : fs'.txLen = fs.txLen) (havail : fs'.txAvail = fs.txAvail)
    (hsent : fs'.txSent = fs.txSent) (hpos : fs'.txNextPos = fs.txNextPos)
    (hseq : fs'.txNextSeq = fs.txNextSeq) : TxInv iss fs' mem committed acked := by
  constructor
  · rw [hlen]; exact h.len_pos
  · rw [hlen]; exact h.len_lt
  · rw [hseq, hsent]; exact h.seq
  · rw [hpos, hsent, hlen]; exact h.pos
  · rw [hsent, havail]; exact h.total
  · rw [havail, hsent, hlen]; exact h.fit
  · rw [hlen]; exact h.held

theorem of_view {fs' : FlowSt}
    (hview : fs'.txView = fs.txView) : TxInv iss fs' mem committed acked := by
  simp only [FlowSt.txView, TxView.mk.injEq] at hview
  obtain ⟨-, h₂, h₃, h₄, h₅, h₆, -⟩ := hview
  exact h.congr h₂ h₃ h₄ h₅ h₆

/-- An acknowledgement moves its offset, and the sending offset where it covers bytes not yet sent.
-/
theorem ackAdvance {b : UInt32} (hb : b.toNat ≤ fs.txSent.toNat + fs.txAvail.toNat) :
    TxInv iss (ackAdvance fs b) mem committed (acked + b.toNat) := by
  have hseq := h.seq
  have htotal := h.total
  have hfit := h.fit
  have hlen := h.len_lt
  have hposlt := h.pos_lt
  have hheld := h.held.mono (by omega : acked ≤ acked + b.toNat) le_rfl
  unfold Tas.ackAdvance
  split
  · next hle =>
    rw [le_iff_toNat_le] at hle
    have hsub := sub_toNat hle
    have hoff : acked + b.toNat + (fs.txSent - b).toNat = acked + fs.txSent.toNat := by omega
    constructor
    · exact h.len_pos
    · exact h.len_lt
    · simp only [hoff]; exact h.seq
    · simp only [hoff]; exact h.pos
    · simp only [hoff]; exact h.total
    · simp only; omega
    · exact hheld
  next hle =>
  rw [le_iff_toNat_le] at hle
  have hsub : (b - fs.txSent).toNat = b.toNat - fs.txSent.toNat := sub_toNat (by omega)
  have hoff : acked + b.toNat + (0 : UInt32).toNat =
      acked + fs.txSent.toNat + (b - fs.txSent).toNat := by
    rw [toNat_zero]
    omega
  have hsub' : (fs.txAvail - (b - fs.txSent)).toNat =
      fs.txAvail.toNat - (b - fs.txSent).toNat := sub_toNat (by omega)
  constructor
  · exact h.len_pos
  · exact h.len_lt
  · simp only [hoff, toNat_add]; omega
  · simp only [hoff]
    exact Word.wrap_toNat h.len_pos h.pos (by omega) (by omega)
  · simp only [hoff]; omega
  · simp only [toNat_zero]; omega
  · exact hheld

theorem flowResetRetransmit : TxInv iss (flowResetRetransmit fs) mem committed acked := by
  have hseq := h.seq
  have htotal := h.total
  have hfit := h.fit
  have hlen := h.len_lt
  have hsum : (fs.txAvail + fs.txSent).toNat = fs.txAvail.toNat + fs.txSent.toNat :=
    add_toNat (by omega)
  have hback := Word.unwrap_toNat h.len_pos h.pos (by omega : fs.txSent.toNat ≤ _) (by omega)
  constructor
  · exact h.len_pos
  · exact h.len_lt
  · simp only [Tas.flowResetRetransmit, UInt32.toNat_sub, toNat_zero]
    omega
  · simp only [Tas.flowResetRetransmit, toNat_zero, Nat.add_zero]
    rw [hback, Nat.add_sub_cancel]
  · simp only [Tas.flowResetRetransmit, toNat_zero, hsum]
    omega
  · simp only [Tas.flowResetRetransmit, toNat_zero, hsum]
    omega
  · exact h.held

theorem txTake {len : UInt32}
    (hle : len.toNat ≤ fs.txAvail.toNat) : TxInv iss (txTake fs len) mem committed acked := by
  have hseq := h.seq
  have htotal := h.total
  have hfit := h.fit
  have hlen := h.len_lt
  have hposlt := h.pos_lt
  have hsum : (fs.txSent + len).toNat = fs.txSent.toNat + len.toNat := add_toNat (by omega)
  have hsub := sub_toNat hle
  constructor
  · exact h.len_pos
  · exact h.len_lt
  · simp only [Tas.txTake, toNat_add, hsum]
    omega
  · simp only [Tas.txTake, hsum, ← Nat.add_assoc]
    exact Word.wrap_toNat h.len_pos h.pos (by omega) (by omega)
  · simp only [Tas.txTake, hsum, hsub]
    omega
  · simp only [Tas.txTake, hsum, hsub]
    omega
  · exact h.held

theorem bumpState {b : Bump} (hfits : bumpFits fs b) :
    TxInv iss (bumpState fs b) mem
      (committed ++ Circular.read fs.txLen.toNat mem (committed.length % fs.txLen.toNat)
        (bumpTx fs b).toNat) acked := by
  obtain ⟨h₁, h₂, h₃, -, -⟩ := hfits
  have htotal := h.total
  have hfit := h.fit
  have hlen := h.len_lt
  rw [le_iff_toNat_le] at h₁ h₂ h₃
  have hsum : (fs.txAvail + bumpTx fs b).toNat = fs.txAvail.toNat + (bumpTx fs b).toNat :=
    add_toNat (by omega)
  rw [add_toNat (by omega)] at h₃
  constructor
  · exact h.len_pos
  · exact h.len_lt
  · exact h.seq
  · exact h.pos
  · simp only [Tas.bumpState, List.length_append, Circular.length_read, hsum]
    omega
  · simp only [Tas.bumpState]
    omega
  · rw [List.length_append, Circular.length_read]
    exact Circular.holds_append_read h.held

end

end TxInv

theorem flowTxRead_eq (fs : FlowSt) (mem : ℕ → UInt8) {pos : UInt32} {len : ℕ}
    (hpos : pos.toNat < fs.txLen.toNat) (hlen : len ≤ fs.txLen.toNat) :
    flowTxRead fs mem pos len = Circular.read fs.txLen.toNat mem pos.toNat len := by
  unfold flowTxRead
  split
  · next hfit => exact Circular.read_of_le mem hfit
  next hfit =>
  rw [sub_toNat hpos.le]
  exact Circular.read_split mem hpos (by omega) hlen

/-- A flow, its buffer, the bytes committed and acknowledged, and the segments sent. -/
structure TxWorld where
  fs : FlowSt
  mem : ℕ → UInt8
  committed : List UInt8
  acked : ℕ
  sent : List (ℕ × Segment)

/-- A new connection in a flow slot. -/
def TxWorld.init (old : FlowSt) (a : ConnArgs) (mem : ℕ → UInt8) : TxWorld :=
  { fs := nicifConnectionAdd old a, mem := mem, committed := [], acked := 0, sent := [] }

/-- The stream offset of the next byte to send. -/
def TxWorld.off (w : TxWorld) : ℕ := w.acked + w.fs.txSent.toNat

/-- The operations of the fast path, and a change of the transmit buffer by
the application. -/
inductive TxOp where
  | packet (p : Pkt) (ts : UInt32)
  | bump (b : Bump) (ts : UInt32)
  | qman (core : UInt16) (steering : UInt16 → UInt16) (ts : UInt32)
  | retransmit
  | write (mem : ℕ → UInt8)

/-- One operation. An update tells the bytes acknowledged, and a bump commits what `tx_avail` grows
by. -/
def TxWorld.step (flowId : UInt32) (w : TxWorld) : TxOp → TxWorld
  | .packet p ts =>
    let out := fastFlowsPacket flowId w.fs p ts
    { w with fs := out.fs, acked := w.acked + out.txBump.toNat }
  | .bump b ts =>
    let out := fastFlowsBump flowId w.fs b ts
    { w with
      fs := out.fs
      committed := w.committed ++ Circular.read w.fs.txLen.toNat w.mem
        (w.committed.length % w.fs.txLen.toNat) (out.fs.txAvail - w.fs.txAvail).toNat }
  | .qman core steering ts =>
    let out := fastFlowsQman core steering flowId w.fs w.mem ts
    { w with fs := out.fs, sent := w.sent ++ (out.seg.toList.map fun s => (w.off, s)) }
  | .retransmit => { w with fs := (fastFlowsRetransmit flowId w.fs).fs }
  | .write mem => { w with mem := mem }

/-- The application leaves the bytes alone that it committed and that are not
acknowledged. -/
def TxOk (w : TxWorld) : TxOp → Prop
  | .write mem => ∀ i < w.committed.length, w.acked ≤ i →
      mem (i % w.fs.txLen.toNat) = w.mem (i % w.fs.txLen.toNat)
  | _ => True

/-- A segment sent earlier carries committed bytes, and never the last byte
once transmission is closed. -/
structure SentOk (iss : UInt32) (committed : List UInt8) (txfin : Bool) (off : ℕ)
    (seg : Segment) : Prop where
  seqno : seg.seqno = iss + UInt32.ofNat off
  payload : seg.payload = (committed.drop off).take seg.payload.length
  end_le : off + seg.payload.length + txfin.toNat ≤ committed.length

/-- A segment that the queue manager sends in `w`, taking `taken` sequence numbers. -/
structure SegmentOk (iss : UInt32) (w : TxWorld) (taken : ℕ) (seg : Segment) : Prop where
  sent : SentOk iss w.committed w.fs.txfin w.off seg
  taken_eq : taken = seg.payload.length + seg.fin.toNat
  fin_iff : seg.fin = true ↔ w.fs.txfin = true ∧ w.off + taken = w.committed.length

/-- The invariant of the transmit path along a run. -/
structure TxWorld.Inv (iss : UInt32) (w : TxWorld) : Prop where
  tx : TxInv iss w.fs w.mem w.committed w.acked
  sent : ∀ e ∈ w.sent, SentOk iss w.committed w.fs.txfin e.1 e.2

section Step

variable {iss flowId : UInt32} {w : TxWorld}

theorem SentOk.append {committed more : List UInt8} {txfin txfin' : Bool} {off : ℕ} {seg : Segment}
    (h : SentOk iss committed txfin off seg) (hmore : txfin'.toNat ≤ txfin.toNat + more.length) :
    SentOk iss (committed ++ more) txfin' off seg := by
  have hend := h.end_le
  refine ⟨h.seqno, ?_, by rw [List.length_append]; omega⟩
  rw [List.drop_append_of_le_length (by omega), List.take_append_of_le_length
    (by rw [List.length_drop]; omega)]
  exact h.payload

theorem segLen_le (avail : UInt32) : (segLen avail).toNat ≤ avail.toNat := by
  simp only [segLen, UInt32.lt_iff_toNat_lt]
  split
  · omega
  · exact le_rfl

theorem segLen_pos {avail : UInt32} (h : avail ≠ 0) : 0 < (segLen avail).toNat := by
  have hpos : avail.toNat ≠ 0 := by
    intro hcon
    exact h (by rw [← toNat_inj, hcon]; rfl)
  simp only [segLen]
  split
  · decide
  · omega

theorem TxWorld.payload_eq (len n : UInt32) (h : TxInv iss w.fs w.mem w.committed w.acked)
    (hn : n.toNat ≤ w.fs.txAvail.toNat) :
    (if n > 0 then flowTxRead (txTake w.fs len) w.mem w.fs.txNextPos n.toNat else []) =
        (w.committed.drop w.off).take n.toNat ∧
      ((w.committed.drop w.off).take n.toNat).length = n.toNat := by
  have htotal := h.total
  have hfit := h.fit
  have hheld : Holds w.committed w.fs.txLen.toNat w.mem w.off (w.off + n.toNat) :=
    h.held.mono (Nat.le_add_right _ _) (by simp only [off]; omega)
  refine ⟨?_, by rw [List.length_take, List.length_drop]; simp only [off]; omega⟩
  split
  · rw [← hheld.read_eq, off, ← h.pos]
    exact flowTxRead_eq (txTake w.fs len) w.mem h.pos_lt (by simp only [txTake]; omega)
  next hz =>
  have hz' : n.toNat = 0 := by
    rw [gt_iff_lt, UInt32.lt_iff_toNat_lt, toNat_zero] at hz
    omega
  simp [hz']

theorem TxWorld.segmentOk (ts : UInt32) (h : TxInv iss w.fs w.mem w.committed w.acked)
    (havail : tcpTxavail w.fs ≠ 0) :
    ∃ seg, (qmanSend w.fs w.mem ts).seg = some seg ∧
      SegmentOk iss w (segLen (tcpTxavail w.fs)).toNat seg := by
  have hle : (segLen (tcpTxavail w.fs)).toNat ≤ w.fs.txAvail.toNat :=
    (segLen_le _).trans (tcpTxavailOf_le _ _)
  have hpos := segLen_pos havail
  have htotal := h.total
  have hsub := sub_toNat hle
  refine ⟨_, rfl, ?_⟩
  generalize segLen (tcpTxavail w.fs) = len at hle hpos hsub
  have hone : (len - 1).toNat = len.toNat - 1 := sub_toNat (by rw [UInt32.toNat_one]; omega)
  have hlast :
      ((txTake w.fs len).txAvail == 0) = true ↔ w.off + len.toNat = w.committed.length := by
    rw [beq_iff_eq, ← toNat_inj]
    simp only [txTake, hsub, toNat_zero, off]
    omega
  have hseq : w.fs.txNextSeq = iss + UInt32.ofNat w.off := by
    rw [← toNat_inj, h.seq, toNat_add, toNat_ofNat']
    simp only [off]
    omega
  have hfinEq : (txTake w.fs len).txfin = w.fs.txfin := rfl
  cases hfin : ((txTake w.fs len).txfin && (txTake w.fs len).txAvail == 0) with
  | true =>
    rw [Bool.and_eq_true, hlast, hfinEq] at hfin
    obtain ⟨hpay, hcount⟩ := payload_eq len (len - 1) h (by omega)
    refine ⟨⟨hseq, ?_, ?_⟩, ?_, ?_⟩
    · simp only [flowTxSegment, if_true, hpay, hcount]
    · simp only [flowTxSegment, if_true, hpay, hcount, hfin.1, Bool.toNat_true]
      omega
    · simp only [flowTxSegment, if_true, hpay, hcount, Bool.toNat_true]
      omega
    · simp only [flowTxSegment, true_iff]
      exact hfin
  | false =>
    have hnot : ¬ (w.fs.txfin = true ∧ w.off + len.toNat = w.committed.length) := by
      rw [← hlast, ← hfinEq, ← Bool.and_eq_true, hfin]
      exact Bool.false_ne_true
    obtain ⟨hpay, hcount⟩ := payload_eq len len h hle
    have hend : w.off + len.toNat + w.fs.txfin.toNat ≤ w.committed.length := by
      have hoff : w.off + w.fs.txAvail.toNat = w.committed.length := htotal
      cases htx : w.fs.txfin with
      | false =>
        rw [Bool.toNat_false]
        omega
      | true =>
        have hne : w.off + len.toNat ≠ w.committed.length := fun hcon => hnot ⟨htx, hcon⟩
        rw [Bool.toNat_true]
        omega
    refine ⟨⟨hseq, ?_, ?_⟩, ?_, ?_⟩
    · simp only [flowTxSegment, Bool.false_eq_true, if_false, hpay, hcount]
    · simp only [flowTxSegment, Bool.false_eq_true, if_false, hpay, hcount]
      exact hend
    · simp only [flowTxSegment, Bool.false_eq_true, if_false, hpay, hcount, Bool.toNat_false,
        Nat.add_zero]
    · simp only [flowTxSegment, Bool.false_eq_true, false_iff]
      exact hnot

variable (h : w.Inv iss)
include h

theorem TxWorld.Inv.packet {p : Pkt} {ts : UInt32} : (w.step flowId (.packet p ts)).Inv iss := by
  have hfit := h.tx.fit
  have hlen := h.tx.len_lt
  rcases fastFlowsPacket_tx flowId w.fs p ts with ⟨-, -, hb, hview⟩ | ⟨-, b, hvalid, hb, hview⟩
  · have hfin : (fastFlowsPacket flowId w.fs p ts).fs.txfin = w.fs.txfin :=
      congrArg TxView.txfin hview
    refine ⟨?_, ?_⟩
    · simp only [TxWorld.step, hb]
      exact h.tx.flowResetRetransmit.of_view hview
    · simp only [TxWorld.step, hfin]
      exact h.sent
  have hle : b.toNat ≤ w.fs.txSent.toNat + w.fs.txAvail.toNat := by
    rcases hvalid with rfl | hvalid
    · simp
    · exact tcpValidRxack_le (by omega) hvalid
  have hadv := h.tx.ackAdvance hle
  have hadvFin : (ackAdvance w.fs b).txfin = w.fs.txfin := by
    unfold ackAdvance
    split <;> rfl
  have hnew : TxInv iss (fastFlowsPacket flowId w.fs p ts).fs w.mem w.committed
      (w.acked + b.toNat) ∧ (fastFlowsPacket flowId w.fs p ts).fs.txfin = w.fs.txfin := by
    split at hview
    · have hwin : TxInv iss (windowUpdate (ackAdvance w.fs b) p) w.mem w.committed
          (w.acked + b.toNat) := hadv.congr rfl rfl rfl rfl rfl
      exact ⟨hwin.of_view hview, (congrArg TxView.txfin hview).trans hadvFin⟩
    · exact ⟨hadv.of_view hview, (congrArg TxView.txfin hview).trans hadvFin⟩
  refine ⟨?_, ?_⟩
  · simp only [TxWorld.step, hb]
    exact hnew.1
  · simp only [TxWorld.step, hnew.2]
    exact h.sent

theorem TxWorld.Inv.bump {b : Bump} {ts : UInt32} : (w.step flowId (.bump b ts)).Inv iss := by
  rcases fastFlowsBump_cases flowId w.fs b ts with ⟨s, hout⟩ | ⟨hfits, hclose, hout⟩
  · have hnone : Circular.read w.fs.txLen.toNat w.mem (w.committed.length % w.fs.txLen.toNat)
        (w.fs.txAvail - w.fs.txAvail).toNat = [] := by
      simp [Circular.read]
    simp only [TxWorld.step, hout, hnone, List.append_nil]
    exact ⟨h.tx.of_view rfl, h.sent⟩
  have htake : (bumpState w.fs b).txAvail - w.fs.txAvail = bumpTx w.fs b := by
    simp [bumpState]
  simp only [TxWorld.step, hout, bumpAccept, htake]
  refine ⟨h.tx.bumpState hfits, ?_⟩
  intro e he
  apply (h.sent e he).append
  rw [Circular.length_read]
  simp only [bumpState]
  cases hfin : w.fs.txfin with
  | true => simp
  | false =>
    cases hdone : b.txDone with
    | false => simp
    | true =>
      have hne : b.txBump.toNat ≠ 0 := by
        intro hcon
        exact hclose hfin hdone (by rw [← toNat_inj, hcon]; rfl)
      simp only [bumpTx, hfin, Bool.false_or, Bool.toNat_true, Bool.toNat_false]
      simp only [Bool.false_eq_true, if_false]
      omega

theorem TxWorld.Inv.qman {core : UInt16} {steering : UInt16 → UInt16} {ts : UInt32}
    : (w.step flowId (.qman core steering ts)).Inv iss := by
  simp only [TxWorld.step, fastFlowsQman]
  split
  · simpa using h
  split
  · simpa using h
  next havail =>
  obtain ⟨seg, hseg, hok⟩ := segmentOk ts h.tx havail
  have hle : (segLen (tcpTxavail w.fs)).toNat ≤ w.fs.txAvail.toNat :=
    (segLen_le _).trans (tcpTxavailOf_le _ _)
  rw [hseg]
  refine ⟨h.tx.txTake hle, ?_⟩
  intro e he
  rw [List.mem_append] at he
  rcases he with he | he
  · exact h.sent e he
  · simp only [Option.toList_some, List.map_cons, List.map_nil, List.mem_singleton] at he
    subst he
    exact hok.sent

theorem TxWorld.Inv.retransmit : (w.step flowId .retransmit).Inv iss := by
  simp only [TxWorld.step, fastFlowsRetransmit]
  split
  · exact h
  · exact ⟨h.tx.flowResetRetransmit, h.sent⟩

theorem TxWorld.Inv.step {op : TxOp} (hok : TxOk w op) : (w.step flowId op).Inv iss := by
  cases op with
  | packet p ts => exact h.packet
  | bump b ts => exact h.bump
  | qman core steering ts => exact h.qman
  | retransmit => exact h.retransmit
  | write mem =>
    refine ⟨{ h.tx with held := ?_ }, h.sent⟩
    intro i hi hi'
    exact (h.tx.held i hi hi').trans (congrArg some (hok i hi' hi).symm)

end Step

open TxWorld (init off segmentOk step)

/-- The counters of the transmit path agree with the unwrapped sending offset. -/
structure TxWorld.Consistent (iss : UInt32) (w : TxWorld) : Prop where
  pos_lt : w.fs.txNextPos < w.fs.txLen
  seq_eq : w.fs.txNextSeq = iss + UInt32.ofNat w.off
  pos_eq : w.fs.txNextPos.toNat = w.off % w.fs.txLen.toNat
  fit : w.fs.txAvail.toNat + w.fs.txSent.toNat ≤ w.fs.txLen.toNat

theorem TxWorld.Inv.consistent {iss : UInt32} {w : TxWorld} (h : w.Inv iss) : w.Consistent iss := by
  refine ⟨UInt32.lt_iff_toNat_lt.mpr h.tx.pos_lt, ?_, h.tx.pos, h.tx.fit⟩
  rw [← toNat_inj, h.tx.seq, toNat_add, toNat_ofNat']
  simp only [off]
  omega

theorem TxWorld.inv_init (old : FlowSt) (a : ConnArgs) (mem : ℕ → UInt8)
    (hpos : 0 < a.txLen.toNat) (hlt : a.txLen.toNat < 2 ^ 31) :
    (init old a mem).Inv a.localSeq := by
  have hseq := a.localSeq.toNat_lt
  refine ⟨?_, by simp [init]⟩
  constructor
  · exact hpos
  · exact hlt
  · simp only [init, nicifConnectionAdd, toNat_zero]
    omega
  · simp [init, nicifConnectionAdd]
  · simp [init, nicifConnectionAdd]
  · simp [init, nicifConnectionAdd]
  · exact Holds.empty _ _ _ _

/-- Every segment carries the bytes committed at its offset, and the `FIN` follows the last byte. -/
theorem transmit_sends_committed (old : FlowSt) (a : ConnArgs) (mem : ℕ → UInt8) (flowId : UInt32)
    (ops : List TxOp) (hlen : 0 < a.txLen.toNat ∧ a.txLen.toNat < 2 ^ 31)
    (hrun : Run.Admissible (step flowId) TxOk (init old a mem) ops) :
    let w := ops.foldl (step flowId) (init old a mem)
    w.Consistent a.localSeq ∧
      (∀ e ∈ w.sent, SentOk a.localSeq w.committed w.fs.txfin e.1 e.2) ∧
      ∀ core steering ts seg,
        (fastFlowsQman core steering flowId w.fs w.mem ts).seg = some seg →
          SegmentOk a.localSeq w ((fastFlowsQman core steering flowId w.fs w.mem ts).fs.txNextSeq -
            w.fs.txNextSeq).toNat seg := by
  intro w
  have hinv : w.Inv a.localSeq :=
    hrun.invariant (TxWorld.inv_init old a mem hlen.1 hlen.2) fun _ _ h hok => h.step hok
  refine ⟨hinv.consistent, hinv.sent, ?_⟩
  intro core steering ts seg hseg
  unfold fastFlowsQman at hseg ⊢
  split at hseg
  · cases hseg
  next hcore =>
  split at hseg
  · cases hseg
  next havail =>
  obtain ⟨seg', hseg', hok⟩ := segmentOk ts hinv.tx havail
  rw [hseg', Option.some.injEq] at hseg
  subst hseg
  rw [if_neg hcore, if_neg havail]
  have htaken : (qmanSend w.fs w.mem ts).fs.txNextSeq - w.fs.txNextSeq =
      segLen (tcpTxavail w.fs) := by
    simp [qmanSend, txTake]
  rw [htaken]
  exact hok

def ackPkt (ack : UInt32) (wnd : UInt16) : Pkt where
  seqno := 0
  ackno := ack
  flags := { ack := true }
  wnd := wnd
  ecnCe := false
  tsVal := 0
  tsEcr := 0
  payloadBytes := 0
  payload := []
  payload_length := by decide

/-- Two bytes and the closing dummy byte are sent, one is acknowledged, and a timeout sends again.
-/
def closeAndResend : List TxOp :=
  [.write fun i => if i = 0 then 7 else 9, .bump ⟨0, 0, 3, true⟩ 0, .qman 0 (fun _ => 0) 0,
   .packet (ackPkt 1 4) 0, .retransmit, .qman 0 (fun _ => 0) 0]

theorem transmit_sends_committed_closeAndResend :
    let w := closeAndResend.foldl (step 0)
      (init default (fourByteConn 0) fun _ => 0)
    w.Consistent 0 ∧ (∀ e ∈ w.sent, SentOk 0 w.committed w.fs.txfin e.1 e.2) ∧
      w.sent.map (fun e => (e.1, e.2.payload, e.2.fin)) = [(0, [7, 9], true), (1, [9], true)] := by
  intro w
  have hrun : Run.Admissible (step 0) TxOk
      (init default (fourByteConn 0) fun _ => 0) closeAndResend := by
    refine ⟨?_, trivial, trivial, trivial, trivial, trivial, trivial⟩
    intro i hi
    exact absurd hi (Nat.not_lt_zero i)
  obtain ⟨hcons, hsent, -⟩ :=
    transmit_sends_committed default (fourByteConn 0) (fun _ => 0) 0 closeAndResend (by decide) hrun
  exact ⟨hcons, hsent, by decide⟩

/-- The flow state after a list of operations. -/
def FlowSt.runs (flowId : UInt32) (fs : FlowSt) (ops : List FlowOp) : FlowSt :=
  ops.foldl (fun fs op => (op.run flowId fs).fs) fs

def threeFullBuffers : List FlowOp :=
  [.bump ⟨0, 0, 0x7FFFFFFF, false⟩ 0, .packet (ackPkt 0x7FFFFFFF 4) 0,
   .bump ⟨0, 0, 0x7FFFFFFF, false⟩ 0, .packet (ackPkt 0xFFFFFFFE 4) 0,
   .bump ⟨0, 0, 0x7FFFFFFF, false⟩ 0, .packet (ackPkt 0x7FFFFFFD 4) 0]

/-- Behind `2 ^ 32` bytes the sequence number no longer tells the position. -/
theorem txNextPos_ne_wrapped_offset :
    let fs := FlowSt.runs 0
      (nicifConnectionAdd default { fourByteConn 0 with txLen := 0x7FFFFFFF }) threeFullBuffers
    fs.txLen = 0x7FFFFFFF ∧ fs.txNextPos = 0 ∧
      fs.txNextPos.toNat ≠ (fs.txNextSeq - 0).toNat % fs.txLen.toNat := by
  decide

end StackBench.Tas

import StackBench.Tas.Parse
import StackBench.Tas.Receive
import StackBench.Tas.Transmit

/-!
# The peer's window in the TAS fast path

`rx_remote_avail` keeps the negotiated scale in its high byte and a window in
its low 24 bits. The field is followed along runs, and with it how far the
queue manager sends.
-/

namespace StackBench.Tas

def FlowSt.windowValue (fs : FlowSt) : ℕ := fs.rxRemoteAvail.toNat % 2 ^ 24

def FlowSt.windowScale (fs : FlowSt) : ℕ := fs.rxRemoteAvail.toNat / 2 ^ 24

variable (fs : FlowSt)

theorem windowShift_toNat : (fs.rxRemoteAvail >>> 24).toNat = fs.windowScale := by
  exact Nat.shiftRight_eq_div_pow _ _

theorem remoteWindow_toNat :
    (remoteWindow fs).toNat = fs.windowValue * 2 ^ (fs.windowScale % 32) % 2 ^ 32 := by
  rw [remoteWindow, UInt32.toNat_shiftLeft, windowShift_toNat, Word.low_toNat, Nat.shiftLeft_eq]
  rfl

/-- A scaled window that fits the word is exact. -/
theorem remoteWindow_eq (h : fs.windowValue * 2 ^ fs.windowScale < 2 ^ 32) :
    (remoteWindow fs).toNat = fs.windowValue * 2 ^ fs.windowScale := by
  rw [remoteWindow_toNat]
  rcases Nat.eq_zero_or_pos fs.windowValue with hzero | hpos
  · rw [hzero, Nat.zero_mul, Nat.zero_mul]
    rfl
  have hscale : fs.windowScale < 32 := by
    by_contra hge
    have hpow := Nat.pow_le_pow_right (show 0 < 2 by decide) (not_lt.mp hge)
    have hmul := Nat.le_mul_of_pos_left (2 ^ fs.windowScale) hpos
    omega
  rw [Nat.mod_eq_of_lt hscale, Nat.mod_eq_of_lt h]

theorem windowUpdate_field (p : Pkt) :
    (windowUpdate fs p).rxRemoteAvail.toNat = 2 ^ 24 * fs.windowScale + p.wnd.toNat := by
  have hwnd : p.wnd.toUInt32.toNat < 2 ^ 24 := by
    exact p.wnd.toNat_lt.trans (by decide)
  rw [windowUpdate, Word.pack_toNat (Word.high_toNat _) hwnd, UInt16.toNat_toUInt32]
  rfl

theorem nicifConnectionAdd_field (old : FlowSt) (a : ConnArgs) (h : a.rxLen.toNat < 2 ^ 24) :
    (nicifConnectionAdd old a).rxRemoteAvail.toNat = 2 ^ 24 * a.wscale.toNat + a.rxLen.toNat := by
  have hscale := a.wscale.toNat_lt
  have hhigh : (a.wscale.toUInt32 <<< 24).toNat = 2 ^ 24 * a.wscale.toNat := by
    change a.wscale.toNat <<< 24 % 2 ^ 32 = _
    omega
  exact Word.pack_toNat hhigh h

theorem flowResetRetransmit_field {fs : FlowSt} (h : fs.windowValue + fs.txSent.toNat < 2 ^ 24) :
    (flowResetRetransmit fs).rxRemoteAvail.toNat =
      2 ^ 24 * fs.windowScale + (fs.windowValue + fs.txSent.toNat) := by
  have hlt := fs.rxRemoteAvail.toNat_lt
  simp only [FlowSt.windowValue, FlowSt.windowScale] at h ⊢
  simp only [flowResetRetransmit]
  rw [Word.add_toNat (by omega)]
  omega

theorem windowScale_of_field {fs : FlowSt} {scale value : ℕ} (hvalue : value < 2 ^ 24)
    (h : fs.rxRemoteAvail.toNat = 2 ^ 24 * scale + value) :
    fs.windowScale = scale ∧ fs.windowValue = value := by
  simp only [FlowSt.windowScale, FlowSt.windowValue, h]
  omega

theorem ackAdvance_window (b : UInt32) : (ackAdvance fs b).rxRemoteAvail = fs.rxRemoteAvail ∧
      (ackAdvance fs b).txSent.toNat = fs.txSent.toNat - b.toNat := by
  unfold ackAdvance
  split
  · next hle => exact ⟨rfl, Word.sub_toNat hle⟩
  · next hgt =>
    rw [UInt32.le_iff_toNat_le] at hgt
    exact ⟨rfl, (Nat.sub_eq_zero_of_le (by omega)).symm⟩

theorem fastFlowsBump_window (flowId : UInt32) (fs : FlowSt) (b : Bump) (ts : UInt32) :
    (fastFlowsBump flowId fs b ts).fs.rxRemoteAvail = fs.rxRemoteAvail ∧
      (fastFlowsBump flowId fs b ts).fs.txSent = fs.txSent := by
  rcases fastFlowsBump_cases flowId fs b ts with ⟨s, hout⟩ | ⟨-, -, hout⟩
  · rw [hout]
    exact ⟨rfl, rfl⟩
  · rw [hout]
    exact ⟨rfl, rfl⟩

theorem fastFlowsQman_window (core : UInt16) (steering : UInt16 → UInt16) (flowId : UInt32)
    (fs : FlowSt) (txBuf : ℕ → UInt8) (ts : UInt32) :
    (fastFlowsQman core steering flowId fs txBuf ts).fs.rxRemoteAvail = fs.rxRemoteAvail ∧
      (((fastFlowsQman core steering flowId fs txBuf ts).seg = none ∧
          (fastFlowsQman core steering flowId fs txBuf ts).fs.txSent = fs.txSent) ∨
        (fastFlowsQman core steering flowId fs txBuf ts).fs.txSent =
          fs.txSent + segLen (tcpTxavail fs)) := by
  unfold fastFlowsQman
  split
  · exact ⟨rfl, Or.inl ⟨rfl, rfl⟩⟩
  split
  · exact ⟨rfl, Or.inl ⟨rfl, rfl⟩⟩
  exact ⟨rfl, Or.inr rfl⟩

/-- A segment takes no more than a maximal one, what is committed, and what the window leaves. -/
theorem segLen_txavail_le : (segLen (tcpTxavail fs)).toNat ≤ min fs.txAvail.toNat tcpMss.toNat ∧
    (segLen (tcpTxavail fs)).toNat ≤ (remoteWindow fs - fs.txSent).toNat := by
  simp only [segLen, tcpTxavail, tcpTxavailOf, UInt32.lt_iff_toNat_lt]
  split <;> split at * <;> omega

theorem fastFlowsRetransmit_window (flowId : UInt32) (fs : FlowSt) :
    (fastFlowsRetransmit flowId fs).fs.rxRemoteAvail = (flowResetRetransmit fs).rxRemoteAvail ∧
      (fastFlowsRetransmit flowId fs).fs.txSent = 0 := by
  unfold fastFlowsRetransmit
  split
  · next hzero => exact ⟨by simp [flowResetRetransmit, hzero], hzero⟩
  · exact ⟨rfl, rfl⟩

/-- A flow, the window applied last, and the value meant to stand in the field. -/
structure WinWorld where
  fs : FlowSt
  wnd : Option UInt16
  value : ℕ

/-- A new connection takes its own buffer length for the peer's window. -/
def WinWorld.init (old : FlowSt) (a : ConnArgs) : WinWorld :=
  { fs := nicifConnectionAdd old a, wnd := none, value := a.rxLen.toNat }

/-- The operation resets the flow to the last byte acknowledged. -/
def FlowOp.resets (fs : FlowSt) : FlowOp → Bool
  | .packet p _ => packetReset fs p
  | .retransmit => true
  | _ => false

/-- The window that the operation applies. -/
def FlowOp.applied (fs : FlowSt) : FlowOp → Option UInt16
  | .packet p _ => if windowApplied fs p then some p.wnd else none
  | _ => none

def WinWorld.step (flowId : UInt32) (w : WinWorld) (op : FlowOp) : WinWorld :=
  { fs := (op.run flowId w.fs).fs
    wnd := (op.applied w.fs).or w.wnd
    value := match op.applied w.fs with
      | some v => v.toNat
      | none => if op.resets w.fs then w.value + w.fs.txSent.toNat else w.value }

open WinWorld (init step)

/-- The field packs the negotiated scale and the value meant. -/
structure WinWorld.Packed (scale : ℕ) (w : WinWorld) : Prop where
  field : w.fs.rxRemoteAvail.toNat = 2 ^ 24 * scale + w.value
  value_lt : w.value < 2 ^ 24

section Step

variable {flowId : UInt32} {scale : ℕ} {w : WinWorld} {op : FlowOp}

theorem FlowOp.run_window (flowId : UInt32) (fs : FlowSt) (op : FlowOp) :
    (∃ v, op.applied fs = some v ∧
        (op.run flowId fs).fs.rxRemoteAvail.toNat = 2 ^ 24 * fs.windowScale + v.toNat) ∨
      (op.applied fs = none ∧ op.resets fs = true ∧
        (op.run flowId fs).fs.rxRemoteAvail = (flowResetRetransmit fs).rxRemoteAvail ∧
        (op.run flowId fs).fs.txSent = 0) ∨
      (op.applied fs = none ∧ op.resets fs = false ∧
        (op.run flowId fs).fs.rxRemoteAvail = fs.rxRemoteAvail ∧
        ((op.run flowId fs).fs.txSent.toNat ≤ fs.txSent.toNat ∨
          ∃ core steering txBuf ts, op = .qman core steering txBuf ts ∧
            (op.run flowId fs).fs.txSent = fs.txSent + segLen (tcpTxavail fs))) := by
  cases op with
  | packet p ts =>
    simp only [applied, resets, run]
    rcases fastFlowsPacket_tx flowId fs p ts with
      ⟨hreset, happ, -, hview⟩ | ⟨hreset, b, -, -, hview⟩
    · refine Or.inr (Or.inl ⟨by simp [happ], hreset, ?_, ?_⟩)
      · exact congrArg TxView.rxRemoteAvail hview
      · exact congrArg TxView.txSent hview
    obtain ⟨hfield, hsent⟩ := ackAdvance_window fs b
    cases happ : windowApplied fs p with
    | true =>
      rw [happ, if_pos rfl] at hview
      refine Or.inl ⟨p.wnd, rfl, ?_⟩
      have hnew : (fastFlowsPacket flowId fs p ts).fs.rxRemoteAvail =
          (windowUpdate (ackAdvance fs b) p).rxRemoteAvail :=
        congrArg TxView.rxRemoteAvail hview
      rw [hnew, windowUpdate_field]
      simp only [FlowSt.windowScale, hfield]
    | false =>
      rw [happ, if_neg Bool.false_ne_true] at hview
      refine Or.inr (Or.inr ⟨rfl, hreset, ?_, Or.inl ?_⟩)
      · exact (congrArg TxView.rxRemoteAvail hview).trans hfield
      · have hnew : (fastFlowsPacket flowId fs p ts).fs.txSent = (ackAdvance fs b).txSent :=
          congrArg TxView.txSent hview
        rw [hnew, hsent]
        exact Nat.sub_le _ _
  | bump b ts =>
    obtain ⟨hfield, hsent⟩ := fastFlowsBump_window flowId fs b ts
    exact Or.inr (Or.inr ⟨rfl, rfl, hfield, Or.inl (by rw [run, hsent])⟩)
  | qman core steering txBuf ts =>
    obtain ⟨hfield, hsent⟩ := fastFlowsQman_window core steering flowId fs txBuf ts
    refine Or.inr (Or.inr ⟨rfl, rfl, hfield, ?_⟩)
    rcases hsent with ⟨-, hsent⟩ | hsent
    · exact Or.inl (by rw [run, hsent])
    · exact Or.inr ⟨core, steering, txBuf, ts, rfl, hsent⟩
  | retransmit =>
    obtain ⟨hfield, hsent⟩ := fastFlowsRetransmit_window flowId fs
    exact Or.inr (Or.inl ⟨rfl, rfl, hfield, hsent⟩)

variable (h : w.Packed scale)
include h

theorem WinWorld.Packed.scale_eq : w.fs.windowScale = scale :=
  (windowScale_of_field h.value_lt h.field).1

theorem WinWorld.Packed.value_eq : w.fs.windowValue = w.value :=
  (windowScale_of_field h.value_lt h.field).2

theorem WinWorld.Packed.step
    (hcarry : op.resets w.fs = true → w.value + w.fs.txSent.toNat < 2 ^ 24) :
    (w.step flowId op).Packed scale := by
  rcases FlowOp.run_window flowId w.fs op with
    ⟨v, happ, hfield⟩ | ⟨happ, hreset, hfield, -⟩ | ⟨happ, hreset, hfield, -⟩
  · refine ⟨?_, ?_⟩
    · simp only [WinWorld.step, happ, hfield, h.scale_eq]
    · simp only [WinWorld.step, happ]
      exact v.toNat_lt.trans (by decide)
  · have hlt := hcarry hreset
    refine ⟨?_, ?_⟩
    · simp only [WinWorld.step, happ, hreset, if_true, hfield]
      rw [flowResetRetransmit_field (by rw [h.value_eq]; exact hlt), h.scale_eq, h.value_eq]
    · simp only [WinWorld.step, happ, hreset, if_true]
      exact hlt
  · refine ⟨?_, ?_⟩
    · simp only [WinWorld.step, happ, hreset, hfield, Bool.false_eq_true, if_false]
      exact h.field
    · simp only [WinWorld.step, happ, hreset, Bool.false_eq_true, if_false]
      exact h.value_lt

end Step

theorem WinWorld.packed_init (old : FlowSt) (a : ConnArgs) (h : a.rxLen.toNat < 2 ^ 24) :
    (init old a).Packed a.wscale.toNat :=
  ⟨nicifConnectionAdd_field old a h, h⟩

/-- The field holds a window value under the negotiated scale, and scaling it
loses no bits. -/
structure WinWorld.Lossless (scale : ℕ) (w : WinWorld) : Prop where
  packed : w.Packed scale
  shift_lt : (w.fs.rxRemoteAvail >>> 24).toNat < 32
  scaled : (remoteWindow w.fs).toNat = w.value * 2 ^ scale

/-- A value that fits the low 24 bits and, scaled, the word. -/
def WindowFits (scale value : ℕ) : Prop := value < 2 ^ 24 ∧ value * 2 ^ scale < 2 ^ 32
deriving Decidable

/-- Windows that are applied, and values that a reset makes, fit. -/
def WindowsFit (scale : ℕ) (w : WinWorld) (op : FlowOp) : Prop :=
  (∀ v ∈ op.applied w.fs, WindowFits scale v.toNat) ∧
    (op.resets w.fs = true → WindowFits scale (w.value + w.fs.txSent.toNat))
deriving Decidable

/-- The part of `WinWorld.Lossless` that a run keeps. -/
structure WinWorld.Fitting (scale : ℕ) (w : WinWorld) : Prop where
  packed : w.Packed scale
  scaled_lt : w.value * 2 ^ scale < 2 ^ 32

theorem WinWorld.Fitting.step {flowId : UInt32} {scale : ℕ} {w : WinWorld} {op : FlowOp}
    (h : w.Fitting scale) (hok : WindowsFit scale w op) : (w.step flowId op).Fitting scale := by
  obtain ⟨happ, hreset⟩ := hok
  refine ⟨h.packed.step fun hr => (hreset hr).1, ?_⟩
  simp only [WinWorld.step]
  split
  · next v hv => exact (happ v hv).2
  · split
    · next hr => exact (hreset hr).2
    · exact h.scaled_lt

/-- If only fitting windows are applied, the field holds scale and value, and the window is exact.
-/
theorem window_field_lossless (old : FlowSt) (a : ConnArgs) (flowId : UInt32) (ops : List FlowOp)
    (hscale : a.wscale.toNat < 32) (hinit : WindowFits a.wscale.toNat a.rxLen.toNat)
    (hrun : Run.Admissible (step flowId) (WindowsFit a.wscale.toNat)
      (init old a) ops) :
    (ops.foldl (step flowId) (init old a)).Lossless a.wscale.toNat := by
  have hstart : (init old a).Fitting a.wscale.toNat :=
    ⟨WinWorld.packed_init old a hinit.1, hinit.2⟩
  have hinv := hrun.invariant hstart fun _ _ h hok => h.step hok
  refine ⟨hinv.packed, ?_, ?_⟩
  · rw [windowShift_toNat, hinv.packed.scale_eq]
    exact hscale
  · have hexact := remoteWindow_eq (ops.foldl (step flowId) (init old a)).fs
    rw [hinv.packed.scale_eq, hinv.packed.value_eq] at hexact
    exact hexact hinv.scaled_lt

/-- A byte is sent and the timeout runs, with the scale seven. -/
theorem window_field_lossless_timeout :
    let a := { fourByteConn 0 with wscale := 7 }
    let ops := [.bump ⟨0, 0, 1, false⟩ 0, .qman 0 (fun _ => 0) (fun _ => 0) 0, .retransmit,
      .packet (ackPkt 0 9) 0]
    WinWorld.Lossless 7 (ops.foldl (step 0) (init default a)) :=
  window_field_lossless default { fourByteConn 0 with wscale := 7 } 0 _ (by decide) (by decide)
    (by decide)

/-- The bytes that the packet acknowledges. -/
def Pkt.acknowledged (fs : FlowSt) (p : Pkt) : UInt32 :=
  (if p.flags.ack then tcpValidRxack fs p.ackno else none).getD 0

/-- A window that is applied covers the bytes in flight that its packet does not acknowledge. A
reset does not carry, and what is sent between it and the next window is within the last one. -/
def WindowKept (scale : ℕ) (w : WinWorld) : FlowOp → Prop
  | .packet p _ =>
    (windowApplied w.fs p = true →
        w.fs.txSent.toNat - (p.acknowledged w.fs).toNat ≤ p.wnd.toNat * 2 ^ scale) ∧
      (packetReset w.fs p = true → w.value + w.fs.txSent.toNat < 2 ^ 24)
  | .bump _ _ => True
  | .qman _ _ _ _ => ∀ v ∈ w.wnd, w.value = v.toNat ∨
    w.fs.txSent.toNat + min w.fs.txAvail.toNat tcpMss.toNat ≤ v.toNat * 2 ^ scale
  | .retransmit => w.value + w.fs.txSent.toNat < 2 ^ 24

instance (scale : ℕ) (w : WinWorld) : DecidablePred (WindowKept scale w)
  | .packet .. | .bump .. | .qman .. | .retransmit => by dsimp only [WindowKept]; infer_instance

/-- The bytes in flight are within the window applied last. -/
structure WinWorld.Within (scale : ℕ) (w : WinWorld) : Prop where
  packed : w.Packed scale
  sent_le : ∀ v ∈ w.wnd, w.fs.txSent.toNat ≤ v.toNat * 2 ^ scale

section Within

variable {flowId : UInt32} {scale : ℕ} {w : WinWorld} {op : FlowOp} {p : Pkt}

theorem packetAck_txSent {fs : FlowSt} (h : (packetAck fs p).2.2 = false) :
    (packetAck fs p).1.txSent.toNat = fs.txSent.toNat - (p.acknowledged fs).toNat := by
  have hacked : ∀ o, (if p.flags.ack then tcpValidRxack (countAck fs p) p.ackno else none) = o →
      p.acknowledged fs = o.getD 0 := by
    rintro _ rfl
    rfl
  revert h
  unfold packetAck
  dsimp only
  split
  · next hnone =>
    intro _
    rw [hacked none hnone]
    rfl
  next b hb =>
  have hsent := (ackAdvance_window (countAckBytes (countAck fs p) p b) b).2
  rw [hacked (some b) hb]
  split
  · exact fun _ => hsent
  split
  · split
    · exact nofun
    · exact fun _ => hsent
  · exact fun _ => hsent

theorem fastFlowsPacket_txSent {fs : FlowSt} (happ : windowApplied fs p = true)
    (flowId ts : UInt32) : (fastFlowsPacket flowId fs p ts).fs.txSent.toNat =
      fs.txSent.toNat - (p.acknowledged fs).toNat := by
  have hkept : (!fs.slowpath && !p.flags.weird) = true ∧ (packetAck fs p).2.2 = false := by
    simp only [windowApplied, Bool.and_eq_true, Bool.not_eq_true'] at happ ⊢
    exact happ.1
  rcases fastFlowsPacket_cases flowId fs p ts with ⟨slow, hslow, -⟩ | ⟨hfast, hout⟩
  · cases hkept.1.symm.trans hslow
  have hview := packetBody_txView fs p ts hfast
  rw [happ, if_pos rfl] at hview
  have hsent : (fastFlowsPacket flowId fs p ts).fs.txSent = (packetAck fs p).1.txSent := by
    rw [hout]
    exact congrArg TxView.txSent hview
  rw [hsent, packetAck_txSent hkept.2]

/-- What the queue manager sends stays within a window that the field holds, and within one that
has room for a segment. -/
theorem WinWorld.Within.sent_segLen (h : w.Within scale) {v : UInt16} (hv : v ∈ w.wnd)
    (hok : w.value = v.toNat ∨
      w.fs.txSent.toNat + min w.fs.txAvail.toNat tcpMss.toNat ≤ v.toNat * 2 ^ scale) :
    (w.fs.txSent + segLen (tcpTxavail w.fs)).toNat ≤ v.toNat * 2 ^ scale := by
  obtain ⟨hseg, hroom⟩ := segLen_txavail_le w.fs
  rcases Nat.lt_or_ge (v.toNat * 2 ^ scale) (2 ^ 32) with hlt | hge
  swap
  · exact (UInt32.toNat_lt _).le.trans hge
  have hsent := h.sent_le v hv
  rcases hok with hvalue | hspace
  · have hexact := remoteWindow_eq w.fs
    rw [h.packed.scale_eq, h.packed.value_eq, hvalue] at hexact
    replace hexact := hexact hlt
    rw [Word.sub_toNat (by omega), hexact] at hroom
    rw [Word.add_toNat (by omega)]
    omega
  · rw [Word.add_toNat (by omega)]
    omega

theorem WinWorld.Within.step (h : w.Within scale) (hok : WindowKept scale w op) :
    (w.step flowId op).Within scale := by
  have hcarry : op.resets w.fs = true → w.value + w.fs.txSent.toNat < 2 ^ 24 := by
    cases op with
    | packet p ts => exact hok.2
    | bump b ts => exact fun hcon => absurd hcon Bool.false_ne_true
    | qman core steering txBuf ts => exact fun hcon => absurd hcon Bool.false_ne_true
    | retransmit => exact fun _ => hok
  refine ⟨h.packed.step hcarry, fun v hv => ?_⟩
  rcases FlowOp.run_window flowId w.fs op with
    ⟨v', happ, -⟩ | ⟨happ, hreset, -, hsent⟩ | ⟨happ, hreset, hfield, hsent⟩
  · cases op with
    | packet p ts =>
      have hwnd : windowApplied w.fs p = true := by
        by_contra hcon
        simp [FlowOp.applied, hcon] at happ
      simp only [WinWorld.step, FlowOp.applied, hwnd, if_true, Option.some_or] at hv
      rw [← Option.some.inj hv]
      exact (fastFlowsPacket_txSent hwnd flowId ts).trans_le (hok.1 hwnd)
    | bump b ts => cases happ
    | qman core steering txBuf ts => cases happ
    | retransmit => cases happ
  · simp only [WinWorld.step, hsent]
    exact Nat.zero_le _
  · simp only [WinWorld.step, happ, Option.none_or] at hv
    rcases hsent with hle | ⟨core, steering, txBuf, ts, rfl, hsent⟩
    · exact hle.trans (h.sent_le v hv)
    · exact hsent ▸ h.sent_segLen hv (hok v hv)

end Within

/-- In every run that keeps `WindowKept`, a segment ends within the window that was applied last. -/
theorem send_within_window (old : FlowSt) (a : ConnArgs) (flowId : UInt32) (ops : List FlowOp)
    (hinit : a.rxLen.toNat < 2 ^ 24)
    (hrun : Run.Admissible (step flowId) (WindowKept a.wscale.toNat)
      (init old a) ops) :
    let w := ops.foldl (step flowId) (init old a)
    ∀ core steering txBuf ts, WindowKept a.wscale.toNat w (.qman core steering txBuf ts) →
      (fastFlowsQman core steering flowId w.fs txBuf ts).seg.isSome = true → ∀ v ∈ w.wnd,
        (fastFlowsQman core steering flowId w.fs txBuf ts).fs.txSent.toNat ≤
          v.toNat * 2 ^ a.wscale.toNat := by
  intro w core steering txBuf ts hok _ v hv
  have hstart : (init old a).Within a.wscale.toNat :=
    ⟨WinWorld.packed_init old a hinit, fun v hv => nomatch hv⟩
  have hinv : w.Within a.wscale.toNat := hrun.invariant hstart fun _ _ h hok => h.step hok
  have hnext : (w.step flowId (.qman core steering txBuf ts)).Within a.wscale.toNat :=
    hinv.step hok
  exact hnext.sent_le v hv

def windowThree : WinWorld :=
  [.packet (ackPkt 0 3) 0, .bump ⟨0, 0, 4, false⟩ 0].foldl (step 0)
    (init default (fourByteConn 0))

theorem send_within_window_three :
    (fastFlowsQman 0 (fun _ => 0) 0 windowThree.fs (fun _ => 0) 0).seg.isSome = true ∧
      (fastFlowsQman 0 (fun _ => 0) 0 windowThree.fs (fun _ => 0) 0).fs.txSent.toNat ≤
        (3 : UInt16).toNat * 2 ^ (fourByteConn 0).wscale.toNat := by
  have hrun := send_within_window default (fourByteConn 0) 0
    [.packet (ackPkt 0 3) 0, .bump ⟨0, 0, 4, false⟩ 0] (by decide) (by decide)
  have hseg : (fastFlowsQman 0 (fun _ => 0) 0 windowThree.fs (fun _ => 0) 0).seg.isSome = true := by
    decide
  have hwnd : windowThree.wnd = some 3 := by decide
  have hvalue : windowThree.value = 3 := by decide
  refine ⟨hseg, hrun 0 (fun _ => 0) (fun _ => 0) 0 ?_ hseg 3 hwnd⟩
  intro v hv
  have hv' : some 3 = some v := hwnd.symm.trans hv
  cases hv'
  exact Or.inl hvalue

def windowShrunk : WinWorld :=
  [.packet (ackPkt 0 4) 0, .bump ⟨0, 0, 4, false⟩ 0, .qman 0 (fun _ => 0) (fun _ => 0) 0,
    .packet (ackPkt 0 2) 0, .bump ⟨1, 0, 4, false⟩ 0].foldl (step 0)
    (init default { fourByteConn 0 with txLen := 8 })

def timeoutInFlight : WinWorld :=
  [.packet (ackPkt 0 4) 0, .bump ⟨0, 0, 8, false⟩ 0, .qman 0 (fun _ => 0) (fun _ => 0) 0,
    .retransmit].foldl (step 0) (init default { fourByteConn 0 with txLen := 8 })

/-- With more bytes in flight than the window, the difference wraps and more is sent. -/
theorem send_beyond_window :
    (windowShrunk.wnd = some 2 ∧ windowShrunk.fs.txSent = 4 ∧
        (fastFlowsQman 0 (fun _ => 0) 0 windowShrunk.fs (fun _ => 0) 0).seg.isSome = true ∧
        (fastFlowsQman 0 (fun _ => 0) 0 windowShrunk.fs (fun _ => 0) 0).fs.txSent = 8) ∧
      timeoutInFlight.wnd = some 4 ∧
        (fastFlowsQman 0 (fun _ => 0) 0 timeoutInFlight.fs (fun _ => 0) 0).seg.isSome = true ∧
        (fastFlowsQman 0 (fun _ => 0) 0 timeoutInFlight.fs (fun _ => 0) 0).fs.txSent = 8 := by
  decide

/-- The packet is a duplicate acknowledgement without payload, and two came before. -/
def ThirdDuplicate (fs : FlowSt) (p : Pkt) : Prop :=
  p.flags.ack = true ∧ tcpValidRxack fs p.ackno = some 0 ∧ p.payloadBytes = 0 ∧
    fs.rxDupackCnt + 1 ≥ 3
deriving Decidable

variable {fs : FlowSt} {p : Pkt}

/-- The acknowledgement part leaves the function early exactly at a third duplicate. -/
theorem packetAck_reset : (packetAck fs p).2.2 = true ↔ ThirdDuplicate fs p := by
  have hvalid : tcpValidRxack (countAck fs p) p.ackno = tcpValidRxack fs p.ackno := rfl
  unfold packetAck ThirdDuplicate
  dsimp only
  rw [hvalid]
  cases hack : p.flags.ack with
  | false => simp
  | true =>
    rw [if_pos rfl]
    cases hb : tcpValidRxack fs p.ackno with
    | none => simp
    | some b =>
      by_cases hzero : b = 0
      swap
      · simp [hzero]
      have hcount : (ackAdvance (countAckBytes (countAck fs p) p b) b).rxDupackCnt =
          fs.rxDupackCnt := by
        unfold ackAdvance
        split <;> rfl
      dsimp only
      rw [hcount]
      by_cases hpay : p.payloadBytes = 0
      · by_cases hthird : fs.rxDupackCnt + 1 ≥ 3 <;> simp [hzero, hpay, hthird]
      · simp [hzero, hpay]

theorem tcpTrimRxbuf_empty (fs : FlowSt) : tcpTrimRxbuf fs fs.rxNextSeq 0 = some (0, 0) := by
  have hend : fs.rxNextSeq + (0 : UInt16).toUInt32 = fs.rxNextSeq := UInt32.add_zero _
  unfold tcpTrimRxbuf
  rw [hend]
  simp only [UInt32.le_iff_toNat_le, UInt32.lt_iff_toNat_lt, gt_iff_lt, ge_iff_le]
  by_cases hwrap : fs.rxNextSeq.toNat ≤ (fs.rxNextSeq + fs.rxAvail).toNat
  · rw [if_pos ⟨le_rfl, hwrap⟩, if_neg (by omega), if_neg (by omega), if_neg (by omega),
      if_neg (by omega)]
    rfl
  · rw [if_neg (by omega), if_pos (by omega), if_neg (by omega), if_neg (by omega),
      if_neg (by omega)]
    rfl

theorem windowApplied_pure (hnil : p.payloadBytes = 0) (hseq : p.seqno = fs.rxNextSeq)
    (hfast : (!fs.slowpath && !p.flags.weird) = true) (hdup : ¬ThirdDuplicate fs p) :
    windowApplied fs p = true := by
  have hreset : (packetAck fs p).2.2 = false := by
    rw [← packetAck_reset, Bool.not_eq_true] at hdup
    exact hdup
  have hnext : (packetAck fs p).1.rxNextSeq = fs.rxNextSeq :=
    congrArg RxView.rxNextSeq (packetAck_rxView fs p)
  have hbytes : p.payloadBytes.toUInt16 = 0 := by
    rw [hnil]
    rfl
  have htrim : tcpTrimRxbuf (packetAck fs p).1 p.seqno p.payloadBytes.toUInt16 = some (0, 0) := by
    rw [hseq, ← hnext, hbytes]
    exact tcpTrimRxbuf_empty _
  rw [windowApplied, hfast, hreset, htrim]
  simp [hseq, hnext]

theorem tcpTxavail_ne_zero (hwait : fs.txAvail ≠ 0)
    (hopen : fs.txSent < remoteWindow fs) : tcpTxavail fs ≠ 0 := by
  rw [UInt32.lt_iff_toNat_lt] at hopen
  have hroom : (remoteWindow fs - fs.txSent).toNat = _ := Word.sub_toNat hopen.le
  unfold tcpTxavail tcpTxavailOf
  dsimp only
  split
  · intro hzero
    rw [hzero, UInt32.toNat_zero] at hroom
    omega
  · exact hwait

theorem packetUnlock_credit {flowId rxPos txBump ts : UInt32} {r : PacketEnd}
    (h : tcpTxavail r.fs ≠ 0) : (packetUnlock flowId 0 rxPos txBump ts p r).qman =
      some { id := flowId.toUInt16.toUInt32, rate := r.fs.txRate, avail := tcpTxavail r.fs
             maxChunk := tcpMss.toUInt16, add := true } := by
  simp only [packetUnlock, qmanCredit]
  rw [if_pos (UInt32.pos_iff_ne_zero.mpr h), UInt32.sub_zero]

/-- The packet stores its window, or the field holds it anyway: on the slow path as it was, after a
third duplicate with the bytes in flight added. -/
def WindowStored (fs : FlowSt) (p : Pkt) : Prop :=
  if (!fs.slowpath && !p.flags.weird) = true then
    ThirdDuplicate fs p → (fs.windowValue + fs.txSent.toNat) % 2 ^ 24 = p.wnd.toNat
  else fs.windowValue = p.wnd.toNat
deriving Decidable

theorem fastFlowsPacket_stores (hnil : p.payloadBytes = 0) (hseq : p.seqno = fs.rxNextSeq)
    (flowId ts : UInt32) :
    (fastFlowsPacket flowId fs p ts).fs.windowValue = p.wnd.toNat ↔ WindowStored fs p := by
  rcases fastFlowsPacket_cases flowId fs p ts with ⟨slow, hslow, hout⟩ | ⟨hfast, -⟩
  · rw [WindowStored, hslow, if_neg Bool.false_ne_true, hout]
    rfl
  rw [WindowStored, if_pos hfast]
  by_cases hdup : ThirdDuplicate fs p
  · have hreset : packetReset fs p = true := by
      rw [packetReset, hfast, packetAck_reset.mpr hdup]
      rfl
    rcases fastFlowsPacket_tx flowId fs p ts with ⟨-, -, -, hview⟩ | ⟨hnot, -⟩
    · have hfield : (fastFlowsPacket flowId fs p ts).fs.rxRemoteAvail =
          fs.rxRemoteAvail + fs.txSent := congrArg TxView.rxRemoteAvail hview
      have hvalue : (fastFlowsPacket flowId fs p ts).fs.windowValue =
          (fs.windowValue + fs.txSent.toNat) % 2 ^ 24 := by
        simp only [FlowSt.windowValue, hfield, UInt32.toNat_add]
        omega
      rw [hvalue]
      exact ⟨fun h _ => h, fun h => h hdup⟩
    · cases hreset.symm.trans hnot
  · refine iff_of_true ?_ fun hcon => absurd hcon hdup
    have happ : (FlowOp.packet p ts).applied fs = some p.wnd := by
      simp [FlowOp.applied, windowApplied_pure hnil hseq hfast hdup]
    rcases FlowOp.run_window flowId fs (.packet p ts) with
      ⟨v, hv, hnew⟩ | ⟨hnone, -⟩ | ⟨hnone, -⟩
    · obtain rfl : p.wnd = v := Option.some.inj (happ.symm.trans hv)
      exact (windowScale_of_field (p.wnd.toNat_lt.trans (by decide)) hnew).2
    · exact absurd (happ.symm.trans hnone) (Option.some_ne_none _)
    · exact absurd (happ.symm.trans hnone) (Option.some_ne_none _)

/-- After a packet without payload at `rx_next_seq` the field holds its window exactly if it is
`WindowStored`, and what becomes sendable is credit. -/
theorem pure_ack_stores_window (flowId : UInt32) (fs : FlowSt) (p : Pkt) (ts : UInt32)
    (hnil : p.payloadBytes = 0) (hseq : p.seqno = fs.rxNextSeq) :
    let out := fastFlowsPacket flowId fs p ts
    (out.fs.windowValue = p.wnd.toNat ↔ WindowStored fs p) ∧
      (out.fs.txAvail ≠ 0 → out.fs.txSent < remoteWindow out.fs → tcpTxavail out.fs ≠ 0) ∧
      (tcpTxavail fs = 0 → tcpTxavail out.fs ≠ 0 →
        out.qman = some
          { id := flowId.toUInt16.toUInt32, rate := out.fs.txRate, avail := tcpTxavail out.fs,
            maxChunk := tcpMss.toUInt16, add := true }) := by
  refine ⟨fastFlowsPacket_stores hnil hseq flowId ts, tcpTxavail_ne_zero, ?_⟩
  intro hzero hne
  rcases fastFlowsPacket_cases flowId fs p ts with ⟨slow, -, hout⟩ | ⟨-, hout⟩
  · rw [hout] at hne
    exact absurd hzero hne
  · rw [hout, hzero] at hne ⊢
    exact packetUnlock_credit hne

def zeroWindow : WinWorld :=
  [.packet (ackPkt 0 0) 0, .bump ⟨0, 0, 4, false⟩ 0, .packet (ackPkt 0 0) 0].foldl
    (step 0) (init default (fourByteConn 0))

/-- One acknowledgement more than the first, which opens the window again. -/
theorem pure_ack_stores_window_open :
    let fs := { zeroWindow.fs with rxDupackCnt := 1 }
    (fastFlowsPacket 0 fs (ackPkt 0 4) 0).fs.windowValue = 4 ∧
      tcpTxavail (fastFlowsPacket 0 fs (ackPkt 0 4) 0).fs = 4 :=
  ⟨(pure_ack_stores_window 0 { zeroWindow.fs with rxDupackCnt := 1 } (ackPkt 0 4) 0 rfl
    (by decide)).1.mpr (by decide), by decide⟩

/-- The third acknowledgement opens the window, but is taken for a duplicate: the window stays
closed. -/
theorem window_update_lost :
    zeroWindow.fs.txAvail = 4 ∧ (ackPkt 0 4).seqno = zeroWindow.fs.rxNextSeq ∧
      (tcpValidRxack zeroWindow.fs (ackPkt 0 4).ackno).isSome = true ∧
      (fastFlowsPacket 0 zeroWindow.fs (ackPkt 0 4) 0).fs.windowValue = 0 ∧
      (fastFlowsPacket 0 zeroWindow.fs (ackPkt 0 4) 0).fs.txAvail = 4 ∧
      tcpTxavail (fastFlowsPacket 0 zeroWindow.fs (ackPkt 0 4) 0).fs = 0 ∧
      (fastFlowsPacket 0 zeroWindow.fs (ackPkt 0 4) 0).qman = none := by
  decide

/-- A scale of 32 is accepted, and a buffer or a reset reaches the high byte. -/
theorem window_field_broken :
    ((negotiatedWscale 70 4).run
          (headerWith 9 [8, 10, 0, 0, 0, 0, 0, 0, 0, 0, 3, 3, 32, 0, 0, 0]) = some 32 ∧
        ¬ (init default { fourByteConn 0 with wscale := 32 }).Lossless 32) ∧
      ¬ (init default { fourByteConn 0 with rxLen := 0x1000000 }).Lossless 0 ∧
      let a := { fourByteConn 0 with rxLen := 0xFFFFFF, txLen := 0xFFFFFF }
      let ops := [.bump ⟨0, 0, 1, false⟩ 0, .qman 0 (fun _ => 0) (fun _ => 0) 0, .retransmit]
      ((ops.foldl (step 0) (init default a)).fs.rxRemoteAvail = 0x1000000 ∧
        ¬ (ops.foldl (step 0) (init default a)).Lossless 0) := by
  refine ⟨⟨by decide, ?_⟩, ?_, by decide, ?_⟩
  · intro h
    exact absurd h.shift_lt (by decide)
  · intro h
    exact absurd h.packed.value_lt (by decide)
  · intro h
    exact absurd h.packed.value_lt (by decide)

end StackBench.Tas

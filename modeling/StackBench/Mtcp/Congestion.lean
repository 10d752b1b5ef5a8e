import StackBench.Mtcp.PeerWindow

/-!
# Congestion window and retransmission timeout of mTCP

An ack of new data makes `ProcessACK` count the segments it stands for, estimate
the round trip time and grow the window. The divisors and the samples come from
the peer.
-/

namespace StackBench.Mtcp

open Attempt (Ends)
open UInt32 (lt_iff_toNat_lt ofInt toNat_add toNat_div toNat_inj toNat_mul)

variable {st st' : TcpStream} {curTs : UInt32}

section Growth

variable {packets : UInt16}

end Growth

def TcpStream.timing (st : TcpStream) : UInt32 × UInt32 × UInt32 × UInt32 :=
  (st.rcvvar.srtt, st.rcvvar.mdev, st.rcvvar.mdevMax, st.rcvvar.rttvar)

/-- The sample that an ack gives is short. -/
def Short (st : TcpStream) (curTs : UInt32) : Prop :=
  (curTs - st.rcvvar.tsLastackRcvd).toNat < 2 ^ 29

/-- A run with short samples. In between anything may happen that does not touch the timing. -/
inductive Timed : TcpStream → Prop
  | opened {s : TcpStream} : s.timing = (0, 0, 0, 0) → s.sndvar.rto ≠ 0 → Timed s
  | other {s s' : TcpStream} : Timed s → s'.timing = s.timing →
      s'.sndvar.rto = s.sndvar.rto → Timed s'
  | measured {s s' : TcpStream} {ts : UInt32} : Timed s → Short s ts →
      measureRTT s ts = .ok s' → Timed s'
  | timeout {s s' : TcpStream} : Timed s → handleRTO s = .ok s' → Timed s'

/-- Samples are below `2 ^ 29`, so eight times a sample fits. -/
structure Estimates (v : RecvVars) : Prop where
  srtt : v.srtt = 0 ∨ 8 ≤ v.srtt.toNat
  srtt_le : v.srtt.toNat ≤ 8 * (2 ^ 29 - 1)
  mdev : v.mdev.toNat ≤ 4 * (2 ^ 29 - 1)
  mdevMax : v.mdevMax.toNat ≤ 4 * (2 ^ 29 - 1)
  rttvar : v.rttvar.toNat ≤ 4 * (2 ^ 29 - 1)

theorem ofInt_bounds {z : ℤ} {lo hi : ℕ} (hlo : lo ≤ z) (hhi : z ≤ hi) (hlt : hi < 2 ^ 32) :
    lo ≤ (ofInt z).toNat ∧ (ofInt z).toNat ≤ hi := by
  rw [ofInt, Int.emod_eq_of_lt (by omega) (by omega), UInt32.toNat_ofNat',
    Nat.mod_eq_of_lt (by omega)]
  omega

theorem toNat_shift (x : UInt32) : (x >>> 3).toNat = x.toNat / 8 ∧ (x >>> 2).toNat = x.toNat / 4 :=
  ⟨(UInt32.toNat_shiftRight x 3).trans (Nat.shiftRight_eq_div_pow _ 3),
    (UInt32.toNat_shiftRight x 2).trans (Nat.shiftRight_eq_div_pow _ 2)⟩

theorem toNat_ite_le {p : Prop} [Decidable p] {x y : UInt32} {n : ℕ} (hx : p → x.toNat ≤ n)
    (hy : y.toNat ≤ n) : (if p then x else y).toNat ≤ n := by
  split
  · next hp => exact hx hp
  · exact hy

theorem decay_le {x y : UInt32} (hlt : y < x) : (x - ((x - y) >>> 2)).toNat ≤ x.toNat := by
  have hshift := (toNat_shift (x - y)).2
  have hsub := UInt32.toNat_sub_of_le x y (UInt32.le_of_lt hlt)
  rw [UInt32.toNat_sub_of_le _ _ (UInt32.le_iff_toNat_le.mpr (by omega))]
  exact Nat.sub_le _ _

section

variable (h : Estimates st.rcvvar)
include h

/-- An estimate moves towards the sample by a part of the distance, so it stays in its range. -/
theorem Estimates.updateRTT (hsrtt : st.rcvvar.srtt ≠ 0) {m : ℤ} (hm : 0 < m) (hlt : m < 2 ^ 29) :
    Estimates (updateRTT st m) ∧ 8 ≤ (updateRTT st m).srtt.toNat := by
  obtain ⟨hs, hs', hd, hx, hv⟩ := h
  replace hs := hs.resolve_left hsrtt
  unfold Mtcp.updateRTT
  dsimp only
  rw [(toNat_shift st.rcvvar.srtt).1, (toNat_shift st.rcvvar.mdev).2]
  generalize hz : (st.rcvvar.srtt.toNat + (m - ((st.rcvvar.srtt.toNat / 8 : ℕ) : ℤ)) : ℤ) = z
  obtain ⟨hlo, hhi⟩ : 8 ≤ (ofInt z).toNat ∧ (ofInt z).toNat ≤ 8 * (2 ^ 29 - 1) :=
    ofInt_bounds (by omega) (by omega) (by decide)
  generalize hdev : (if m - ((st.rcvvar.srtt.toNat / 8 : ℕ) : ℤ) < 0 then _ else _) = dev
  have hrange : 0 ≤ st.rcvvar.mdev.toNat + dev ∧
      st.rcvvar.mdev.toNat + dev ≤ 4 * (2 ^ 29 - 1) := by
    rw [← hdev]
    split
    · split <;> omega
    · omega
  have hmdev := (ofInt_bounds hrange.1 hrange.2 (by decide)).2
  split
  · refine ⟨⟨Or.inr hlo, hhi, hmdev, Nat.zero_le _,
      toNat_ite_le (fun hless => (decay_le hless).trans ?_) ?_⟩, hlo⟩
    all_goals exact toNat_ite_le (fun _ => toNat_ite_le (fun _ => hmdev) hx) hv
  · exact ⟨⟨Or.inr hlo, hhi, hmdev, toNat_ite_le (fun _ => hmdev) hx,
      toNat_ite_le (fun _ => toNat_ite_le (fun _ => hmdev) hx) hv⟩, hlo⟩

theorem Estimates.estimateRTT {mrtt : UInt32}
    (hlt : mrtt.toNat < 2 ^ 29) : Estimates (estimateRTT st mrtt).rcvvar ∧
      8 ≤ (estimateRTT st mrtt).rcvvar.srtt.toNat := by
  have hm : 0 < (if mrtt = 0 then 1 else mrtt.toNat : ℤ) ∧
      (if mrtt = 0 then 1 else mrtt.toNat : ℤ) < 2 ^ 29 := by
    split
    · decide
    · next hne =>
      have hpos : mrtt.toNat ≠ 0 := fun h0 => hne (toNat_inj.mp h0)
      omega
  unfold Mtcp.estimateRTT
  dsimp only
  generalize (if mrtt = 0 then 1 else mrtt.toNat : ℤ) = m at hm ⊢
  split
  · next hsrtt => exact h.updateRTT hsrtt hm.1 hm.2
  have hsrtt : 8 ≤ (ofInt (m * 8)).toNat ∧ (ofInt (m * 8)).toNat ≤
      8 * (2 ^ 29 - 1) := ofInt_bounds (by omega) (by omega) (by decide)
  have hmdev : 0 ≤ (ofInt (m * 2)).toNat ∧ (ofInt (m * 2)).toNat ≤
      4 * (2 ^ 29 - 1) := ofInt_bounds (by omega) (by omega) (by decide)
  exact ⟨⟨Or.inr hsrtt.1, hsrtt.2, hmdev.2, hmdev.2, hmdev.2⟩, hsrtt.1⟩

/-- The new timeout is a sum of two estimates that does not wrap, one of them positive. -/
theorem Estimates.measureRTT (hrto : st.sndvar.rto ≠ 0)
    (hshort : Short st curTs) : ∃ st', measureRTT st curTs = .ok st' ∧
      Estimates st'.rcvvar ∧ st'.sndvar.rto ≠ 0 := by
  unfold Mtcp.measureRTT
  split
  · obtain ⟨hest, hsrtt⟩ := h.estimateRTT hshort
    generalize Mtcp.estimateRTT st _ = st' at hest hsrtt ⊢
    have hpos : (st'.rcvvar.srtt >>> 3) + st'.rcvvar.rttvar ≠ 0 := by
      have h3 := (toNat_shift st'.rcvvar.srtt).1
      have hle := hest.srtt_le
      have hvar := hest.rttvar
      rw [Ne, ← toNat_inj, toNat_add, h3, Nat.mod_eq_of_lt (by omega)]
      change _ ≠ 0
      omega
    dsimp only
    rw [if_neg hpos]
    exact ⟨_, rfl, hest, hpos⟩
  · exact ⟨st, rfl, h, hrto⟩

end

theorem handleRTO_timing (hrto : st.sndvar.rto ≠ 0) : Ends
    (fun st' => st'.timing = st.timing ∧ st'.sndvar.rto ≠ 0) (· ≠ .rtoZero) (handleRTO st) := by
  have hback : ∀ n, backoffRto st n ≠ 0 := by
    intro n
    unfold backoffRto
    dsimp only
    split <;> assumption
  unfold handleRTO retransmit addtoSendList removeFromRTOList destroyTCPStream
  dsimp only
  rw [if_neg hrto]
  repeat' split
  all_goals first | exact ⟨rfl, hrto⟩ | exact ⟨rfl, hback _⟩ | exact nofun

theorem Estimates.congr (h : Estimates st.rcvvar) (heq : st'.timing = st.timing) :
    Estimates st'.rcvvar := by
  simp only [TcpStream.timing, Prod.mk.injEq] at heq
  obtain ⟨h₁, h₂, h₃, h₄⟩ := heq
  exact ⟨h₁ ▸ h.srtt, h₁ ▸ h.srtt_le, h₂ ▸ h.mdev, h₃ ▸ h.mdevMax, h₄ ▸ h.rttvar⟩

theorem Timed.estimates (h : Timed st) : Estimates st.rcvvar ∧ st.sndvar.rto ≠ 0 := by
  induction h with
  | opened h hrto =>
    have hfresh : Estimates Mtcp.opened.rcvvar := by
      constructor <;> decide
    exact ⟨hfresh.congr h, hrto⟩
  | other _ heq hrto ih => exact ⟨ih.1.congr heq, hrto ▸ ih.2⟩
  | measured _ hshort hok ih =>
    obtain ⟨st', hst', hest⟩ := ih.1.measureRTT ih.2 hshort
    cases hst'.symm.trans hok
    exact hest
  | timeout _ hok ih =>
    have hends := handleRTO_timing ih.2
    rw [hok] at hends
    exact ⟨ih.1.congr hends.1, hends.2⟩

/-- In a run with short samples, the timeout is positive after each of them, and no assertion
on it fails. -/
theorem rto_positive (st : TcpStream) (curTs : UInt32) (hrun : Timed st) (hshort : Short st curTs) :
    (∃ st', measureRTT st curTs = .ok st' ∧ st'.sndvar.rto ≠ 0) ∧
      updateRetransmissionTimer st curTs ≠ .error .rtoZero ∧ handleRTO st ≠ .error .rtoZero := by
  obtain ⟨hest, hrto⟩ := hrun.estimates
  obtain ⟨st', hst', -, hrto'⟩ := hest.measureRTT hrto hshort
  refine ⟨⟨st', hst', hrto'⟩, ?_, fun herr => ?_⟩
  · unfold updateRetransmissionTimer
    rw [if_neg hrto]
    dsimp only
    split <;> exact nofun
  · have hends := handleRTO_timing hrto
    rw [herr] at hends
    exact hends rfl

/-- The stream after a first sample of ten. -/
def sampled : TcpStream :=
  let st := estimateRTT { opened with sawTimestamp := true } 10
  { st with sndvar := { st.sndvar with rto := 30 } }

theorem rto_positive_sampled : measureRTT { opened with sawTimestamp := true } 10 = .ok sampled ∧
    ∃ st', measureRTT sampled 90 = .ok st' ∧ st'.sndvar.rto ≠ 0 := by
  have hfirst : measureRTT { opened with sawTimestamp := true } 10 = .ok sampled := rfl
  have hrun : Timed sampled :=
    (Timed.opened rfl (by decide)).measured (by unfold Short; decide) hfirst
  exact ⟨hfirst, (rto_positive sampled 90 hrun (by unfold Short; decide)).1⟩

/-- An ack whose echoed timestamp is half of the range old stops the stack. -/
theorem rto_zero : measureRTT { opened with sawTimestamp := true } (2 ^ 31) = .error .rtoZero := by
  rfl

end StackBench.Mtcp

import Mathlib.Algebra.Order.Ring.Nat
import StackBench.Lib.Word
import StackBench.Tas.Congestion

/-!
# Window-based DCTCP

The window stays between one segment and the send buffer, the average does not
leave 64 bits, congestion never grows the window, and the rate is what the
window allows per round trip, as long as the round-trip time is positive and
fits into 32 bits of nanoseconds.
-/

namespace StackBench.Tas

open UInt32 (le_iff_toNat_le le_refl le_zero_iff lt_iff_toNat_lt not_lt toNat_div toNat_toUInt64)
open UInt64 (reduceToNat toNat_mul toNat_toUInt32)

/-- The average of the marked share in unbounded numbers. -/
def ecnExact (weight old ecnb ackb : ℕ) : ℕ :=
  if 0 < ackb then
    (min ecnb ackb * 4294967295 / ackb * weight + old * (4294967295 - weight)) / 4294967295
  else old

theorem markedBytes_toNat {ecnb ackb : UInt32} (h : 0 < ackb.toNat) :
    (markedBytes ecnb ackb).toNat = min ecnb.toNat ackb.toNat := by
  have hpos : ackb > 0 := lt_iff_toNat_lt.mpr h
  rw [markedBytes, if_pos hpos]
  by_cases hle : ecnb ≤ ackb
  · rw [if_pos hle, min_eq_left (le_iff_toNat_le.mp hle)]
  · rw [if_neg hle, min_eq_right]
    rw [le_iff_toNat_le] at hle
    omega

theorem markedBytes_pos {ecnb : UInt32} (ackb : UInt32) (h : 0 < ecnb) :
    markedBytes ecnb ackb > 0 := by
  unfold markedBytes
  by_cases hack : ackb > 0
  · rw [if_pos hack]
    split
    · exact h
    · exact hack
  · rw [if_neg hack]
    exact h

theorem share_le {e a : ℕ} (hle : e ≤ a) : e * 4294967295 / a ≤ 4294967295 := by
  apply Nat.div_le_of_le_mul
  exact Nat.mul_le_mul_right _ hle

theorem weighted_le {e w old : ℕ} (he : e ≤ 4294967295) (hw : w ≤ 4294967295)
    (hold : old ≤ 4294967295) : e * w + old * (4294967295 - w) ≤ 4294967295 * 4294967295 := by
  calc e * w + old * (4294967295 - w)
      ≤ 4294967295 * w + 4294967295 * (4294967295 - w) :=
        Nat.add_le_add (Nat.mul_le_mul_right _ he) (Nat.mul_le_mul_right _ hold)
    _ = 4294967295 * 4294967295 := by omega

theorem toNat_le_max (x : UInt32) : x.toNat ≤ 4294967295 := Nat.le_of_lt_succ x.toNat_lt

variable (cfg : CcConfig) (c : CcConn)

theorem ecnAverage_toNat (old : UInt32) {e a : UInt32} (hle : e.toNat ≤ a.toNat) :
    (ecnAverage cfg old e a).toNat =
      (e.toNat * 4294967295 / a.toNat * cfg.ccDctcpWeight.toNat +
        old.toNat * (4294967295 - cfg.ccDctcpWeight.toNat)) / 4294967295 := by
  have hw := toNat_le_max cfg.ccDctcpWeight
  have hold := toNat_le_max old
  have he := toNat_le_max e
  have hsub : (4294967295 - cfg.ccDctcpWeight).toNat = 4294967295 - cfg.ccDctcpWeight.toNat :=
    UInt32.toNat_sub_of_le _ _ (le_iff_toNat_le.mpr hw)
  have hshare := share_le hle
  have hsum := weighted_le hshare hw hold
  have hprod : e.toNat * 4294967295 % 2 ^ 64 = e.toNat * 4294967295 := by
    apply Nat.mod_eq_of_lt
    omega
  have h₁ : e.toNat * 4294967295 / a.toNat * cfg.ccDctcpWeight.toNat % 2 ^ 64 =
      e.toNat * 4294967295 / a.toNat * cfg.ccDctcpWeight.toNat := by
    apply Nat.mod_eq_of_lt
    omega
  have h₂ : old.toNat * (4294967295 - cfg.ccDctcpWeight.toNat) % 2 ^ 64 =
      old.toNat * (4294967295 - cfg.ccDctcpWeight.toNat) := by
    apply Nat.mod_eq_of_lt
    omega
  rw [ecnAverage]
  simp only [UInt64.toNat_div, UInt64.toNat_add, toNat_mul, toNat_toUInt64, hsub,
    reduceToNat, hprod, h₁, h₂]
  rw [Nat.mod_eq_of_lt (by omega)]

theorem ecnUpdate_toNat (old ecnb ackb : UInt32) : (ecnUpdate cfg old ecnb ackb).toNat =
      ecnExact cfg.ccDctcpWeight.toNat old.toNat ecnb.toNat ackb.toNat := by
  by_cases hpos : ackb > 0
  · have hnat : 0 < ackb.toNat := lt_iff_toNat_lt.mp hpos
    have hmark : (markedBytes ecnb ackb).toNat = min ecnb.toNat ackb.toNat := markedBytes_toNat hnat
    have hle : (markedBytes ecnb ackb).toNat ≤ ackb.toNat := hmark ▸ min_le_right _ _
    have hbound := weighted_le (share_le hle) (toNat_le_max cfg.ccDctcpWeight)
      (toNat_le_max old)
    rw [ecnUpdate, if_pos hpos, ecnExact, if_pos hnat, toNat_toUInt32,
      ecnAverage_toNat cfg old hle, hmark]
    apply Nat.mod_eq_of_lt
    rw [hmark] at hbound
    exact Nat.lt_succ_of_le (Nat.div_le_of_le_mul hbound)
  · have hnat : ¬ 0 < ackb.toNat := fun h => hpos (lt_iff_toNat_lt.mpr h)
    rw [ecnUpdate, if_neg hpos, ecnExact, if_neg hnat]

theorem fraction_toNat (x y : UInt32) :
    (x.toUInt64 * y.toUInt64 / 4294967295).toUInt32.toNat = x.toNat * y.toNat / 4294967295 := by
  have hy := toNat_le_max y
  have hprod : x.toNat * y.toNat ≤ 4294967295 * y.toNat := Nat.mul_le_mul_right _ (toNat_le_max x)
  rw [toNat_toUInt32]
  simp only [UInt64.toNat_div, toNat_mul, toNat_toUInt64, reduceToNat]
  rw [Nat.mod_eq_of_lt (a := x.toNat * _) (by omega), Nat.mod_eq_of_lt]
  exact (Nat.div_le_of_le_mul hprod).trans_lt y.toNat_lt

theorem ecnCut_toNat (x e : UInt32) :
    (ecnCut x e).toNat = x.toNat * (4294967295 - e.toNat / 2) / 4294967295 := by
  have hsub : (4294967295 - e / 2).toNat = 4294967295 - e.toNat / 2 := by
    exact UInt32.toNat_sub_of_le _ _ (le_iff_toNat_le.mpr (toNat_le_max _))
  rw [ecnCut, fraction_toNat, hsub]

theorem ecnCut_le (x e : UInt32) : (ecnCut x e).toNat ≤ x.toNat := by
  rw [ecnCut_toNat]
  apply Nat.div_le_of_le_mul
  rw [Nat.mul_comm]
  exact Nat.mul_le_mul_right _ (Nat.sub_le _ _)

/-- The time [ns] that `window_to_rate` divides by. -/
def sendTime (cfg : CcConfig) (window rtt : UInt32) : ℕ :=
  max (window.toNat * 8000 / cfg.tcpLinkBw.toNat / 1000) (rtt * 1000).toNat

theorem windowToRate_cases (window rtt : UInt32) :
    ((cfg.tcpLinkBw = 0 ∨ sendTime cfg window rtt = 0) ∧ windowToRate cfg window rtt = none) ∨
      (cfg.tcpLinkBw ≠ 0 ∧ 0 < sendTime cfg window rtt ∧
        ∃ rate, windowToRate cfg window rtt = some rate ∧
          rate.toNat = min (window.toNat * 8000000 / sendTime cfg window rtt) 4294967295) := by
  have hw := toNat_le_max window
  by_cases hbw : cfg.tcpLinkBw = 0
  · exact .inl ⟨.inl hbw, by rw [windowToRate, if_pos hbw]⟩
  -- the exact values of the two 64-bit products
  have htime : (window.toUInt64 * 8 * 1000 / cfg.tcpLinkBw.toUInt64 / 1000).toNat =
      window.toNat * 8000 / cfg.tcpLinkBw.toNat / 1000 := by
    simp only [UInt64.toNat_div, toNat_mul, toNat_toUInt64, reduceToNat]
    rw [Nat.mod_eq_of_lt (a := window.toNat * 8) (by omega), Nat.mod_eq_of_lt (by omega),
      Nat.mul_assoc]
  have hbits : (window.toUInt64 * 8 * 1000000).toNat = window.toNat * 8000000 := by
    simp only [toNat_mul, toNat_toUInt64, reduceToNat]
    rw [Nat.mod_eq_of_lt (a := window.toNat * 8) (by omega), Nat.mod_eq_of_lt (by omega),
      Nat.mul_assoc]
  obtain ⟨time, hdef⟩ : ∃ time : UInt64, time =
      if window.toUInt64 * 8 * 1000 / cfg.tcpLinkBw.toUInt64 / 1000 < (rtt * 1000).toUInt64
      then (rtt * 1000).toUInt64
      else window.toUInt64 * 8 * 1000 / cfg.tcpLinkBw.toUInt64 / 1000 := ⟨_, rfl⟩
  have hmax : time.toNat = sendTime cfg window rtt := by
    rw [hdef, sendTime]
    by_cases hlt : window.toUInt64 * 8 * 1000 / cfg.tcpLinkBw.toUInt64 / 1000 <
        (rtt * 1000).toUInt64
    · rw [if_pos hlt, toNat_toUInt64]
      rw [UInt64.lt_iff_toNat_lt, htime, toNat_toUInt64] at hlt
      omega
    · rw [if_neg hlt, htime]
      rw [UInt64.lt_iff_toNat_lt, htime, toNat_toUInt64] at hlt
      omega
  have hrate : windowToRate cfg window rtt =
      if time = 0 then none
      else some (if window.toUInt64 * 8 * 1000000 / time > 4294967295 then 4294967295
        else (window.toUInt64 * 8 * 1000000 / time).toUInt32) := by
    rw [windowToRate, if_neg hbw, hdef]
  have hzero : time = 0 ↔ sendTime cfg window rtt = 0 := by
    rw [← hmax, ← UInt64.toNat_inj]
    rfl
  by_cases ht : time = 0
  · exact .inl ⟨.inr (hzero.mp ht), by rw [hrate, if_pos ht]⟩
  refine .inr ⟨hbw, Nat.pos_of_ne_zero (mt hzero.mpr ht), _, by rw [hrate, if_neg ht], ?_⟩
  have hquot : (window.toUInt64 * 8 * 1000000 / time).toNat =
      window.toNat * 8000000 / sendTime cfg window rtt := by
    rw [UInt64.toNat_div, hbits, hmax]
  rw [← hquot]
  by_cases hbig : window.toUInt64 * 8 * 1000000 / time > 4294967295
  · rw [if_pos hbig]
    exact (min_eq_right (UInt64.lt_iff_toNat_lt.mp hbig).le).symm
  have hsmall : (window.toUInt64 * 8 * 1000000 / time).toNat ≤ 4294967295 :=
    Nat.le_of_not_lt fun hlt => hbig (UInt64.lt_iff_toNat_lt.mpr hlt)
  rw [if_neg hbig, toNat_toUInt32]
  omega

theorem windowToRate_pos {cfg : CcConfig} {window rtt rate : UInt32}
    (hwin : confMss ≤ window) (h : windowToRate cfg window rtt = some rate) : 0 < rate.toNat := by
  obtain ⟨-, hnone⟩ | ⟨-, hpos, r, hr, hval⟩ := windowToRate_cases cfg window rtt
  · rw [hnone] at h
    cases h
  obtain rfl : r = rate := Option.some.inj (hr.symm.trans h)
  have hwin' : 1400 ≤ window.toNat := le_iff_toNat_le.mp hwin
  have hsend : window.toNat * 8000 / cfg.tcpLinkBw.toNat / 1000 ≤ window.toNat * 8000 :=
    (Nat.div_le_self _ _).trans (Nat.div_le_self _ _)
  have hrtt := (rtt * 1000).toNat_lt
  have hle : sendTime cfg window rtt ≤ window.toNat * 8000000 := by
    rw [sendTime]
    omega
  have hquot : 0 < window.toNat * 8000000 / sendTime cfg window rtt := Nat.div_pos hle hpos
  omega

theorem windowToRate_sound {cfg : CcConfig} {window rtt : UInt32} (hbw : cfg.tcpLinkBw ≠ 0)
    (hwin : confMss ≤ window) (hpos : 0 < rtt.toNat) (hrtt : rtt.toNat < 4294967) :
    ∃ rate, windowToRate cfg window rtt = some rate ∧ 1 ≤ rate.toNat ∧
      rate.toNat ≤ min (window.toNat * 8000 / rtt.toNat) 4294967295 := by
  have hns : (rtt * 1000).toNat = rtt.toNat * 1000 := by
    exact Nat.mod_eq_of_lt (show rtt.toNat * 1000 < 2 ^ 32 by omega)
  have htime : rtt.toNat * 1000 ≤ sendTime cfg window rtt := hns ▸ le_max_right _ _
  obtain ⟨hzero | hzero, -⟩ | ⟨-, -, rate, hrate, hval⟩ := windowToRate_cases cfg window rtt
  · exact absurd hzero hbw
  · omega
  refine ⟨rate, hrate, windowToRate_pos hwin hrate, ?_⟩
  have hquot : window.toNat * 8000000 / sendTime cfg window rtt ≤
      window.toNat * 8000 / rtt.toNat :=
    calc window.toNat * 8000000 / sendTime cfg window rtt
        ≤ window.toNat * 8000000 / (rtt.toNat * 1000) := Nat.div_le_div_left htime (by omega)
      _ = window.toNat * 8000 * 1000 / (rtt.toNat * 1000) := by rw [Nat.mul_assoc]
      _ = window.toNat * 8000 / rtt.toNat := Nat.mul_div_mul_right _ _ (by decide)
  rw [hval]
  exact min_le_min hquot le_rfl

theorem winClamp_toNat (txLen win : UInt32) :
    (winClamp txLen win).toNat = min (max win.toNat 1400) txLen.toNat := by
  have hmax : (if win < confMss then confMss else win).toNat = max win.toNat 1400 :=
    Word.ite_lt_toNat win confMss
  rw [winClamp, ← hmax]
  by_cases hgt : (if win < confMss then confMss else win) > txLen
  · rw [if_pos hgt]
    exact (min_eq_right (lt_iff_toNat_lt.mp hgt).le).symm
  · rw [if_neg hgt]
    exact (min_eq_left (Nat.le_of_not_lt (mt lt_iff_toNat_lt.mpr hgt))).symm

variable (stats : ConnStats)

theorem winSlowstart_cases : c.win.window ≤ winSlowstart c stats ∧
      (winCongested c stats = true → winSlowstart c stats = c.win.window) := by
  unfold winSlowstart
  split
  · next hslow =>
    constructor
    · split
      · next hgt => exact UInt32.le_of_lt hgt
      · exact le_refl _
    · intro hcong
      simp [hcong] at hslow
  · exact ⟨le_refl _, fun _ => rfl⟩

theorem winCongested_of_report {c : CcConn} {stats : ConnStats}
    (h : stats.cDrops ≠ 0 ∨ c.ccRexmits ≠ 0 ∨ stats.cEcnb ≠ 0) : winCongested c stats = true := by
  unfold winCongested
  obtain hdrop | hrexmit | hecn := h
  · simp [hdrop]
  · simp [hrexmit]
  · simp [hecn]

theorem winAvoid_cases {win : UInt32} (hwin : 0 < win.toNat) :
    ∃ next, winAvoid cfg c stats win = some next ∧
      (winCongested c stats = true → next.1.toNat ≤ win.toNat) ∧
      next.2 = (if stats.cDrops > 0 ∨ c.ccRexmits > 0 then c.win.ecnRate
        else ecnUpdate cfg c.win.ecnRate stats.cEcnb stats.cAckb) := by
  unfold winAvoid
  by_cases hdrop : stats.cDrops > 0 ∨ c.ccRexmits > 0
  · rw [if_pos hdrop, if_pos hdrop]
    refine ⟨_, rfl, fun _ => ?_, rfl⟩
    exact Nat.div_le_self _ _
  rw [if_neg hdrop, if_neg hdrop]
  by_cases hmark : markedBytes stats.cEcnb stats.cAckb > 0
  · rw [if_pos hmark]
    exact ⟨_, rfl, fun _ => ecnCut_le _ _, rfl⟩
  have hne : win ≠ 0 := by
    rintro rfl
    exact absurd hwin (by decide)
  rw [if_neg hmark, if_neg hne]
  refine ⟨_, rfl, fun hcong => ?_, rfl⟩
  -- no drops, no retransmits and no marks are left: nothing was reported
  have hquiet : stats.cDrops = 0 ∧ c.ccRexmits = 0 := by
    rw [not_or] at hdrop
    exact ⟨UInt16.le_zero_iff.mp (UInt16.not_lt.mp hdrop.1),
      le_zero_iff.mp (not_lt.mp hdrop.2)⟩
  have hecn : stats.cEcnb ≠ 0 := by
    intro hzero
    simp [winCongested, hquiet, hzero] at hcong
  exact absurd (markedBytes_pos stats.cAckb (UInt32.pos_iff_ne_zero.mpr hecn)) hmark

/-- An update is asked for with `cc_rexmits` as `issue_retransmits` left it. -/
structure WinInput where
  stats : ConnStats
  rexmits : UInt32

def winStep (cfg : CcConfig) (c : CcConn) (i : WinInput) : Option CcConn :=
  dctcpWinUpdate cfg { c with ccRexmits := i.rexmits } i.stats

/-- What one update has to do. -/
structure WinGood (cfg : CcConfig) (c : CcConn) (i : WinInput) (c' : CcConn) : Prop where
  mss_le : 1400 ≤ c'.win.window.toNat
  le_txLen : c'.win.window.toNat ≤ c.txLen.toNat
  txLen_eq : c'.txLen = c.txLen
  /-- The average is exact; drops, retransmits and slow start leave it alone. -/
  ecnRate : c'.win.ecnRate.toNat =
    if (c.win.slowstart ∧ i.stats.cEcnb = 0) ∨ i.stats.cDrops > 0 ∨ i.rexmits > 0 then
      c.win.ecnRate.toNat
    else ecnExact cfg.ccDctcpWeight.toNat c.win.ecnRate.toNat i.stats.cEcnb.toNat
      i.stats.cAckb.toNat
  congested : i.stats.cDrops ≠ 0 ∨ i.rexmits ≠ 0 ∨ i.stats.cEcnb ≠ 0 →
    c'.win.window.toNat ≤ c.win.window.toNat
  rate_pos : 1 ≤ c'.ccRate.toNat
  rate_le : c'.ccRate.toNat ≤
    min (c'.win.window.toNat * 8000 / (rttUsed cfg i.stats).toNat) 4294967295

theorem winNext_good (hwin : confMss ≤ c.win.window) : ∃ next, winNext cfg c stats = some next ∧
      (winCongested c stats = true → next.1.toNat ≤ c.win.window.toNat) ∧
      next.2 =
        (if (c.win.slowstart ∧ stats.cEcnb = 0) ∨ stats.cDrops > 0 ∨ c.ccRexmits > 0 then
          c.win.ecnRate
        else ecnUpdate cfg c.win.ecnRate stats.cEcnb stats.cAckb) := by
  obtain ⟨hgrow, hkeep⟩ := winSlowstart_cases c stats
  unfold winNext
  by_cases hslow : (c.win.slowstart && !winCongested c stats) = true
  · rw [if_pos hslow]
    have hquiet : c.win.slowstart = true ∧ (stats.cDrops = 0 ∧ stats.cEcnb = 0) ∧
        c.ccRexmits = 0 := by
      simpa [winCongested] using hslow
    refine ⟨_, rfl, fun hcong => ?_, (if_pos (.inl ⟨hquiet.1, hquiet.2.1.2⟩)).symm⟩
    simp [hcong] at hslow
  rw [if_neg hslow]
  have hpos : 0 < (winSlowstart c stats).toNat := by
    have hle := le_iff_toNat_le.mp (UInt32.le_trans hwin hgrow)
    exact lt_of_lt_of_le (by decide) hle
  obtain ⟨next, heq, hcut, hecn⟩ := winAvoid_cases cfg c stats hpos
  refine ⟨next, heq, fun hcong => ?_, ?_⟩
  · rw [← hkeep hcong]
    exact hcut hcong
  · rw [hecn]
    by_cases hdrop : stats.cDrops > 0 ∨ c.ccRexmits > 0
    · rw [if_pos hdrop, if_pos (.inr hdrop)]
    have hmark : ¬ (c.win.slowstart = true ∧ stats.cEcnb = 0) := by
      rintro ⟨hstart, hzero⟩
      rw [not_or, UInt16.not_lt, not_lt, UInt16.le_zero_iff, le_zero_iff] at hdrop
      simp [winCongested, hstart, hzero, hdrop.1, hdrop.2] at hslow
    rw [if_neg hdrop, if_neg (not_or.mpr ⟨hmark, hdrop⟩)]

theorem winStep_good {cfg : CcConfig} {c : CcConn} {i : WinInput} (hbw : cfg.tcpLinkBw ≠ 0)
    (hlen : 1400 ≤ c.txLen.toNat) (hwin : 1400 ≤ c.win.window.toNat)
    (hpos : 0 < (rttUsed cfg i.stats).toNat) (hrtt : (rttUsed cfg i.stats).toNat < 4294967) :
    ∃ c', winStep cfg c i = some c' ∧ WinGood cfg c i c' := by
  have hmss : confMss ≤ c.win.window := le_iff_toNat_le.mpr hwin
  obtain ⟨next, hnext, hcut, hecn⟩ :=
    winNext_good cfg { c with ccRexmits := i.rexmits } i.stats hmss
  have hclamp := winClamp_toNat c.txLen next.1
  have hlow : confMss ≤ winClamp c.txLen next.1 := by
    rw [le_iff_toNat_le, hclamp]
    exact le_min (le_max_right _ _) hlen
  obtain ⟨rate, hrate, hone, hle⟩ := windowToRate_sound hbw hlow hpos hrtt
  have hstep : winStep cfg c i = some
      { c with
        ccRtt := rttUsed cfg i.stats
        ccRate := rate
        win := ⟨next.2, winClamp c.txLen next.1,
          c.win.slowstart && !winCongested { c with ccRexmits := i.rexmits } i.stats⟩
        ccRexmits := 0 } := by
    rw [winStep, dctcpWinUpdate, if_neg (not_lt.mpr hmss), hnext]
    simp only [Option.bind_eq_bind, Option.bind_some, hrate, if_neg (not_lt.mpr hlow)]
  refine ⟨_, hstep, ?_⟩
  constructor
  · exact le_iff_toNat_le.mp hlow
  · change (winClamp c.txLen next.1).toNat ≤ _
    omega
  · rfl
  · rw [hecn, apply_ite UInt32.toNat, ecnUpdate_toNat]
  · intro hcong
    change (winClamp c.txLen next.1).toNat ≤ c.win.window.toNat
    have hcut' : next.1.toNat ≤ c.win.window.toNat := hcut (winCongested_of_report hcong)
    omega
  · exact hone
  · exact hle

/-- A connection with a window of at least a segment and room for one. -/
structure WinSound (c : CcConn) (txLen : UInt32) : Prop where
  txLen_eq : c.txLen = txLen
  mss_le : 1400 ≤ c.win.window.toNat

/-- The round-trip time in use is positive, and fits into 32 bits in
nanoseconds. -/
def RttFits (cfg : CcConfig) (i : WinInput) : Prop :=
  0 < (rttUsed cfg i.stats).toNat ∧ (rttUsed cfg i.stats).toNat < 4294967
deriving Decidable

theorem winRun_sound {cfg : CcConfig} {txLen : UInt32} (hbw : cfg.tcpLinkBw ≠ 0)
    (hlen : 1400 ≤ txLen.toNat) {inputs : List WinInput} (hrtt : ∀ i ∈ inputs, RttFits cfg i)
    {c : CcConn} (hc : WinSound c txLen) :
    ∃ c', inputs.foldlM (winStep cfg) c = some c' ∧ WinSound c' txLen := by
  induction inputs generalizing c with
  | nil => exact ⟨c, rfl, hc⟩
  | cons i inputs ih =>
    obtain ⟨hpos, hfits⟩ := hrtt i (List.mem_cons_self ..)
    obtain ⟨c₁, hstep, hgood⟩ := winStep_good hbw (hc.txLen_eq ▸ hlen) hc.mss_le hpos hfits
    obtain ⟨c', hrun, hsound⟩ := ih (fun j hj => hrtt j (List.mem_cons_of_mem _ hj))
      ⟨hgood.txLen_eq.trans hc.txLen_eq, hgood.mss_le⟩
    refine ⟨c', ?_, hsound⟩
    rw [List.foldlM_cons, hstep]
    exact hrun

theorem dctcpWinInit_sound {cfg : CcConfig} {c c₀ : CcConn} (h : dctcpWinInit cfg c = some c₀) :
    WinSound c₀ c.txLen := by
  unfold dctcpWinInit at h
  cases hrate : windowToRate cfg (2 * confMss) cfg.tcpRttInit with
  | none =>
    rw [hrate] at h
    cases h
  | some rate =>
    rw [hrate] at h
    cases h
    exact ⟨rfl, show 1400 ≤ (2 * confMss : UInt32).toNat by decide⟩

/-- After `dctcp_win_init` every sequence of updates passes all asserts and keeps the window between
a segment and the send buffer. -/
theorem dctcp_win_updates (mem c₀ : CcConn) (hbw : cfg.tcpLinkBw ≠ 0)
    (hlen : confMss ≤ mem.txLen) (hinit : dctcpWinInit cfg mem = some c₀)
    (inputs : List WinInput) (i : WinInput) (hrtt : ∀ j ∈ inputs ++ [i], RttFits cfg j) :
    ∃ c c', inputs.foldlM (winStep cfg) c₀ = some c ∧ winStep cfg c i = some c' ∧
      c.txLen = mem.txLen ∧ WinGood cfg c i c' := by
  have hlen' : 1400 ≤ mem.txLen.toNat := le_iff_toNat_le.mp hlen
  obtain ⟨c, hrun, hc⟩ := winRun_sound hbw hlen'
    (fun j hj => hrtt j (List.mem_append_left _ hj)) (dctcpWinInit_sound hinit)
  obtain ⟨hpos, hfits⟩ := hrtt i (List.mem_append_right _ (List.mem_singleton_self i))
  obtain ⟨c', hstep, hgood⟩ := winStep_good hbw (hc.txLen_eq ▸ hlen') hc.mss_le hpos hfits
  exact ⟨c, c', hrun, hstep, hc.txLen_eq, hgood⟩

def winDefaults : CcConfig := { configDefaults with ccAlgorithm := .dctcpWin }

def winConn : CcConn := { (default : CcConn) with txLen := 8192 }

def winReport (drops : UInt16) (ackb ecnb rtt : UInt32) : WinInput :=
  ⟨⟨drops, 1, ackb, ecnb, false, rtt⟩, 0⟩

/-- Slow start, marks, a drop, and growth again. -/
theorem dctcp_win_updates_run :
    ∃ c₀ c c', dctcpWinInit winDefaults winConn = some c₀ ∧
      [winReport 0 4294967295 0 20, winReport 0 1000 4000 0].foldlM (winStep winDefaults) c₀ =
        some c ∧
      winStep winDefaults c (winReport 1 100 0 30) = some c' ∧ c.txLen = winConn.txLen ∧
      WinGood winDefaults c (winReport 1 100 0 30) c' := by
  obtain ⟨c₀, hinit⟩ : ∃ c₀, dctcpWinInit winDefaults winConn = some c₀ :=
    Option.isSome_iff_exists.mp (by decide +kernel)
  obtain ⟨c, c', hrun, hstep, hlen, hgood⟩ := dctcp_win_updates winDefaults winConn c₀ (by decide)
    (by decide) hinit [winReport 0 4294967295 0 20, winReport 0 1000 4000 0]
    (winReport 1 100 0 30) (by decide +kernel)
  exact ⟨c₀, c, c', hinit, hrun, hstep, hlen, hgood⟩

/-- A link of 20000 Gbps and no initial round-trip time, both taken by the
configuration. -/
def winFastLink : CcConfig := { winDefaults with tcpLinkBw := 20000, tcpRttInit := 0 }

/-- A drop before the first round-trip time: the assert of `window_to_rate` fails. -/
theorem dctcp_win_assert_fails :
    winFastLink.tcpLinkBw ≠ 0 ∧ confMss ≤ winConn.txLen ∧
      (rttUsed winFastLink (winReport 1 0 0 0).stats).toNat < 4294967 ∧
      ∃ c₀, dctcpWinInit winFastLink winConn = some c₀ ∧
        winStep winFastLink c₀ (winReport 1 0 0 0) = none := by
  refine ⟨by decide, by decide, by decide, ?_⟩
  obtain ⟨c₀, hinit⟩ : ∃ c₀, dctcpWinInit winFastLink winConn = some c₀ :=
    Option.isSome_iff_exists.mp (by decide +kernel)
  refine ⟨c₀, hinit, ?_⟩
  have hnone : (dctcpWinInit winFastLink winConn).bind
      (winStep winFastLink · (winReport 1 0 0 0)) = none := by decide +kernel
  rwa [hinit] at hnone

end StackBench.Tas

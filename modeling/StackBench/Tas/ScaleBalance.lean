import StackBench.Tas.Scaling

/-!
# How scaling spreads the entries over the cores

`network_scale_up` takes each entry from an old core with the most entries.
`network_scale_down` gives each to the core of `core_min`, which has the fewest
as long as one has fewer than 255, since the search starts from `UINT8_MAX`.
-/

namespace StackBench.Tas

open Attempt (Ends)

namespace Steering

/-- `network_scale_up` takes each entry from an old core with the most entries at that moment. -/
def TakesFromMost (s : Steering) (old new : UInt16) : Prop :=
  ∀ owners j rest, newOwners old new (s.retaSize / new) = owners ++ j :: rest →
    ∃ s' k k', owners.foldlM (takeEntry old) (s.clearMask, 0) = .ok (s', k) ∧
      takeEntry old (s', k) j = .ok (s'.moveEntry k' (s'.reta k') j, k') ∧
      s'.reta k' < old ∧ ∀ c < old, s'.coreBuckets c ≤ s'.coreBuckets (s'.reta k')

/-- `network_scale_down` gives each entry to a remaining core with the fewest at that moment. -/
def GivesToLeast (s : Steering) (new : UInt16) : Prop :=
  ∀ i < s.retaSize.toNat,
    let s' := (List.range i).foldl (giveEntry · new ·) s.clearMask
    let c := (s'.giveEntry new i).reta i
    new ≤ s'.reta i → c < new ∧ ∀ d < new, s'.coreBuckets c ≤ s'.coreBuckets d

/-- The counts of the first `num` cores are within one of each other. -/
def Level (s : Steering) (num : UInt16) : Prop :=
  ∀ c < num, ∀ d < num, (s.coreBuckets c).toNat ≤ (s.coreBuckets d).toNat + 1

variable {s : Steering} {size new : UInt16} {old : ℕ}

theorem Consistent.takesFromMost {old : UInt16} (h : s.Consistent size old.toNat)
    (hsize : size.toNat ≤ maxFlowgroups) (hold : 0 < old.toNat) (hlt : old.toNat < new.toNat)
    (hnew : new.toNat ≤ 256) : s.TakesFromMost old new := by
  intro owners j rest howners
  rw [h.retaSize] at howners
  have hpos : 0 < size.toNat := by
    refine Nat.pos_of_ne_zero fun hzero => ?_
    rw [newOwners_of_empty hzero] at howners
    exact absurd howners.symm (by simp)
  have hstart := h.growing hold hlt hpos
  rw [howners] at hstart
  have hends := Ends.foldlM (I := fun js => Growing size old.toNat new.toNat (js ++ j :: rest))
    (fun _ _ _ hsk => hsk.takeEntry hsize hnew) owners hstart
  obtain ⟨sk, hrun, hends⟩ := hends.returns
  obtain ⟨k', -, htake, hlow, hmost⟩ := hends.takeEntry_eq j
  exact ⟨sk.1, sk.2, k', hrun, htake, UInt16.lt_iff_toNat_lt.mpr hlow,
    fun c hc => hmost c (UInt16.lt_iff_toNat_lt.mp hc)⟩

theorem giveEntry_reta {i : ℕ} (hge : new ≤ s.reta i) :
    (s.giveEntry new i).reta i = s.coreMin new := by
  rw [Steering.giveEntry, if_pos hge]
  exact Function.update_self ..

theorem entriesOf_three (s : Steering) (n : ℕ) {a b c : UInt16} (hab : a ≠ b) (hac : a ≠ c)
    (hbc : b ≠ c) : s.entriesOf n a + s.entriesOf n b + s.entriesOf n c ≤ n := by
  induction n with
  | zero => exact Nat.le_refl 0
  | succ n ih =>
    simp only [entriesOf_succ]
    grind

/-- While an entry is left to be moved in a table of 511 entries, no remaining core has 255 and
another one more. -/
theorem Shrinking.coreMin_le {n : ℕ} (h : Shrinking size old new.toNat n s)
    (hsize : size.toNat ≤ 511) (hnew : 0 < new.toNat) (hn : n < size.toNat) (hge : new ≤ s.reta n)
    {d : UInt16} (hd : d.toNat < new.toNat) : s.coreBuckets (s.coreMin new) ≤ s.coreBuckets d := by
  obtain ⟨hmin, hleast⟩ := s.coreMin_spec hnew
  have hge' := UInt16.le_iff_toNat_le.mp hge
  have hne {c : UInt16} (hc : c.toNat < new.toNat) : c ≠ s.reta n := by
    rintro rfl
    omega
  by_contra hlt
  have hlarge : ¬s.coreBuckets d < 255 := fun hsmall => hlt (hleast d hd hsmall d hd)
  have hdiff : d ≠ s.coreMin new := fun heq => hlt (heq ▸ UInt16.le_refl _)
  have hthree := s.entriesOf_three size.toNat hdiff (hne hd) (hne hmin)
  have hpos := entriesOf_pos (s := s) hn
  rw [← h.counted.buckets, ← h.counted.buckets] at hthree
  rw [UInt16.le_iff_toNat_le] at hlt
  rw [UInt16.lt_iff_toNat_lt] at hlarge
  change ¬_ < 255 at hlarge
  omega

theorem Shrinking.level {n : ℕ} (h : Shrinking size old new.toNat n s) (hlevel : s.Level new)
    (hsize : size.toNat ≤ 511) (hnew : 0 < new.toNat) (hlt : new.toNat < old) (hold : old ≤ 256)
    (hn : n < size.toNat) : (s.giveEntry new n).Level new := by
  have hafter := (h.giveEntry (hsize.trans (by decide)) hnew hlt hold hn).counted.buckets
  have hbefore := h.counted.buckets
  unfold Steering.giveEntry at hafter ⊢
  dsimp only at hafter ⊢
  split
  · next hge =>
    rw [if_pos hge] at hafter
    have hcount : ∀ c < new, s.entriesOf size.toNat c + (if s.coreMin new = c then 1 else 0) =
        (s.moveEntry n (s.reta n) (s.coreMin new)).entriesOf size.toNat c := by
      intro c hc
      have hmove := entriesOf_moveEntry (s := s) hn (s.coreMin new) c
      rw [if_neg fun heq : s.reta n = c => UInt16.not_le.mpr hc (heq ▸ hge)] at hmove
      exact hmove.symm
    intro c hc d hd
    have hcd := hlevel c hc d hd
    have hmin := UInt16.le_iff_toNat_le.mp
      (h.coreMin_le hsize hnew hn hge (UInt16.lt_iff_toNat_lt.mp hd))
    rw [hafter, hafter, ← hcount c hc, ← hcount d hd, ← hbefore, ← hbefore]
    split
    · next heq =>
      rw [heq] at hmin
      omega
    · omega
  · exact hlevel

theorem Consistent.level (h : s.Consistent size old) (hlevel : s.Level new)
    (hsize : size.toNat ≤ 511) (hnew : 0 < new.toNat) (hlt : new.toNat < old) (hold : old ≤ 256) :
    (s.networkScaleDown new).Level new := by
  have hloop : ∀ n ≤ size.toNat,
      ((List.range n).foldl (Steering.giveEntry · new ·) s.clearMask).Level new := by
    intro n
    induction n with
    | zero => exact fun _ => hlevel
    | succ n ih =>
      intro hn
      rw [List.range_succ, List.foldl_concat]
      exact (h.shrinking (hsize.trans (by decide)) hnew hlt hold (by omega)).level
        (ih (by omega)) hsize hnew hlt hold hn
  unfold Steering.networkScaleDown
  rw [h.retaSize]
  exact hloop size.toNat (Nat.le_refl _)

theorem Consistent.givesToLeast (h : s.Consistent size old) (hsize : size.toNat ≤ 511)
    (hnew : 0 < new.toNat) (hlt : new.toNat < old) (hold : old ≤ 256) : s.GivesToLeast new := by
  intro i hi s' c hge
  rw [h.retaSize] at hi
  have hshrink := h.shrinking (hsize.trans (by decide)) hnew hlt hold hi.le
  have hc : c = s'.coreMin new := giveEntry_reta hge
  rw [hc]
  exact ⟨UInt16.lt_iff_toNat_lt.mpr (s'.coreMin_spec hnew).1, fun d hd =>
    hshrink.coreMin_le hsize hnew hi hge (UInt16.lt_iff_toNat_lt.mp hd)⟩

/-- The counts when the core `j` gets an entry of the first core. -/
def takeBucket (buckets : UInt16 → UInt16) (j : UInt16) : UInt16 → UInt16 :=
  let taken := Function.update buckets 0 (buckets 0 - 1)
  Function.update taken j (taken j + 1)

theorem foldlM_takeEntry_one {owners : List UInt16} {sk sk' : Steering × ℕ}
    (h : owners.foldlM (takeEntry 1) sk = .ok sk') :
    sk'.1.coreBuckets = owners.foldl takeBucket sk.1.coreBuckets := by
  induction owners generalizing sk with
  | nil =>
    cases h
    rfl
  | cons j owners ih =>
    have hmax : sk.1.coreMax 1 = 0 := by
      show (if sk.1.coreBuckets 0 ≥ 0 then ((0 : UInt16), sk.1.coreBuckets 0) else (0, 0)).1 = 0
      split <;> rfl
    rw [List.foldlM_cons, takeEntry, hmax] at h
    cases hfind : sk.1.findEntry 0 sk.1.retaSize.toNat sk.2 with
    | error f =>
      rw [hfind] at h
      cases h
    | ok k =>
      rw [hfind] at h
      exact ih h

/-- Two cores with at least 255 entries: the first one gets the next entry also if
it has more. -/
theorem not_givesToLeast {i : ℕ} (hi : i < s.retaSize.toNat) (hreta : 2 ≤ s.reta i)
    (hzero : 255 ≤ s.coreBuckets 0) (hone : 255 ≤ s.coreBuckets 1)
    (hmore : s.coreBuckets 1 < s.coreBuckets 0) : ¬s.GivesToLeast 2 := by
  intro hleast
  have hsome : ∃ i, i < s.retaSize.toNat ∧ 2 ≤ s.reta i := ⟨i, hi, hreta⟩
  obtain ⟨hi, hreta⟩ := Nat.find_spec hsome
  have hsame : ∀ n ≤ Nat.find hsome,
      (List.range n).foldl (giveEntry · 2 ·) s.clearMask = s.clearMask := by
    intro n
    induction n with
    | zero => exact fun _ => rfl
    | succ n ih =>
      intro hn
      rw [List.range_succ, List.foldl_concat, ih (by omega), giveEntry]
      exact if_neg fun hge => Nat.find_min hsome hn ⟨by omega, hge⟩
  have hmin : s.clearMask.coreMin 2 = 0 := by
    simp [coreMin, clearMask, List.range_succ, UInt16.not_lt.mpr hzero, UInt16.not_lt.mpr hone]
  obtain ⟨-, hgive⟩ := hleast (Nat.find hsome) hi
    (by rw [hsame _ (Nat.le_refl _)]; exact hreta)
  have hle := hgive 1 (by decide)
  rw [hsame _ (Nat.le_refl _), giveEntry_reta (s := s.clearMask) hreta, hmin] at hle
  exact UInt16.not_le.mpr hmore hle

end Steering

open Steering

/-- `network_scale_up` takes from the fullest cores, and in a table of at most 510 entries
`network_scale_down` gives to the emptiest ones. -/
theorem scaling_balances (retaSize : UInt16) (fpCoresMax fpCoresCur : UInt32) (sts : List UInt32)
    (hinit : coresAllowed fpCoresMax = true) (hsize : retaSize.toNat ≤ maxFlowgroups)
    (hcur : 1 ≤ fpCoresCur.toNat ∧ fpCoresCur.toNat ≤ fpCoresMax.toNat)
    (hasked : ∀ st ∈ sts, 1 ≤ st.toNat ∧ st.toNat ≤ fpCoresMax.toNat) :
    ∃ w, scaleRun retaSize fpCoresCur sts = .ok w ∧
      ∀ st : UInt32, 1 ≤ st.toNat → st.toNat ≤ fpCoresMax.toNat →
        (w.fpCoresCur < st →
          w.steering.TakesFromMost w.fpCoresCur.toUInt16 st.toUInt16) ∧
        (st < w.fpCoresCur → retaSize.toNat ≤ 511 →
          w.steering.GivesToLeast st.toUInt16 ∧
          (w.steering.Level w.fpCoresCur.toUInt16 →
            (w.steering.networkScaleDown st.toUInt16).Level st.toUInt16)) := by
  obtain ⟨w, hrun, hinv⟩ := scaleRun_inv retaSize fpCoresMax fpCoresCur sts hinit hsize hcur hasked
  have hmax : fpCoresMax.toNat ≤ 16 := UInt32.le_iff_toNat_le.mp (of_decide_eq_true hinit)
  refine ⟨w, hrun, fun st hpos hst => ⟨fun hup => ?_, fun hdown hsmall => ?_⟩⟩
  all_goals
    have hst16 := toUInt16_toNat (hst.trans hmax)
    have hcur16 := toUInt16_toNat (hinv.range.2.trans hmax)
    have hrange := hinv.range
    have hcons := hinv.consistent
  · have hlt := UInt32.lt_iff_toNat_lt.mp hup
    rw [← hcur16] at hcons
    exact hcons.takesFromMost hsize (by omega) (by omega) (by omega)
  · have hlt := UInt32.lt_iff_toNat_lt.mp hdown
    refine ⟨hcons.givesToLeast hsmall (by omega) (by omega) (by omega), fun hlevel => ?_⟩
    refine hcons.level (fun c hc d hd => ?_) hsmall (by omega) (by omega) (by omega)
    rw [UInt16.lt_iff_toNat_lt] at hc hd
    exact hlevel c (UInt16.lt_iff_toNat_lt.mpr (by omega)) d (UInt16.lt_iff_toNat_lt.mpr (by omega))

theorem scaling_balances_small :
    ∃ w, scaleRun 5 1 [3] = .ok w ∧ ∀ st : UInt32, 1 ≤ st.toNat → st.toNat ≤ (4 : UInt32).toNat →
      (w.fpCoresCur < st → w.steering.TakesFromMost w.fpCoresCur.toUInt16 st.toUInt16) ∧
      (st < w.fpCoresCur → (5 : UInt16).toNat ≤ 511 →
        w.steering.GivesToLeast st.toUInt16 ∧
        (w.steering.Level w.fpCoresCur.toUInt16 →
          (w.steering.networkScaleDown st.toUInt16).Level st.toUInt16)) :=
  scaling_balances 5 4 1 [3] (by decide) (by decide) (by decide) (by simp)

theorem scaleRun_one {size : UInt16} {st : UInt32} {w : Cores}
    (h : scaleRun size 1 [st] = .ok w) (hsize : size.toNat ≤ maxFlowgroups) (hst : 1 < st) :
    w.steering.coreBuckets = (newOwners 1 st.toUInt16 (size / st.toUInt16)).foldl takeBucket
      ((List.range size.toNat).foldl (setupEntry 1) (unset size, 0)).1.coreBuckets := by
  obtain ⟨-, -, -, hs⟩ :=
    setup_counted size (show 0 < (1 : UInt32).toNat by decide) (by decide) hsize
  have hne : st ≠ 0 := by
    rintro rfl
    exact absurd hst (by decide)
  rw [scaleRun, retaSetup, if_neg (Nat.not_lt.mpr hsize)] at h
  change (Cores.pollScale _ st).bind pure = _ at h
  rw [Cores.pollScale, if_neg hne, if_neg (UInt32.not_lt.mpr (UInt32.le_of_lt hst)), if_pos hst,
    networkScaleUp] at h
  rw [show (Steering.retaUpdate _).retaSize = size from hs] at h
  cases hfold : (newOwners 1 st.toUInt16 (size / st.toUInt16)).foldlM (takeEntry 1)
      (clearMask _, 0) with
  | error f =>
    rw [show (1 : UInt32).toUInt16 = 1 from rfl, hfold] at h
    cases h
  | ok sk =>
    rw [show (1 : UInt32).toUInt16 = 1 from rfl, hfold] at h
    cases h
    exact foldlM_takeEntry_one hfold

/-- From three to two cores the first entry goes to the core with 258 entries, not to that with 256.
-/
theorem scaling_down_unbalanced :
    ∃ w, scaleRun 770 1 [3] = .ok w ∧ w.fpCoresCur = 3 ∧ ¬w.steering.GivesToLeast 2 := by
  obtain ⟨w, hrun, hinv⟩ := scaleRun_inv 770 3 1 [3] (by decide) (by decide) (by decide) (by simp)
  have hbuckets := scaleRun_one hrun (by decide) (by decide)
  have hzero : w.steering.coreBuckets 0 = 258 := by rw [hbuckets]; decide +kernel
  have hone : w.steering.coreBuckets 1 = 256 := by rw [hbuckets]; decide +kernel
  have htwo : w.steering.coreBuckets 2 = 256 := by rw [hbuckets]; decide +kernel
  have hpos : 0 < w.steering.entriesOf 770 2 := by
    have hcount := hinv.consistent.counted.buckets 2
    rw [htwo] at hcount
    exact hcount.symm ▸ (by decide : 0 < 256)
  obtain ⟨i, hi, hreta⟩ := exists_of_entriesOf_pos hpos
  refine ⟨w, hrun, hinv.last, not_givesToLeast (i := i) (hinv.consistent.retaSize.symm ▸ hi) ?_ ?_
    ?_ ?_⟩
  · rw [hreta]
    exact UInt16.le_refl _
  · rw [hzero]
    decide
  · rw [hone]
    decide
  · rw [hzero, hone]
    decide

end StackBench.Tas

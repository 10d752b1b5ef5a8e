import StackBench.Lib.Attempt
import StackBench.Lib.Total

/-!
# Scaling the number of fast-path cores

The NIC spreads flow groups by its redirection table, and the slow path looks
them up in `flow_group_steering`. `network_scale_up` and `network_scale_down`
move entries between the cores, guided by their counts.
-/

namespace StackBench.Tas

open Function List
open Attempt (Ends)
open Total (total)

def maxFlowgroups : ℕ := 4096

def appstCtxMcs : UInt32 := 16

/-- The redirection table, whose entry `k` is `rss_reta[k / RTE_RETA_GROUP_SIZE].reta[k %
RTE_RETA_GROUP_SIZE]`, and the tables that go with it. -/
structure Steering where
  retaSize : UInt16
  reta : ℕ → UInt16
  /-- The bit of the entry in the mask of its group. -/
  mask : ℕ → Bool
  /-- The table in the NIC. -/
  nicReta : ℕ → UInt16
  coreBuckets : UInt16 → UInt16
  flowGroupSteering : ℕ → UInt8

/-- What keeps a call from returning. -/
inductive ScaleFault where
  | abort
  /-- The inner loop of `network_scale_up` finds no entry. -/
  | endless
deriving DecidableEq

namespace Steering

variable (s : Steering)

/-- `core_min`. The count of a core is compared with `UINT8_MAX` first. -/
def coreMin (num : UInt16) : UInt16 :=
  ((List.range num.toNat).foldl (fun m i =>
    if s.coreBuckets (UInt16.ofNat i) < m.2 then (UInt16.ofNat i, s.coreBuckets (UInt16.ofNat i))
    else m) (0, 255)).1

def coreMax (num : UInt16) : UInt16 :=
  ((List.range num.toNat).foldl (fun m i =>
    if s.coreBuckets (UInt16.ofNat i) ≥ m.2 then (UInt16.ofNat i, s.coreBuckets (UInt16.ofNat i))
    else m) (0, 0)).1

/-- Entry `k` goes from the core `c` to the core `j`. -/
def moveEntry (k : ℕ) (c j : UInt16) : Steering :=
  let taken := update s.coreBuckets c (s.coreBuckets c - 1)
  { s with
    mask := update s.mask k true
    reta := update s.reta k j
    flowGroupSteering := update s.flowGroupSteering k j.toUInt8
    coreBuckets := update taken j (taken j + 1) }

def clearMask : Steering := { s with mask := fun _ => false }

/-- `rte_eth_dev_rss_reta_update`: the NIC takes the entries with a set bit. -/
def retaUpdate : Steering :=
  { s with nicReta := fun k => if s.mask k then s.reta k else s.nicReta k }

/-- The endless loop of `network_scale_up` from `k` on, which never ends if one turn finds nothing.
-/
def findEntry (s : Steering) (c : UInt16) : ℕ → ℕ → Except ScaleFault ℕ
  | 0, _ => .error .endless
  | fuel + 1, k =>
    if s.reta k = c then .ok k else findEntry s c fuel ((k + 1) % s.retaSize.toNat)

/-- One entry of the fullest of the `old` cores goes to the core `j`. -/
def takeEntry (old : UInt16) (sk : Steering × ℕ) (j : UInt16) : Except ScaleFault (Steering × ℕ) :=
  let (s, k) := sk
  let c := s.coreMax old
  (s.findEntry c s.retaSize.toNat k).map fun k => (s.moveEntry k c j, k)

/-- The cores that get an entry, in the order of the two loops. -/
def newOwners (old new share : UInt16) : List UInt16 :=
  (List.range (new.toNat - old.toNat)).flatMap fun i =>
    List.replicate share.toNat (UInt16.ofNat (old.toNat + i))

def networkScaleUp (old new : UInt16) : Except ScaleFault Steering :=
  let share := s.retaSize / new
  ((newOwners old new share).foldlM (takeEntry old) (s.clearMask, 0)).map fun sk =>
    sk.1.retaUpdate

def giveEntry (new : UInt16) (i : ℕ) : Steering :=
  let o := s.reta i
  if o ≥ new then s.moveEntry i o (s.coreMin new) else s

def networkScaleDown (new : UInt16) : Steering :=
  ((List.range s.retaSize.toNat).foldl (giveEntry · new ·) s.clearMask).retaUpdate

def setupEntry (fpCoresCur : UInt32) (sc : Steering × UInt16) (i : ℕ) : Steering × UInt16 :=
  let (s, c) := sc
  ({ s with
      coreBuckets := update s.coreBuckets c (s.coreBuckets c + 1)
      mask := update s.mask i true
      reta := update s.reta i c
      flowGroupSteering := update s.flowGroupSteering i c.toUInt8 },
    ((c.toUInt32 + 1) % fpCoresCur).toUInt16)

/-- The tables before `reta_setup`. What the NIC and `flow_group_steering` held
before does not matter. -/
def unset (retaSize : UInt16) : Steering where
  retaSize := retaSize
  reta := fun _ => 0
  mask := fun _ => false
  nicReta := fun _ => 0
  coreBuckets := fun _ => 0
  flowGroupSteering := fun _ => 0

def retaSetup (retaSize : UInt16) (fpCoresCur : UInt32) : Except ScaleFault Steering :=
  if maxFlowgroups < retaSize.toNat then .error .abort
  else .ok ((List.range retaSize.toNat).foldl (setupEntry fpCoresCur)
    (unset retaSize, 0)).1.retaUpdate

end Steering

/-- The check of `dataplane_init` on the number of cores. -/
def coresAllowed (fpCoresMax : UInt32) : Bool := fpCoresMax ≤ appstCtxMcs

structure Cores where
  steering : Steering
  fpCoresCur : UInt32

/-- `poll_scale`, where `st` is what `flexnic_scale_to` has stored. -/
def Cores.pollScale (w : Cores) (st : UInt32) : Except ScaleFault Cores :=
  if st = 0 then .ok w
  else if st < w.fpCoresCur then
    .ok { steering := w.steering.networkScaleDown st.toUInt16, fpCoresCur := st }
  else if st > w.fpCoresCur then
    (w.steering.networkScaleUp w.fpCoresCur.toUInt16 st.toUInt16).map fun s =>
      { steering := s, fpCoresCur := st }
  else .ok w

namespace Steering

variable {s : Steering}

/-- The number of entries for the core `c` among the entries before `n`. -/
def entriesOf (s : Steering) (n : ℕ) (c : UInt16) : ℕ :=
  total (Finset.range n) (fun e => if e = c then 1 else 0) s.reta

theorem entriesOf_succ (s : Steering) (n : ℕ) (c : UInt16) :
    s.entriesOf (n + 1) c = s.entriesOf n c + if s.reta n = c then 1 else 0 :=
  Finset.sum_range_succ (fun k => if s.reta k = c then 1 else 0) n

theorem entriesOf_le (s : Steering) (n : ℕ) (c : UInt16) : s.entriesOf n c ≤ n := by
  induction n with
  | zero => exact Nat.le_refl 0
  | succ n ih =>
    rw [entriesOf_succ]
    split <;> omega

variable {n k cores : ℕ} {size old c new j num : UInt16} {fpCoresCur : UInt32}

theorem entriesOf_pos (hk : k < n) : 0 < s.entriesOf n (s.reta k) := by
  have hle := Total.le_total (Finset.mem_range.mpr hk)
    (fun e : UInt16 => if e = s.reta k then 1 else 0) s.reta
  rw [if_pos rfl] at hle
  exact hle

theorem entriesOf_eq_zero (h : ∀ k < n, s.reta k ≠ c) : s.entriesOf n c = 0 :=
  Total.total_eq_zero fun k hk => if_neg (h k (Finset.mem_range.mp hk))

theorem exists_of_entriesOf_pos (h : 0 < s.entriesOf n c) : ∃ k < n, s.reta k = c := by
  by_contra hcon
  push Not at hcon
  exact absurd (entriesOf_eq_zero hcon) h.ne'

/-- The entries before `n` agree with counts and `flow_group_steering`, and the NIC has them or will
be told. -/
structure Counted (s : Steering) (n : ℕ) : Prop where
  steering : ∀ k < n, (s.flowGroupSteering k).toNat = (s.reta k).toNat
  buckets : ∀ c, (s.coreBuckets c).toNat = s.entriesOf n c
  nic : ∀ k < n, s.mask k = true ∨ s.nicReta k = s.reta k

/-- The entries before `n` are for the first `cores` cores. -/
def Below (s : Steering) (n cores : ℕ) : Prop := ∀ k < n, (s.reta k).toNat < cores

theorem Below.moveEntry (hj : j.toNat < cores)
    (h : ∀ i < n, i ≠ k → (s.reta i).toNat < cores) : (s.moveEntry k c j).Below n cores := by
  intro i hi
  by_cases hik : i = k
  · subst hik
    simp only [Steering.moveEntry, update_self]
    exact hj
  · simp only [Steering.moveEntry, update_of_ne hik]
    exact h i hi hik

theorem toUInt8_toNat (hj : j.toNat < 256) : j.toUInt8.toNat = j.toNat := by
  exact Nat.mod_eq_of_lt hj

theorem entriesOf_moveEntry (hk : k < n) (j x : UInt16) :
    (s.moveEntry k (s.reta k) j).entriesOf n x + (if s.reta k = x then 1 else 0) =
      s.entriesOf n x + if j = x then 1 else 0 :=
  Total.total_update (Finset.mem_range.mpr hk) (fun e => if e = x then 1 else 0) s.reta j

theorem Counted.moveEntry (h : s.Counted n) (hn : n ≤ maxFlowgroups) (hk : k < n)
    (hj : j.toNat < 256) (hne : j ≠ s.reta k) : (s.moveEntry k (s.reta k) j).Counted n := by
  refine ⟨fun i hi => ?_, fun x => ?_, fun i hi => ?_⟩
  · by_cases hik : i = k
    · subst hik
      simp only [Steering.moveEntry, update_self]
      exact toUInt8_toNat hj
    · simp only [Steering.moveEntry, update_of_ne hik]
      exact h.steering i hi
  · have hmove := entriesOf_moveEntry (s := s) hk j x
    have hle := s.entriesOf_le n x
    have hx := h.buckets x
    have hmax : maxFlowgroups = 4096 := rfl
    have hone : (1 : UInt16).toNat = 1 := rfl
    by_cases hxj : x = j
    · subst hxj
      have hbucket : (s.moveEntry k (s.reta k) x).coreBuckets x = s.coreBuckets x + 1 := by
        simp only [Steering.moveEntry, update_self, update_of_ne hne]
      rw [if_neg (Ne.symm hne), if_pos rfl] at hmove
      rw [hbucket, UInt16.toNat_add, hx]
      omega
    rw [if_neg (Ne.symm hxj)] at hmove
    by_cases hxk : x = s.reta k
    · subst hxk
      have hbucket : (s.moveEntry k (s.reta k) j).coreBuckets (s.reta k) =
          s.coreBuckets (s.reta k) - 1 := by
        simp only [Steering.moveEntry, update_of_ne hxj, update_self]
      rw [if_pos rfl] at hmove
      rw [hbucket, UInt16.toNat_sub_of_le _ _ (UInt16.le_iff_toNat_le.mpr (by omega)), hx]
      omega
    have hbucket : (s.moveEntry k (s.reta k) j).coreBuckets x = s.coreBuckets x := by
      simp only [Steering.moveEntry, update_of_ne hxj, update_of_ne hxk]
    rw [if_neg (Ne.symm hxk)] at hmove
    rw [hbucket, hx]
    exact hmove.symm
  · by_cases hik : i = k
    · subst hik
      left
      simp only [Steering.moveEntry, update_self]
    · simp only [Steering.moveEntry, update_of_ne hik]
      exact h.nic i hi

theorem Counted.clearMask (h : s.Counted n) (hnic : ∀ k < n, s.nicReta k = s.reta k) :
    s.clearMask.Counted n :=
  ⟨h.steering, h.buckets, fun k hk => Or.inr (hnic k hk)⟩

theorem Counted.retaUpdate (h : s.Counted n) :
    s.retaUpdate.Counted n ∧ ∀ k < n, s.retaUpdate.nicReta k = s.retaUpdate.reta k := by
  have hnic : ∀ k < n, s.retaUpdate.nicReta k = s.retaUpdate.reta k := by
    intro k hk
    rcases h.nic k hk with hmask | hsame
    · exact if_pos hmask
    simp only [Steering.retaUpdate]
    split
    · rfl
    · exact hsame
  exact ⟨⟨h.steering, h.buckets, fun k hk => Or.inr (hnic k hk)⟩, hnic⟩

theorem ofNat_toNat_of_lt {i : ℕ} (hi : i < num.toNat) : (UInt16.ofNat i).toNat = i := by
  have hlt := num.toNat_lt
  exact Nat.mod_eq_of_lt (by omega)

theorem scan_spec {P R : UInt16 → UInt16 → Prop} [DecidableRel P] (hrefl : ∀ a, R a a)
    (hnew : ∀ {a b}, P a b → ∀ {c}, R c b → R c a) (hkeep : ∀ {a b}, ¬P a b → R a b)
    (f : UInt16 → UInt16) (v : UInt16) (hn : n ≤ num.toNat) :
    let m := (List.range n).foldl (fun m i =>
      if P (f (UInt16.ofNat i)) m.2 then (UInt16.ofNat i, f (UInt16.ofNat i)) else m) (0, v)
    (m = (0, v) ∨ m.1.toNat < n ∧ m.2 = f m.1) ∧ ∀ c : UInt16, c.toNat < n → R (f c) m.2 := by
  induction n with
  | zero => exact ⟨Or.inl rfl, fun c hc => absurd hc (Nat.not_lt_zero _)⟩
  | succ n ih =>
    obtain ⟨hm, hbest⟩ := ih (by omega)
    have hlast : (UInt16.ofNat n).toNat = n := ofNat_toNat_of_lt hn
    have hcases : ∀ {c : UInt16}, c.toNat < n + 1 → c.toNat < n ∨ c = UInt16.ofNat n :=
      fun hc => (Nat.lt_succ_iff_lt_or_eq.mp hc).imp_right fun heq =>
        UInt16.toNat_inj.mp (heq.trans hlast.symm)
    rw [range_succ, foldl_concat]
    split
    · next hP =>
      refine ⟨Or.inr ⟨hlast.trans_lt n.lt_succ_self, rfl⟩, fun c hc => ?_⟩
      obtain hlt | rfl := hcases hc
      · exact hnew hP (hbest c hlt)
      · exact hrefl _
    next hP =>
    refine ⟨hm.imp_right fun h => ⟨by omega, h.2⟩, fun c hc => ?_⟩
    obtain hlt | rfl := hcases hc
    · exact hbest c hlt
    · exact hkeep hP

theorem coreMin_spec (s : Steering) (hnum : 0 < num.toNat) :
    (s.coreMin num).toNat < num.toNat ∧ ∀ d : UInt16, d.toNat < num.toNat →
      s.coreBuckets d < 255 → ∀ c : UInt16, c.toNat < num.toNat →
        s.coreBuckets (s.coreMin num) ≤ s.coreBuckets c := by
  obtain ⟨hm, hleast⟩ := scan_spec (P := (· < ·)) (R := (· ≥ ·)) UInt16.le_refl
    (fun hlt _ hle => UInt16.le_trans (UInt16.le_of_lt hlt) hle) (fun h => UInt16.not_lt.mp h)
    s.coreBuckets 255 (le_refl num.toNat)
  unfold coreMin
  obtain hm | ⟨hlt, hval⟩ := hm
  · rw [hm] at hleast ⊢
    exact ⟨hnum, fun d hd hsmall => absurd hsmall (UInt16.not_lt.mpr (hleast d hd))⟩
  · rw [hval] at hleast
    exact ⟨hlt, fun _ _ _ => hleast⟩

theorem coreMax_spec (s : Steering) (hnum : 0 < num.toNat) : (s.coreMax num).toNat < num.toNat ∧
      ∀ c : UInt16, c.toNat < num.toNat → s.coreBuckets c ≤ s.coreBuckets (s.coreMax num) := by
  obtain ⟨hm, hmost⟩ := scan_spec (P := (· ≥ ·)) (R := (· ≤ ·)) UInt16.le_refl
    (fun hge _ hle => UInt16.le_trans hle hge) (fun h => UInt16.le_of_lt (UInt16.not_le.mp h))
    s.coreBuckets 0 (le_refl num.toNat)
  unfold coreMax
  obtain hm | ⟨hlt, hval⟩ := hm
  · rw [hm] at hmost ⊢
    exact ⟨hnum, fun c hc => UInt16.le_trans (hmost c hc) UInt16.zero_le⟩
  · rw [hval] at hmost
    exact ⟨hlt, hmost⟩

theorem Counted.setupEntry (h : s.Counted n) (hn : n < maxFlowgroups)
    (hc : c.toNat < 256) (fpCoresCur : UInt32) :
    (Steering.setupEntry fpCoresCur (s, c) n).1.Counted (n + 1) := by
  have hentries : ∀ x, (Steering.setupEntry fpCoresCur (s, c) n).1.entriesOf (n + 1) x =
      s.entriesOf n x + if c = x then 1 else 0 := by
    intro x
    have hbefore : (Steering.setupEntry fpCoresCur (s, c) n).1.entriesOf n x =
        s.entriesOf n x := by
      unfold entriesOf total
      refine Finset.sum_congr rfl fun k hk => ?_
      have hne : k ≠ n := (Finset.mem_range.mp hk).ne
      simp only [Steering.setupEntry, update_of_ne hne]
    rw [entriesOf_succ, hbefore]
    simp only [Steering.setupEntry, update_self]
  refine ⟨fun k hk => ?_, fun x => ?_, fun k hk => ?_⟩
  · by_cases hkn : k = n
    · subst hkn
      simp only [Steering.setupEntry, update_self]
      exact toUInt8_toNat hc
    · simp only [Steering.setupEntry, update_of_ne hkn]
      exact h.steering k (by omega)
  · rw [hentries]
    have hx := h.buckets x
    have hle := s.entriesOf_le n x
    have hmax : maxFlowgroups = 4096 := rfl
    by_cases hxc : x = c
    · subst hxc
      have hbucket : (Steering.setupEntry fpCoresCur (s, x) n).1.coreBuckets x =
          s.coreBuckets x + 1 := by
        simp only [Steering.setupEntry, update_self]
      have hone : (1 : UInt16).toNat = 1 := rfl
      rw [hbucket, if_pos rfl, UInt16.toNat_add, hx]
      omega
    · simp only [Steering.setupEntry, update_of_ne hxc]
      rw [if_neg (Ne.symm hxc), hx]
      rfl
  · by_cases hkn : k = n
    · subst hkn
      left
      simp only [Steering.setupEntry, update_self]
    · simp only [Steering.setupEntry, update_of_ne hkn]
      exact h.nic k (by omega)

theorem nextCore_lt (hcur : 0 < fpCoresCur.toNat) :
    ((c.toUInt32 + 1) % fpCoresCur).toUInt16.toNat < fpCoresCur.toNat := by
  exact lt_of_le_of_lt (Nat.mod_le _ _) (Nat.mod_lt _ hcur)

theorem setup_counted (retaSize : UInt16) (hcur : 0 < fpCoresCur.toNat)
    (hmax : fpCoresCur.toNat ≤ 16) (hn : n ≤ maxFlowgroups) :
    let sc := (List.range n).foldl (setupEntry fpCoresCur) (unset retaSize, 0)
    sc.1.Counted n ∧ sc.1.Below n fpCoresCur.toNat ∧ sc.2.toNat < fpCoresCur.toNat ∧
      sc.1.retaSize = retaSize := by
  induction n with
  | zero =>
    refine ⟨⟨fun k hk => absurd hk (Nat.not_lt_zero k), fun c => rfl,
      fun k hk => absurd hk (Nat.not_lt_zero k)⟩, fun k hk => absurd hk (Nat.not_lt_zero k), hcur,
      rfl⟩
  | succ n ih =>
    obtain ⟨hcounted, hbelow, hc, hsize⟩ := ih (by omega)
    rw [range_succ, foldl_concat]
    refine ⟨hcounted.setupEntry (by omega) (by omega) fpCoresCur, fun k hk => ?_,
      nextCore_lt hcur, hsize⟩
    by_cases hkn : k = n
    · subst hkn
      simp only [setupEntry, update_self]
      exact hc
    · simp only [setupEntry, update_of_ne hkn]
      exact hbelow k (by omega)

theorem findEntry_ends (fuel k : ℕ) (hk : k < s.retaSize.toNat)
    (hsome : ∃ i < fuel, s.reta ((k + i) % s.retaSize.toNat) = c) :
    Ends (fun k' => k' < s.retaSize.toNat ∧ s.reta k' = c) (fun _ => False)
      (s.findEntry c fuel k) := by
  induction fuel generalizing k with
  | zero =>
    obtain ⟨i, hi, -⟩ := hsome
    exact absurd hi (Nat.not_lt_zero i)
  | succ fuel ih =>
    rw [findEntry]
    split
    · next heq => exact ⟨hk, heq⟩
    next hne =>
    refine ih _ (Nat.mod_lt _ (by omega)) ?_
    obtain ⟨i, hi, heq⟩ := hsome
    cases i with
    | zero =>
      rw [Nat.add_zero, Nat.mod_eq_of_lt hk] at heq
      exact absurd heq hne
    | succ i =>
      refine ⟨i, by omega, ?_⟩
      rw [Nat.mod_add_mod, Nat.add_assoc, Nat.add_comm 1 i]
      exact heq

/-- Every entry lies ahead of `k` on a turn around the table. -/
theorem exists_ahead {i : ℕ} (hk : k < n) (hi : i < n) : ∃ d < n, (k + d) % n = i := by
  by_cases hle : k ≤ i
  · refine ⟨i - k, by omega, ?_⟩
    rw [Nat.add_sub_cancel' hle, Nat.mod_eq_of_lt hi]
  · refine ⟨i + n - k, by omega, ?_⟩
    rw [Nat.add_sub_cancel' (by omega), Nat.add_mod_right, Nat.mod_eq_of_lt hi]

/-- The number of entries for the first `cores` cores. -/
def entriesBelow (s : Steering) (n cores : ℕ) : ℕ :=
  total (Finset.range n) (fun e => if e.toNat < cores then 1 else 0) s.reta

theorem entriesBelow_of_below (h : s.Below n cores) : s.entriesBelow n cores = n := by
  have hone : s.entriesBelow n cores = ∑ _k ∈ Finset.range n, 1 :=
    Finset.sum_congr rfl fun k hk => if_pos (h k (Finset.mem_range.mp hk))
  rw [hone, ← Finset.card_eq_sum_ones, Finset.card_range]

theorem exists_of_entriesBelow_pos (h : 0 < s.entriesBelow n cores) :
    ∃ k < n, (s.reta k).toNat < cores := by
  by_contra hcon
  have hzero : s.entriesBelow n cores = 0 :=
    Total.total_eq_zero fun k hk => if_neg fun hlt => hcon ⟨k, Finset.mem_range.mp hk, hlt⟩
  exact absurd hzero h.ne'

/-- In the loops of `network_scale_up` the old cores have more entries than are still to be moved.
-/
structure Growing (size : UInt16) (old new : ℕ) (owners : List UInt16) (sk : Steering × ℕ) :
    Prop where
  retaSize : sk.1.retaSize = size
  position : sk.2 < size.toNat
  counted : sk.1.Counted size.toNat
  below : sk.1.Below size.toNat new
  range : ∀ j ∈ owners, old ≤ j.toNat ∧ j.toNat < new
  enough : owners.length < sk.1.entriesBelow size.toNat old

theorem Growing.takeEntry_eq {new : ℕ} {owners : List UInt16}
    {sk : Steering × ℕ} (h : Growing size old.toNat new owners sk) (j : UInt16) :
    ∃ k < size.toNat, takeEntry old sk j = .ok (sk.1.moveEntry k (sk.1.reta k) j, k) ∧
      (sk.1.reta k).toNat < old.toNat ∧ ∀ c : UInt16, c.toNat < old.toNat →
        sk.1.coreBuckets c ≤ sk.1.coreBuckets (sk.1.reta k) := by
  obtain ⟨s, k⟩ := sk
  obtain ⟨rfl, hk, hcounted, -, -, henough⟩ := h
  -- some old core has an entry, so the fullest of them has one
  obtain ⟨i, hi, hiold⟩ := exists_of_entriesBelow_pos (Nat.zero_lt_of_lt henough)
  obtain ⟨hcold, hmost⟩ := s.coreMax_spec (Nat.zero_lt_of_lt hiold)
  have hpos : 0 < s.entriesOf s.retaSize.toNat (s.coreMax old) := by
    have hle := UInt16.le_iff_toNat_le.mp (hmost (s.reta i) hiold)
    rw [hcounted.buckets, hcounted.buckets] at hle
    exact (entriesOf_pos hi).trans_le hle
  obtain ⟨i', hi', heq⟩ := exists_of_entriesOf_pos hpos
  obtain ⟨d, hd, hpos'⟩ := exists_ahead hk hi'
  obtain ⟨k', hrun, hk', hmove⟩ := (findEntry_ends (c := s.coreMax old) s.retaSize.toNat k hk
    ⟨d, hd, by rw [hpos', heq]⟩).returns
  unfold takeEntry
  dsimp only
  rw [hrun, ← hmove]
  exact ⟨k', hk', rfl, hmove ▸ hcold, hmove ▸ hmost⟩

theorem Growing.takeEntry {new : ℕ} {owners : List UInt16}
    {sk : Steering × ℕ} (h : Growing size old.toNat new (j :: owners) sk)
    (hsize : size.toNat ≤ maxFlowgroups) (hnew : new ≤ 256) :
    Ends (Growing size old.toNat new owners) (fun _ => False) (takeEntry old sk j) := by
  obtain ⟨k, hk, htake, hcold, -⟩ := h.takeEntry_eq j
  obtain ⟨hjold, hjnew⟩ := h.range j mem_cons_self
  have henough := h.enough
  have hne : j ≠ sk.1.reta k := fun hcon => by
    rw [hcon] at hjold
    omega
  rw [htake]
  refine ⟨h.retaSize, hk, h.counted.moveEntry hsize hk (by omega) hne,
    Below.moveEntry hjnew fun i hi _ => h.below i hi,
    fun j' hj' => h.range j' (mem_cons_of_mem j hj'), ?_⟩
  have htotal := Total.total_update (Finset.mem_range.mpr hk)
    (fun e : UInt16 => if e.toNat < old.toNat then 1 else 0) sk.1.reta j
  rw [if_pos hcold, if_neg (Nat.not_lt.mpr hjold)] at htotal
  have hless : (sk.1.moveEntry k (sk.1.reta k) j).entriesBelow size.toNat old.toNat + 1 =
      sk.1.entriesBelow size.toNat old.toNat := htotal
  rw [length_cons] at henough
  dsimp only
  omega

theorem mem_newOwners {share : UInt16} (h : j ∈ newOwners old new share) :
    old.toNat ≤ j.toNat ∧ j.toNat < new.toNat := by
  rw [newOwners, mem_flatMap] at h
  obtain ⟨i, hi, hj⟩ := h
  have hi' := mem_range.mp hi
  have hj' : j.toNat = old.toNat + i := by
    rw [eq_of_mem_replicate hj]
    exact ofNat_toNat_of_lt (show old.toNat + i < new.toNat by omega)
  omega

theorem length_newOwners (old new share : UInt16) :
    (newOwners old new share).length = (new.toNat - old.toNat) * share.toNat := by
  simp only [newOwners, length_flatMap, length_replicate, map_const',
    length_range, sum_replicate_nat]

theorem length_newOwners_lt (hold : 0 < old.toNat)
    (hlt : old.toNat < new.toNat) (hsize : 0 < size.toNat) :
    (newOwners old new (size / new)).length < size.toNat := by
  rw [length_newOwners, UInt16.toNat_div]
  by_cases hshare : size.toNat / new.toNat = 0
  · rw [hshare, Nat.mul_zero]
    exact hsize
  calc (new.toNat - old.toNat) * (size.toNat / new.toNat)
      < new.toNat * (size.toNat / new.toNat) :=
        Nat.mul_lt_mul_of_pos_right (by omega) (Nat.pos_of_ne_zero hshare)
    _ ≤ size.toNat := Nat.mul_div_le _ _

/-- The tables agree, and so does the NIC. -/
structure Consistent (s : Steering) (size : UInt16) (cores : ℕ) : Prop where
  retaSize : s.retaSize = size
  counted : s.Counted size.toNat
  below : s.Below size.toNat cores
  nic : ∀ k < size.toNat, s.nicReta k = s.reta k

theorem Consistent.retaUpdate (hs : s.retaSize = size)
    (hcounted : s.Counted size.toNat) (hbelow : s.Below size.toNat cores) :
    s.retaUpdate.Consistent size cores := by
  obtain ⟨hcounted', hnic⟩ := hcounted.retaUpdate
  exact ⟨hs, hcounted', hbelow, hnic⟩

theorem Consistent.growing (h : s.Consistent size old.toNat)
    (hold : 0 < old.toNat) (hlt : old.toNat < new.toNat) (hpos : 0 < size.toNat) :
    Growing size old.toNat new.toNat (newOwners old new (size / new)) (s.clearMask, 0) where
  retaSize := h.retaSize
  position := hpos
  counted := h.counted.clearMask h.nic
  below k hk := (h.below k hk).trans hlt
  range _ hj := mem_newOwners hj
  enough := by
    have hall : s.clearMask.entriesBelow size.toNat old.toNat = size.toNat :=
      entriesBelow_of_below h.below
    rw [hall]
    exact length_newOwners_lt hold hlt hpos

theorem newOwners_of_empty (hzero : size.toNat = 0) : newOwners old new (size / new) = [] := by
  apply eq_nil_of_length_eq_zero
  rw [length_newOwners, UInt16.toNat_div, hzero, Nat.zero_div, Nat.mul_zero]

theorem Consistent.networkScaleUp (h : s.Consistent size old.toNat)
    (hsize : size.toNat ≤ maxFlowgroups) (new : UInt16) (hold : 0 < old.toNat)
    (hlt : old.toNat < new.toNat) (hnew : new.toNat ≤ 256) :
    Ends (fun s' => s'.Consistent size new.toNat) (fun _ => False)
      (s.networkScaleUp old new) := by
  unfold Steering.networkScaleUp
  dsimp only
  rw [h.retaSize]
  by_cases hzero : size.toNat = 0
  · rw [newOwners_of_empty hzero]
    exact retaUpdate h.retaSize (h.counted.clearMask h.nic)
      fun k hk => (h.below k hk).trans hlt
  · refine (Ends.foldlM (fun j owners sk hsk => hsk.takeEntry hsize hnew) _
      (h.growing hold hlt (Nat.pos_of_ne_zero hzero))).map fun sk hsk => ?_
    exact retaUpdate hsk.retaSize hsk.counted hsk.below

/-- The loop of `network_scale_down` after `n` rounds. -/
structure Shrinking (size : UInt16) (old new n : ℕ) (s : Steering) : Prop where
  retaSize : s.retaSize = size
  counted : s.Counted size.toNat
  below : s.Below size.toNat old
  done : s.Below n new

theorem Shrinking.giveEntry {old : ℕ}
    (h : Shrinking size old new.toNat n s) (hsize : size.toNat ≤ maxFlowgroups)
    (hnew : 0 < new.toNat) (hlt : new.toNat < old) (hold : old ≤ 256) (hn : n < size.toNat) :
    Shrinking size old new.toNat (n + 1) (s.giveEntry new n) := by
  have hdone : ∀ k < n + 1, k ≠ n → (s.reta k).toNat < new.toNat :=
    fun k hk hkn => h.done k (by omega)
  unfold Steering.giveEntry
  dsimp only
  split
  · next hge =>
    have hge' := UInt16.le_iff_toNat_le.mp hge
    have hmin := (s.coreMin_spec hnew).1
    have hne : s.coreMin new ≠ s.reta n := fun hcon => by
      rw [hcon] at hmin
      omega
    exact ⟨h.retaSize, h.counted.moveEntry hsize hn (by omega) hne,
      Below.moveEntry (hmin.trans hlt) fun i hi _ => h.below i hi, Below.moveEntry hmin hdone⟩
  next hlow =>
  have hlow' := UInt16.lt_iff_toNat_lt.mp (UInt16.not_le.mp hlow)
  refine { h with done := fun k hk => ?_ }
  by_cases hkn : k = n
  · subst hkn
    exact hlow'
  · exact hdone k hk hkn

theorem Consistent.shrinking {old : ℕ} (h : s.Consistent size old)
    (hsize : size.toNat ≤ maxFlowgroups) (hnew : 0 < new.toNat)
    (hlt : new.toNat < old) (hold : old ≤ 256) (hn : n ≤ size.toNat) :
    Shrinking size old new.toNat n
      ((List.range n).foldl (Steering.giveEntry · new ·) s.clearMask) := by
  induction n with
  | zero =>
    exact ⟨h.retaSize, h.counted.clearMask h.nic, h.below,
      fun k hk => absurd hk (Nat.not_lt_zero k)⟩
  | succ n ih =>
    rw [range_succ, foldl_concat]
    exact (ih (by omega)).giveEntry hsize hnew hlt hold hn

theorem Consistent.networkScaleDown {old : ℕ} (h : s.Consistent size old)
    (hsize : size.toNat ≤ maxFlowgroups) (new : UInt16) (hnew : 0 < new.toNat)
    (hlt : new.toNat < old) (hold : old ≤ 256) :
    (s.networkScaleDown new).Consistent size new.toNat := by
  have hend := h.shrinking hsize hnew hlt hold (Nat.le_refl _)
  unfold Steering.networkScaleDown
  rw [h.retaSize]
  exact retaUpdate hend.retaSize hend.counted hend.done

theorem retaSetup_consistent (hsize : size.toNat ≤ maxFlowgroups) (hcur : 0 < fpCoresCur.toNat)
    (hmax : fpCoresCur.toNat ≤ 16) :
    Ends (fun s => s.Consistent size fpCoresCur.toNat) (fun _ => False)
      (retaSetup size fpCoresCur) := by
  obtain ⟨hcounted, hbelow, -, hs⟩ := setup_counted size hcur hmax hsize
  rw [retaSetup, if_neg (Nat.not_lt.mpr hsize)]
  exact Consistent.retaUpdate hs hcounted hbelow

end Steering

open Steering

/-- `reta_setup` while `fp_cores_cur` cores run, and then calls of `poll_scale`. -/
def scaleRun (retaSize : UInt16) (fpCoresCur : UInt32) (sts : List UInt32) :
    Except ScaleFault Cores := do
  let s ← retaSetup retaSize fpCoresCur
  sts.foldlM Cores.pollScale { steering := s, fpCoresCur := fpCoresCur }

/-- The number of cores after the calls. -/
def lastCores (fpCoresCur : UInt32) (sts : List UInt32) : UInt32 := sts.getLastD fpCoresCur

/-- What is true between two calls, when the calls for `sts` are still to come. -/
structure Cores.Inv (size : UInt16) (fpCoresMax last : UInt32) (sts : List UInt32) (w : Cores) :
    Prop where
  consistent : w.steering.Consistent size w.fpCoresCur.toNat
  range : 1 ≤ w.fpCoresCur.toNat ∧ w.fpCoresCur.toNat ≤ fpCoresMax.toNat
  asked : ∀ st ∈ sts, 1 ≤ st.toNat ∧ st.toNat ≤ fpCoresMax.toNat
  last : sts.getLastD w.fpCoresCur = last

theorem toUInt16_toNat {n : UInt32} (hn : n.toNat ≤ 16) : n.toUInt16.toNat = n.toNat := by
  exact Nat.mod_eq_of_lt (by omega)

theorem Cores.Inv.pollScale {size : UInt16} {fpCoresMax last st : UInt32} {sts : List UInt32}
    {w : Cores} (h : w.Inv size fpCoresMax last (st :: sts)) (hsize : size.toNat ≤ maxFlowgroups)
    (hmax : fpCoresMax.toNat ≤ 16) :
    Ends (Cores.Inv size fpCoresMax last sts) (fun _ => False) (w.pollScale st) := by
  obtain ⟨hst, hstmax⟩ := h.asked st mem_cons_self
  have hasked : ∀ st' ∈ sts, 1 ≤ st'.toNat ∧ st'.toNat ≤ fpCoresMax.toNat :=
    fun st' hst' => h.asked st' (mem_cons_of_mem st hst')
  have hlast : sts.getLastD st = last := by
    have h' := h.last
    rwa [getLastD_cons] at h'
  have hcur := h.range
  have hst16 := toUInt16_toNat (hstmax.trans hmax)
  have hcur16 := toUInt16_toNat (hcur.2.trans hmax)
  have hne : st ≠ 0 := fun hcon => by
    rw [hcon] at hst
    exact absurd hst (by decide)
  unfold Cores.pollScale
  rw [if_neg hne]
  split
  · next hdown =>
    have hdown' := UInt32.lt_iff_toNat_lt.mp hdown
    refine ⟨?_, ⟨hst, hstmax⟩, hasked, hlast⟩
    have hcons := h.consistent.networkScaleDown hsize st.toUInt16 (by omega) (by omega)
      (by omega)
    rw [hst16] at hcons
    exact hcons
  split
  · next hup =>
    have hup' := UInt32.lt_iff_toNat_lt.mp hup
    have hcons := h.consistent
    rw [← hcur16] at hcons
    refine (hcons.networkScaleUp hsize st.toUInt16 (by omega) (by omega)
      (by omega)).map fun s hs => ?_
    rw [hst16] at hs
    exact ⟨hs, ⟨hst, hstmax⟩, hasked, hlast⟩
  next hdown hup =>
  have heq : w.fpCoresCur = st := by
    rw [← UInt32.toNat_inj]
    rw [UInt32.lt_iff_toNat_lt] at hdown
    rw [gt_iff_lt, UInt32.lt_iff_toNat_lt] at hup
    omega
  refine ⟨h.consistent, hcur, hasked, ?_⟩
  rw [heq]
  exact hlast

theorem scaleRun_inv (retaSize : UInt16) (fpCoresMax fpCoresCur : UInt32) (sts : List UInt32)
    (hinit : coresAllowed fpCoresMax = true) (hsize : retaSize.toNat ≤ maxFlowgroups)
    (hcur : 1 ≤ fpCoresCur.toNat ∧ fpCoresCur.toNat ≤ fpCoresMax.toNat)
    (hasked : ∀ st ∈ sts, 1 ≤ st.toNat ∧ st.toNat ≤ fpCoresMax.toNat) :
    ∃ w, scaleRun retaSize fpCoresCur sts = .ok w ∧
      w.Inv retaSize fpCoresMax (lastCores fpCoresCur sts) [] := by
  have hmax : fpCoresMax.toNat ≤ 16 := UInt32.le_iff_toNat_le.mp (of_decide_eq_true hinit)
  have hends : Ends (Cores.Inv retaSize fpCoresMax (lastCores fpCoresCur sts) [])
      (fun _ => False) (scaleRun retaSize fpCoresCur sts) := by
    refine Ends.bind (retaSetup_consistent hsize (by omega) (by omega)) fun s hs => ?_
    exact Ends.foldlM (fun st sts w hw => hw.pollScale hsize hmax) sts ⟨hs, hcur, hasked, rfl⟩
  exact hends.returns

/-- Whatever is asked for, every call returns, and the tables agree with each other and the number
of cores. -/
theorem scaling_keeps_steering (retaSize : UInt16) (fpCoresMax fpCoresCur : UInt32)
    (sts : List UInt32) (hinit : coresAllowed fpCoresMax = true)
    (hsize : retaSize.toNat ≤ maxFlowgroups)
    (hcur : 1 ≤ fpCoresCur.toNat ∧ fpCoresCur.toNat ≤ fpCoresMax.toNat)
    (hasked : ∀ st ∈ sts, 1 ≤ st.toNat ∧ st.toNat ≤ fpCoresMax.toNat) :
    ∃ w, scaleRun retaSize fpCoresCur sts = .ok w ∧
      w.fpCoresCur = lastCores fpCoresCur sts ∧
      (∀ k < retaSize.toNat,
        (w.steering.flowGroupSteering k).toNat = (w.steering.reta k).toNat ∧
        (w.steering.reta k).toNat < w.fpCoresCur.toNat ∧
        w.steering.nicReta k = w.steering.reta k) ∧
      ∀ c : UInt16, (w.steering.coreBuckets c).toNat =
        ((Finset.range retaSize.toNat).filter fun k => w.steering.reta k = c).card := by
  obtain ⟨w, hrun, hinv⟩ := scaleRun_inv retaSize fpCoresMax fpCoresCur sts hinit hsize hcur hasked
  have hcons := hinv.consistent
  refine ⟨w, hrun, hinv.last, fun k hk => ?_, fun c => ?_⟩
  · exact ⟨hcons.counted.steering k hk, hcons.below k hk, hcons.nic k hk⟩
  · rw [hcons.counted.buckets, Finset.card_filter]
    rfl

/-- Five entries and four cores: up to three cores, down to one, and up again. -/
theorem scaling_keeps_steering_small :
    ∃ w, scaleRun 5 2 [3, 1, 4] = .ok w ∧
      w.fpCoresCur = lastCores 2 [3, 1, 4] ∧
      (∀ k < (5 : UInt16).toNat,
        (w.steering.flowGroupSteering k).toNat = (w.steering.reta k).toNat ∧
        (w.steering.reta k).toNat < w.fpCoresCur.toNat ∧
        w.steering.nicReta k = w.steering.reta k) ∧
      ∀ c : UInt16, (w.steering.coreBuckets c).toNat =
        ((Finset.range (5 : UInt16).toNat).filter fun k => w.steering.reta k = c).card :=
  scaling_keeps_steering 5 4 2 [3, 1, 4] (by decide) (by decide) (by decide) (by simp)

end StackBench.Tas

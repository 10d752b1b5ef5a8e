import Mathlib.Algebra.Order.Ring.Nat
import StackBench.Lib.Run
import StackBench.Tas.FlowState
import StackBench.Tas.Scaling

/-!
# The number of cores and the flow groups

An application asks for a number of cores, and the load monitor for one more or
less. Both go through `flexnic_scale_to`, and `poll_scale` carries the change
out. The flow group of a packet is its index in the redirection table.
-/

namespace StackBench.Tas

open Attempt (Ends)

/-- The static variables of `flexnic_loadmon`. -/
structure LoadMon where
  ewmaBusy : UInt64
  ewmaCycles : UInt64
  lastTsc : UInt64
  waiting : Bool
  waitingN : ℕ

/-- The averages of busy and of all cycles, and the count of the waiting period. -/
def LoadMon.observe (m : LoadMon) (cycBusy tsc : UInt64) : LoadMon where
  ewmaBusy := (7 * m.ewmaBusy + cycBusy) / 8
  ewmaCycles := (7 * m.ewmaCycles + (tsc - m.lastTsc)) / 8
  lastTsc := tsc
  waiting := m.waiting
  waitingN := if m.waiting then m.waitingN + 1 else m.waitingN

def LoadMon.idCyc (m : LoadMon) (numCores : UInt32) : UInt64 :=
  let total := numCores.toUInt64 * m.ewmaCycles
  if total > m.ewmaBusy then total - m.ewmaBusy else 0

/-- `flexnic_loadmon` after it read `num_cores`, with the busy cycles and the counter: the cores it
asks for. -/
def LoadMon.decide (m : LoadMon) (fpCoresMax numCores : UInt32) (cycBusy tsc : UInt64) :
    LoadMon × Option UInt32 :=
  if m.lastTsc = 0 then ({ m with lastTsc := tsc }, none)
  else
    let m := m.observe cycBusy tsc
    if m.waiting ∧ m.waitingN < 10 then (m, none)
    else if numCores > 1 ∧ m.idCyc numCores > m.ewmaCycles * 5 / 4 then
      ({ m with waiting := true, waitingN := 0 }, some (numCores - 1))
    else if numCores < fpCoresMax ∧ m.idCyc numCores < m.ewmaCycles / 5 then
      ({ m with waiting := true, waitingN := 0 }, some (numCores + 1))
    else (m, none)

/-- It asks for one core less of at least two, or for one more if there is one. -/
theorem LoadMon.decide_range {m m' : LoadMon} {fpCoresMax numCores st : UInt32}
    {cycBusy tsc : UInt64} (h : m.decide fpCoresMax numCores cycBusy tsc = (m', some st))
    (hmax : numCores.toNat ≤ fpCoresMax.toNat) : st.toNat ≤ fpCoresMax.toNat := by
  unfold LoadMon.decide at h
  dsimp only at h
  split at h
  · cases h
  split at h
  · cases h
  split at h
  · next hdown =>
    cases h
    have hone : (1 : UInt32) ≤ numCores := UInt32.le_of_lt hdown.1
    rw [UInt32.toNat_sub_of_le _ _ hone]
    exact (Nat.sub_le _ _).trans hmax
  split at h
  · next hup =>
    cases h
    exact (Nat.mod_le _ _).trans (UInt32.lt_iff_toNat_lt.mp hup.1)
  · cases h

/-- `fp_scale_to`, the monitor, and `num_cores` while `flexnic_loadmon` runs. -/
structure ScaleWorld where
  cores : Cores
  fpScaleTo : UInt32
  mon : LoadMon
  numCores : Option UInt32
  fault : Option ScaleFault

inductive ScaleOp where
  /-- `kin_req_scale`. -/
  | reqScale (numCores : UInt32)
  /-- `flexnic_loadmon` reads `fp_cores_cur`. -/
  | loadmon
  /-- The rest of `flexnic_loadmon`; it returns at once if a core has no context yet. -/
  | loadmonRest (cycBusy : Option UInt64) (tsc : UInt64)
  | pollScale

namespace ScaleWorld

/-- The state after `reta_setup` with one core. -/
def start (s : Steering) : ScaleWorld where
  cores := ⟨s, 1⟩
  fpScaleTo := 0
  mon := ⟨0, 0, 0, true, 0⟩
  numCores := none
  fault := none

def flexnicScaleTo (w : ScaleWorld) (cores : UInt32) : ScaleWorld :=
  if w.fpScaleTo ≠ 0 then w else { w with fpScaleTo := cores }

def step (fpCoresMax : UInt32) (w : ScaleWorld) : ScaleOp → ScaleWorld
  | .reqScale n => if w.numCores = none then w.flexnicScaleTo n else w
  | .loadmon => if w.numCores = none then { w with numCores := some w.cores.fpCoresCur } else w
  | .loadmonRest busy tsc =>
    match w.numCores, busy with
    | none, _ => w
    | some _, none => { w with numCores := none }
    | some n, some cycBusy =>
      let (mon, st) := w.mon.decide fpCoresMax n cycBusy tsc
      match st with
      | none => { w with mon := mon, numCores := none }
      | some st => { w with mon := mon, numCores := none }.flexnicScaleTo st
  | .pollScale =>
    match w.cores.pollScale w.fpScaleTo with
    | .ok cores => { w with cores := cores, fpScaleTo := 0 }
    | .error f => { w with fault := some f }

/-- Applications ask for no more cores than there are. -/
def Ok (fpCoresMax : UInt32) (_ : ScaleWorld) : ScaleOp → Prop
  | .reqScale n => n ≤ fpCoresMax
  | _ => True

/-- The numbers of cores are in range, and the running cores own all entries of the table. -/
structure Legal (size : UInt16) (fpCoresMax : UInt32) (w : ScaleWorld) : Prop where
  cur : 1 ≤ w.cores.fpCoresCur ∧ w.cores.fpCoresCur ≤ fpCoresMax
  asked : w.fpScaleTo ≤ fpCoresMax
  snapshot : ∀ n ∈ w.numCores, 1 ≤ n ∧ n ≤ fpCoresMax
  owners : ∀ k < size.toNat, (w.cores.steering.reta k).toNat < w.cores.fpCoresCur.toNat
  fault : w.fault = none

structure Inv (size : UInt16) (fpCoresMax : UInt32) (w : ScaleWorld) : Prop where
  consistent : w.cores.steering.Consistent size w.cores.fpCoresCur.toNat
  range : 1 ≤ w.cores.fpCoresCur.toNat ∧ w.cores.fpCoresCur.toNat ≤ fpCoresMax.toNat
  asked : w.fpScaleTo.toNat ≤ fpCoresMax.toNat
  numCores : ∀ n ∈ w.numCores, 1 ≤ n.toNat ∧ n.toNat ≤ fpCoresMax.toNat
  fault : w.fault = none

variable {size : UInt16} {fpCoresMax : UInt32} {w : ScaleWorld}

section

variable (h : w.Inv size fpCoresMax)
include h

theorem Inv.legal : w.Legal size fpCoresMax where
  cur := ⟨UInt32.le_iff_toNat_le.mpr h.range.1, UInt32.le_iff_toNat_le.mpr h.range.2⟩
  asked := UInt32.le_iff_toNat_le.mpr h.asked
  snapshot n hn := (h.numCores n hn).imp UInt32.le_iff_toNat_le.mpr UInt32.le_iff_toNat_le.mpr
  owners := h.consistent.below
  fault := h.fault

theorem Inv.flexnicScaleTo {cores : UInt32}
    (hcores : cores.toNat ≤ fpCoresMax.toNat) : (w.flexnicScaleTo cores).Inv size fpCoresMax := by
  unfold ScaleWorld.flexnicScaleTo
  split
  · exact h
  · exact { h with asked := hcores }

variable (hsize : size.toNat ≤ maxFlowgroups) (hmax : fpCoresMax.toNat ≤ 16)
include hsize hmax

theorem Inv.pollScale : (w.step fpCoresMax .pollScale).Inv size fpCoresMax := by
  have hends : Ends (fun c => c.steering.Consistent size c.fpCoresCur.toNat ∧
      1 ≤ c.fpCoresCur.toNat ∧ c.fpCoresCur.toNat ≤ fpCoresMax.toNat) (fun _ => False)
      (w.cores.pollScale w.fpScaleTo) := by
    by_cases hzero : w.fpScaleTo = 0
    · rw [Cores.pollScale, if_pos hzero]
      exact ⟨h.consistent, h.range⟩
    have hpos : 1 ≤ w.fpScaleTo.toNat := Nat.pos_of_ne_zero fun h0 => hzero (UInt32.toNat_inj.mp h0)
    have hinv : w.cores.Inv size fpCoresMax w.fpScaleTo [w.fpScaleTo] :=
      ⟨h.consistent, h.range, by simpa using ⟨hpos, h.asked⟩, rfl⟩
    exact (hinv.pollScale hsize hmax).mono fun c hc => ⟨hc.consistent, hc.range⟩
  obtain ⟨c, hrun, hends⟩ := hends.returns
  unfold ScaleWorld.step
  simp only [hrun]
  exact { h with consistent := hends.1, range := hends.2, asked := Nat.zero_le _ }

theorem Inv.step {op : ScaleOp} (hok : w.Ok fpCoresMax op) :
    (w.step fpCoresMax op).Inv size fpCoresMax := by
  cases op with
  | pollScale => exact h.pollScale hsize hmax
  | reqScale n =>
    unfold ScaleWorld.step
    dsimp only
    split
    · exact h.flexnicScaleTo (UInt32.le_iff_toNat_le.mp hok)
    · exact h
  | loadmon =>
    unfold ScaleWorld.step
    dsimp only
    split
    · exact { h with numCores := fun n hn => Option.some.inj hn ▸ h.range }
    · exact h
  | loadmonRest busy tsc =>
    unfold ScaleWorld.step
    dsimp only
    split
    · exact h
    · exact { h with numCores := nofun }
    · next n cycBusy hn =>
      have hidle : ∀ mon, ({ w with mon := mon, numCores := none } : ScaleWorld).Inv size
          fpCoresMax := fun mon => { h with numCores := nofun }
      cases hd : w.mon.decide fpCoresMax n cycBusy tsc with
      | mk mon st =>
        cases st with
        | none => exact hidle mon
        | some st =>
          exact (hidle mon).flexnicScaleTo (LoadMon.decide_range hd (h.numCores n hn).2)

end

/-- Where applications ask for no more cores than there are, the number of cores stays in range. -/
theorem core_count_legal (size : UInt16) (fpCoresMax : UInt32) (s : Steering)
    (hinit : coresAllowed fpCoresMax = true) (hone : 1 ≤ fpCoresMax)
    (hsetup : Steering.retaSetup size 1 = .ok s) (ops : List ScaleOp)
    (hrun : Run.Admissible (step fpCoresMax) (Ok fpCoresMax) (start s) ops) :
    (ops.foldl (step fpCoresMax) (start s)).Legal size fpCoresMax := by
  have hmax : fpCoresMax.toNat ≤ 16 := UInt32.le_iff_toNat_le.mp (of_decide_eq_true hinit)
  have hsize : size.toNat ≤ maxFlowgroups := by
    by_contra hlarge
    rw [Steering.retaSetup, if_pos (Nat.lt_of_not_le hlarge)] at hsetup
    cases hsetup
  have hcons := Steering.retaSetup_consistent hsize (show 0 < (1 : UInt32).toNat by decide)
    (by decide)
  rw [hsetup] at hcons
  have hstart : (start s).Inv size fpCoresMax :=
    ⟨hcons, ⟨Nat.le_refl 1, UInt32.le_iff_toNat_le.mp hone⟩, Nat.zero_le _, by simp [start], rfl⟩
  exact (hrun.invariant hstart fun _ _ h hok => h.step hsize hmax hok).legal

def scaleTwice : List ScaleOp :=
  [.reqScale 2, .loadmon, .pollScale, .loadmonRest (some 3) 9, .reqScale 0, .loadmon,
    .loadmonRest none 0, .reqScale 1, .pollScale]

theorem core_count_legal_scaleTwice :
    ∃ s, Steering.retaSetup 8 1 = .ok s ∧
      (scaleTwice.foldl (step 2) (start s)).Legal 8 2 :=
  ⟨_, rfl, core_count_legal 8 2 _ (by decide) (by decide) rfl scaleTwice
    (by simp [scaleTwice, Run.Admissible, Ok])⟩

/-- An application asks for five cores where there are two, and an entry goes to the fifth. -/
theorem core_count_exceeds_max :
    ∃ s, Steering.retaSetup 8 1 = .ok s ∧
      let w := [ScaleOp.reqScale 5, .pollScale].foldl (step 2) (start s)
      w.fault = none ∧ w.cores.fpCoresCur = 5 ∧ w.cores.steering.coreBuckets 4 = 1 :=
  ⟨_, rfl, by decide +kernel⟩

end ScaleWorld

/-- `rss_reta_size`, which only `reta_setup` sets. -/
def rssRetaSize (fpAutoscale : Bool) (retaSize : UInt16) : UInt16 :=
  if fpAutoscale then retaSize else 0

/-- `network_buf_flowgroup`, for a packet with the RSS hash that the NIC gave it. -/
def networkBufFlowgroup (rssRetaSize : UInt16) : Option UInt32 → UInt16
  | none => 0
  | some rss => (rss &&& (rssRetaSize.toUInt32 - 1)).toUInt16

/-- The NIC delivers to `nicCore`: the low bits of the hash index its redirection table. -/
def IndexesReta (nicCore : Steering → UInt32 → UInt16) : Prop :=
  ∀ s rss, nicCore s rss = s.nicReta (rss.toNat % s.retaSize.toNat)

theorem networkBufFlowgroup_toNat {retaSize : UInt16} {k : ℕ} (hsize : retaSize.toNat = 2 ^ k)
    (rss : UInt32) :
    (networkBufFlowgroup retaSize (some rss)).toNat = rss.toNat % retaSize.toNat := by
  have hlt := retaSize.toNat_lt
  have hpos : 0 < 2 ^ k := Nat.two_pow_pos k
  have hmask : (retaSize.toUInt32 - 1).toNat = 2 ^ k - 1 := by
    rw [UInt32.toNat_sub_of_le _ _ (UInt32.le_iff_toNat_le.mpr ?_), UInt16.toNat_toUInt32, hsize]
    · rfl
    · rw [UInt16.toNat_toUInt32, hsize]
      exact hpos
  rw [networkBufFlowgroup, UInt32.toNat_toUInt16, UInt32.toNat_and, hmask,
    Nat.and_two_pow_sub_one_eq_mod, hsize]
  exact Nat.mod_eq_of_lt ((Nat.mod_lt _ hpos).trans (hsize ▸ hlt))

/-- A connection's flow group indexes `flow_group_steering`, which names the core of the NIC. -/
def Cores.FlowGroupsOk (w : Cores) (nicCore : Steering → UInt32 → UInt16)
    (rssRetaSize : UInt16) : Prop :=
  ∀ (old : FlowSt) (a : ConnArgs) (hash : Option UInt32),
    a.flowGroup = networkBufFlowgroup rssRetaSize hash →
      (nicifConnectionAdd old a).flowGroup.toNat < maxFlowgroups ∧
      ∀ rss ∈ hash,
        (w.steering.flowGroupSteering (nicifConnectionAdd old a).flowGroup.toNat).toNat =
        (nicCore w.steering rss).toNat

/-- With automatic scaling and a power of two entries, flow groups are right in every state. -/
theorem flow_groups_index_steering (nicCore : Steering → UInt32 → UInt16)
    (hnic : IndexesReta nicCore) (retaSize : UInt16) (fpCoresMax fpCoresCur : UInt32)
    (sts : List UInt32) (hinit : coresAllowed fpCoresMax = true)
    (hsize : retaSize.toNat ≤ maxFlowgroups) (hpow : ∃ k, retaSize.toNat = 2 ^ k)
    (hcur : 1 ≤ fpCoresCur.toNat ∧ fpCoresCur.toNat ≤ fpCoresMax.toNat)
    (hasked : ∀ st ∈ sts, 1 ≤ st.toNat ∧ st.toNat ≤ fpCoresMax.toNat) :
    ∃ w, scaleRun retaSize fpCoresCur sts = .ok w ∧
      w.FlowGroupsOk nicCore (rssRetaSize true retaSize) := by
  obtain ⟨w, hrun, hinv⟩ := scaleRun_inv retaSize fpCoresMax fpCoresCur sts hinit hsize hcur hasked
  obtain ⟨k, hk⟩ := hpow
  have hpos : 0 < retaSize.toNat := hk ▸ Nat.two_pow_pos k
  refine ⟨w, hrun, fun old a hash hgroup => ?_⟩
  have hstored : (nicifConnectionAdd old a).flowGroup = networkBufFlowgroup retaSize hash := hgroup
  rw [hstored]
  cases hash with
  | none => exact ⟨Nat.zero_lt_of_lt (Nat.lt_of_lt_of_le hpos hsize), nofun⟩
  | some rss =>
    have hcons := hinv.consistent
    have hlt := Nat.mod_lt rss.toNat hpos
    rw [networkBufFlowgroup_toNat hk]
    refine ⟨hlt.trans_le hsize, fun rss' hrss' => ?_⟩
    cases hrss'
    rw [hcons.counted.steering _ hlt, hnic, hcons.retaSize, hcons.nic _ hlt]

theorem flow_groups_index_steering_eight :
    let nicCore := fun (s : Steering) (rss : UInt32) => s.nicReta (rss.toNat % s.retaSize.toNat)
    ∃ w, scaleRun 8 1 [3, 2] = .ok w ∧ w.FlowGroupsOk nicCore (rssRetaSize true 8) :=
  flow_groups_index_steering _ (fun _ _ => rfl) 8 4 1 [3, 2] (by decide) (by decide) ⟨3, rfl⟩
    (by decide) (by simp)

/-- Without automatic scaling the mask is all ones, and half of the hash is stored. -/
theorem flow_group_out_of_range :
    let fg := networkBufFlowgroup (rssRetaSize false 128) (some 0xffff)
    maxFlowgroups ≤ (nicifConnectionAdd default
      { fourByteConn 0 with flowGroup := fg }).flowGroup.toNat := by
  decide

end StackBench.Tas

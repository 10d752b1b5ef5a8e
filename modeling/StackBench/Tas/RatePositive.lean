import StackBench.Lib.Run
import StackBench.Tas.DctcpWin
import StackBench.Tas.FastFlows

/-!
# A rate-limited flow stays rate limited

A queue with rate zero is not limited. The rate is halved when the flow goes
back to its last acknowledged byte, and set by `cc_poll`. A connection is
followed through packets, updates, firings, timeouts, forwarding and visits of
`cc_poll` with arbitrary counters. The rates handed to `qman_set` from
`tx_rate` are logged.
-/

namespace StackBench.Tas.RatePositive

open Option (bind_eq_bind bind_eq_some_iff)

/-- A connection, its flow state, and the rates passed to `qman_set` from it. -/
structure Paced where
  conn : CcConn
  fs : FlowSt
  passed : List UInt32

inductive Event where
  | flow (op : FlowOp)
  | qmanFwd
  | poll (stats : ConnStats) (cur : UInt32) (sent : Bool)

/-- The result of a call on the flow: its state, and the rate if the queue manager
was called. -/
def Paced.after (w : Paced) (out : FlowOut) : Paced :=
  { w with fs := out.fs, passed := w.passed ++ (out.qman.map QmanSet.rate).toList }

/-- One event; `none` is a failed `assert` or a division by zero. -/
def step (cfg : CcConfig) (fId : UInt32) (w : Paced) : Event → Option Paced
  | .flow (.qman core steering txBuf ts) =>
    some { w with fs := (fastFlowsQman core steering fId w.fs txBuf ts).fs }
  | .flow op => some (w.after (op.run fId w.fs))
  | .qmanFwd => some (w.after (fastFlowsQmanFwd fId w.fs))
  | .poll stats cur sent =>
    (ccVisit cfg w.conn stats cur sent).map fun c =>
      { w with
        conn := c
        fs := if ccDue cfg w.conn cur then nicifConnectionSetrate fId w.fs c.ccRate else w.fs }

/-- The algorithm has a positive lower bound of the rate where it needs one. -/
def FloorPositive (cfg : CcConfig) : Prop :=
  (cfg.ccAlgorithm = .dctcpRate → 0 < cfg.ccDctcpMin) ∧
    (cfg.ccAlgorithm = .timely → 0 < cfg.ccTimelyMinRate)
deriving Decidable

/-- The event goes back to the last acknowledged byte. -/
def resets (fs : FlowSt) : Event → Bool
  | .flow (.packet p _) => packetReset fs p
  | .flow .retransmit => decide (fs.txSent ≠ 0)
  | _ => false

/-- The event does not halve a rate of one. -/
def HalvesFine (w : Paced) (e : Event) : Prop :=
  resets w.fs e = true → w.fs.cntTxDrops = 0 → w.fs.txRate ≠ 1
deriving Decidable

structure Positive (w : Paced) : Prop where
  conn : 0 < w.conn.ccRate
  flow : 0 < w.fs.txRate
  passed : ∀ r ∈ w.passed, 0 < r

theorem half_pos {rate : UInt32} (hpos : 0 < rate) (hone : rate ≠ 1) : 0 < rate / 2 := by
  rw [UInt32.lt_iff_toNat_lt] at hpos
  rw [ne_eq, ← UInt32.toNat_inj] at hone
  change 0 < rate.toNat / 2
  change ¬ rate.toNat = 1 at hone
  omega

variable {cfg : CcConfig} {fs : FlowSt} {fId cur : UInt32} {c c' : CcConn} {stats : ConnStats}

section

variable (hpos : 0 < fs.txRate)
include hpos

theorem flowResetRetransmit_pos (hone : fs.cntTxDrops = 0 → fs.txRate ≠ 1) :
    0 < (flowResetRetransmit fs).txRate := by
  change 0 < if fs.cntTxDrops = 0 then fs.txRate / 2 else fs.txRate
  split
  · next hzero => exact half_pos hpos (hone hzero)
  · exact hpos

theorem packetAck_pos {p : Pkt}
    (hone : (packetAck fs p).2.2 = true → fs.cntTxDrops = 0 → fs.txRate ≠ 1) :
    0 < (packetAck fs p).1.txRate := by
  obtain ⟨-, hack⟩ | ⟨hr, gs, hack, hreset⟩ := packetAck_writes fs p
  · obtain ⟨_, _, _, _, _, _, _, _, hfs⟩ := hack
    rw [hfs]
    exact hpos
  · obtain ⟨_, _, _, _, _, _, _, _, rfl⟩ := hack
    rw [hreset]
    exact flowResetRetransmit_pos hpos (hone hr)

/-- A call whose state has a positive rate, which it passes on if any. -/
structure Passes (out : FlowOut) : Prop where
  flow : 0 < out.fs.txRate
  passed : ∀ q ∈ out.qman, q.rate = out.fs.txRate

omit hpos in
theorem qmanCredit_rate {id oldAvail newAvail : UInt32} {q : QmanSet}
    (h : q ∈ qmanCredit id fs oldAvail newAvail) : q.rate = fs.txRate := by
  unfold qmanCredit at h
  split at h
  · cases h
    rfl
  · cases h

theorem fastFlowsPacket_passes {p : Pkt} {ts : UInt32}
    (hone : packetReset fs p = true → fs.cntTxDrops = 0 → fs.txRate ≠ 1) :
    Passes (fastFlowsPacket fId fs p ts) := by
  obtain ⟨slow, -, hout⟩ | ⟨hfast, hout⟩ := fastFlowsPacket_cases fId fs p ts
  · rw [hout]
    exact ⟨hpos, fun q hq => nomatch hq⟩
  have hack : 0 < (packetAck fs p).1.txRate :=
    packetAck_pos hpos fun hr => hone (by rw [packetReset, hfast, hr]; rfl)
  have hbody : 0 < (packetBody fs p ts).fs.txRate := by
    unfold packetBody
    split
    · exact hack
    · obtain ⟨_, _, _, _, _, _, _, _, _, hfs⟩ := packetRx_writes (packetAck fs p).1 p ts
      rw [hfs]
      exact hack
  rw [hout]
  exact ⟨hbody, fun q hq => qmanCredit_rate hq⟩

theorem fastFlowsBump_passes {b : Bump} {ts : UInt32} : Passes (fastFlowsBump fId fs b ts) := by
  obtain ⟨seq, hout⟩ | ⟨-, -, hout⟩ := fastFlowsBump_cases fId fs b ts
  · rw [hout]
    exact ⟨hpos, fun q hq => nomatch hq⟩
  · rw [hout]
    exact ⟨hpos, fun q hq => (qmanCredit_rate hq).trans rfl⟩

theorem fastFlowsRetransmit_passes (hone : fs.txSent ≠ 0 → fs.cntTxDrops = 0 → fs.txRate ≠ 1) :
    Passes (fastFlowsRetransmit fId fs) := by
  unfold fastFlowsRetransmit
  split
  · exact ⟨hpos, fun q hq => nomatch hq⟩
  · next hsent =>
    exact ⟨flowResetRetransmit_pos hpos (hone hsent), fun q hq => qmanCredit_rate hq⟩

end

theorem fastFlowsQman_txRate (core : UInt16) (steering : UInt16 → UInt16) (fId : UInt32)
    (fs : FlowSt) (txBuf : ℕ → UInt8) (ts : UInt32) :
    (fastFlowsQman core steering fId fs txBuf ts).fs.txRate = fs.txRate := by
  unfold fastFlowsQman
  split
  · rfl
  · split <;> rfl

theorem ite_floor_pos {rate floor : UInt32} (h : 0 < floor) :
    0 < if rate < floor then floor else rate := by
  split
  · exact h
  · next hge => exact UInt32.lt_of_lt_of_le h (UInt32.not_lt.mp hge)

/-- The asserts leave only windows of a segment, whose rate is positive. -/
theorem dctcpWinUpdate_pos (h : dctcpWinUpdate cfg c stats = some c') : 0 < c'.ccRate := by
  unfold dctcpWinUpdate at h
  split at h
  · cases h
  simp only [bind_eq_bind, bind_eq_some_iff] at h
  obtain ⟨next, -, rate, hrate, hend⟩ := h
  split at hend
  · cases hend
  · next hwin =>
    cases hend
    exact UInt32.lt_iff_toNat_lt.mpr (windowToRate_pos (UInt32.not_lt.mp hwin) hrate)

theorem dctcpRateUpdate_pos (hmin : 0 < cfg.ccDctcpMin) (hpos : 0 < c.ccRate)
    (h : dctcpRateUpdate cfg c stats cur = some c') : 0 < c'.ccRate := by
  unfold dctcpRateUpdate at h
  dsimp only at h
  split at h
  · cases h
    exact hpos
  simp only [bind_eq_bind, bind_eq_some_iff] at h
  obtain ⟨act, -, hend⟩ := h
  cases hend
  exact ite_floor_pos hmin

theorem timelyUpdate_pos (hmin : 0 < cfg.ccTimelyMinRate) (hpos : 0 < c.ccRate)
    (h : timelyUpdate cfg c stats cur = some c') : 0 < c'.ccRate := by
  unfold timelyUpdate at h
  simp only [bind_eq_bind, bind_eq_some_iff] at h
  obtain ⟨act, -, hend⟩ := h
  split at hend
  · cases hend
    exact hpos
  rw [bind_eq_some_iff] at hend
  obtain ⟨diff, -, hend⟩ := hend
  cases hend
  exact ite_floor_pos hmin

theorem ccUpdate_pos (hcfg : FloorPositive cfg) (hpos : 0 < c.ccRate)
    (h : ccUpdate cfg c stats cur = some c') : 0 < c'.ccRate := by
  unfold ccUpdate at h
  cases halg : cfg.ccAlgorithm with
  | dctcpWin =>
    rw [halg] at h
    exact dctcpWinUpdate_pos h
  | dctcpRate =>
    rw [halg] at h
    exact dctcpRateUpdate_pos (hcfg.1 halg) hpos h
  | timely =>
    rw [halg] at h
    exact timelyUpdate_pos (hcfg.2 halg) hpos h
  | constRate =>
    rw [halg] at h
    cases h
    exact hpos

theorem issueRetransmits_ccRate (cfg : CcConfig) (c : CcConn) (stats : ConnStats) (cur : UInt32)
    (sent : Bool) : (issueRetransmits cfg c stats cur sent).ccRate = c.ccRate := by
  unfold issueRetransmits
  split
  · dsimp only
    split
    · rfl
    · split <;> rfl
  · rfl

theorem ccVisit_pos (hcfg : FloorPositive cfg) {sent : Bool} (hpos : 0 < c.ccRate)
    (h : ccVisit cfg c stats cur sent = some c') : 0 < c'.ccRate := by
  unfold ccVisit at h
  split at h
  · simp only [bind_eq_bind, bind_eq_some_iff] at h
    obtain ⟨c₁, hupd, hend⟩ := h
    cases hend
    rw [issueRetransmits_ccRate]
    exact ccUpdate_pos hcfg (c := keepStats c stats) hpos hupd
  · cases h
    exact hpos

theorem Positive.after {w : Paced} (h : Positive w) {out : FlowOut} (hout : Passes out) :
    Positive (w.after out) := by
  refine ⟨h.conn, hout.flow, ?_⟩
  intro r hr
  obtain hold | hnew := List.mem_append.mp hr
  · exact h.passed r hold
  rw [Option.mem_toList, Option.map_eq_some_iff] at hnew
  obtain ⟨q, hq, rfl⟩ := hnew
  rw [hout.passed q hq]
  exact hout.flow

theorem Positive.step (hcfg : FloorPositive cfg) {w w' : Paced}
    {e : Event} (h : Positive w) (hok : HalvesFine w e) (hstep : step cfg fId w e = some w') :
    Positive w' := by
  cases e with
  | flow op =>
    cases op with
    | packet p ts =>
      cases hstep
      exact h.after (fastFlowsPacket_passes h.flow hok)
    | bump b ts =>
      cases hstep
      exact h.after (fastFlowsBump_passes h.flow)
    | qman core steering txBuf ts =>
      cases hstep
      refine ⟨h.conn, ?_, h.passed⟩
      rw [fastFlowsQman_txRate]
      exact h.flow
    | retransmit =>
      cases hstep
      exact h.after (fastFlowsRetransmit_passes h.flow
        fun hsent => hok (decide_eq_true hsent))
  | qmanFwd =>
    cases hstep
    exact h.after ⟨h.flow, fun q hq => by cases hq; rfl⟩
  | poll stats cur sent =>
    unfold RatePositive.step at hstep
    rw [Option.map_eq_some_iff] at hstep
    obtain ⟨c, hvisit, rfl⟩ := hstep
    have hc := ccVisit_pos hcfg h.conn hvisit
    refine ⟨hc, ?_, h.passed⟩
    split
    · unfold nicifConnectionSetrate
      split
      · exact h.flow
      · exact hc
    · exact h.flow

/-- A run until the process ends. -/
def stepOpt (cfg : CcConfig) (fId : UInt32) (w : Option Paced) (e : Event) : Option Paced :=
  w.bind (step cfg fId · e)

def FineOpt (w : Option Paced) (e : Event) : Prop := ∀ v ∈ w, HalvesFine v e
deriving Decidable

def PositiveOpt (w : Option Paced) : Prop := ∀ v ∈ w, Positive v

theorem PositiveOpt.step (hcfg : FloorPositive cfg)
    {w : Option Paced} {e : Event} (h : PositiveOpt w) (hok : FineOpt w e) :
    PositiveOpt (stepOpt cfg fId w e) := by
  intro v hv
  obtain ⟨u, hu, hstep⟩ := Option.bind_eq_some_iff.mp hv
  exact (h u hu).step hcfg (hok u hu) hstep

/-- With a positive lower bound, a positive rate stays so unless a rate of one is halved. -/
theorem rate_stays_positive (cfg : CcConfig) (hcfg : FloorPositive cfg) (fId : UInt32)
    (c : CcConn) (fs : FlowSt) (hc : 0 < c.ccRate) (hfs : 0 < fs.txRate) (events : List Event)
    (hrun : Run.Admissible (stepOpt cfg fId) FineOpt (some ⟨c, fs, []⟩) events) :
    ∀ w ∈ events.foldl (stepOpt cfg fId) (some ⟨c, fs, []⟩),
      0 < w.fs.txRate ∧ ∀ r ∈ w.passed, 0 < r := by
  have hstart : PositiveOpt (some ⟨c, fs, []⟩) := by
    rintro w ⟨⟩
    exact ⟨hc, hfs, fun r hr => nomatch hr⟩
  have hinv := hrun.invariant hstart fun _ _ h hok => h.step hcfg hok
  intro w hw
  exact ⟨(hinv w hw).flow, (hinv w hw).passed⟩

def pacedConn (rate : UInt32) : CcConn :=
  { (default : CcConn) with
    isOpen := true
    ccRate := rate
    ccLastTs := 1
    rate := { (default : DctcpRate) with slowstart := true } }

def pacedFlow (rate : UInt32) : FlowSt :=
  nicifConnectionAdd default { fourByteConn 0 with rate := rate }

def sendBytes (seq : UInt16) (n : UInt32) : Event := .flow (.bump ⟨seq, 0, n, false⟩ 0)

def fire : Event := .flow (.qman 0 (fun _ => 0) (fun _ => 0) 0)

def idlePoll (cur : UInt32) : Event := .poll ⟨0, 50, 0, 0, true, 50⟩ cur true

def slowEvents : List Event :=
  [sendBytes 1 3, fire, .flow .retransmit, idlePoll 1000, sendBytes 2 1, fire, .flow .retransmit]

/-- With a lower bound of one the events pass the rates 10000, 5000, 1 and 1. -/
theorem rate_stays_positive_run :
    0 < (pacedFlow 10000).txRate ∧
      ∀ w ∈ slowEvents.foldl (stepOpt { configDefaults with ccDctcpMin := 1 } 0)
          (some ⟨pacedConn 10000, pacedFlow 10000, []⟩),
        0 < w.fs.txRate ∧ ∀ r ∈ w.passed, 0 < r :=
  ⟨by decide, rate_stays_positive _ (by decide) 0 (pacedConn 10000) (pacedFlow 10000) (by decide)
    (by decide) slowEvents (by decide +kernel)⟩

/-- With the default lower bound, an idle interval or a halved rate of one give zero. -/
theorem rate_falls_to_zero :
    ([idlePoll 1000, sendBytes 1 3].foldl (stepOpt configDefaults 0)
        (some ⟨pacedConn 10000, pacedFlow 10000, []⟩)).map Paced.passed = some [0] ∧
      ([sendBytes 1 3, fire, .flow .retransmit].foldl (stepOpt configDefaults 0)
        (some ⟨pacedConn 1, pacedFlow 1, []⟩)).map Paced.passed = some [1, 0] := by
  decide +kernel

end StackBench.Tas.RatePositive

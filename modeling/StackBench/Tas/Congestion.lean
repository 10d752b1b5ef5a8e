import StackBench.Tas.FlowState

/-!
# Congestion control of the TAS slow path

Window-based DCTCP, rate-based DCTCP, TIMELY and a constant rate of `cc.c`,
with `cc_poll` for one connection, in the arithmetic of the source; `none` is a
failed `assert` or a division by zero. The members of the union `cc` are
separate fields. Signed overflow wraps.
-/

namespace StackBench.Tas

def confMss : UInt32 := 1400

inductive CcAlgorithm where
  | dctcpWin
  | dctcpRate
  | timely
  | constRate
deriving DecidableEq

/-- The options of `struct configuration` that `cc.c` reads. -/
structure CcConfig where
  ccAlgorithm : CcAlgorithm
  tcpRttInit : UInt32
  tcpLinkBw : UInt32
  ccControlGranularity : UInt32
  ccControlInterval : UInt32
  ccRexmitInts : UInt32
  ccDctcpWeight : UInt32
  ccDctcpInit : UInt32
  ccDctcpStep : UInt32
  ccDctcpMimd : UInt32
  ccDctcpMin : UInt32
  ccDctcpMinpkts : UInt32
  ccConstRate : UInt32
  ccTimelyTlow : UInt32
  ccTimelyThigh : UInt32
  ccTimelyStep : UInt32
  ccTimelyInit : UInt32
  ccTimelyAlpha : UInt32
  ccTimelyBeta : UInt32
  ccTimelyMinRtt : UInt32
  ccTimelyMinRate : UInt32

def configDefaults : CcConfig where
  ccAlgorithm := .dctcpRate
  tcpRttInit := 50
  tcpLinkBw := 10
  ccControlGranularity := 50
  ccControlInterval := 2
  ccRexmitInts := 4
  ccDctcpWeight := 268435455
  ccDctcpInit := 10000
  ccDctcpStep := 10000
  ccDctcpMimd := 0
  ccDctcpMin := 0
  ccDctcpMinpkts := 50
  ccConstRate := 0
  ccTimelyTlow := 30
  ccTimelyThigh := 150
  ccTimelyStep := 10000
  ccTimelyInit := 10000
  ccTimelyAlpha := 85899345
  ccTimelyBeta := 3435973836
  ccTimelyMinRtt := 11
  ccTimelyMinRate := 10000

structure DctcpWin where
  ecnRate : UInt32
  window : UInt32
  slowstart : Bool
deriving DecidableEq, Inhabited

structure DctcpRate where
  unprocAcks : UInt32
  unprocAckb : UInt32
  unprocEcnb : UInt32
  unprocDrops : UInt32
  ecnRate : UInt32
  actRate : UInt32
  slowstart : Bool
deriving DecidableEq, Inhabited

structure Timely where
  rttPrev : UInt32
  rttDiff : Int32
  haiCnt : UInt32
  actRate : UInt32
  lastTs : UInt32
  slowstart : Bool
deriving DecidableEq, Inhabited

/-- The congestion-control part of `struct connection`. -/
structure CcConn where
  /-- The status is `CONN_OPEN`. -/
  isOpen : Bool
  txLen : UInt32
  ccLastTs : UInt32
  ccRtt : UInt32
  ccLastDrops : UInt16
  ccLastAcks : UInt16
  ccLastAckb : UInt32
  ccLastEcnb : UInt32
  ccRate : UInt32
  ccRexmits : UInt32
  win : DctcpWin
  rate : DctcpRate
  timely : Timely
  cntTxPending : UInt32
  tsTxPending : UInt32
deriving DecidableEq, Inhabited

variable (cfg : CcConfig) (c : CcConn)

/-- The measured round-trip time, or the configured one where there is none. -/
def rttUsed (stats : ConnStats) : UInt32 :=
  if stats.rtt = 0 then cfg.tcpRttInit else stats.rtt

/-- The new `ecn_rate` before it is cut to 32 bits: the marked share averaged with the old value. -/
def ecnAverage (old ecnb ackb : UInt32) : UInt64 :=
  (ecnb.toUInt64 * 4294967295 / ackb.toUInt64 * cfg.ccDctcpWeight.toUInt64 +
    old.toUInt64 * (4294967295 - cfg.ccDctcpWeight).toUInt64) / 4294967295

/-- The bytes with marks, at most the bytes acknowledged if there are any. -/
def markedBytes (ecnb ackb : UInt32) : UInt32 :=
  if ackb > 0 then (if ecnb ≤ ackb then ecnb else ackb) else ecnb

/-- `ecn_rate` after an interval without drops. -/
def ecnUpdate (old ecnb ackb : UInt32) : UInt32 :=
  if ackb > 0 then (ecnAverage cfg old (markedBytes ecnb ackb) ackb).toUInt32 else old

/-- The reduction of a window or a rate after ECN marks. -/
def ecnCut (x ecnRate : UInt32) : UInt32 :=
  (x.toUInt64 * (4294967295 - ecnRate / 2).toUInt64 / 4294967295).toUInt32

/-- `window_to_rate`, with the two divisors checked. -/
def windowToRate (window rtt : UInt32) : Option UInt32 :=
  if cfg.tcpLinkBw = 0 then none
  else
    -- how long [ns] it will take to send a window size's worth
    let time := window.toUInt64 * 8 * 1000 / cfg.tcpLinkBw.toUInt64 / 1000
    -- no more than a window per rtt, whose product is formed in 32 bits
    let time := if time < (rtt * 1000).toUInt64 then (rtt * 1000).toUInt64 else time
    if time = 0 then none
    else
      let rate := window.toUInt64 * 8 * 1000000 / time
      some (if rate > 4294967295 then 4294967295 else rate.toUInt32)

def dctcpWinInit : Option CcConn := do
  let rate ← windowToRate cfg (2 * confMss) cfg.tcpRttInit
  some { c with ccRate := rate, win := ⟨0, 2 * confMss, true⟩ }

/-- Drops, marks or retransmits were reported. -/
def winCongested (stats : ConnStats) : Bool :=
  !(stats.cDrops == 0 && stats.cEcnb == 0 && c.ccRexmits == 0)

/-- The slow-start part: the window grows by the acknowledged bytes unless the
sum overflows. -/
def winSlowstart (stats : ConnStats) : UInt32 :=
  if c.win.slowstart && !winCongested c stats then
    if c.win.window + stats.cAckb > c.win.window then c.win.window + stats.cAckb
    else c.win.window
  else c.win.window

/-- The additive increase, with a 64-bit increment. -/
def winIncrease (win ackb : UInt32) : UInt32 :=
  let incr := ackb.toUInt64 * confMss.toUInt64 / win.toUInt64
  if (win.toUInt64 + incr).toUInt32 > win then (win.toUInt64 + incr).toUInt32 else win

/-- The congestion-avoidance part: the window and `ecn_rate`. -/
def winAvoid (stats : ConnStats) (win : UInt32) : Option (UInt32 × UInt32) :=
  if stats.cDrops > 0 ∨ c.ccRexmits > 0 then some (win / 2, c.win.ecnRate)
  else
    let ecnRate := ecnUpdate cfg c.win.ecnRate stats.cEcnb stats.cAckb
    if markedBytes stats.cEcnb stats.cAckb > 0 then some (ecnCut win ecnRate, ecnRate)
    else if win = 0 then none
    else some (winIncrease win stats.cAckb, ecnRate)

/-- At least one segment, and no more than the send buffer. -/
def winClamp (txLen win : UInt32) : UInt32 :=
  let win := if win < confMss then confMss else win
  if win > txLen then txLen else win

/-- The window before the clamp, and `ecn_rate`. -/
def winNext (stats : ConnStats) : Option (UInt32 × UInt32) :=
  if c.win.slowstart && !winCongested c stats then some (winSlowstart c stats, c.win.ecnRate)
  else winAvoid cfg c stats (winSlowstart c stats)

def dctcpWinUpdate (stats : ConnStats) : Option CcConn :=
  if c.win.window < confMss then none
  else do
    let next ← winNext cfg c stats
    let win := winClamp c.txLen next.1
    let rate ← windowToRate cfg win (rttUsed cfg stats)
    if win < confMss then none else some { c with
      ccRtt := rttUsed cfg stats
      ccRate := rate
      win := ⟨next.2, win, c.win.slowstart && !winCongested c stats⟩
      ccRexmits := 0 }

/-- The rate of the last interval, computed in 32 bits. -/
def actRate (lastTs cur ackb : UInt32) : Option UInt32 :=
  if lastTs = 0 then some 0
  else if cur - lastTs = 0 then none
  else some (ackb * 8 * 1000 / (cur - lastTs))

/-- The running average over eight intervals, in 32 bits. -/
def actAverage (old act : UInt32) : UInt32 := (7 * old + act) / 8

/-- Clamp to 1.2 times the actual rate. -/
def rateClamp (rate act : UInt32) : UInt32 :=
  if rate.toUInt64 > act.toUInt64 * 12 / 10 then (act.toUInt64 * 12 / 10).toUInt32 else rate

/-- Double, up to the largest rate. -/
def rateDouble (rate : UInt32) : UInt32 := if rate * 2 ≥ rate then rate * 2 else 4294967295

/-- The congestion-avoidance part: the rate and `ecn_rate`. -/
def rateAvoid (rexmits ecnOld rate drops ecnb ackb : UInt32) : UInt32 × UInt32 :=
  if drops > 0 ∨ rexmits > 0 then (rate / 2, ecnOld)
  else
    let ecnRate := ecnUpdate cfg ecnOld ecnb ackb
    if markedBytes ecnb ackb > 0 then (ecnCut rate ecnRate, ecnRate)
    else if cfg.ccDctcpMimd = 0 then (rate + cfg.ccDctcpStep, ecnRate)
    else
      (rate + (rate.toUInt64 * cfg.ccDctcpMimd.toUInt64 / 4294967295).toUInt32, ecnRate)

def dctcpRateUpdate (stats : ConnStats) (cur : UInt32) : Option CcConn :=
  let ecnb := c.rate.unprocEcnb + stats.cEcnb
  let acks := c.rate.unprocAcks + stats.cAcks.toUInt32
  let ackb := c.rate.unprocAckb + stats.cAckb
  let drops := c.rate.unprocDrops + stats.cDrops.toUInt32
  if acks < cfg.ccDctcpMinpkts then
    some
      { c with
        ccRtt := rttUsed cfg stats
        rate :=
          { c.rate with
            unprocEcnb := ecnb, unprocAcks := acks, unprocAckb := ackb, unprocDrops := drops } }
  else do
    let act ← actRate c.ccLastTs cur ackb
    let avg := actAverage c.rate.actRate act
    let rate := rateClamp c.ccRate (if act ≥ avg then act else avg)
    let slowstart := c.rate.slowstart && (drops == 0 && ecnb == 0 && c.ccRexmits == 0)
    let next :=
      if slowstart then (rateDouble rate, c.rate.ecnRate)
      else rateAvoid cfg c.ccRexmits c.rate.ecnRate rate drops ecnb ackb
    some
      { c with
        ccRtt := rttUsed cfg stats
        ccRate := if next.1 < cfg.ccDctcpMin then cfg.ccDctcpMin else next.1
        rate := ⟨0, 0, 0, 0, next.2, avg, slowstart⟩
        ccRexmits := 0 }

/-- `rtt_diff`. The products are formed in unsigned 64 bits and then read as signed. -/
def timelyRttDiff (old : Int32) (rttPrev newRtt : UInt32) : Int32 :=
  let factor := (cfg.ccTimelyAlpha / 2).toUInt64
  let newDiff := (newRtt - rttPrev).toInt32
  let x := (2147483647 - factor) * old.toInt64.toUInt64 + factor * newDiff.toInt64.toUInt64
  (x.toInt64 / 2147483647).toInt32

/-- The decrease by the gradient. -/
def timelyDecrease (rate : UInt32) (gradient : Int64) : UInt32 :=
  let a := (cfg.ccTimelyBeta / 2).toUInt64.toInt64 * gradient
  let b := a / 32767
  let d := if b ≤ 2147483647 then 2147483647 - b else 0
  (rate.toUInt64.toInt64 * d / 2147483647).toUInt64.toUInt32

/-- The decrease above `cc_timely_thigh`. -/
def timelyBackoff (rate newRtt : UInt32) : UInt32 :=
  let d := ((4294967295 : UInt64) * cfg.ccTimelyThigh.toUInt64 / newRtt.toUInt64).toUInt32
  let b := 4294967295 - d
  let a := (cfg.ccTimelyBeta.toUInt64 * b.toUInt64 / 4294967295).toUInt32
  (rate.toUInt64 * (4294967295 - a).toUInt64 / 4294967295).toUInt32

/-- The new rate and `hai_cnt`, before the two lower bounds. -/
def timelyRate (rate haiCnt newRtt : UInt32) (slowstart : Bool)
    (gradient : Int64) : UInt32 × UInt32 :=
  if slowstart then (rate * 2, haiCnt)
  else if newRtt < cfg.ccTimelyTlow then (rate + cfg.ccTimelyStep, 0)
  else if newRtt > cfg.ccTimelyThigh then (timelyBackoff cfg rate newRtt, 0)
  else if gradient ≤ 0 then
    if haiCnt + 1 ≥ 5 then (rate + cfg.ccTimelyStep * 5, haiCnt)
    else (rate + cfg.ccTimelyStep, haiCnt + 1)
  else (timelyDecrease cfg rate gradient, 0)

/-- The gradient relative to the smallest round-trip time. -/
def timelyGradient (rttDiff : Int32) : Option Int64 :=
  if cfg.ccTimelyMinRtt = 0 then none
  else some (rttDiff.toInt64 * 32767 / cfg.ccTimelyMinRtt.toUInt64.toInt64)

/-- `rtt_diff` and the gradient; there is none without a previous round-trip
time. -/
def timelyDiff (cc : Timely) (newRtt : UInt32) : Option (Int32 × Int64) :=
  if cc.rttPrev = 0 then some (cc.rttDiff, 0)
  else do
    let diff := timelyRttDiff cfg cc.rttDiff cc.rttPrev newRtt
    let gradient ← timelyGradient cfg diff
    some (diff, gradient)

def timelyUpdate (stats : ConnStats) (cur : UInt32) : Option CcConn := do
  let act ← actRate c.timely.lastTs cur stats.cAckb
  let avg := actAverage c.timely.actRate act
  -- no rtt estimate yet
  if stats.rtt = 0 then some { c with timely := { c.timely with actRate := avg } }
  else
    let slowstart := c.timely.slowstart &&
      !(decide (stats.rtt > (cfg.ccTimelyTlow + cfg.ccTimelyThigh) / 2))
    let orig :=
      if slowstart then c.ccRate else rateClamp c.ccRate (if act ≥ avg then act else avg)
    let diff ← timelyDiff cfg c.timely stats.rtt
    let next := timelyRate cfg orig c.timely.haiCnt stats.rtt slowstart diff.2
    let rate := if next.1 < orig / 2 then orig / 2 else next.1
    some
      { c with
        ccRate := if rate < cfg.ccTimelyMinRate then cfg.ccTimelyMinRate else rate
        ccRtt := stats.rtt
        timely := ⟨stats.rtt, diff.1, next.2, avg, cur, slowstart⟩
        ccRexmits := 0 }

def ccUpdate (stats : ConnStats) (cur : UInt32) : Option CcConn :=
  match cfg.ccAlgorithm with
  | .dctcpWin => dctcpWinUpdate cfg c stats
  | .dctcpRate => dctcpRateUpdate cfg c stats cur
  | .timely => timelyUpdate cfg c stats cur
  | .constRate => some { c with ccRtt := rttUsed cfg stats, ccRexmits := 0 }

/-- `issue_retransmits`; `sent` tells that `nicif_connection_retransmit` found
room in the queue. -/
def issueRetransmits (stats : ConnStats) (cur : UInt32) (sent : Bool) : CcConn :=
  if stats.txp ∧ stats.cAckb = 0 then
    let pending := c.cntTxPending + 1
    if c.cntTxPending = 0 then { c with cntTxPending := pending, tsTxPending := cur }
    else if pending ≥ cfg.ccRexmitInts ∧ cur - c.tsTxPending ≥ 2 * rttUsed cfg stats ∧ sent then
      { c with cntTxPending := 0, ccRexmits := c.ccRexmits + 1 }
    else { c with cntTxPending := pending }
  else { c with cntTxPending := 0 }

def statsSince (stats : ConnStats) : ConnStats :=
  { stats with
    cDrops := stats.cDrops - c.ccLastDrops
    cAcks := stats.cAcks - c.ccLastAcks
    cAckb := stats.cAckb - c.ccLastAckb
    cEcnb := stats.cEcnb - c.ccLastEcnb }

/-- The counters kept for the next visit. -/
def keepStats (stats : ConnStats) : CcConn :=
  { c with
    ccLastDrops := stats.cDrops
    ccLastAcks := stats.cAcks
    ccLastAckb := stats.cAckb
    ccLastEcnb := stats.cEcnb }

/-- The connection is open and its control interval, a product in 32 bits, has
elapsed. -/
def ccDue (cur : UInt32) : Bool :=
  c.isOpen && !(decide (cur - c.ccLastTs < c.ccRtt * cfg.ccControlInterval))

/-- A visit of `cc_poll` to a connection whose counters are `stats`. -/
def ccVisit (stats : ConnStats) (cur : UInt32) (sent : Bool) : Option CcConn :=
  if ccDue cfg c cur then do
    let c' ← ccUpdate cfg (keepStats c stats) (statsSince c stats) cur
    some { issueRetransmits cfg c' (statsSince c stats) cur sent with ccLastTs := cur }
  else some c

end StackBench.Tas

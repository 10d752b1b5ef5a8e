import Mathlib.Data.UInt

/-!
# Flow state of the TAS fast path

`struct flextcp_pl_flowst` of `tas_memif.h`, a TCP packet as
`fast_flows_packet` reads it, and what the slow path does with a flow state.
The flag bits in `rx_base_sp` are Booleans here.
-/

namespace StackBench.Tas

def flowstNum : UInt32 := 131072

def tcpMss : UInt32 := 1448

def tcpMaxRtt : UInt32 := 100000

/-- `struct flextcp_pl_flowst`, without the spin lock and the two buffer
base addresses. -/
structure FlowSt where
  appOpaque : UInt64
  /-- `FLEXNIC_PL_FLOWST_SLOWPATH` in `rx_base_sp`. -/
  slowpath : Bool
  /-- `FLEXNIC_PL_FLOWST_ECN` in `rx_base_sp`. -/
  ecn : Bool
  /-- `FLEXNIC_PL_FLOWST_TXFIN` in `rx_base_sp`. -/
  txfin : Bool
  /-- `FLEXNIC_PL_FLOWST_RXFIN` in `rx_base_sp`. -/
  rxfin : Bool
  rxLen : UInt32
  txLen : UInt32
  localIp : UInt32
  remoteIp : UInt32
  localPort : UInt16
  remotePort : UInt16
  remoteMac : UInt64
  dbId : UInt16
  flowGroup : UInt16
  bumpSeq : UInt16
  rxAvail : UInt32
  rxNextPos : UInt32
  rxNextSeq : UInt32
  /-- The peer's window in the low 24 bits, its scale in the high 8 bits. -/
  rxRemoteAvail : UInt32
  rxDupackCnt : UInt32
  rxOooStart : UInt32
  rxOooLen : UInt32
  txAvail : UInt32
  txSent : UInt32
  txNextPos : UInt32
  txNextSeq : UInt32
  txNextTs : UInt32
  txRate : UInt32
  cntTxDrops : UInt16
  cntRxAcks : UInt16
  cntRxAckBytes : UInt32
  cntRxEcnBytes : UInt32
  rttEst : UInt32
deriving DecidableEq, Inhabited

/-- The nine flag bits selected by `TCPH_FLAGS`. -/
structure TcpFlags where
  fin : Bool := false
  syn : Bool := false
  rst : Bool := false
  psh : Bool := false
  ack : Bool := false
  urg : Bool := false
  ece : Bool := false
  cwr : Bool := false
  ns : Bool := false
deriving DecidableEq, Inhabited

/-- A flag other than `ACK`, `PSH`, `ECE`, `CWR` and `FIN` is set. -/
def TcpFlags.weird (f : TcpFlags) : Bool := f.syn || f.rst || f.urg || f.ns

/-- A packet kept by `fast_flows_packet_parse`. -/
structure Pkt where
  seqno : UInt32
  ackno : UInt32
  flags : TcpFlags
  wnd : UInt16
  /-- The IP header carries the congestion mark `IP_ECN_CE`. -/
  ecnCe : Bool
  tsVal : UInt32
  tsEcr : UInt32
  /-- `payload_bytes`: the IP length less the headers, which wraps when they are longer. -/
  payloadBytes : UInt32
  /-- The bytes behind the headers, as many as the 16 bits of `flow_rx_write` count. -/
  payload : List UInt8
  payload_length : payload.length = payloadBytes.toUInt16.toNat

/-- The IP length covers the headers: `payload_bytes` did not wrap. -/
def Pkt.Whole (p : Pkt) : Prop := p.payloadBytes.toNat < 2 ^ 16
deriving Decidable

theorem Pkt.Whole.payloadBytes_toNat {p : Pkt} (h : p.Whole) :
    p.payloadBytes.toNat = p.payload.length := by
  rw [p.payload_length, UInt32.toNat_toUInt16, Nat.mod_eq_of_lt h]

/-- The arguments of `nicif_connection_add` that reach the flow state. -/
structure ConnArgs where
  db : UInt32
  macRemote : UInt64
  ipLocal : UInt32
  portLocal : UInt16
  ipRemote : UInt32
  portRemote : UInt16
  rxBase : UInt64
  rxLen : UInt32
  txLen : UInt32
  remoteSeq : UInt32
  localSeq : UInt32
  appOpaque : UInt64
  /-- `NICIF_CONN_ECN` is set in `flags`. -/
  ecn : Bool
  rate : UInt32
  flowGroup : UInt16
  wscale : UInt8

/-- The stores of `nicif_connection_add`. Other fields keep what the slot held before. -/
def nicifConnectionAdd (old : FlowSt) (a : ConnArgs) : FlowSt :=
  { old with
    appOpaque := a.appOpaque
    slowpath := a.rxBase &&& 1 != 0
    ecn := a.ecn || a.rxBase &&& 8 != 0
    txfin := a.rxBase &&& 16 != 0
    rxfin := a.rxBase &&& 32 != 0
    rxLen := a.rxLen
    txLen := a.txLen
    remoteMac := a.macRemote
    dbId := a.db.toUInt16
    localIp := a.ipLocal
    remoteIp := a.ipRemote
    localPort := a.portLocal
    remotePort := a.portRemote
    flowGroup := a.flowGroup
    bumpSeq := 0
    rxAvail := a.rxLen
    rxNextPos := 0
    rxNextSeq := a.remoteSeq
    rxRemoteAvail := (a.wscale.toUInt32 <<< 24) ||| a.rxLen
    txSent := 0
    txNextPos := 0
    txNextSeq := a.localSeq
    txAvail := 0
    txNextTs := 0
    txRate := a.rate
    rttEst := 0 }

structure ConnStats where
  cDrops : UInt16
  cAcks : UInt16
  cAckb : UInt32
  cEcnb : UInt32
  txp : Bool
  rtt : UInt32
deriving DecidableEq

/-- `nicif_connection_stats`, for the flow id `fId` with flow state `fs`; `none`
is the return value `-1`. -/
def nicifConnectionStats (fId : UInt32) (fs : FlowSt) : Option ConnStats :=
  if fId ≥ flowstNum then none
  else some
    { cDrops := fs.cntTxDrops
      cAcks := fs.cntRxAcks
      cAckb := fs.cntRxAckBytes
      cEcnb := fs.cntRxEcnBytes
      txp := decide (fs.txSent ≠ 0)
      rtt := fs.rttEst }

def nicifConnectionSetrate (fId : UInt32) (fs : FlowSt) (rate : UInt32) : FlowSt :=
  if fId ≥ flowstNum then fs else { fs with txRate := rate }

def fourByteConn (irs : UInt32) : ConnArgs where
  db := 0
  macRemote := 0
  ipLocal := 0
  portLocal := 0
  ipRemote := 0
  portRemote := 0
  rxBase := 0
  rxLen := 4
  txLen := 4
  remoteSeq := irs
  localSeq := 0
  appOpaque := 0
  ecn := false
  rate := 0
  flowGroup := 0
  wscale := 0

end StackBench.Tas

import StackBench.Lib.Attempt
import StackBench.Tas.SlowTcp

/-!
# Sequence numbers in the handshake of the slow path

The numbers that the two sides exchange in a handshake, which `SlowTcp` leaves
out, and the control packets that answer. The status of a connection changes
as it does in `SlowTcp`.
-/

namespace StackBench.Tas

open Attempt (Ends)
open SlowTcp (appifConnOpened setConn setStatus tcpFin tcpSyn tcpAck tcpEcn)

def tcpRst : UInt16 := 0x04
def tcpEce : UInt16 := 0x40

/-- The fields of a connection that the handshake reads and writes; `ecn` is the flag
`NICIF_CONN_ECN`. -/
structure SynConn where
  status : TcpStatus
  toArmed : Bool
  localSeq : UInt32
  remoteSeq : UInt32
  synTs : UInt32
  ecn : Bool
deriving DecidableEq

/-- A packet with its flags `TCPH_FLAGS` and the value of its timestamp option. -/
structure SynPkt where
  flags : UInt16
  seqno : UInt32
  ackno : UInt32
  ts : Option UInt32
deriving DecidableEq

/-- What a call of `send_control` puts into the packet; there is always a timestamp. -/
structure CtrlPkt where
  flags : UInt16
  seqno : UInt32
  ackno : UInt32
  tsEcho : UInt32
  mss : UInt16
deriving DecidableEq

namespace SynConn

variable (c : SynConn)

def sendControl (flags : UInt16) (tsEcho : UInt32) (mss : UInt16) : CtrlPkt :=
  ⟨flags, c.localSeq, c.remoteSeq, tsEcho, mss⟩

def synAck (tsEcho : UInt32) : CtrlPkt :=
  c.sendControl (tcpSyn ||| tcpAck ||| if c.ecn then tcpEce else 0) tsEcho 1460

/-- The SYNs that `listener_packet` takes. -/
abbrev listenerTakes (p : SynPkt) : Prop := p.flags &&& ~~~ tcpEcn = tcpSyn

/-- `listener_accept` for a SYN with the timestamp `ts`. -/
def listenerAccept (p : SynPkt) (ts : UInt32) : SynConn :=
  { c with
    status := .regSynack
    remoteSeq := p.seqno + 1
    localSeq := 1
    synTs := ts
    ecn := c.ecn || p.flags &&& tcpEcn = tcpEcn }

def connRegSynack : SynConn × CtrlPkt :=
  ({ c with status := .opened }, c.synAck c.synTs)

def connFailed : SynConn := { c with toArmed := false, status := .failed }

/-- `conn_syn_sent_packet`; `none` is `-1`. The timeout is disarmed first. -/
def connSynSentPacket (p : SynPkt) (addOk : Bool) : SynConn × Option CtrlPkt :=
  let c := { c with toArmed := false }
  if p.flags &&& (tcpSyn ||| tcpAck) ≠ tcpSyn ||| tcpAck then (c, none)
  else
    match p.ts with
    | none => (c, none)
    | some ts =>
      let c := { c with
        remoteSeq := p.seqno + 1
        localSeq := p.ackno
        synTs := ts
        ecn := c.ecn || p.flags &&& tcpEcn = tcpEce }
      if ¬ addOk then (c, none)
      else
        let c := { c with status := .opened }
        (c, some (c.sendControl tcpAck c.synTs 0))

/-- `conn_packet`, with the packets it sends. The flags of a SYN for an open connection are compared
as they are. -/
def connPacket (p : SynPkt) (addOk : Bool) : SynConn × List CtrlPkt :=
  if c.status = .synSent then
    match c.connSynSentPacket p addOk with
    | (c, some ack) => (c, [ack])
    | (c, none) => (c.connFailed, [])
  else if c.status = .opened ∧ p.flags = tcpSyn then
    match p.ts with
    | none => (c.connFailed, [])
    | some ts => (c, [c.synAck ts])
  else if c.status = .closed ∧ p.flags &&& tcpFin = tcpFin then
    (c, [c.sendControl tcpAck 0 0])
  else (c, [])

variable {c} {p : SynPkt}

section SlowTcp

variable {w : SlowTcp} {i : ℕ} {q : SlowPkt} {env : SlowEnv}

/-- If a call in `SlowTcp` returns, the connection `i` has the status `s`. -/
abbrev Leaves (i : ℕ) (s : TcpStatus) : Except SlowFault SlowTcp → Prop :=
  Ends (fun w => (w.conn i).status = s) fun _ => True

theorem leaves_connFailed (room : Bool) : Leaves i .failed (w.connFailed i room) := by
  have hany (x : Except SlowFault SlowTcp) : Ends (fun _ => True) (fun _ => True) x := by
    cases x <;> trivial
  refine (hany _).bind fun w₁ _ => (hany _).bind fun w₂ _ => ?_
  have happ : Leaves i .failed ((w₂.setStatus i .failed).appifConnOpened i false room) := by
    unfold appifConnOpened SlowTcp.tcpDestroy
    cases room <;> simp [setStatus, setConn, SlowTcp.connFree, SlowTcp.freeBuffers,
      SlowTcp.freeConn]
  refine happ.bind fun w₃ h₃ => ?_
  by_cases hactive : w₃.active i <;> simpa [hactive, Ends, SlowTcp.endOpen, pure, Except.pure]

theorem listenerAccept_slow (syn : Syn) (port : UInt16) (ts : UInt32) :
    ((w.acceptInit i syn port).conn i).status = (c.listenerAccept p ts).status := by
  simp [SlowTcp.acceptInit, setConn, listenerAccept]

variable (hc : c.status = (w.conn i).status) (hflags : q.flags = p.flags)
    (hts : q.hasTs = p.ts.isSome)
include hc hflags hts

/-- `SlowTcp.connSynSentPacket` returns the same, and leaves the same status. -/
theorem connSynSentPacket_slow : Ends (fun x => x.2 = (c.connSynSentPacket p env.addOk).2.isSome ∧
      (x.1.conn i).status = (c.connSynSentPacket p env.addOk).1.status) (fun _ => True)
      (w.connSynSentPacket i q env) := by
  have hdisarm : Leaves i c.status (w.connTimeoutDisarm i) := by
    unfold SlowTcp.connTimeoutDisarm
    split
    · simp [setConn, hc]
    · trivial
  refine hdisarm.bind fun w₁ h₁ => ?_
  unfold connSynSentPacket
  rw [hflags, hts]
  by_cases hsyn : p.flags &&& (tcpSyn ||| tcpAck) = tcpSyn ||| tcpAck <;> cases p.ts <;>
    cases env.addOk <;>
    simp [hsyn, h₁, Ends, SlowTcp.ccConnInit, setConn, setStatus, appifConnOpened, bind,
      Except.bind, pure, Except.pure]

/-- `SlowTcp.connPacket` leaves the same status. -/
theorem connPacket_slow : Leaves i (c.connPacket p env.addOk).1.status (w.connPacket i q env) := by
  unfold connPacket SlowTcp.connPacket
  rw [hflags, hts, ← hc]
  by_cases hsent : c.status = .synSent
  · simp only [if_pos hsent]
    refine (connSynSentPacket_slow hc hflags hts).bind fun ⟨w₁, ok⟩ ⟨hok, hstatus⟩ => ?_
    rcases hres : c.connSynSentPacket p env.addOk with ⟨c', _ | ack⟩ <;> rw [hres] at hok hstatus
    · obtain rfl : ok = false := hok
      exact leaves_connFailed env.room
    · obtain rfl : ok = true := hok
      exact hstatus
  · rw [if_neg hsent, if_neg hsent]
    by_cases hopen : c.status = .opened ∧ p.flags = tcpSyn
    · cases hp : p.ts with
      | none => simpa [hopen, hp, connFailed] using leaves_connFailed env.room
      | some ts => simp [hopen, ← hc, pure, Except.pure]
    · have hfull : ¬ (c.status = .opened ∧ p.flags = tcpSyn ∧ ¬ p.ts.isSome) :=
        fun h => hopen ⟨h.1, h.2.1⟩
      rw [if_neg hopen, if_neg hfull]
      split <;> exact hc.symm

end SlowTcp

theorem connPacket_opened (h : c.status = .opened) (q : SynPkt) (addOk : Bool) :
    (c.connPacket q addOk).1 = c ∨ (c.connPacket q addOk).1.status = .failed := by
  unfold connPacket
  rw [if_neg (by simp [h])]
  split
  · split
    · exact Or.inr rfl
    · exact Or.inl rfl
  · split
    · exact Or.inl rfl
    · exact Or.inl rfl

theorem connPacket_failed (h : c.status = .failed) (q : SynPkt) (addOk : Bool) :
    (c.connPacket q addOk).1 = c := by
  simp [connPacket, h]

theorem foldl_connPacket (h : c.status = .opened ∨ c.status = .failed) (qs : List (SynPkt × Bool)) :
    qs.foldl (fun c q => (c.connPacket q.1 q.2).1) c = c ∨
      (qs.foldl (fun c q => (c.connPacket q.1 q.2).1) c).status = .failed := by
  induction qs generalizing c with
  | nil => exact Or.inl rfl
  | cons q qs ih =>
    rw [List.foldl_cons]
    rcases h with h | h
    · rcases connPacket_opened h q.1 q.2 with hsame | hfail
      · rw [hsame]
        exact ih (Or.inl h)
      · right
        rcases ih (Or.inr hfail) with hsame | hfail'
        · rw [hsame, hfail]
        · exact hfail'
    · rw [connPacket_failed h]
      exact ih (Or.inr h)

end SynConn

/-- A SYN without ECN flags that led to an open connection is answered with the same SYN-ACK as long
as it is open. -/
theorem syn_answered_again (c : SynConn) (p : SynPkt) (ts : UInt32) (hts : p.ts = some ts)
    (htaken : SynConn.listenerTakes p) (hplain : p.flags &&& tcpEcn = 0)
    (qs : List (SynPkt × Bool)) (addOk : Bool) :
    let first := (c.listenerAccept p ts).connRegSynack
    let now := qs.foldl (fun c q => (c.connPacket q.1 q.2).1) first.1
    now.status = .opened → (now.connPacket p addOk).2 = [first.2] := by
  intro first now hopen
  have hsyn : p.flags = tcpSyn := by
    calc p.flags = p.flags &&& (~~~ tcpEcn ||| tcpEcn) := (UInt16.and_neg_one).symm
      _ = (p.flags &&& ~~~ tcpEcn) ||| (p.flags &&& tcpEcn) := by
          apply UInt16.toBitVec_inj.mp
          ext i
          simp only [UInt16.toBitVec_and, UInt16.toBitVec_or, BitVec.getElem_and,
            BitVec.getElem_or, Bool.and_or_distrib_left]
      _ = tcpSyn := by rw [htaken, hplain, UInt16.or_zero]
  have hnow : now = first.1 := by
    rcases SynConn.foldl_connPacket (c := first.1) (Or.inl rfl) qs with hsame | hfail
    · exact hsame
    · rw [hfail] at hopen
      cases hopen
  rw [hnow, SynConn.connPacket, if_neg nofun, if_pos ⟨rfl, hsyn⟩, hts]
  rfl

theorem syn_answered_again_lost :
    let p : SynPkt := ⟨0x02, 41, 0, some 7⟩
    let c : SynConn := ⟨.synWait, false, 0, 0, 0, false⟩
    let first := (c.listenerAccept p 7).connRegSynack
    (first.1.connPacket p true).2 = [first.2] ∧ first.2 = ⟨0x12, 1, 42, 7, 1460⟩ :=
  ⟨syn_answered_again _ ⟨0x02, 41, 0, some 7⟩ 7 rfl (by decide +kernel) (by decide +kernel) [] true
    rfl, by decide +kernel⟩

/-- A client that offers ECN, as the SYN of a TAS client does, gets no second SYN-ACK. -/
theorem ecn_syn_not_answered :
    let p : SynPkt := ⟨0xC2, 41, 0, some 7⟩
    let c : SynConn := ⟨.synWait, false, 0, 0, 0, false⟩
    let first := (c.listenerAccept p 7).connRegSynack
    SynConn.listenerTakes p ∧ first.1.status = .opened ∧ first.2 = ⟨0x52, 1, 42, 7, 1460⟩ ∧
      (first.1.connPacket p true).2 = [] := by
  refine ⟨?_, rfl, ?_, ?_⟩ <;> decide +kernel

namespace SynConn

variable (c : SynConn)

/-- A SYN-ACK for the SYN that was sent. -/
def AcceptableSynAck (p : SynPkt) : Prop :=
  p.flags &&& (tcpSyn ||| tcpAck) = tcpSyn ||| tcpAck ∧ p.ackno = c.localSeq + 1

/-- A reset that acknowledges the SYN that was sent. -/
def AcceptableReset (p : SynPkt) : Prop :=
  p.flags &&& (tcpRst ||| tcpAck) = tcpRst ||| tcpAck ∧ p.ackno = c.localSeq + 1

/-- Only an acceptable SYN-ACK opens the connection, and only a reset changes it else. -/
def Validated (p : SynPkt) (addOk : Bool) : Prop :=
  ((c.connPacket p addOk).1.status = .opened → c.AcceptableSynAck p) ∧
    (¬ c.AcceptableSynAck p → ¬ c.AcceptableReset p →
      (c.connPacket p addOk).1.status = .synSent ∧ (c.connPacket p addOk).1.toArmed = true)

variable {c} {p : SynPkt}

/-- The timeout is disarmed in any case, and only flags and timestamp decide about the opening. -/
theorem connPacket_synSent (h : c.status = .synSent) (p : SynPkt) (addOk : Bool) :
    (c.connPacket p addOk).1.toArmed = false ∧ ((c.connPacket p addOk).1.status = .opened →
      p.flags &&& (tcpSyn ||| tcpAck) = tcpSyn ||| tcpAck) := by
  unfold connPacket connSynSentPacket
  rw [if_pos h]
  by_cases hflags : p.flags &&& (tcpSyn ||| tcpAck) = tcpSyn ||| tcpAck
  · refine ⟨?_, fun _ => hflags⟩
    cases hts : p.ts with
    | none => simp [hflags, connFailed]
    | some ts => cases addOk <;> simp [hflags, connFailed]
  · simp [hflags, connFailed]

end SynConn

/-- In `CONN_SYN_SENT` a packet is handled as the protocol asks exactly when it is an acceptable
SYN-ACK or reset. -/
theorem syn_sent_validated (c : SynConn) (h : c.status = .synSent) (p : SynPkt) (addOk : Bool) :
    c.Validated p addOk ↔ c.AcceptableSynAck p ∨ c.AcceptableReset p := by
  obtain ⟨hdisarmed, hopen⟩ := SynConn.connPacket_synSent h p addOk
  constructor
  · rintro ⟨-, hkeep⟩
    by_contra hnone
    rw [not_or] at hnone
    have harmed := (hkeep hnone.1 hnone.2).2
    rw [hdisarmed] at harmed
    cases harmed
  · intro hok
    refine ⟨fun hopened => ⟨hopen hopened, ?_⟩, fun hsyn hrst => absurd hok (by simp [hsyn, hrst])⟩
    rcases hok with hok | hok
    · exact hok.2
    · exact hok.2

/-- An acceptable SYN-ACK. -/
theorem syn_sent_validated_opens :
    let c : SynConn := ⟨.synSent, true, 0, 0, 0, false⟩
    c.Validated ⟨0x12, 41, 1, some 7⟩ true ∧
      (c.connPacket ⟨0x12, 41, 1, some 7⟩ true).1.status = .opened :=
  ⟨(syn_sent_validated ⟨.synSent, true, 0, 0, 0, false⟩ rfl ⟨0x12, 41, 1, some 7⟩ true).mpr
    (Or.inl ⟨by decide, rfl⟩), by decide +kernel⟩

/-- A SYN-ACK that acknowledges something else opens the connection, and a stray
acknowledgement ends it. -/
theorem syn_sent_not_validated :
    let c : SynConn := ⟨.synSent, true, 0, 0, 0, false⟩
    (c.connPacket ⟨0x12, 41, 77, some 7⟩ true).1.status = .opened ∧
      (c.connPacket ⟨0x10, 41, 77, some 7⟩ true).1.status = .failed := by
  decide +kernel

end StackBench.Tas

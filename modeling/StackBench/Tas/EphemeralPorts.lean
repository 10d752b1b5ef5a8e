import StackBench.Tas.FailedOpen

/-!
# Ephemeral ports

`port_alloc` tries one port after the other, around the ephemeral ports, until
one is unused or it is back at the hint. Ports are counted by their distance
from the hint. A hint of `tcp_init` that is not ephemeral is never met again.
-/

namespace StackBench.Tas

namespace SlowTcp

/-- The hint that `tcp_init` takes from a random number. -/
def initHint (rand : UInt32) : UInt16 := (rand % (65535 - 8192)).toUInt16

/-- The number of ports that the search from `start` tries before `p`. -/
def portDist (start p : UInt16) : ℕ := (p.toNat + 57344 - start.toNat) % 57344

variable {start p q : UInt16} {w : SlowTcp}

theorem portNext_toNat (hp : 8192 ≤ p) :
    (portNext p).toNat = if p.toNat = 65535 then 8192 else p.toNat + 1 := by
  have hlt := p.toNat_lt
  replace hp : 8192 ≤ p.toNat := hp
  have hlow : p + 1 < 8192 ↔ (p.toNat + 1) % 65536 < 8192 := by
    rfl
  unfold portNext
  by_cases hlast : p.toNat = 65535
  · rw [if_pos hlast, if_pos (hlow.mpr (by omega))]
    rfl
  · rw [if_neg hlast, if_neg (fun h => by have := hlow.mp h; omega), UInt16.toNat_add]
    exact Nat.mod_eq_of_lt (by omega : p.toNat + 1 < 65536)

theorem portDist_portNext (hstart : 8192 ≤ start) (hp : 8192 ≤ p) :
    portNext p = start ∧ portDist start p = 57343 ∨
      portDist start (portNext p) = portDist start p + 1 := by
  have hnext := portNext_toNat hp
  have hlt := start.toNat_lt
  have hlt' := p.toNat_lt
  replace hstart : 8192 ≤ start.toNat := hstart
  replace hp : 8192 ≤ p.toNat := hp
  unfold portDist
  by_cases hback : (portNext p).toNat = start.toNat
  · left
    refine ⟨UInt16.toNat_inj.mp hback, ?_⟩
    split at hnext <;> omega
  · right
    split at hnext <;> omega

theorem portDist_inj (hstart : 8192 ≤ start) (hp : 8192 ≤ p) (hq : 8192 ≤ q)
    (h : portDist start p = portDist start q) : p = q := by
  have hlt := p.toNat_lt
  have hlt' := q.toNat_lt
  have hlt'' := start.toNat_lt
  replace hstart : 8192 ≤ start.toNat := hstart
  replace hp : 8192 ≤ p.toNat := hp
  replace hq : 8192 ≤ q.toNat := hq
  unfold portDist at h
  exact UInt16.toNat_inj.mp (by omega)

theorem portSearch_spec (ports : UInt16 → PortUse) (hstart : 8192 ≤ start) (fuel : ℕ)
    (hp : 8192 ≤ p)
    (hpassed : ∀ q, 8192 ≤ q → portDist start q < portDist start p → ports q ≠ .unused)
    (hfuel : 57344 ≤ portDist start p + fuel) :
    Attempt.Ends (fun r => (∀ q, r = some q → 8192 ≤ q ∧ ports q = .unused) ∧
      (r = none → ∀ q, 8192 ≤ q → ports q ≠ .unused)) (fun _ => False)
      (portSearch ports start fuel p) := by
  induction fuel generalizing p with
  | zero =>
    have : portDist start p < 57344 := Nat.mod_lt _ (by decide)
    omega
  | succ fuel ih =>
    rw [portSearch]
    split
    · next hfree =>
      refine ⟨fun q hq => ?_, by simp⟩
      cases hq
      exact ⟨hp, hfree⟩
    next hused =>
    -- the port `p` joins the ports that are known to be in use
    have hpast : ∀ q, 8192 ≤ q → portDist start q < portDist start p + 1 →
        ports q ≠ .unused := by
      intro q hq hdist
      rcases Nat.lt_succ_iff_lt_or_eq.mp hdist with hlt | heq
      · exact hpassed q hq hlt
      · exact portDist_inj hstart hq hp heq ▸ hused
    rcases portDist_portNext hstart hp with ⟨hback, hlast⟩ | hnext
    · rw [if_pos hback]
      refine ⟨by simp, fun _ q hq => hpast q hq ?_⟩
      rw [hlast]
      exact Nat.mod_lt _ (by decide)
    split
    · next hback =>
      rw [hback, portDist, Nat.add_sub_cancel_left, Nat.mod_self] at hnext
      omega
    · exact ih (le_portNext p) (hnext ▸ hpast) (by omega)

theorem portAlloc_spec (hhint : 8192 ≤ w.portHint) :
    ∃ w' p, w.portAlloc = .ok (w', p) ∧ ((8192 ≤ p ∧ w.ports p = .unused) ∨
      (p = 0 ∧ ∀ q, 8192 ≤ q → w.ports q ≠ .unused)) := by
  have hzero : portDist w.portHint w.portHint = 0 := by
    rw [portDist, Nat.add_sub_cancel_left, Nat.mod_self]
  obtain ⟨r, hr, hfound, hfull⟩ := (portSearch_spec w.ports hhint 65536 hhint
    (fun q _ hq => by omega) (by omega)).returns
  rw [portAlloc, hr]
  cases r with
  | some p => exact ⟨_, p, rfl, Or.inl (hfound p rfl)⟩
  | none => exact ⟨w, 0, rfl, Or.inr ⟨rfl, hfull rfl⟩⟩

theorem OpenInv.hint_exec (h : w.OpenInv) (retries : ℕ) {op : SlowOp} (hok : w.Ok op)
    (hhint : 8192 ≤ w.portHint) :
    Attempt.Ends (fun w' => 8192 ≤ w'.portHint) (fun _ => True) (w.exec retries op) := by
  -- a connection that does not exist yet has no references
  have hu := (h.fresh (w.size + 2) (by omega)).unref
  have hne : w.size + 2 ≠ w.size + 1 := by omega
  cases op with
  | openConn alloc r ip port =>
    exact (hu.tcpOpen hne alloc r ip port).mono fun _ hs => hs.1.hint hhint
  | listen port backlog reuseport => exact (hu.tcpListen port backlog reuseport).hint hhint
  | accept l alloc env =>
    exact (hu.tcpAccept hne 0 l alloc env).mono fun _ hs => hs.1.hint hhint
  | packet p env => exact (hu.tcpPacket p env).mono fun _ hk => hk.hint hhint
  | arp c ok => exact (hu.arpDone c ok).hint hhint
  | poll env => exact (hu.tcpPoll env).mono fun _ hk => hk.hint hhint
  | timeout c ty env => exact (hu.tcpTimeout retries c ty env).mono fun _ hk => hk.hint hhint
  | close c =>
    refine (hu.tcpClose ?_).mono fun _ hk => hk.hint hhint
    rintro rfl
    exact hu.appConns hok.1
  | ccPoll => exact hu.ccPoll.mono fun _ hk => hk.hint hhint

/-- The hint is an ephemeral port. -/
structure PortInv (w : SlowTcp) : Prop where
  openInv : w.OpenInv
  hint : 8192 ≤ w.portHint

theorem PortInv.step (h : w.PortInv) (retries : ℕ) {op : SlowOp} (hok : w.Ok op) :
    (w.step retries op).PortInv := by
  refine ⟨h.openInv.step retries hok, ?_⟩
  unfold SlowTcp.step
  split
  · exact h.hint
  have hexec := h.openInv.hint_exec retries hok h.hint
  split
  · next w' hx =>
    rw [hx] at hexec
    exact hexec
  · exact h.hint

end SlowTcp

open SlowTcp (init initHint step)

/-- When `tcp_init` draws an ephemeral port, `port_alloc` always returns an unused ephemeral port,
or zero when there is none. -/
theorem port_alloc_ephemeral (rand : UInt32) (hdraw : 8192 ≤ initHint rand) (retries : ℕ)
    (ops : List SlowOp) (hrun : Run.Admissible (step retries) SlowTcp.Ok
      (init (initHint rand)) ops) :
    let w := ops.foldl (step retries) (init (initHint rand))
    ∃ w' p, w.portAlloc = .ok (w', p) ∧ ((8192 ≤ p ∧ w.ports p = .unused) ∨
      (p = 0 ∧ ∀ q, 8192 ≤ q → w.ports q ≠ .unused)) := by
  intro w
  have hstart : (init (initHint rand)).PortInv := ⟨SlowTcp.openInv_init _, hdraw⟩
  have hinv := hrun.invariant hstart fun _ _ h hok => h.step retries hok
  exact SlowTcp.portAlloc_spec hinv.hint

theorem port_alloc_ephemeral_opens :
    let ops : List SlowOp := [.openConn .ok .pending 0x0A000002 80, .listen 8193 4 false]
    let w := ops.foldl (step 3) (init (initHint 8192))
    ∃ w' p, w.portAlloc = .ok (w', p) ∧ ((8192 ≤ p ∧ w.ports p = .unused) ∨
      (p = 0 ∧ ∀ q, 8192 ≤ q → w.ports q ≠ .unused)) :=
  port_alloc_ephemeral 8192 (by decide) 3 _ (by decide +kernel)

/-- The draw is not shifted: with the hint zero there is no port, with 80 it is 80. -/
theorem port_alloc_outside :
    (∃ w, (init (initHint 0)).portAlloc = .ok (w, 0)) ∧
      (init (initHint 0)).ports 8192 = .unused ∧
      (∃ w, (init (initHint 80)).portAlloc = .ok (w, 80)) :=
  ⟨⟨_, rfl⟩, rfl, _, rfl⟩

end StackBench.Tas

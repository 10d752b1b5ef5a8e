import StackBench.Tas.Registries

/-!
# The list of congestion control

`cc_conns` lists live connections without repetition, and every open one, as
long as `nicif_connection_add` succeeds and no open connection is given up.
-/

open List

namespace StackBench.Tas

namespace SlowTcp

variable {c l : ℕ} {w w' w'' : SlowTcp} {xs xs' xs'' : List ℕ} {f g : Held → Held}

/-- A call ends in a state that is sound for some list, or `port_alloc` does not
end. -/
abbrev Settles (w : SlowTcp) (x : Except SlowFault SlowTcp) : Prop :=
  Goes (fun w' => (∃ xs, w'.Sound xs) ∧ w'.fault = w.fault) x

section

variable (h : w.Sound xs)
include h

theorem Sound.settles {x : Except SlowFault SlowTcp}
    (hx : Goes (Turns c f w xs · xs') x) (hfits : (f (w.held xs c)).Fits) : Settles w x :=
  hx.mono fun _ ht => ⟨⟨xs', ht.sound h hfits⟩, ht.fault⟩

theorem Sound.settles_ok (ht : Turns c f w xs w' xs')
    (hfits : (f (w.held xs c)).Fits) : Settles w (.ok w') :=
  ⟨⟨xs', ht.sound h hfits⟩, ht.fault⟩

theorem Sound.settles_self : Settles w (.ok w) := ⟨⟨xs, h⟩, rfl⟩

theorem Sound.same (ht : Turns c id w xs w' xs) : w'.Sound xs := ht.sound h (h.fits c)

theorem Sound.unborn :
    (w.held xs (w.size + 1)).made = false ∧ (w.held xs (w.size + 1)).freed = false := by
  have hmade : (w.held xs (w.size + 1)).made = false := by simp [held, isMade]
  refine ⟨hmade, ?_⟩
  by_contra hfreed
  have := (h.fits (w.size + 1)).made (by simpa using hfreed)
  rw [hmade] at this
  cases this

theorem Sound.connAllocFails (alloc : AllocResult) : (w.connAllocFails alloc).Sound xs := by
  have hturn (rx rx' : ℕ → ℕ) : Turns (w.size + 1) (fun x => Held.free { x with made := true }) w xs
      { w with
        size := w.size + 1
        rxAlloc := rx
        rxFree := rx'
        freed := Function.update w.freed (w.size + 1) 1 } xs := by
    refine turns_of_frame (fun d hd => ?_) ?_ rfl
    · have hle : d ≤ w.size + 1 ↔ d ≤ w.size := by omega
      simp [held, isMade, hd, hle]
    · simp [held, isMade, isFreed]
  have hfits := (h.fits (w.size + 1)).allocFailed h.unborn.1
  cases alloc with
  | ok => exact h
  | noMemory => exact h
  | noRxBuffer => exact (hturn w.rxAlloc w.rxFree).sound h hfits
  | noTxBuffer => exact (hturn _ _).sound h hfits

end

theorem connAllocFails_fault (w : SlowTcp) (alloc : AllocResult) :
    (w.connAllocFails alloc).fault = w.fault := by
  cases alloc <;> rfl

theorem portSearch_ends (ports : UInt16 → PortUse) (start p : UInt16) (fuel : ℕ) :
    Attempt.Ends (fun _ => True) (· = .portsHung) (portSearch ports start fuel p) := by
  induction fuel generalizing p with
  | zero => rfl
  | succ fuel ih =>
    rw [portSearch]
    split
    · trivial
    · split
      · trivial
      · exact ih _

theorem portAlloc_ends (w : SlowTcp) :
    Attempt.Ends (fun r => ∃ hint, r.1 = { w with portHint := hint }) (· = .portsHung)
      w.portAlloc := by
  refine Attempt.Ends.bind (portSearch_ends ..) fun r _ => ?_
  cases r with
  | none => exact ⟨w.portHint, rfl⟩
  | some p => exact ⟨_, rfl⟩

theorem connArpDone_ends (h : (w.held xs c).armed = false) :
    Goes (Turns c (Held.arm .handshake ∘ Held.setStatus .synSent) w xs · xs) (w.connArpDone c) := by
  have hset : Turns c (Held.setStatus .synSent) w xs
      (w.setConn c { w.conn c with status := .synSent, toAttempts := 0 }) xs :=
    turns_setConn rfl rfl
  refine hset.then (connTimeoutArm_ends _ ?_)
  rw [hset.held_self]
  exact h

theorem turns_opening (c : ℕ) (localPort : UInt16) (ip : UInt32) (port : UInt16) :
    Turns c (Held.setComp false ∘ Held.setStatus .arpPending) w xs
      (w.opening c localPort ip port) xs :=
  turns_setConn rfl rfl

theorem turns_openDone (c : ℕ) (port : UInt16) : Turns c Held.pushApp w xs (w.openDone c port) xs :=
  (turns_pushApp c).relabel (turns_id (fun _ => rfl) rfl)

theorem Sound.openWith (h : w.Sound xs) (ht : Turns (w.size + 1) Held.make w xs w' xs)
    (localPort : UInt16) (r : Resolve) (ip : UInt32) (port : UInt16) :
    Settles w (w'.openWith (w.size + 1) localPort r ip port) := by
  obtain ⟨hmade, hfreed⟩ := h.unborn
  have hfits := h.fits (w.size + 1)
  have h₁ := ht.trans (turns_opening (w.size + 1) localPort ip port)
  cases r with
  | failed =>
    exact h.settles_ok ((h₁.trans (turns_connFree _)).trans (turns_endOpen ..))
      (hfits.openFailed hmade false .arpPending)
  | done =>
    have h₂ := h₁.trans (turns_connRegister _)
    refine h.settles (h₂.then (Turns.bind (connArpDone_ends ?_) fun w₃ _ =>
      turns_openDone _ localPort)) (hfits.openDone hmade hfreed)
    rw [h₂.held_self]
    rfl
  | pending =>
    exact h.settles_ok (((h₁.trans (turns_pushArp _)).trans (turns_connRegister _)).trans
      (turns_openDone _ localPort)) (hfits.openPending hmade hfreed)

theorem Sound.tcpOpen (h : w.Sound xs) (alloc : AllocResult) (r : Resolve) (ip : UInt32)
    (port : UInt16) : Settles w (w.tcpOpen alloc r ip port) := by
  rw [SlowTcp.tcpOpen]
  split
  · rw [openAllocFails]
    split
    · exact h.settles_self
    · have hsound := h.connAllocFails alloc
      exact ⟨⟨xs, hsound.same (turns_endOpen 0 _ _)⟩, connAllocFails_fault w alloc⟩
  refine Attempt.Ends.bind (portAlloc_ends w.connAlloc) fun r' ⟨hint, hr⟩ => ?_
  obtain ⟨w', localPort⟩ := r'
  obtain rfl : w' = _ := hr
  have h₁ : Turns (w.size + 1) Held.make w xs { w.connAlloc with portHint := hint } xs :=
    (turns_connAlloc w xs).relabel (turns_id (fun _ => rfl) rfl)
  dsimp only
  split
  · exact h.settles_ok ((h₁.trans (turns_connFree _)).trans (turns_endOpen ..))
      ((h.fits _).openFailed h.unborn.1 _ _)
  · exact h.openWith h₁ localPort r ip port

theorem Sound.setListener_empty (h : w.Sound xs) (l : ℕ) {y : Listener} (hy : y.waitConns = []) :
    (w.setListener l y).Sound xs := by
  refine ⟨⟨h.cc.chain, h.cc.next⟩, fun c => (h.fits c).withWait fun m hpos => ?_⟩
  by_cases hm : m = l
  · subst hm
    simp [setListener, hy] at hpos
  · simp [held, setListener, hm]

theorem Sound.tcpListen (h : w.Sound xs) (port : UInt16) (backlog : ℕ) (reuseport : Bool) :
    Settles w (.ok (w.tcpListen port backlog reuseport)) := by
  have hnew (y : Listener) (ports : UInt16 → PortUse) (hy : y.waitConns = []) :
      Settles w (.ok { w.setListener w.numListeners y with
        numListeners := w.numListeners + 1
        ports := ports }) := by
    have hset := h.setListener_empty w.numListeners hy
    exact ⟨⟨xs, hset.same (c := 0) (turns_id (fun _ => rfl) rfl)⟩, rfl⟩
  unfold SlowTcp.tcpListen
  split
  · exact hnew ⟨port, [], [], backlog⟩ _ rfl
  · exact hnew ⟨port, [], [], backlog⟩ _ rfl
  · split
    · exact h.settles_self
    · exact hnew ⟨port, [], [], backlog⟩ _ rfl
  · exact h.settles_self

theorem turns_acceptInit (s : Syn) (port : UInt16) (hc : c ≠ 0) (hmem : c ∉ xs) :
    Turns c (Held.setComp false ∘ Held.setStatus .regSynack ∘ Held.list) w xs
      (w.acceptInit c s port) (c :: xs) := by
  have h₁ : Turns c id w xs (w.setConn c { w.conn c with
      remoteIp := s.remoteIp
      remotePort := s.remotePort
      localPort := port }) xs := turns_setConn rfl rfl
  have h₂ := h₁.trans (turns_ccConnInit hc hmem)
  exact h₂.trans (turns_setStatusComp c .regSynack false)

theorem turns_acceptDone {rest : List ℕ} (hw : (w.listeners l).waitConns = c :: rest)
    (hone : (w.listeners l).waitConns.count c = 1) :
    Turns c (Held.pushAsync ∘ Held.register ∘ Held.setWait l 0) w xs
      (w.acceptDone l c rest) xs := by
  rw [hw] at hone
  refine ((turns_setListener (fun d hd => ?_) ?_).trans (turns_connRegister c)).trans
    (turns_pushAsync c)
  · rw [hw, count_cons_of_ne hd.symm]
  · simpa using hone

variable {env : SlowEnv}

theorem listenerAccept_ends {rest : List ℕ} (hadd : env.addOk = true)
    (hw : (w.listeners l).waitConns = c :: rest) (hb : (w.listeners l).backlog ≠ [])
    (hone : (w.held xs c).wait l = 1) (hc : c ≠ 0) (hmem : c ∉ xs) :
    Goes (fun w' => Turns c id w xs w' xs ∨ Turns c (Held.accepted l) w xs w' (c :: xs))
      (w.listenerAccept l env) := by
  obtain ⟨s, backlog, hb⟩ := exists_cons_of_ne_nil hb
  rw [listenerAccept, hw, hb]
  have h₁ : Turns c id w xs (w.setListener l { w.listeners l with backlog := backlog }) xs :=
    turns_setListener_id rfl
  simp only [hadd]
  split
  · exact Or.inl h₁
  refine Or.inr ((h₁.trans (turns_acceptInit s _ hc hmem)).trans (turns_acceptDone ?_ ?_))
  · simp [acceptInit, ccConnInit, setConn, setListener, hw]
  · simpa [acceptInit, ccConnInit, setConn, setListener, held] using hone

section

variable (h : w.Sound xs)
include h

theorem Sound.of_waiting (hmem : c ∈ (w.listeners l).waitConns) :
    (w.held xs c).state = some .synWait ∧ (w.held xs c).wait l = 1 ∧ c ≠ 0 ∧ c ∉ xs := by
  obtain ⟨hs, hone⟩ := (h.fits c).wait l (count_pos_iff.mpr hmem)
  have hlisted := (h.fits c).listed
  rw [hs] at hlisted
  refine ⟨hs, hone, ?_, count_eq_zero.mp hlisted⟩
  rintro rfl
  simp [state_held, Live] at hs

theorem Sound.listenerAccept (hadd : env.addOk = true)
    (hw : (w.listeners l).waitConns ≠ []) (hb : (w.listeners l).backlog ≠ []) :
    Settles w (w.listenerAccept l env) := by
  obtain ⟨c, rest, hw⟩ := exists_cons_of_ne_nil hw
  obtain ⟨hs, hone, hc, hmem⟩ := h.of_waiting (c := c) (l := l) (by simp [hw])
  refine (listenerAccept_ends hadd hw hb hone hc hmem).mono fun w' ht => ?_
  rcases ht with ht | ht
  · exact ⟨⟨xs, h.same ht⟩, ht.fault⟩
  · exact ⟨⟨_, ht.sound h ((h.fits c).accepted hs (by omega))⟩, ht.fault⟩

omit h in
theorem Settles.trans (ht : w'.fault = w.fault) {x : Except SlowFault SlowTcp}
    (hx : Settles w' x) : Settles w x :=
  hx.mono fun _ h => ⟨h.1, h.2.trans ht⟩

omit h in
theorem turns_acceptWait (l c : ℕ) :
    Turns c (Held.setWait l ((w.held xs c).wait l + 1) ∘ Held.setStatus .synWait) w xs
      (w.acceptWait l c) xs := by
  have h₁ : Turns c (Held.setStatus .synWait) w xs (w.setConn c { w.conn c with
      status := .synWait
      localPort := (w.listeners l).port }) xs := turns_setConn rfl rfl
  refine h₁.trans (turns_setListener (fun d hd => ?_) ?_)
  · exact count_cons_of_ne hd.symm
  · exact count_cons_self

theorem Sound.tcpAccept (l : ℕ) (alloc : AllocResult)
    (hadd : env.addOk = true) : Settles w (w.tcpAccept l alloc env) := by
  rw [SlowTcp.tcpAccept]
  split
  · exact ⟨⟨xs, h.connAllocFails alloc⟩, connAllocFails_fault w alloc⟩
  obtain ⟨hmade, hfreed⟩ := h.unborn
  have h₁ := (turns_connAlloc w xs).trans (turns_acceptWait l (w.size + 1))
  have h₂ : (w.connAlloc.acceptWait l (w.size + 1)).Sound xs :=
    h₁.sound h ((h.fits _).acceptWait hmade hfreed l)
  dsimp only
  split
  · exact ⟨⟨xs, h₂⟩, h₁.fault⟩
  · next hback =>
    refine Settles.trans h₁.fault (h₂.listenerAccept hadd ?_ hback)
    simp [SlowTcp.acceptWait, setListener]

theorem Sound.listenerPacket (l : ℕ) (p : SlowPkt)
    (hadd : env.addOk = true) : Settles w (w.listenerPacket l p env) := by
  rw [SlowTcp.listenerPacket]
  split
  · exact h.settles_self
  split
  · exact h.settles_self
  split
  · exact h.settles_self
  generalize hy : ({ w.listeners l with backlog := _ } : Listener) = y
  have hset : (w.setListener l y).Sound xs := h.same (c := 0) (turns_setListener_id (by rw [← hy]))
  split
  · exact ⟨⟨xs, hset⟩, rfl⟩
  next hwait =>
  refine Settles.trans rfl (hset.listenerAccept hadd ?_ ?_)
  · simpa [setListener, ← hy] using hwait
  · simp [setListener, ← hy]

theorem Sound.of_registered (hmem : c ∈ w.table) :
    (w.held xs c).state = some (w.conn c).status ∧ (w.held xs c).table = 1 := by
  have hpos : 0 < (w.held xs c).table := count_pos_iff.mpr hmem
  have htable := (h.fits c).table
  have hlive : w.Live c := by
    by_contra hdead
    rw [state_held, if_neg hdead] at htable
    simp only [Held.inTable] at htable
    omega
  rw [state_held, if_pos hlive] at htable ⊢
  refine ⟨rfl, ?_⟩
  unfold Held.inTable at htable
  split at htable <;> omega

omit h in
theorem connSynSentPacket_ends (p : SlowPkt) (hadd : env.addOk = true)
    (harm : (w.held xs c).armed = true) (hc : c ≠ 0) (hmem : c ∉ xs) :
    Attempt.Ends (fun r => if r.2
        then Turns c (Held.setStatus .opened ∘ Held.setComp false ∘ Held.list ∘ Held.disarm) w xs
          r.1 (c :: xs)
        else Turns c Held.disarm w xs r.1 xs)
      (· = .portsHung) (w.connSynSentPacket c p env) := by
  refine Attempt.Ends.bind (connTimeoutDisarm_ends harm) fun w₁ h₁ => ?_
  split
  · exact h₁
  have h₂ := (h₁.trans (turns_ccConnInit hc hmem)).trans (turns_setComp c false)
  dsimp only
  rw [appifConnOpened, if_pos (Or.inr rfl)]
  exact h₂.trans (turns_setStatus c .opened)

theorem Sound.connPacket (hreg : c ∈ w.table) (p : SlowPkt) (hadd : env.addOk = true)
    (hopen : ¬ ((w.conn c).status = .opened ∧ p.flags = tcpSyn ∧ ¬ p.hasTs)) :
    Settles w (w.connPacket c p env) := by
  obtain ⟨hs, htable⟩ := h.of_registered hreg
  rw [SlowTcp.connPacket]
  split
  · next hsyn =>
    rw [hsyn] at hs
    have hfits := h.fits c
    obtain ⟨-, -, hlisted, -, harm, -⟩ := hfits.facts hs
    have hc : c ≠ 0 := by
      rintro rfl
      simp [state_held, Live] at hs
    refine Attempt.Ends.bind (connSynSentPacket_ends p hadd harm hc
      (count_eq_zero.mp hlisted)) fun r hr => ?_
    obtain ⟨w₁, ok⟩ := r
    cases ok with
    | true => exact ⟨⟨_, hr.sound h (hfits.opened hs)⟩, hr.fault⟩
    | false =>
      refine h.settles (hr.then (connFailed_ends env.room ?_ ?_)) (hfits.failed hs env.room)
      · rw [hr.held_self]
        exact htable.symm ▸ Nat.one_pos
      · rw [hr.held_self]
        intro _ ty
        rfl
  · exact h.settles_self

theorem Sound.tcpPacket (p : SlowPkt) (hadd : env.addOk = true)
    (hopen : ∀ c, w.connLookup p = some c →
      ¬ ((w.conn c).status = .opened ∧ p.flags = tcpSyn ∧ ¬ p.hasTs)) :
    Settles w (w.tcpPacket p env) := by
  rw [SlowTcp.tcpPacket]
  split
  · exact h.settles_self
  cases hlook : w.connLookup p with
  | some c => exact h.connPacket (mem_of_find?_eq_some hlook) p hadd (hopen c hlook)
  | none =>
    dsimp only
    split
    · exact h.listenerPacket _ p hadd
    · exact h.settles_self

theorem Sound.arpDone (c : ℕ) (ok : Bool) : Settles w (.ok (w.arpDone c ok)) := by
  rw [SlowTcp.arpDone]
  split
  · next hmem =>
    have h₁ : Turns c (Held.setComp !ok) w xs _ xs := turns_setComp c !ok
    exact h.settles_ok ((h₁.trans (turns_eraseArp c)).trans (turns_pushAsync c))
      ((h.fits c).resolved (count_pos_iff.mpr hmem) _)
  · exact h.settles_self

theorem Sound.tcpPoll (env : SlowEnv) : Settles w (w.tcpPoll env) := by
  rw [SlowTcp.tcpPoll]
  split
  · exact h.settles_self
  next c q hq =>
  have hfits := h.fits c
  have hpos : 0 < (w.held xs c).async := by simp [held, hq]
  have h₁ : Turns c Held.popAsync w xs _ xs := turns_popAsync hq
  have hlive : w.Live c := by
    by_contra hdead
    have hzero := (hfits.idle (by rw [state_held, if_neg hdead]; rfl)).1
    omega
  have hstate : (w.held xs c).state = some (w.conn c).status := by rw [state_held, if_pos hlive]
  dsimp only
  split
  · next hs =>
    rw [show (w.conn c).status = _ from hs] at hstate
    obtain ⟨-, -, -, htable, harm, htimer, -⟩ := hfits.facts hstate
    split
    · refine h.settles (h₁.then (connFailed_ends env.room ?_ ?_))
        (hfits.unresolved hstate hpos env.room)
      · exact htable.symm ▸ Nat.one_pos
      · exact fun _ => htimer
    · refine h.settles (h₁.then (connArpDone_ends ?_)) (hfits.synSent hstate hpos)
      exact harm
  · next hs =>
    rw [show (w.conn c).status = _ from hs] at hstate
    rw [if_neg (by simp [show (w.conn c).compFailed = false from hfits.comp hstate])]
    have h₂ := h₁.trans (turns_setStatus c .opened)
    have hopened := hfits.synackSent hstate hpos
    rw [appifAcceptConn]
    split
    · exact h.settles_ok (h₂.trans (turns_pushApp c)) hopened.pushApp
    · exact h.settles_ok h₂ hopened
  · next hpending hsynack =>
    -- no connection with another status is queued
    exfalso
    have hqueue := hfits.queue
    rw [hstate] at hqueue
    cases hst : (w.conn c).status
    case arpPending => exact hpending hst
    case regSynack => exact hsynack hst
    all_goals
      simp only [hst, Held.inQueue] at hqueue
      omega

omit h in
theorem turns_timerFired (c : ℕ) (ty : TimeoutType) :
    Turns c (Held.eraseTimer ty ∘ Held.setArmed false) w xs (w.timerFired c ty) xs :=
  (turns_setArmed c false).trans (turns_eraseTimer c ty)

omit h in
theorem turns_freePort (c : ℕ) (port : UInt16) : Turns c id w xs (w.freePort port) xs := by
  rw [freePort]
  split
  · exact turns_id (fun _ => rfl) rfl
  · exact turns_refl c w xs

omit h in
theorem freePort_links (w : SlowTcp) (port : UInt16) :
    (w.freePort port).table = w.table ∧ (w.freePort port).appConns = w.appConns ∧
      (w.freePort port).freed = w.freed := by
  rw [freePort]
  split <;> exact ⟨rfl, rfl, rfl⟩

omit h in
theorem appifConnClosed_ends (room : Bool) (happ : 0 < (w.held xs c).app)
    (hpass : ∀ x ∈ w.appPassed c, w.freed x = 0) :
    Goes (Turns c (Held.leaveApp room) w xs · xs) (w.appifConnClosed c room) := by
  cases room with
  | false =>
    exact turns_of_frame (fun _ _ => rfl) rfl rfl
  | true =>
    have hlive : ¬ ∃ x ∈ w.appPassed c, w.freed x ≠ 0 := fun ⟨x, hx, hne⟩ => hne (hpass x hx)
    rw [appifConnClosed, if_neg (by simp), if_neg hlive, if_pos (count_pos_iff.mp happ)]
    have hturn : Turns c Held.eraseApp w xs _ xs := turns_eraseApp c
    exact hturn

omit h in
theorem closedDone_ends (room : Bool) (happ : 0 < (w.held xs c).app)
    (hpass : ∀ x ∈ w.appPassed c, w.freed x = 0) :
    Goes (Turns c (Held.free ∘ Held.leaveApp room) w xs · xs) (do
      let w ← w.appifConnClosed c room
      pure (w.freeConn c)) :=
  Turns.bind (appifConnClosed_ends room happ hpass) fun w' _ => turns_freeConn (w := w') c

omit h in
theorem connCloseTimeout_ends (env : SlowEnv) (htable : 0 < (w.held xs c).table)
    (happ : 0 < (w.held xs c).app) (hpass : ∀ x ∈ w.appPassed c, w.freed x = 0) :
    Goes (Turns c (Held.free ∘ Held.leaveApp env.room ∘ Held.unregister) w xs · xs)
      (w.connCloseTimeout c env) := by
  obtain ⟨htab, happs, hfreed⟩ := freePort_links w (w.conn c).localPort
  have hport : Turns c id w xs _ xs := turns_freePort c (w.conn c).localPort
  have hmem : c ∈ (w.freePort (w.conn c).localPort).table := htab ▸ count_pos_iff.mp htable
  have h₁ := (hport.trans (turns_unregister c)).trans (turns_freeBuffers c)
  rw [connCloseTimeout, connUnregister_eq hmem]
  refine h₁.then (closedDone_ends env.room ?_ ?_)
  · rw [h₁.held_self]
    exact happ
  · simpa [appPassed, freeBuffers, happs, hfreed] using hpass

theorem Sound.tcpTimeout (retries c : ℕ) (ty : TimeoutType) (env : SlowEnv)
    (hpass : ty = .closed → ∀ x ∈ w.appPassed c, w.freed x = 0) :
    Settles w (w.tcpTimeout retries c ty env) := by
  rw [SlowTcp.tcpTimeout]
  split
  · next hmem =>
    have hfits := h.fits c
    have hpos : 0 < (w.held xs c).timer ty := count_pos_iff.mpr hmem
    rw [hfits.timer] at hpos
    have h₁ : Turns c (Held.eraseTimer ty ∘ Held.setArmed false) w xs _ xs := turns_timerFired c ty
    cases ty with
    | closed =>
      have hs := Held.inTimers_pos hpos
      obtain ⟨-, -, -, htable, harm, -⟩ := hfits.facts hs
      rw [if_pos (show (w.conn c).toArmed = true from harm)]
      refine h.settles (h₁.then (connCloseTimeout_ends env ?_ ?_ (hpass rfl)))
        (hfits.closeTimeout hs env.room)
      · exact htable.symm ▸ Nat.one_pos
      · exact hfits.app hs
    | handshake =>
      have hs := Held.inTimers_pos hpos
      obtain ⟨-, -, -, htable, harm, htimer, -⟩ := hfits.facts hs
      rw [if_pos (show (w.conn c).toArmed = true from harm)]
      have h₂ : Turns c id (w.timerFired c .handshake) xs
          ((w.timerFired c .handshake).countAttempt c) xs := turns_setConn rfl rfl
      have h₃ := h₁.trans h₂
      have hstatus : ((w.timerFired c .handshake).conn c).status = .synSent := by
        have hsame : ((w.timerFired c .handshake).held xs c).status = (w.held xs c).status := by
          rw [h₁.held_self]
          rfl
        exact hsame.trans (Held.state_eq_some.mp hs).2.2
      dsimp only
      rw [if_neg (by simp [hstatus])]
      split
      · refine h.settles (h₃.then (connFailed_ends env.room ?_ ?_)) (hfits.failed hs env.room)
        · exact htable.symm ▸ Nat.one_pos
        · rw [h₃.held_self]
          rintro - (_ | _) <;> simp [htimer]
      · refine h.settles (h₃.then (connTimeoutArm_ends .handshake ?_)) (hfits.again hs)
        rw [h₃.held_self]
        rfl
  · exact h.settles_self

omit h in
theorem held_skipNext (w : SlowTcp) (c : ℕ) (ys : List ℕ) (d : ℕ) :
    (w.skipNext c).held ys d = w.held ys d := by
  rw [skipNext]
  split <;> rfl

omit h in
theorem skipNext_links (w : SlowTcp) (c : ℕ) :
    (w.skipNext c).next = w.next ∧ (w.skipNext c).ccConns = w.ccConns ∧
      (w.skipNext c).size = w.size ∧ (w.skipNext c).fault = w.fault := by
  rw [skipNext]
  split <;> exact ⟨rfl, rfl, rfl, rfl⟩

omit h in
theorem held_erase (hsame : ∀ ys d, w'.held ys d = w.held ys d) :
    w'.held (xs.erase c) = Function.update (w.held xs) c (Held.unlist (w.held xs c)) := by
  refine Function.eq_update_iff.mpr ⟨?_, fun d hd => ?_⟩
  · rw [hsame]
    simp [held, count_erase_self]
  · rw [hsame]
    simp [held, count_erase_of_ne hd]

theorem Sound.skipNext_mem (hmem : c ∈ xs) :
    (w.skipNext c).nextConn = 0 ∨ (w.skipNext c).nextConn ∈ xs.erase c := by
  rw [skipNext]
  split
  · refine (h.cc.chain.next_mem hmem).imp_right fun hnext => ?_
    exact (mem_erase_of_ne (h.cc.chain.next_ne h.nodup hmem)).mpr hnext
  · next hne => exact h.cc.next.imp_right fun hnext => (mem_erase_of_ne hne).mpr hnext

theorem Sound.ccConnRemove (hmem : c ∈ xs) :
    Goes (Turns c Held.unlist w xs · (xs.erase c)) (w.ccConnRemove c) := by
  obtain ⟨hnext, hcc, hsize, hfault⟩ := skipNext_links w c
  have hheld := held_skipNext w c
  have hmem' := h.skipNext_mem hmem
  have hchain : Linked.Chain (w.skipNext c).next 0 (w.skipNext c).ccConns xs := by
    rw [hnext, hcc]
    exact h.cc.chain
  rw [SlowTcp.ccConnRemove]
  generalize w.skipNext c = w₁ at *
  split
  · next hfirst =>
    -- the connection is the first one
    obtain ⟨ys, rfl⟩ : ∃ ys, xs = c :: ys := by
      cases xs with
      | nil => cases hmem
      | cons x ys => exact ⟨ys, by rw [← hfirst, hchain.1]⟩
    refine ⟨held_erase hheld, fun _ => ⟨?_, hmem'⟩, hfault⟩
    rw [erase_cons_head]
    exact hchain.2.2
  next hfirst =>
  obtain ⟨as, p, bs, rfl⟩ := hchain.exists_pred hmem hfirst
  have hnodup := h.nodup
  have hlen := h.length_le
  rw [length_append] at hlen
  rw [hchain.seek_pred hnodup (by omega)]
  have hp : p ≠ 0 := hchain.ne_nil (by simp)
  simp only [if_neg hp]
  refine ⟨held_erase fun ys d => ?_, fun _ => ⟨?_, hmem'⟩, hfault⟩
  · rw [← hheld]
    by_cases hd : d = p
    · subst hd
      rw [held_setConn_self]
      rfl
    · exact held_setConn_of_ne hd
  · rw [next_setConn, Linked.erase_unlinked hnodup]
    exact hchain.unlink hnodup

theorem Sound.tcpClose (happ : c ∈ w.appConns) (hlive : w.Live c) : Settles w (w.tcpClose c) := by
  rw [SlowTcp.tcpClose]
  split
  · exact h.settles_self
  next hst =>
  have hst : (w.conn c).status = .opened := not_not.mp hst
  have hs : (w.held xs c).state = some .opened := by rw [state_held, if_pos hlive, hst]
  have hmem : c ∈ xs := h.mem_list.mpr ⟨hlive, Or.inr hst⟩
  have hfits := h.fits c
  have hends : Goes (Turns c ((Held.arm .closed ∘ Held.setStatus .closed) ∘ Held.unlist) w xs ·
      (xs.erase c)) (do
        let w ← w.ccConnRemove c
        (w.setStatus c .closed).connTimeoutArm c .closed) := by
    refine Turns.bind (h.ccConnRemove hmem) fun w₁ h₁ => ?_
    have h₂ : Turns c (Held.setStatus .closed) w₁ (xs.erase c) _ (xs.erase c) :=
      turns_setStatus c .closed
    refine h₂.then (connTimeoutArm_ends .closed ?_)
    rw [h₂.held_self]
    rw [h₁.held_self]
    exact (hfits.facts hs).2.2.2.2.1
  exact h.settles hends (hfits.closed hs (count_pos_iff.mpr happ))

/-- The loop of `cc_poll` stays in the list and reads live connections. -/
theorem Sound.ccLoop (first fuel : ℕ) (started : Bool) (hc : c ∈ xs) :
    ∃ d ∈ xs, w.ccLoop first fuel started c = .ok d := by
  induction fuel generalizing started c with
  | zero => exact ⟨c, hc, rfl⟩
  | succ fuel ih =>
    obtain ⟨⟨hne, -, hfreed⟩, -⟩ := h.mem_list.mp hc
    rw [SlowTcp.ccLoop]
    split
    · exact ⟨c, hc, rfl⟩
    rw [if_neg (by simp [hne, hfreed])]
    apply ih
    split
    · next hnext => exact (h.cc.chain.next_mem hc).resolve_left hnext
    · refine h.cc.chain.head_mem.resolve_left fun hnil => ?_
      rw [h.cc.chain.eq_nil_iff.mp hnil] at hc
      cases hc

theorem Sound.ccPoll : ∃ d, (d = 0 ∨ d ∈ xs) ∧ w.ccPoll = .ok { w with nextConn := d } := by
  rw [SlowTcp.ccPoll]
  split
  · next hfirst => exact ⟨w.nextConn, h.cc.next, rfl⟩
  next hfirst =>
  have hmem : w.ccFirst ∈ xs := by
    unfold ccFirst at hfirst ⊢
    split
    · next hne => exact h.cc.next.resolve_left hne
    · next hnil =>
      rw [if_neg hnil] at hfirst
      exact h.cc.chain.head_mem.resolve_left hfirst
  obtain ⟨d, hd, hloop⟩ := h.ccLoop w.ccFirst 128 false hmem
  rw [hloop]
  exact ⟨d, Or.inr hd, rfl⟩

/-- A SYN without a timestamp for an open connection, which `conn_packet` gives up. -/
def RejectsOpen (w : SlowTcp) (p : SlowPkt) : Prop :=
  ∃ c ∈ w.connLookup p, (w.conn c).status = .opened ∧ p.flags = tcpSyn ∧ ¬ p.hasTs
deriving Decidable

/-- `nicif_connection_add` succeeds, no open connection is given up, none closed behind a freed one.
-/
def Calm (w : SlowTcp) : SlowOp → Prop
  | .accept _ _ env => env.addOk = true
  | .packet p env => env.addOk = true ∧ ¬ w.RejectsOpen p
  | .timeout c ty _ => ty = .closed → ∀ x ∈ w.appPassed c, w.freed x = 0
  | _ => True

instance (w : SlowTcp) : DecidablePred w.Calm
  | .accept .. | .packet .. | .timeout .. => by dsimp only [Calm]; infer_instance
  | .openConn .. | .listen .. | .arp .. | .poll _ | .close _ | .ccPoll => instDecidableTrue

theorem Sound.exec (retries : ℕ) {op : SlowOp} (hok : w.Ok op)
    (hcalm : w.Calm op) : Settles w (w.exec retries op) := by
  cases op with
  | openConn alloc r ip port => exact h.tcpOpen alloc r ip port
  | listen port backlog reuseport => exact h.tcpListen port backlog reuseport
  | accept l alloc env => exact h.tcpAccept l alloc hcalm
  | packet p env =>
    exact h.tcpPacket p hcalm.1 fun c hc hrej => hcalm.2 ⟨c, hc, hrej⟩
  | arp c ok => exact h.arpDone c ok
  | poll env => exact h.tcpPoll env
  | timeout c ty env => exact h.tcpTimeout retries c ty env hcalm
  | close c => exact h.tcpClose hok.1 hok.2
  | ccPoll =>
    obtain ⟨d, hd, hpoll⟩ := h.ccPoll
    rw [SlowTcp.exec, hpoll]
    exact ⟨⟨xs, ⟨h.cc.chain, hd⟩, h.fits⟩, rfl⟩

end

/-- The state is sound for some list, and only `port_alloc` can have failed to end. -/
def Valid (w : SlowTcp) : Prop := (∃ xs, w.Sound xs) ∧ (w.fault = none ∨ w.fault = some .portsHung)

theorem Valid.step (h : w.Valid) (retries : ℕ) {op : SlowOp} (hok : w.Ok op ∧ w.Calm op) :
    (w.step retries op).Valid := by
  obtain ⟨⟨xs, hs⟩, hfault⟩ := h
  rw [SlowTcp.step]
  split
  · exact ⟨⟨xs, hs⟩, hfault⟩
  next hnone =>
  have hends := hs.exec retries hok.1 hok.2
  cases hexec : w.exec retries op with
  | ok w' =>
    rw [hexec] at hends
    exact ⟨hends.1, hends.2 ▸ hfault⟩
  | error f =>
    rw [hexec] at hends
    exact ⟨⟨xs, ⟨hs.cc.chain, hs.cc.next⟩, hs.fits⟩, Or.inr (congrArg some hends)⟩

theorem valid_init (hint : UInt16) : (init hint).Valid := by
  refine ⟨⟨[], ⟨rfl, Or.inl rfl⟩, fun c => ?_⟩, Or.inl rfl⟩
  have hstate : ((init hint).held [] c).state = none := by
    rw [state_held, if_neg]
    rintro ⟨hne, hle, -⟩
    exact hne (Nat.le_zero.mp hle)
  exact {
    made := by simp [held, init, isFreed]
    listed := by rw [hstate]; rfl
    table := by rw [hstate]; rfl
    queue := by rw [hstate]; rfl
    arp := by simp [held, init]
    timer := fun ty => by rw [hstate]; rfl
    armed := fun hne => absurd hstate hne
    comp := by simp [hstate]
    app := by simp [hstate]
    wait := by simp [held, init]
    apart := by simp [held, init] }

/-- While `nicif_connection_add` succeeds and no freed connection is met, `cc_conns` holds the open
connections once each, and `cc_poll` ends and reads no freed one. -/
theorem cc_list_sound (retries : ℕ) (hint : UInt16) (ops : List SlowOp)
    (hrun : Run.Admissible (step retries) (fun w op => w.Ok op ∧ w.Calm op) (init hint) ops) :
    ∃ xs, Linked.Chain (ops.foldl (step retries) (init hint)).next 0
        (ops.foldl (step retries) (init hint)).ccConns xs ∧
      xs.Nodup ∧ (∀ c ∈ xs, (ops.foldl (step retries) (init hint)).Live c) ∧
      (∀ c, (ops.foldl (step retries) (init hint)).Live c →
        ((ops.foldl (step retries) (init hint)).conn c).status = .opened → c ∈ xs) ∧
      ((ops.foldl (step retries) (init hint)).nextConn = 0 ∨
        (ops.foldl (step retries) (init hint)).nextConn ∈ xs) ∧
      (∃ w', (ops.foldl (step retries) (init hint)).ccPoll = .ok w') ∧
      ((ops.foldl (step retries) (init hint)).fault = none ∨
        (ops.foldl (step retries) (init hint)).fault = some .portsHung) := by
  have hvalid : (ops.foldl (step retries) (init hint)).Valid :=
    hrun.invariant (valid_init hint) fun _ _ h hok => h.step retries hok
  obtain ⟨⟨xs, h⟩, hfault⟩ := hvalid
  obtain ⟨d, -, hpoll⟩ := h.ccPoll
  exact ⟨xs, h.cc.chain, h.nodup, fun c hc => (h.mem_list.mp hc).1,
    fun c hlive hopen => h.mem_list.mpr ⟨hlive, Or.inr hopen⟩, h.cc.next, ⟨_, hpoll⟩, hfault⟩

def synackFrom (ts : Bool) (flags : UInt16) : SlowPkt := ⟨true, 2, 9, 8192, flags, ts, true, true⟩

def synFrom (port : UInt16) : SlowPkt := ⟨true, 1, port, 80, tcpSyn, true, true, true⟩

def acceptOpenClose : List SlowOp :=
  [.listen 80 16 false, .accept 0 .ok ⟨true, true⟩, .packet (synFrom 7) ⟨true, true⟩,
    .poll ⟨true, true⟩, .openConn .ok .done 2 9,
    .packet (synackFrom true (tcpSyn ||| tcpAck)) ⟨true, true⟩, .ccPoll, .close 1, .ccPoll,
    .timeout 1 .closed ⟨true, true⟩, .ccPoll]

theorem cc_list_sound_acceptOpenClose :
    (acceptOpenClose.foldl (step 3) (init 8192)).ccConns = 2 ∧
      ∃ xs, Linked.Chain (acceptOpenClose.foldl (step 3) (init 8192)).next 0
        (acceptOpenClose.foldl (step 3) (init 8192)).ccConns xs := by
  have hrun : Run.Admissible (step 3) (fun w op => w.Ok op ∧ w.Calm op) (init 8192)
      acceptOpenClose := by decide +kernel
  obtain ⟨xs, hchain, -⟩ := cc_list_sound 3 8192 acceptOpenClose hrun
  exact ⟨by decide +kernel, xs, hchain⟩

def acceptTwice : List SlowOp :=
  [.listen 80 16 false, .accept 0 .ok ⟨true, true⟩, .packet (synFrom 7) ⟨false, true⟩,
    .packet (synFrom 8) ⟨true, true⟩]

def openLost : List SlowOp :=
  [.openConn .ok .done 2 9, .packet (synackFrom true (tcpSyn ||| tcpAck)) ⟨false, true⟩, .ccPoll]

def openRejected : List SlowOp :=
  [.openConn .ok .done 2 9, .packet (synackFrom true (tcpSyn ||| tcpAck)) ⟨true, true⟩,
    .packet (synackFrom false tcpSyn) ⟨true, true⟩, .ccPoll]

/-- A connection put into the list twice is linked to itself; one that failed stays in it. -/
theorem cc_list_cyclic_or_freed :
    (Run.Admissible (step 3) Ok (init 8192) acceptTwice ∧
      ¬ ∃ xs, Linked.Chain (acceptTwice.foldl (step 3) (init 8192)).next 0
        (acceptTwice.foldl (step 3) (init 8192)).ccConns xs) ∧
    (Run.Admissible (step 3) Ok (init 8192) openLost ∧
      (openLost.foldl (step 3) (init 8192)).fault = some .useAfterFree) ∧
    Run.Admissible (step 3) Ok (init 8192) openRejected ∧
      (openRejected.foldl (step 3) (init 8192)).fault = some .useAfterFree := by
  refine ⟨⟨by decide +kernel, ?_⟩, ⟨by decide +kernel, by decide +kernel⟩, by decide +kernel,
    by decide +kernel⟩
  rintro ⟨xs, hchain⟩
  have hself : (acceptTwice.foldl (step 3) (init 8192)).next 1 = 1 := by decide +kernel
  exact Linked.not_chain_of_self Nat.one_ne_zero hself hchain

end SlowTcp

end StackBench.Tas

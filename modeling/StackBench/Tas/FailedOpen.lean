import StackBench.Lib.Attempt
import StackBench.Tas.SlowTcp

/-!
# What a failed open leaves behind

An open that ends in an error return of `tcp_open` leaves nothing behind in any
table, list or queue. One that ends in `conn_failed` keeps its port, and its
freed connection stays in the list of the application.
-/

namespace StackBench.Tas

open Function List

namespace SlowTcp

/-- Nothing refers to the connection `k`. -/
structure Unref (k : ℕ) (w : SlowTcp) : Prop where
  table : k ∉ w.table
  ccConns : w.ccConns ≠ k
  nextConn : w.nextConn ≠ k
  ccNext : ∀ c, w.next c ≠ k
  timers : ∀ ty, (k, ty) ∉ w.timers
  asyncQ : k ∉ w.asyncQ
  arpWait : k ∉ w.arpWait
  appConns : k ∉ w.appConns
  wait : ∀ l, k ∉ (w.listeners l).waitConns
  ports : ∀ p, w.ports p ≠ .conn k

/-- The record of an end is kept, or `conn_failed` writes it. -/
def LateEnd (a b : Option OpenEnd) : Prop := b = a ∨ ∃ e, b = some e ∧ e.byReturn = false

theorem LateEnd.trans {a b d : Option OpenEnd} (h : LateEnd a b) (h' : LateEnd b d) :
    LateEnd a d := by
  rcases h' with rfl | hnew
  · exact h
  · exact Or.inr hnew

/-- A call on other connections leaves `k` without references and its records as they were. -/
structure Keeps (k : ℕ) (w w' : SlowTcp) : Prop where
  unref : w'.Unref k
  size : w'.size = w.size
  freed : w'.freed k = w.freed k
  rxAlloc : w'.rxAlloc k = w.rxAlloc k
  rxFree : w'.rxFree k = w.rxFree k
  txAlloc : w'.txAlloc k = w.txAlloc k
  txFree : w'.txFree k = w.txFree k
  ended : w'.ended k = w.ended k
  hint : 8192 ≤ w.portHint → 8192 ≤ w'.portHint
  late : ∀ j, LateEnd (w.ended j) (w'.ended j)

variable {k c : ℕ} {w w' w'' : SlowTcp}

/-- A call keeps `k` unless it stops with a fault. -/
abbrev KeepsEnd (k : ℕ) (w : SlowTcp) (x : Except SlowFault SlowTcp) : Prop :=
  Attempt.Ends (Keeps k w) (fun _ => True) x

theorem Unref.keeps (h : w.Unref k) : Keeps k w w :=
  ⟨h, rfl, rfl, rfl, rfl, rfl, rfl, rfl, id, fun _ => Or.inl rfl⟩

theorem Keeps.trans (h : Keeps k w w') (h' : Keeps k w' w'') : Keeps k w w'' :=
  ⟨h'.unref, h'.size.trans h.size, h'.freed.trans h.freed, h'.rxAlloc.trans h.rxAlloc,
    h'.rxFree.trans h.rxFree, h'.txAlloc.trans h.txAlloc, h'.txFree.trans h.txFree,
    h'.ended.trans h.ended, h'.hint ∘ h.hint, fun j => (h.late j).trans (h'.late j)⟩

variable {x : Except SlowFault SlowTcp}

theorem Keeps.then (h : Keeps k w w') (hx : KeepsEnd k w' x) : KeepsEnd k w x :=
  hx.mono fun _ h' => h.trans h'

theorem KeepsEnd.bind {f : SlowTcp → Except SlowFault SlowTcp} (h : KeepsEnd k w x)
    (hf : ∀ w', Keeps k w w' → KeepsEnd k w' (f w')) :
    KeepsEnd k w (x >>= f) :=
  Attempt.Ends.bind h fun w' h' => h'.then (hf w' h')

namespace Unref

variable (h : w.Unref k)
include h

theorem setConn (c : ℕ) {x : TcpConn} (hx : x.ccNext ≠ k) : Keeps k w (w.setConn c x) := by
  refine { h.keeps with unref := { h with ccNext := ?_ } }
  exact (forall_update_iff w.conn fun _ y => y.ccNext ≠ k).mpr ⟨hx, fun d _ => h.ccNext d⟩

theorem setStatus (c : ℕ) (s : TcpStatus) : Keeps k w (w.setStatus c s) :=
  h.setConn c (h.ccNext c)

theorem setListener (l : ℕ) {x : Listener} (hx : k ∉ x.waitConns) :
    Keeps k w (w.setListener l x) := by
  refine { h.keeps with unref := { h with wait := ?_ } }
  exact (forall_update_iff w.listeners fun _ y => k ∉ y.waitConns).mpr
    ⟨hx, fun m _ => h.wait m⟩

section

variable (hc : c ≠ k)
include hc

theorem freeBuffers : Keeps k w (w.freeBuffers c) :=
  { h.keeps with
    unref := { h with }
    rxFree := update_of_ne hc.symm _ _
    txFree := update_of_ne hc.symm _ _ }

theorem freeConn : Keeps k w (w.freeConn c) :=
  { h.keeps with unref := { h with }, freed := update_of_ne hc.symm _ _ }

theorem connFree : Keeps k w (w.connFree c) :=
  (h.freeBuffers hc).trans ((h.freeBuffers hc).unref.freeConn hc)

theorem endOpen {e : OpenEnd} (he : e.byReturn = false) : Keeps k w (w.endOpen c e) := by
  refine { h.keeps with
    unref := { h with }, ended := update_of_ne hc.symm _ _, late := fun j => ?_ }
  by_cases hj : j = c
  · subst hj
    exact Or.inr ⟨e, update_self .., he⟩
  · exact Or.inl (update_of_ne hj _ _)

theorem connRegister : Keeps k w (w.connRegister c) :=
  { h.keeps with
    unref := { h with table := not_mem_cons_of_ne_of_not_mem hc.symm h.table } }

end

theorem withTimers {timers : List (ℕ × TimeoutType)}
    (ht : ∀ ty, (k, ty) ∉ timers) : Keeps k w { w with timers := timers } :=
  { h.keeps with unref := { h with timers := ht } }

theorem withAsyncQ {q : List ℕ} (hq : k ∉ q) : Keeps k w { w with asyncQ := q } :=
  { h.keeps with unref := { h with asyncQ := hq } }

theorem withAppConns {q : List ℕ} (hq : k ∉ q) : Keeps k w { w with appConns := q } :=
  { h.keeps with unref := { h with appConns := hq } }

theorem withPort (port : UInt16) {x : PortUse} (hx : x ≠ .conn k) :
    Keeps k w { w with ports := update w.ports port x } := by
  refine { h.keeps with unref := { h with ports := ?_ } }
  exact (forall_update_iff w.ports fun _ y => y ≠ .conn k).mpr
    ⟨hx, fun p _ => h.ports p⟩

theorem connUnregister (c : ℕ) : KeepsEnd k w (w.connUnregister c) := by
  unfold SlowTcp.connUnregister
  split
  · exact { h.keeps with
      unref := { h with table := fun hk => h.table (mem_of_mem_erase hk) } }
  · trivial

theorem connTimeoutArm (hc : c ≠ k) (ty : TimeoutType) :
    KeepsEnd k w (w.connTimeoutArm c ty) := by
  unfold SlowTcp.connTimeoutArm
  split
  · trivial
  have hset := h.setConn c (x := { w.conn c with toArmed := true }) (h.ccNext c)
  refine hset.trans (hset.unref.withTimers fun ty' hmem => ?_)
  rcases mem_cons.mp hmem with heq | hold
  · exact hc (congrArg Prod.fst heq).symm
  · exact h.timers ty' hold

theorem connTimeoutDisarm (c : ℕ) : KeepsEnd k w (w.connTimeoutDisarm c) := by
  unfold SlowTcp.connTimeoutDisarm
  split
  · have hset := h.setConn c (x := { w.conn c with toArmed := false }) (h.ccNext c)
    exact hset.trans (hset.unref.withTimers fun ty hmem => h.timers ty (mem_filter.mp hmem).1)
  · trivial

theorem connDisarmArmed (c : ℕ) : KeepsEnd k w (w.connDisarmArmed c) := by
  unfold SlowTcp.connDisarmArmed
  split
  · exact h.connTimeoutDisarm c
  · exact h.keeps

theorem ccConnInit (hc : c ≠ k) : Keeps k w (w.ccConnInit c) := by
  have hset := h.setConn c (x := { w.conn c with ccNext := w.ccConns }) h.ccConns
  exact { hset with unref := { hset.unref with ccConns := hc } }

theorem withNext {x : ℕ} (hx : x ≠ k) : Keeps k w { w with nextConn := x } :=
  { h.keeps with unref := { h with nextConn := hx } }

theorem skipNext (c : ℕ) : Keeps k w (w.skipNext c) := by
  unfold SlowTcp.skipNext
  split
  · exact h.withNext (h.ccNext c)
  · exact h.keeps

theorem ccConnRemove (c : ℕ) : KeepsEnd k w (w.ccConnRemove c) := by
  unfold SlowTcp.ccConnRemove
  have hnext := h.skipNext c
  generalize w.skipNext c = w₁ at hnext
  have h₁ := hnext.unref
  refine hnext.then ?_
  dsimp only
  split
  · exact { h₁.keeps with unref := { h₁ with ccConns := h₁.ccNext c } }
  split
  · trivial
  · split
    · trivial
    · exact h₁.setConn _ (h₁.ccNext c)

section

variable (hc : c ≠ k)
include hc

theorem tcpDestroy : KeepsEnd k w (w.tcpDestroy c) := by
  unfold SlowTcp.tcpDestroy
  split
  · exact h.connFree hc
  · trivial

theorem appifConnOpened (ok room : Bool) : KeepsEnd k w (w.appifConnOpened c ok room) := by
  unfold SlowTcp.appifConnOpened
  split
  · exact h.keeps
  · exact h.tcpDestroy hc

theorem appifAcceptConn (room : Bool) : Keeps k w (w.appifAcceptConn c room) := by
  unfold SlowTcp.appifAcceptConn
  split
  · exact h.withAppConns (not_mem_cons_of_ne_of_not_mem hc.symm h.appConns)
  · exact h.keeps

omit hc in
theorem appifConnClosed (c : ℕ) (room : Bool) : KeepsEnd k w (w.appifConnClosed c room) := by
  unfold SlowTcp.appifConnClosed
  split
  · exact h.keeps
  split
  · trivial
  · split
    · exact h.withAppConns fun hk => h.appConns (mem_of_mem_erase hk)
    · trivial

theorem connFailed (room : Bool) : KeepsEnd k w (w.connFailed c room) := by
  refine (h.connUnregister c).bind fun w₁ h₁ => ?_
  refine (h₁.unref.connDisarmArmed c).bind fun w₂ h₂ => ?_
  have h₃ := h₂.unref.setStatus c .failed
  refine h₃.then ((h₃.unref.appifConnOpened hc false room).bind fun w₄ h₄ => ?_)
  split
  · exact h₄.unref.endOpen hc rfl
  · exact h₄.unref.keeps

theorem connArpDone : KeepsEnd k w (w.connArpDone c) := by
  have hset := h.setConn c (x := { w.conn c with status := .synSent, toAttempts := 0 }) (h.ccNext c)
  exact hset.then (hset.unref.connTimeoutArm hc .handshake)

theorem openDone (port : UInt16) : Keeps k w (w.openDone c port) := by
  have hport := h.withPort port (x := .conn c) fun hcon => hc (PortUse.conn.inj hcon)
  have happ := hport.unref.withAppConns
    (not_mem_cons_of_ne_of_not_mem hc.symm hport.unref.appConns)
  exact { hport.trans happ with unref := { happ.unref with } }

theorem acceptInit (s : Syn) (port : UInt16) : Keeps k w (w.acceptInit c s port) := by
  have h₁ := h.setConn c (x := { w.conn c with
    remoteIp := s.remoteIp, remotePort := s.remotePort, localPort := port }) (h.ccNext c)
  have h₂ := h₁.unref.ccConnInit hc
  exact (h₁.trans h₂).trans (h₂.unref.setConn c (h₂.unref.ccNext c))

theorem acceptDone (l : ℕ) {rest : List ℕ} (hrest : k ∉ rest) :
    Keeps k w (w.acceptDone l c rest) := by
  have h₁ := h.setListener l (x := { w.listeners l with waitConns := rest }) hrest
  have h₂ := h₁.unref.connRegister hc
  refine (h₁.trans h₂).trans (h₂.unref.withAsyncQ fun hmem => ?_)
  rcases mem_append.mp hmem with hold | hnew
  · exact h.asyncQ hold
  · exact hc (mem_singleton.mp hnew).symm

omit hc in
theorem listenerAccept (l : ℕ) (env : SlowEnv) : KeepsEnd k w (w.listenerAccept l env) := by
  unfold SlowTcp.listenerAccept
  split
  · next c rest s backlog hwait hback =>
    have hmem := h.wait l
    rw [hwait, mem_cons, not_or] at hmem
    have hc : c ≠ k := Ne.symm hmem.1
    have h₁ := h.setListener l (x := { w.listeners l with backlog := backlog }) (h.wait l)
    refine h₁.then ?_
    split
    · exact h₁.unref.keeps
    have h₂ := h₁.unref.acceptInit hc s (w.listeners l).port
    split
    · exact h₂
    · exact h₂.trans (h₂.unref.acceptDone hc l hmem.2)
  · trivial

theorem connSynSentPacket (p : SlowPkt) (env : SlowEnv) :
    Attempt.Ends (fun r => Keeps k w r.1) (fun _ => True) (w.connSynSentPacket c p env) := by
  refine Attempt.Ends.bind (h.connTimeoutDisarm c) fun w₁ h₁ => ?_
  split
  · exact h₁
  have h₂ := h₁.unref.ccConnInit hc
  have h₃ := h₂.unref.setConn c (x := { (w₁.ccConnInit c).conn c with compFailed := false })
    (h₂.unref.ccNext c)
  have h₁₃ := (h₁.trans h₂).trans h₃
  split
  · exact h₁₃
  · have h₄ := h₃.unref.setStatus c .opened
    refine Attempt.Ends.bind (h₄.unref.appifConnOpened hc true env.room) fun w₅ h₅ => ?_
    exact (h₁₃.trans h₄).trans h₅

theorem connPacket (p : SlowPkt) (env : SlowEnv) : KeepsEnd k w (w.connPacket c p env) := by
  unfold SlowTcp.connPacket
  split
  · refine (h.connSynSentPacket hc p env).bind ?_
    rintro ⟨w₁, ok⟩ h₁
    dsimp only at h₁ ⊢
    split
    · exact h₁
    · exact h₁.then (h₁.unref.connFailed hc env.room)
  · split
    · exact h.connFailed hc env.room
    · exact h.keeps

end

theorem listenerPacket (l : ℕ) (p : SlowPkt) (env : SlowEnv) :
    KeepsEnd k w (w.listenerPacket l p env) := by
  unfold SlowTcp.listenerPacket
  dsimp only
  split
  · exact h.keeps
  split
  · exact h.keeps
  split
  · exact h.keeps
  have h₁ := h.setListener l (x := { w.listeners l with
    backlog := (w.listeners l).backlog ++ [⟨p.remoteIp, p.remotePort, p.copyOk⟩] }) (h.wait l)
  split
  · exact h₁
  · exact h₁.then (h₁.unref.listenerAccept l env)

theorem tcpPacket (p : SlowPkt) (env : SlowEnv) : KeepsEnd k w (w.tcpPacket p env) := by
  unfold SlowTcp.tcpPacket
  split
  · exact h.keeps
  split
  · next c hfind =>
    have hmem := mem_of_find?_eq_some hfind
    exact h.connPacket (fun heq => h.table (heq ▸ hmem)) p env
  · split
    · next l _ => exact h.listenerPacket l p env
    · exact h.keeps

theorem arpDone (c : ℕ) (ok : Bool) : Keeps k w (w.arpDone c ok) := by
  unfold SlowTcp.arpDone
  split
  · next hmem =>
    have hset := h.setConn c (x := { w.conn c with compFailed := !ok }) (h.ccNext c)
    refine { hset with unref := { hset.unref with
      asyncQ := fun hq => ?_, arpWait := fun hk => h.arpWait (mem_of_mem_erase hk) } }
    rcases mem_append.mp hq with hold | hnew
    · exact h.asyncQ hold
    · obtain rfl := mem_singleton.mp hnew
      exact h.arpWait hmem
  · exact h.keeps

theorem tcpPoll (env : SlowEnv) : KeepsEnd k w (w.tcpPoll env) := by
  unfold SlowTcp.tcpPoll
  split
  · exact h.keeps
  next c q hq =>
  have hmem := h.asyncQ
  rw [hq, mem_cons, not_or] at hmem
  have hc : c ≠ k := Ne.symm hmem.1
  have h₁ := h.withAsyncQ hmem.2
  refine h₁.then ?_
  dsimp only
  split
  · split
    · exact h₁.unref.connFailed hc env.room
    · exact h₁.unref.connArpDone hc
  · split
    · exact h₁.unref.connFailed hc env.room
    · have h₂ := h₁.unref.setStatus c .opened
      exact h₂.trans (h₂.unref.appifAcceptConn hc env.room)
  · exact h₁.unref.keeps

theorem freePort (port : UInt16) : Keeps k w (w.freePort port) := by
  unfold SlowTcp.freePort
  split
  · exact h.withPort _ nofun
  · exact h.keeps

theorem connCloseTimeout (hc : c ≠ k) (env : SlowEnv) :
    KeepsEnd k w (w.connCloseTimeout c env) := by
  have hport := h.freePort (w.conn c).localPort
  refine hport.then ((hport.unref.connUnregister c).bind fun w₁ h₁ => ?_)
  have h₂ := h₁.unref.freeBuffers hc
  refine h₂.then ((h₂.unref.appifConnClosed c env.room).bind fun w₃ h₃ => ?_)
  exact h₃.unref.freeConn hc

theorem timerFired (c : ℕ) (ty : TimeoutType) : Keeps k w (w.timerFired c ty) := by
  have hset := h.setConn c (x := { w.conn c with toArmed := false }) (h.ccNext c)
  exact hset.trans (hset.unref.withTimers fun ty' hk => h.timers ty' (mem_of_mem_erase hk))

theorem tcpTimeout (retries c : ℕ) (ty : TimeoutType) (env : SlowEnv) :
    KeepsEnd k w (w.tcpTimeout retries c ty env) := by
  unfold SlowTcp.tcpTimeout
  split
  · next hmem =>
    have hc : c ≠ k := by
      rintro rfl
      exact h.timers ty hmem
    split
    · have h₁ := h.timerFired c ty
      refine h₁.then ?_
      cases ty with
      | closed => exact h₁.unref.connCloseTimeout hc env
      | handshake =>
        dsimp only
        split
        · trivial
        have h₂ : Keeps k _ ((w.timerFired c .handshake).countAttempt c) :=
          h₁.unref.setConn c (h₁.unref.ccNext c)
        refine h₂.then ?_
        split
        · exact h₂.unref.connFailed hc env.room
        · exact h₂.unref.connTimeoutArm hc .handshake
    · trivial
  · exact h.keeps

theorem tcpClose (hc : c ≠ k) : KeepsEnd k w (w.tcpClose c) := by
  unfold SlowTcp.tcpClose
  split
  · exact h.keeps
  · refine (h.ccConnRemove c).bind fun w₁ h₁ => ?_
    have h₂ := h₁.unref.setStatus c .closed
    exact h₂.then (h₂.unref.connTimeoutArm hc .closed)

theorem ccLoop (first fuel : ℕ) (started : Bool) (hc : c ≠ k) :
    Attempt.Ends (fun d => d ≠ k) (fun _ => True) (w.ccLoop first fuel started c) := by
  induction fuel generalizing started c with
  | zero => exact hc
  | succ fuel ih =>
    rw [SlowTcp.ccLoop]
    split
    · exact hc
    split
    · trivial
    refine ih true ?_
    split
    · exact h.ccNext c
    · exact h.ccConns

theorem ccPoll : KeepsEnd k w w.ccPoll := by
  have hfirst : w.ccFirst ≠ k := by
    unfold SlowTcp.ccFirst
    split
    · exact h.nextConn
    · exact h.ccConns
  unfold SlowTcp.ccPoll
  split
  · exact h.keeps
  · refine (h.ccLoop w.ccFirst 128 false hfirst).bind fun d hd => ?_
    exact h.withNext hd

theorem tcpListen (port : UInt16) (backlog : ℕ) (reuseport : Bool) :
    Keeps k w (w.tcpListen port backlog reuseport) := by
  have h₁ := h.setListener w.numListeners (x := ⟨port, [], [], backlog⟩) not_mem_nil
  have hnum : Keeps k w ({ w with numListeners := w.numListeners + 1 }.setListener w.numListeners
      ⟨port, [], [], backlog⟩) := { h₁ with unref := { h₁.unref with } }
  unfold SlowTcp.tcpListen
  split
  · exact hnum.trans (hnum.unref.withPort port nofun)
  · exact hnum.trans (hnum.unref.withPort port nofun)
  · split
    · exact h.keeps
    · exact hnum.trans (hnum.unref.withPort port nofun)
  · exact h.keeps

end Unref

/-- As `Keeps`, for a call that opens the connection `c`. -/
structure Spares (c k : ℕ) (w w' : SlowTcp) : Prop where
  unref : w'.Unref k
  freed : w'.freed k = w.freed k
  rxAlloc : w'.rxAlloc k = w.rxAlloc k
  rxFree : w'.rxFree k = w.rxFree k
  txAlloc : w'.txAlloc k = w.txAlloc k
  txFree : w'.txFree k = w.txFree k
  ended : w'.ended k = w.ended k
  hint : 8192 ≤ w.portHint → 8192 ≤ w'.portHint
  late : ∀ j, j ≠ c → LateEnd (w.ended j) (w'.ended j)

theorem Keeps.spares (h : Keeps k w w') (c : ℕ) : Spares c k w w' :=
  { h with late := fun j _ => h.late j }

theorem Spares.trans (h : Spares c k w w') (h' : Spares c k w' w'') : Spares c k w w'' :=
  ⟨h'.unref, h'.freed.trans h.freed, h'.rxAlloc.trans h.rxAlloc, h'.rxFree.trans h.rxFree,
    h'.txAlloc.trans h.txAlloc, h'.txFree.trans h.txFree, h'.ended.trans h.ended,
    h'.hint ∘ h.hint, fun j hj => (h.late j hj).trans (h'.late j hj)⟩

section

variable (h : w.Unref k)
include h

theorem Unref.endSpares (hc : c ≠ k) (e : OpenEnd) : Spares c k w (w.endOpen c e) :=
  { h.keeps.spares c with
    unref := { h with }
    ended := update_of_ne hc.symm _ _
    late := fun _ hj => Or.inl (update_of_ne hj _ _) }

theorem Unref.connAlloc (hk : k ≠ w.size + 1) (c : ℕ) : Spares c k w w.connAlloc := by
  have hset := h.setConn (w.size + 1) (x := { w.conn (w.size + 1) with toArmed := false })
    (h.ccNext (w.size + 1))
  exact { hset.spares c with
    unref := { hset.unref with }
    rxAlloc := update_of_ne hk _ _
    txAlloc := update_of_ne hk _ _ }

theorem Unref.connAllocFails (hk : k ≠ w.size + 1) (c : ℕ) (r : AllocResult) :
    Spares c k w (w.connAllocFails r) := by
  have hkeep := h.keeps.spares c
  cases r with
  | ok => exact hkeep
  | noMemory => exact hkeep
  | noRxBuffer =>
    exact { hkeep with unref := { h with }, freed := update_of_ne hk _ _ }
  | noTxBuffer =>
    exact { hkeep with
      unref := { h with }
      freed := update_of_ne hk _ _
      rxAlloc := update_of_ne hk _ _
      rxFree := update_of_ne hk _ _ }

omit h in
theorem portSearch_unused {ports : UInt16 → PortUse} {start : UInt16} (fuel : ℕ) (p : UInt16) :
    Attempt.Ends (fun r => ∀ q, r = some q → ports q = .unused) (fun _ => True)
      (portSearch ports start fuel p) := by
  induction fuel generalizing p with
  | zero => trivial
  | succ fuel ih =>
    rw [portSearch]
    split
    · next hp =>
      intro q hq
      cases hq
      exact hp
    · split
      · exact nofun
      · exact ih (portNext p)

omit h in
theorem le_portNext (p : UInt16) : 8192 ≤ portNext p := by
  unfold portNext
  split
  · exact UInt16.le_refl _
  · next h => exact UInt16.not_lt.mp h

theorem Unref.portAlloc :
    Attempt.Ends (fun r => Keeps k w r.1 ∧ (r.2 ≠ 0 → r.1.ports r.2 = .unused)) (fun _ => True)
      w.portAlloc := by
  refine (portSearch_unused 65536 w.portHint).bind fun r hr => ?_
  cases r with
  | some p =>
    exact ⟨{ h.keeps with unref := { h with }, hint := fun _ => le_portNext p }, fun _ => hr p rfl⟩
  | none => exact ⟨h.keeps, fun hne => absurd rfl hne⟩

theorem Unref.openWith (hc : c ≠ k) (localPort : UInt16) (r : Resolve)
    (ip : UInt32) (port : UInt16) :
    Attempt.Ends (fun w' => Spares c k w w' ∧ w'.size = w.size) (fun _ => True)
      (w.openWith c localPort r ip port) := by
  have hset : Keeps k w (w.opening c localPort ip port) := h.setConn c (h.ccNext c)
  have h₁ := hset.unref
  cases r with
  | failed =>
    have hfree := h₁.connFree hc
    have hend := hfree.unref.endSpares hc
      ⟨true, (w.opening c localPort ip port).ports localPort = .unused⟩
    exact ⟨((hset.trans hfree).spares c).trans hend, rfl⟩
  | done =>
    have hreg := h₁.connRegister hc
    refine Attempt.Ends.bind (hreg.unref.connArpDone hc) fun w₂ h₂ => ?_
    have hdone := ((hset.trans hreg).trans h₂).trans (h₂.unref.openDone hc localPort)
    exact ⟨hdone.spares c, hdone.size⟩
  | pending =>
    have harp : Keeps k (w.opening c localPort ip port) { w.opening c localPort ip port with
        arpWait := c :: (w.opening c localPort ip port).arpWait } :=
      { h₁.keeps with unref := { h₁ with
        arpWait := not_mem_cons_of_ne_of_not_mem hc.symm h₁.arpWait } }
    have hreg := harp.unref.connRegister hc
    have hdone := ((hset.trans harp).trans hreg).trans (hreg.unref.openDone hc localPort)
    exact ⟨hdone.spares c, hdone.size⟩

theorem Unref.tcpOpen (hk : k ≠ w.size + 1) (alloc : AllocResult) (r : Resolve)
    (ip : UInt32) (port : UInt16) :
    Attempt.Ends (fun w' => Spares (w.size + 1) k w w' ∧ (w'.size = w.size + 1 ∨ w' = w))
      (fun _ => True) (w.tcpOpen alloc r ip port) := by
  have hc : w.size + 1 ≠ k := hk.symm
  unfold SlowTcp.tcpOpen
  split
  · next hfail =>
    unfold SlowTcp.openAllocFails
    split
    · exact ⟨h.keeps.spares _, Or.inr rfl⟩
    next hmem =>
    have hsize : (w.connAllocFails alloc).size = w.size + 1 := by
      cases alloc with
      | ok => exact absurd rfl hfail
      | noMemory => exact absurd rfl hmem
      | noRxBuffer => rfl
      | noTxBuffer => rfl
    have h₁ := h.connAllocFails hk (w.size + 1) alloc
    refine ⟨h₁.trans ?_, Or.inl hsize⟩
    dsimp only
    rw [hsize]
    exact h₁.unref.endSpares hc _
  have h₁ := h.connAlloc hk (w.size + 1)
  refine Attempt.Ends.bind h₁.unref.portAlloc ?_
  rintro ⟨w₂, localPort⟩ ⟨h₂, -⟩
  have hsize : w₂.size = w.size + 1 := h₂.size
  have h₁₂ := h₁.trans (h₂.spares (w.size + 1))
  dsimp only
  split
  · rw [hsize]
    have h₃ := h₂.unref.connFree hc
    have h₄ := h₃.unref.endSpares hc ⟨true, true⟩
    exact ⟨(h₁₂.trans (h₃.spares _)).trans h₄, Or.inl (h₃.size.trans hsize)⟩
  rw [hsize]
  refine (h₂.unref.openWith hc localPort r ip port).mono ?_
  rintro w₃ ⟨h₃, hsize₃⟩
  exact ⟨h₁₂.trans h₃, Or.inl (hsize₃.trans hsize)⟩

theorem Unref.acceptWait (hc : c ≠ k) (l : ℕ) : Keeps k w (w.acceptWait l c) := by
  have h₁ : Keeps k w (w.setConn c { w.conn c with
      status := .synWait
      localPort := (w.listeners l).port }) := h.setConn c (h.ccNext c)
  refine h₁.trans (h₁.unref.setListener l ?_)
  exact not_mem_cons_of_ne_of_not_mem hc.symm (h.wait l)

theorem Unref.tcpAccept (hk : k ≠ w.size + 1) (c l : ℕ) (alloc : AllocResult) (env : SlowEnv) :
    Attempt.Ends (fun w' => Spares c k w w' ∧ (w'.size = w.size + 1 ∨ w' = w)) (fun _ => True)
      (w.tcpAccept l alloc env) := by
  unfold SlowTcp.tcpAccept
  split
  · refine ⟨h.connAllocFails hk c alloc, ?_⟩
    cases alloc with
    | ok => exact Or.inr rfl
    | noMemory => exact Or.inr rfl
    | noRxBuffer => exact Or.inl rfl
    | noTxBuffer => exact Or.inl rfl
  have h₁ := h.connAlloc hk c
  have h₂ := h₁.unref.acceptWait (c := w.connAlloc.size) hk.symm l
  dsimp only
  split
  · exact ⟨h₁.trans (h₂.spares c), Or.inl rfl⟩
  · refine (h₂.unref.listenerAccept l env).mono fun w₃ h₃ => ?_
    have hrest := h₂.trans h₃
    exact ⟨h₁.trans (hrest.spares c), Or.inl hrest.size⟩

end

/-- Everything that the open `k` took is given back. -/
structure Released (k : ℕ) (w : SlowTcp) : Prop where
  unref : w.Unref k
  freed : w.freed k = 1
  rxBuffer : w.rxFree k = w.rxAlloc k ∧ w.rxAlloc k ≤ 1
  txBuffer : w.txFree k = w.txAlloc k ∧ w.txAlloc k ≤ 1

theorem Released.spares (h : w.Released k) (h' : Spares c k w w') : w'.Released k :=
  ⟨h'.unref, h'.freed.trans h.freed, by rw [h'.rxFree, h'.rxAlloc]; exact h.rxBuffer,
    by rw [h'.txFree, h'.txAlloc]; exact h.txBuffer⟩

/-- Nothing is known of a connection that was not allocated. -/
structure Unborn (k : ℕ) (w : SlowTcp) : Prop where
  unref : w.Unref k
  freed : w.freed k = 0
  rxAlloc : w.rxAlloc k = 0
  rxFree : w.rxFree k = 0
  txAlloc : w.txAlloc k = 0
  txFree : w.txFree k = 0
  ended : w.ended k = none

theorem Unborn.spares (h : w.Unborn k) (h' : Spares c k w w') : w'.Unborn k :=
  ⟨h'.unref, h'.freed.trans h.freed, h'.rxAlloc.trans h.rxAlloc, h'.rxFree.trans h.rxFree,
    h'.txAlloc.trans h.txAlloc, h'.txFree.trans h.txFree, h'.ended.trans h.ended⟩

/-- An open that ended in an error return gave everything back. -/
def Returned (k : ℕ) (w : SlowTcp) : Prop :=
  ∀ e, w.ended k = some e → e.byReturn = true → e.portUnused = true ∧ w.Released k

structure OpenInv (w : SlowTcp) : Prop where
  fresh : ∀ k, w.size < k → w.Unborn k
  returned : ∀ k, w.Returned k

theorem openInv_init (hint : UInt16) : (init hint).OpenInv where
  fresh k hk := by
    have hk0 : (0 : ℕ) ≠ k := Nat.ne_of_lt hk
    exact ⟨⟨not_mem_nil, hk0, hk0, fun _ => hk0, fun _ => not_mem_nil, not_mem_nil,
      not_mem_nil, not_mem_nil, fun _ => not_mem_nil, nofun⟩,
      rfl, rfl, rfl, rfl, rfl, rfl⟩
  returned k := nofun

/-- What ended before stays as it was, and other opens do not end by a return. -/
theorem Returned.of_spares (h : w.Returned k)
    (hspares : w.Unref k → Spares c k w w') (hlate : LateEnd (w.ended k) (w'.ended k)) :
    w'.Returned k := by
  intro e he hby
  rcases hlate with hsame | ⟨e', he', hby'⟩
  · rw [hsame] at he
    obtain ⟨hport, hrel⟩ := h e he hby
    exact ⟨hport, hrel.spares (hspares hrel.unref)⟩
  rw [he] at he'
  cases he'
  rw [hby] at hby'
  cases hby'

theorem OpenInv.of_keeps (h : w.OpenInv) (hkeeps : ∀ k, w.Unref k → Keeps k w w') : w'.OpenInv := by
  have hborn := h.fresh (w.size + 1) (Nat.lt_succ_self _)
  have hnew := hkeeps _ hborn.unref
  constructor
  · intro k hk
    rw [hnew.size] at hk
    have hunborn := h.fresh k hk
    exact hunborn.spares ((hkeeps k hunborn.unref).spares 0)
  · intro k
    exact (h.returned k).of_spares (fun hunref => (hkeeps k hunref).spares 0) (hnew.late k)

theorem OpenInv.of_spares (h : w.OpenInv)
    (hspares : ∀ k, w.Unref k → k ≠ w.size + 1 → Spares (w.size + 1) k w w')
    (hsize : w'.size = w.size + 1) (hnew : w'.Returned (w.size + 1)) : w'.OpenInv := by
  have hborn := h.fresh (w.size + 2) (by omega)
  have hother := hspares _ hborn.unref (by omega)
  constructor
  · intro k hk
    have hunborn := h.fresh k (by omega)
    exact hunborn.spares (hspares k hunborn.unref (by omega))
  · intro k
    by_cases hk : k = w.size + 1
    · subst hk
      exact hnew
    · exact (h.returned k).of_spares (fun hunref => hspares k hunref hk) (hother.late k hk)

theorem returned_of_ended_none (h : w.ended k = none) : w.Returned k := by
  intro e he
  rw [h] at he
  cases he

/-- A connection with its buffers that is registered nowhere yet. -/
structure Taken (k : ℕ) (w : SlowTcp) : Prop where
  unref : w.Unref k
  freed : w.freed k = 0
  rx : w.rxAlloc k = 1 ∧ w.rxFree k = 0
  tx : w.txAlloc k = 1 ∧ w.txFree k = 0
  ended : w.ended k = none

theorem Taken.keeps (h : w.Taken k) (h' : Keeps k w w') : w'.Taken k :=
  ⟨h'.unref, h'.freed.trans h.freed, ⟨h'.rxAlloc.trans h.rx.1, h'.rxFree.trans h.rx.2⟩,
    ⟨h'.txAlloc.trans h.tx.1, h'.txFree.trans h.tx.2⟩, h'.ended.trans h.ended⟩

theorem Unborn.connAlloc (h : w.Unborn (w.size + 1)) : w.connAlloc.Taken (w.size + 1) := by
  have hset := h.unref.setConn (w.size + 1)
    (x := { w.conn (w.size + 1) with toArmed := false }) (h.unref.ccNext (w.size + 1))
  exact ⟨{ hset.unref with }, h.freed, ⟨update_self .., h.rxFree⟩,
    ⟨update_self .., h.txFree⟩, h.ended⟩

@[simp] theorem endOpen_ended (w : SlowTcp) (k : ℕ) (e : OpenEnd) :
    (w.endOpen k e).ended k = some e := update_self ..

theorem Taken.connFree (h : w.Taken k) {e : OpenEnd} (he : e.portUnused = true) :
    ((w.connFree k).endOpen k e).Returned k := by
  intro e' he' _
  obtain rfl : e = e' := Option.some.inj ((endOpen_ended _ k e).symm.trans he')
  refine ⟨he, { h.unref with }, ?_, ⟨?_, h.rx.1.le⟩, ⟨?_, h.tx.1.le⟩⟩
  · show update w.freed k (w.freed k + 1) k = 1
    rw [update_self, h.freed]
  · show update w.rxFree k (w.rxFree k + 1) k = w.rxAlloc k
    rw [update_self, h.rx.1, h.rx.2]
  · show update w.txFree k (w.txFree k + 1) k = w.txAlloc k
    rw [update_self, h.tx.1, h.tx.2]

theorem connArpDone_ended (w : SlowTcp) (c : ℕ) :
    Attempt.Ends (fun w' => w'.ended = w.ended) (fun _ => True) (w.connArpDone c) := by
  unfold SlowTcp.connArpDone SlowTcp.connTimeoutArm
  split
  · trivial
  · rfl

theorem Taken.openWith (h : w.Taken k) {localPort : UInt16} (hport : w.ports localPort = .unused)
    (r : Resolve) (ip : UInt32) (port : UInt16) :
    Attempt.Ends (fun w' => w'.Returned k) (fun _ => True) (w.openWith k localPort r ip port) := by
  have hset : Keeps k w (w.opening k localPort ip port) := h.unref.setConn k (h.unref.ccNext k)
  have h₁ := h.keeps hset
  cases r with
  | failed => exact h₁.connFree (decide_eq_true hport)
  | done =>
    refine (connArpDone_ended _ k).bind fun w₂ h₂ => ?_
    have hended : (w₂.openDone k localPort).ended k = none := (congrFun h₂ k).trans h₁.ended
    exact returned_of_ended_none hended
  | pending => exact returned_of_ended_none h₁.ended

theorem Unborn.openAllocFails (h : w.Unborn (w.size + 1)) {alloc : AllocResult}
    (hfail : alloc ≠ .ok) : (w.openAllocFails alloc).Returned (w.size + 1) := by
  have htx : w.txFree (w.size + 1) = w.txAlloc (w.size + 1) ∧ w.txAlloc (w.size + 1) ≤ 1 :=
    ⟨h.txFree.trans h.txAlloc.symm, h.txAlloc.le.trans (Nat.zero_le 1)⟩
  cases alloc with
  | ok => exact absurd rfl hfail
  | noMemory => exact returned_of_ended_none h.ended
  | noRxBuffer =>
    intro e he _
    have hended := endOpen_ended (w.connAllocFails .noRxBuffer) (w.size + 1) ⟨true, true⟩
    obtain rfl := Option.some.inj (hended.symm.trans he)
    refine ⟨rfl, { h.unref with }, update_self .., ⟨?_, ?_⟩, htx⟩
    · exact h.rxFree.trans h.rxAlloc.symm
    · exact h.rxAlloc.le.trans (Nat.zero_le 1)
  | noTxBuffer =>
    intro e he _
    have hended := endOpen_ended (w.connAllocFails .noTxBuffer) (w.size + 1) ⟨true, true⟩
    obtain rfl := Option.some.inj (hended.symm.trans he)
    refine ⟨rfl, { h.unref with }, update_self .., ⟨?_, ?_⟩, htx⟩
    · exact (update_self (w.size + 1) 1 w.rxFree).trans
        (update_self (w.size + 1) 1 w.rxAlloc).symm
    · exact (update_self (w.size + 1) 1 w.rxAlloc).le

theorem Unborn.tcpOpen (h : w.Unborn (w.size + 1)) (alloc : AllocResult) (r : Resolve)
    (ip : UInt32) (port : UInt16) :
    Attempt.Ends (fun w' => w'.Returned (w.size + 1)) (fun _ => True)
      (w.tcpOpen alloc r ip port) := by
  unfold SlowTcp.tcpOpen
  split
  · next hfail => exact h.openAllocFails hfail
  have h₁ := h.connAlloc
  refine Attempt.Ends.bind h₁.unref.portAlloc ?_
  rintro ⟨w₂, localPort⟩ ⟨hkeeps, hport⟩
  have h₂ := h₁.keeps hkeeps
  have hsize : w₂.size = w.size + 1 := hkeeps.size
  dsimp only
  rw [hsize]
  split
  · exact h₂.connFree rfl
  · next hne => exact h₂.openWith (hport hne) r ip port

variable (h : w.OpenInv)
include h

theorem OpenInv.tcpOpen (alloc : AllocResult) (r : Resolve) (ip : UInt32)
    (port : UInt16) : Attempt.Ends OpenInv (fun _ => True) (w.tcpOpen alloc r ip port) := by
  have hnew := (h.fresh (w.size + 1) (Nat.lt_succ_self _)).tcpOpen alloc r ip port
  have hspares := fun k (hu : w.Unref k) hk => hu.tcpOpen (k := k) hk alloc r ip port
  have hother := hspares (w.size + 2) (h.fresh (w.size + 2) (by omega)).unref (by omega)
  cases hx : w.tcpOpen alloc r ip port with
  | error f => trivial
  | ok w' =>
    simp only [hx] at hnew hspares hother
    rcases hother.2 with hsize | rfl
    · exact h.of_spares (fun k hu hk => (hspares k hu hk).1) hsize hnew
    · exact h

theorem OpenInv.tcpAccept (l : ℕ) (alloc : AllocResult) (env : SlowEnv) :
    Attempt.Ends OpenInv (fun _ => True) (w.tcpAccept l alloc env) := by
  have hborn := h.fresh (w.size + 1) (Nat.lt_succ_self _)
  have hspares := fun c k (hu : w.Unref k) hk => hu.tcpAccept (k := k) hk c l alloc env
  have hother := hspares 0 (w.size + 2) (h.fresh (w.size + 2) (by omega)).unref (by omega)
  cases hx : w.tcpAccept l alloc env with
  | error f => trivial
  | ok w' =>
    simp only [hx] at hspares hother
    rcases hother.2 with hsize | rfl
    · refine h.of_spares (fun k hu hk => (hspares (w.size + 1) k hu hk).1) hsize ?_
      -- the accept is no active open
      intro e he hby
      rcases hother.1.late (w.size + 1) (Nat.succ_ne_zero _) with hsame | ⟨e', he', hby'⟩
      · rw [hsame, hborn.ended] at he
        cases he
      rw [he] at he'
      cases he'
      rw [hby] at hby'
      cases hby'
    · exact h

theorem OpenInv.of_keepsEnd (hx : ∀ k, w.Unref k → KeepsEnd k w x) :
    Attempt.Ends OpenInv (fun _ => True) x := by
  cases x with
  | error f => trivial
  | ok w' => exact h.of_keeps hx

theorem OpenInv.exec (retries : ℕ) {op : SlowOp} (hok : w.Ok op) :
    Attempt.Ends OpenInv (fun _ => True) (w.exec retries op) := by
  cases op with
  | openConn alloc r ip port => exact h.tcpOpen alloc r ip port
  | listen port backlog reuseport =>
    exact h.of_keeps fun k hu => hu.tcpListen port backlog reuseport
  | accept l alloc env => exact h.tcpAccept l alloc env
  | packet p env => exact h.of_keepsEnd fun k hu => hu.tcpPacket p env
  | arp c ok => exact h.of_keeps fun k hu => hu.arpDone c ok
  | poll env => exact h.of_keepsEnd fun k hu => hu.tcpPoll env
  | timeout c ty env => exact h.of_keepsEnd fun k hu => hu.tcpTimeout retries c ty env
  | close c =>
    refine h.of_keepsEnd fun k hu => hu.tcpClose ?_
    rintro rfl
    exact hu.appConns hok.1
  | ccPoll => exact h.of_keepsEnd fun k hu => hu.ccPoll

theorem OpenInv.step (retries : ℕ) {op : SlowOp} (hok : w.Ok op) : (w.step retries op).OpenInv := by
  unfold SlowTcp.step
  split
  · exact h
  have hexec := h.exec retries hok
  split
  · next w' hx =>
    rw [hx] at hexec
    exact hexec
  · exact h.of_keeps fun k hu => { hu.keeps with unref := { hu with } }

end SlowTcp

open SlowTcp (init step)

/-- An open that ended in an error return left its port unused and gave back its buffers once. -/
theorem failed_open_released (hint : UInt16) (retries : ℕ) (ops : List SlowOp)
    (hrun : Run.Admissible (step retries) SlowTcp.Ok (init hint) ops) (k : ℕ)
    (e : OpenEnd) (hend : (ops.foldl (step retries) (init hint)).ended k = some e)
    (hreturn : e.byReturn = true) :
    e.portUnused = true ∧ (ops.foldl (step retries) (init hint)).Released k := by
  have hinv := hrun.invariant (SlowTcp.openInv_init hint) fun _ _ h hok => h.step retries hok
  exact hinv.returned k e hend hreturn

def openUnroutable : List SlowOp :=
  [.openConn .ok .failed 0x0A000002 80, .openConn .ok .pending 0x0A000003 80, .arp 2 true,
    .poll ⟨true, true⟩,
    .packet ⟨true, 0x0A000003, 80, 8193, 0x12, true, true, true⟩ ⟨true, true⟩, .ccPoll]

theorem failed_open_released_openUnroutable :
    (openUnroutable.foldl (step 3) (init 8192)).Released 1 ∧
      (openUnroutable.foldl (step 3) (init 8192)).ccConns = 2 := by
  refine ⟨?_, by decide +kernel⟩
  exact (failed_open_released 8192 3 openUnroutable (by decide +kernel) 1 ⟨true, true⟩
    (by decide +kernel) rfl).2

/-- The resolution fails: the connection is freed, its port stays taken, and the application lists
it. -/
theorem unresolved_open_keeps_port : let ops : List SlowOp :=
      [.openConn .ok .pending 0x0A000002 80, .arp 1 false, .poll ⟨true, true⟩]
    let w := ops.foldl (step 3) (init 8192)
    Run.Admissible (step 3) SlowTcp.Ok (init 8192) ops ∧
      w.ended 1 = some ⟨false, false⟩ ∧ w.freed 1 = 1 ∧ w.ports 8192 = .conn 1 ∧
      w.appConns = [1] := by
  decide +kernel

end StackBench.Tas

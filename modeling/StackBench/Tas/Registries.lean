import Mathlib.Data.List.Nodup
import Mathlib.Data.List.Perm.Subperm
import StackBench.Lib.Attempt
import StackBench.Tas.SlowTcp

/-!
# Where the slow path holds a connection

The status of a live connection fixes how often each registry holds it. `Held`
has these numbers for one connection, `Fits` says that they are right, and
`Turns` that a step changes them for one connection only.
-/

namespace StackBench.Tas

open Function List

/-- How often the registries hold one connection, and the fields that these numbers depend on. -/
structure Held where
  made : Bool
  freed : Bool
  status : TcpStatus
  armed : Bool
  comp : Bool
  listed : ℕ
  table : ℕ
  async : ℕ
  arp : ℕ
  app : ℕ
  timer : TimeoutType → ℕ
  wait : ℕ → ℕ

namespace Held

/-- The status of a live connection. -/
def state (x : Held) : Option TcpStatus := if x.made ∧ ¬ x.freed then some x.status else none

@[simp] def inList : Option TcpStatus → ℕ
  | some .regSynack | some .opened => 1
  | _ => 0

@[simp] def inTable : Option TcpStatus → ℕ
  | some .arpPending | some .synSent | some .regSynack | some .opened | some .closed => 1
  | _ => 0

@[simp] def inQueue : Option TcpStatus → ℕ
  | some .arpPending | some .regSynack => 1
  | _ => 0

@[simp] def inTimers : Option TcpStatus → TimeoutType → ℕ
  | some .synSent, .handshake | some .closed, .closed => 1
  | _, _ => 0

@[simp] def hasTimer : Option TcpStatus → Bool
  | some .synSent | some .closed => true
  | _ => false

/-- The registries hold the connection where its status says; during resolution it waits or is
queued after it. -/
structure Fits (x : Held) : Prop where
  made : x.freed = true → x.made = true
  listed : x.listed = inList x.state
  table : x.table = inTable x.state
  queue : x.async + x.arp = inQueue x.state
  arp : 0 < x.arp → x.state = some .arpPending
  timer : ∀ ty, x.timer ty = inTimers x.state ty
  armed : x.state ≠ none → x.armed = hasTimer x.state
  comp : x.state = some .regSynack → x.comp = false
  app : x.state = some .closed → 0 < x.app
  wait : ∀ l, 0 < x.wait l → x.state = some .synWait ∧ x.wait l = 1
  apart : ∀ l l', 0 < x.wait l → 0 < x.wait l' → l = l'

theorem inTimers_pos {s : Option TcpStatus} {ty : TimeoutType} (h : 0 < inTimers s ty) :
    s = some (match ty with | .handshake => .synSent | .closed => .closed) := by
  unfold inTimers at h
  split at h
  · rfl
  · rfl
  · omega

/-! The changes of the registries. -/

@[simp] def make (x : Held) : Held := { x with made := true, armed := false }
@[simp] def free (x : Held) : Held := { x with freed := true }
@[simp] def freeIf (room : Bool) (x : Held) : Held := { x with freed := x.freed || room }
@[simp] def setStatus (s : TcpStatus) (x : Held) : Held := { x with status := s }
@[simp] def setArmed (b : Bool) (x : Held) : Held := { x with armed := b }
@[simp] def setComp (b : Bool) (x : Held) : Held := { x with comp := b }
@[simp] def list (x : Held) : Held := { x with listed := x.listed + 1 }
@[simp] def unlist (x : Held) : Held := { x with listed := x.listed - 1 }
@[simp] def register (x : Held) : Held := { x with table := x.table + 1 }
@[simp] def unregister (x : Held) : Held := { x with table := x.table - 1 }
@[simp] def pushAsync (x : Held) : Held := { x with async := x.async + 1 }
@[simp] def popAsync (x : Held) : Held := { x with async := x.async - 1 }
@[simp] def pushArp (x : Held) : Held := { x with arp := x.arp + 1 }
@[simp] def eraseArp (x : Held) : Held := { x with arp := x.arp - 1 }
@[simp] def pushApp (x : Held) : Held := { x with app := x.app + 1 }
@[simp] def eraseApp (x : Held) : Held := { x with app := x.app - 1 }
@[simp] def setWait (l n : ℕ) (x : Held) : Held := { x with wait := update x.wait l n }
@[simp] def dropTimers (x : Held) : Held := { x with timer := fun _ => 0 }

/-- `appif_conn_closed`, which does nothing when the event queue is full. -/
@[simp] def leaveApp (room : Bool) (x : Held) : Held :=
  { x with app := if room then x.app - 1 else x.app }

@[simp] def pushTimer (ty : TimeoutType) (x : Held) : Held :=
  { x with timer := update x.timer ty (x.timer ty + 1) }

@[simp] def eraseTimer (ty : TimeoutType) (x : Held) : Held :=
  { x with timer := update x.timer ty (x.timer ty - 1) }

/-- `conn_timeout_arm`. -/
@[simp] def arm (ty : TimeoutType) : Held → Held := pushTimer ty ∘ setArmed true

/-- `conn_timeout_disarm`. -/
@[simp] def disarm : Held → Held := dropTimers ∘ setArmed false

/-- `conn_failed`; the connection is freed when the application gets the event. -/
@[simp] def failed (room : Bool) : Held → Held :=
  (((id ∘ freeIf room) ∘ setStatus .failed) ∘ disarm) ∘ unregister

variable {x : Held} {l : ℕ}

theorem disarm_eq_self (harm : x.armed = false) (htimer : ∀ ty, x.timer ty = 0) : x.disarm = x := by
  obtain ⟨⟩ := x
  simp only at harm htimer
  simp [harm, ← funext htimer]

theorem state_eq_some {s : TcpStatus} :
    x.state = some s ↔ x.made = true ∧ x.freed = false ∧ x.status = s := by
  simp [state, and_assoc]

theorem state_eq_none : x.state = none ↔ (x.made = true → x.freed = true) := by
  simp [state]

section

variable (h : x.Fits)
include h

theorem Fits.wait_eq_zero (hs : x.state ≠ some .synWait) (l : ℕ) : x.wait l = 0 := by
  by_contra hne
  exact hs (h.wait l (Nat.pos_of_ne_zero hne)).1

theorem Fits.idle (hq : inQueue x.state = 0) : x.async = 0 ∧ x.arp = 0 := by
  have hqueue := h.queue
  omega

theorem Fits.facts {s : TcpStatus} (hs : x.state = some s) :
    x.made = true ∧ x.freed = false ∧ x.listed = inList (some s) ∧ x.table = inTable (some s) ∧
      x.armed = hasTimer (some s) ∧ (∀ ty, x.timer ty = inTimers (some s) ty) ∧
      (s ≠ .synWait → ∀ l, x.wait l = 0) ∧ (inQueue (some s) = 0 → x.async = 0 ∧ x.arp = 0) := by
  obtain ⟨hmade, hfreed, -⟩ := state_eq_some.mp hs
  refine ⟨hmade, hfreed, ?_, ?_, ?_, fun ty => ?_, fun hne => ?_, fun hq => h.idle (hs ▸ hq)⟩
  · rw [h.listed, hs]
  · rw [h.table, hs]
  · rw [h.armed (by simp [hs]), hs]
  · rw [h.timer, hs]
  · exact h.wait_eq_zero (by simpa [hs] using hne)

theorem Fits.facts_new (hm : x.made = false) :
    x.listed = 0 ∧ x.table = 0 ∧ x.async = 0 ∧ x.arp = 0 ∧ (∀ ty, x.timer ty = 0) ∧
      ∀ l, x.wait l = 0 := by
  have hs : x.state = none := state_eq_none.mpr (by simp [hm])
  obtain ⟨hasync, harp⟩ := h.idle (by simp [hs])
  refine ⟨?_, ?_, hasync, harp, fun ty => ?_, h.wait_eq_zero (by simp [hs])⟩
  · simp [h.listed, hs]
  · simp [h.table, hs]
  · simp [h.timer, hs]

theorem Fits.queued (hq : inQueue x.state = 1) (hpos : 0 < x.async) : x.async = 1 ∧ x.arp = 0 := by
  have hqueue := h.queue
  omega

theorem Fits.withWait {wait : ℕ → ℕ} (hwait : ∀ l, 0 < wait l → wait l = x.wait l) :
    ({ x with wait := wait } : Held).Fits :=
  { h with
    wait := fun l hpos => by
      have heq := hwait l hpos
      have hold := h.wait l (heq ▸ hpos)
      exact ⟨hold.1, heq.trans hold.2⟩
    apart := fun l l' hl hl' => h.apart l l' (hwait l hl ▸ hl) (hwait l' hl' ▸ hl') }

end

section New

variable (h : x.Fits) (hm : x.made = false)

include h hm

theorem Fits.allocFailed : (free { x with made := true }).Fits := by
  obtain ⟨hlisted, htable, hasync, harp, htimer, hwait⟩ := h.facts_new hm
  constructor <;> simp [state, hlisted, htable, hasync, harp, htimer, hwait]

theorem Fits.openFailed (b : Bool) (s : TcpStatus) :
    ((free ∘ setComp b ∘ setStatus s ∘ make) x).Fits := by
  obtain ⟨hlisted, htable, hasync, harp, htimer, hwait⟩ := h.facts_new hm
  constructor <;> simp [state, hlisted, htable, hasync, harp, htimer, hwait]

variable (hf : x.freed = false)

include hf

theorem Fits.openPending :
    ((pushApp ∘ register ∘ pushArp ∘ setComp false ∘ setStatus .arpPending ∘ make) x).Fits := by
  obtain ⟨hlisted, htable, hasync, harp, htimer, hwait⟩ := h.facts_new hm
  constructor <;> simp [state, hf, hlisted, htable, hasync, harp, htimer, hwait]

theorem Fits.openDone : ((pushApp ∘ arm .handshake ∘ setStatus .synSent ∘ register ∘ setComp false ∘
      setStatus .arpPending ∘ make) x).Fits := by
  obtain ⟨hlisted, htable, hasync, harp, htimer, hwait⟩ := h.facts_new hm
  constructor
  case timer => rintro (_ | _) <;> simp [state, hf, htimer]
  all_goals simp [state, hf, hlisted, htable, hasync, harp, hwait]

theorem Fits.acceptWait (l : ℕ) :
    ((setWait l (x.wait l + 1) ∘ setStatus .synWait ∘ make) x).Fits := by
  obtain ⟨hlisted, htable, hasync, harp, htimer, hwait⟩ := h.facts_new hm
  have hpos : ∀ m, 0 < update x.wait l 1 m → m = l := by
    intro m hpos
    by_contra hne
    simp [hne, hwait] at hpos
  constructor
  case wait =>
    intro m hm'
    rw [hwait] at hm'
    obtain rfl := hpos m hm'
    simp [state, hf, hwait]
  case apart =>
    intro m m' hm₁ hm₂
    rw [hwait] at hm₁ hm₂
    rw [hpos m hm₁, hpos m' hm₂]
  all_goals simp [state, hf, hlisted, htable, hasync, harp, htimer]

end New

/-- `listener_accept` for a connection that waited at the listener `l`. -/
def accepted (l : ℕ) : Held → Held :=
  pushAsync ∘ register ∘ setWait l 0 ∘ setComp false ∘ setStatus .regSynack ∘ list

section

variable (h : x.Fits)
include h

theorem Fits.accepted (hs : x.state = some .synWait) (hl : 0 < x.wait l) :
    (Held.accepted l x).Fits := by
  obtain ⟨hmade, hfreed, hlisted, htable, harmed, htimer, -, hidle⟩ := h.facts hs
  have hwait : ∀ m, update x.wait l 0 m = 0 := by
    intro m
    by_cases hm : m = l
    · simp [hm]
    · rw [update_of_ne hm]
      by_contra hne
      exact hm (h.apart m l (Nat.pos_of_ne_zero hne) hl)
  constructor <;> simp [Held.accepted, state, hmade, hfreed, hlisted, htable, hidle rfl, harmed,
    htimer, hwait]

theorem Fits.resolved (hpos : 0 < x.arp) (b : Bool) :
    ((pushAsync ∘ eraseArp ∘ setComp b) x).Fits := by
  have hs := h.arp hpos
  obtain ⟨hmade, hfreed, hlisted, htable, harmed, htimer, hwait, -⟩ := h.facts hs
  have hqueue := h.queue
  simp only [hs, inQueue] at hqueue
  obtain ⟨hasync, harp⟩ : x.async = 0 ∧ x.arp = 1 := by omega
  have hstatus := (state_eq_some.mp hs).2.2
  constructor <;> simp [state, hstatus, hmade, hfreed, hlisted, htable, hasync, harp, harmed,
    htimer, hwait]

theorem Fits.synSent (hs : x.state = some .arpPending) (hq : 0 < x.async) :
    ((arm .handshake ∘ setStatus .synSent ∘ popAsync) x).Fits := by
  obtain ⟨hmade, hfreed, hlisted, htable, -, htimer, hwait, -⟩ := h.facts hs
  obtain ⟨hasync, harp⟩ := h.queued (by simp [hs]) hq
  constructor
  case timer => rintro (_ | _) <;> simp [state, hmade, hfreed, htimer]
  all_goals simp [state, hmade, hfreed, hlisted, htable, hasync, harp, hwait]

theorem Fits.unresolved (hs : x.state = some .arpPending) (hq : 0 < x.async)
    (room : Bool) : ((failed room ∘ popAsync) x).Fits := by
  obtain ⟨hmade, hfreed, hlisted, htable, -, -, hwait, -⟩ := h.facts hs
  obtain ⟨hasync, harp⟩ := h.queued (by simp [hs]) hq
  cases room <;> constructor <;>
    simp [state, hmade, hfreed, hlisted, htable, hasync, harp, hwait]

theorem Fits.synackSent (hs : x.state = some .regSynack) (hq : 0 < x.async) :
    ((setStatus .opened ∘ popAsync) x).Fits := by
  obtain ⟨hmade, hfreed, hlisted, htable, harmed, htimer, hwait, -⟩ := h.facts hs
  obtain ⟨hasync, harp⟩ := h.queued (by simp [hs]) hq
  constructor <;>
    simp [state, hmade, hfreed, hlisted, htable, hasync, harp, harmed, htimer, hwait]

theorem Fits.pushApp : (Held.pushApp x).Fits :=
  { h with app := fun _ => Nat.succ_pos _ }

end

section SynSent

variable (h : x.Fits) (hs : x.state = some .synSent)

include h hs

theorem Fits.opened : ((setStatus .opened ∘ setComp false ∘ list ∘ disarm) x).Fits := by
  obtain ⟨hmade, hfreed, hlisted, htable, -, -, hwait, hidle⟩ := h.facts hs
  constructor <;> simp [state, hmade, hfreed, hlisted, htable, hidle rfl, hwait]

theorem Fits.failed (room : Bool) : (Held.failed room x).Fits := by
  obtain ⟨hmade, hfreed, hlisted, htable, -, -, hwait, hidle⟩ := h.facts hs
  cases room <;> constructor <;>
    simp [state, hmade, hfreed, hlisted, htable, hidle rfl, hwait]

theorem Fits.again : ((arm .handshake ∘ eraseTimer .handshake ∘ setArmed false) x).Fits := by
  obtain ⟨hmade, hfreed, hlisted, htable, -, htimer, hwait, hidle⟩ := h.facts hs
  have hstatus := (state_eq_some.mp hs).2.2
  constructor
  case timer => rintro (_ | _) <;> simp [state, hstatus, hmade, hfreed, htimer]
  all_goals simp [state, hstatus, hmade, hfreed, hlisted, htable, hidle rfl, hwait]

end SynSent

theorem Fits.closed (h : x.Fits) (hs : x.state = some .opened) (happ : 0 < x.app) :
    ((arm .closed ∘ setStatus .closed ∘ unlist) x).Fits := by
  obtain ⟨hmade, hfreed, hlisted, htable, -, htimer, hwait, hidle⟩ := h.facts hs
  constructor
  case timer => rintro (_ | _) <;> simp [state, hmade, hfreed, htimer]
  all_goals simp [state, hmade, hfreed, hlisted, htable, hidle rfl, hwait, happ]

theorem Fits.closeTimeout (h : x.Fits) (hs : x.state = some .closed) (room : Bool) :
    ((free ∘ leaveApp room ∘ unregister ∘ eraseTimer .closed ∘ setArmed false) x).Fits := by
  obtain ⟨hmade, -, hlisted, htable, -, htimer, hwait, hidle⟩ := h.facts hs
  constructor
  case timer => rintro (_ | _) <;> simp [state, htimer]
  all_goals simp [state, hmade, hlisted, htable, hidle rfl, hwait]

end Held

namespace SlowTcp

variable {c l : ℕ} {w w' w'' : SlowTcp} {xs xs' xs'' : List ℕ} {f g : Held → Held}

/-- `c` is one of the connections allocated so far. -/
def isMade (size c : ℕ) : Bool := c != 0 && c ≤ size

def isFreed (n : ℕ) : Bool := n != 0

/-- What the registries hold of the connection `c` when `cc_conns` is the list
`xs`. -/
def held (w : SlowTcp) (xs : List ℕ) (c : ℕ) : Held where
  made := isMade w.size c
  freed := isFreed (w.freed c)
  status := (w.conn c).status
  armed := (w.conn c).toArmed
  comp := (w.conn c).compFailed
  listed := xs.count c
  table := w.table.count c
  async := w.asyncQ.count c
  arp := w.arpWait.count c
  app := w.appConns.count c
  timer ty := w.timers.count (c, ty)
  wait l := (w.listeners l).waitConns.count c

/-- `cc_conns` runs through `xs`, and `next_conn` is null or in it. -/
structure CcLinked (w : SlowTcp) (xs : List ℕ) : Prop where
  chain : Linked.Chain w.next 0 w.ccConns xs
  next : w.nextConn = 0 ∨ w.nextConn ∈ xs

structure Sound (w : SlowTcp) (xs : List ℕ) : Prop where
  cc : w.CcLinked xs
  fits : ∀ c, (w.held xs c).Fits

/-- The registries change for the connection `c` only, as `f` says. -/
structure Turns (c : ℕ) (f : Held → Held) (w : SlowTcp) (xs : List ℕ) (w' : SlowTcp)
    (xs' : List ℕ) : Prop where
  held : w'.held xs' = update (w.held xs) c (f (w.held xs c))
  cc : w.CcLinked xs → w'.CcLinked xs'
  fault : w'.fault = w.fault

section

variable (h : Turns c f w xs w' xs')
include h

theorem Turns.held_self : w'.held xs' c = f (w.held xs c) := by
  rw [h.held, update_self]

theorem Turns.trans (h' : Turns c g w' xs' w'' xs'') : Turns c (g ∘ f) w xs w'' xs'' := by
  refine ⟨?_, fun hcc => h'.cc (h.cc hcc), h'.fault.trans h.fault⟩
  rw [h'.held, h.held_self, h.held, update_idem, comp_apply]

theorem Turns.sound (hs : w.Sound xs) (hfits : (f (w.held xs c)).Fits) : w'.Sound xs' := by
  refine ⟨h.cc hs.cc, ?_⟩
  rw [h.held, forall_update_iff (w.held xs) fun _ x => x.Fits]
  exact ⟨hfits, fun d _ => hs.fits d⟩

/-- A call ends with `Q`, or `port_alloc` does not end. -/
abbrev Goes (Q : SlowTcp → Prop) (x : Except SlowFault SlowTcp) : Prop :=
  Attempt.Ends Q (· = .portsHung) x

theorem Turns.then {x : Except SlowFault SlowTcp}
    (hx : Goes (Turns c g w' xs' · xs'') x) : Goes (Turns c (g ∘ f) w xs · xs'') x :=
  hx.mono fun _ h' => h.trans h'

end

theorem Turns.bind {x : Except SlowFault SlowTcp} {k : SlowTcp → Except SlowFault SlowTcp}
    (hx : Goes (Turns c f w xs · xs') x)
    (hk : ∀ w', Turns c f w xs w' xs' → Goes (Turns c g w' xs' · xs'') (k w')) :
    Goes (Turns c (g ∘ f) w xs · xs'') (x >>= k) :=
  Attempt.Ends.bind hx fun w' h => h.then (hk w' h)

theorem state_held (w : SlowTcp) (xs : List ℕ) (c : ℕ) :
    (w.held xs c).state = if w.Live c then some (w.conn c).status else none := by
  have hiff : ((w.held xs c).made = true ∧ ¬ (w.held xs c).freed = true) ↔ w.Live c := by
    simp [held, isMade, isFreed, Live, and_assoc]
  simp only [Held.state, hiff]
  rfl

theorem Sound.mem_list (h : w.Sound xs) :
    c ∈ xs ↔ w.Live c ∧ ((w.conn c).status = .regSynack ∨ (w.conn c).status = .opened) := by
  have hcount : xs.count c = Held.inList (w.held xs c).state := (h.fits c).listed
  rw [← count_pos_iff, hcount, state_held]
  by_cases hlive : w.Live c
  · cases hst : (w.conn c).status <;> simp [hlive, Held.inList]
  · simp [hlive, Held.inList]

theorem Sound.nodup (h : w.Sound xs) : xs.Nodup := by
  rw [nodup_iff_count_le_one]
  intro c
  have hcount : xs.count c = Held.inList (w.held xs c).state := (h.fits c).listed
  rw [hcount]
  unfold Held.inList
  split <;> omega

theorem Sound.length_le (h : w.Sound xs) : xs.length ≤ w.size := by
  have hsub : xs ⊆ List.range' 1 w.size := by
    intro c hc
    obtain ⟨⟨hne, hle, -⟩, -⟩ := h.mem_list.mp hc
    rw [mem_range'_1]
    omega
  simpa using (h.nodup.subperm hsub).length_le

/-- What the registries do not count. -/
def rest (w : SlowTcp) : (ℕ → ℕ) × ℕ × ℕ × Option SlowFault :=
  (w.next, w.ccConns, w.nextConn, w.fault)

theorem turns_of_frame (hother : ∀ d, d ≠ c → w'.held xs d = w.held xs d)
    (hself : w'.held xs c = f (w.held xs c)) (hrest : w'.rest = w.rest) :
    Turns c f w xs w' xs := by
  simp only [rest, Prod.mk.injEq] at hrest
  obtain ⟨hnext, hcc, hnx, hfault⟩ := hrest
  refine ⟨eq_update_iff.mpr ⟨hself, hother⟩, fun h => ⟨?_, ?_⟩, hfault⟩
  · rw [hnext, hcc]
    exact h.chain
  · rw [hnx]
    exact h.next

theorem turns_id (hheld : ∀ d, w'.held xs d = w.held xs d) (hrest : w'.rest = w.rest) :
    Turns c id w xs w' xs :=
  turns_of_frame (fun d _ => hheld d) (hheld c) hrest

theorem turns_refl (c : ℕ) (w : SlowTcp) (xs : List ℕ) : Turns c id w xs w xs :=
  turns_id (fun _ => rfl) rfl

theorem Turns.relabel (h : Turns c f w xs w' xs') (h' : Turns c id w' xs' w'' xs') :
    Turns c f w xs w'' xs' :=
  h.trans h'

theorem next_setConn (w : SlowTcp) (c : ℕ) (x : TcpConn) :
    (w.setConn c x).next = update w.next c x.ccNext := by
  funext d
  by_cases hd : d = c
  · subst hd
    simp [next, setConn]
  · simp [next, setConn, hd]

theorem held_setConn_of_ne {x : TcpConn} {d : ℕ} (hd : d ≠ c) :
    (w.setConn c x).held xs d = w.held xs d := by
  simp [held, setConn, hd]

theorem held_setConn_self (w : SlowTcp) (xs : List ℕ) (c : ℕ) (x : TcpConn) :
    (w.setConn c x).held xs c = { w.held xs c with
      status := x.status
      armed := x.toArmed
      comp := x.compFailed } := by
  simp [held, setConn]

theorem turns_setConn {x : TcpConn} (hx : x.ccNext = (w.conn c).ccNext)
    (hf : f (w.held xs c) = { w.held xs c with
      status := x.status
      armed := x.toArmed
      comp := x.compFailed }) : Turns c f w xs (w.setConn c x) xs := by
  refine turns_of_frame (fun d hd => held_setConn_of_ne hd) ?_ ?_
  · rw [hf, held_setConn_self]
  · rw [rest, next_setConn, hx, show update w.next c (w.conn c).ccNext = w.next from
      update_eq_self c w.next]
    rfl

theorem turns_setStatus (c : ℕ) (s : TcpStatus) :
    Turns c (Held.setStatus s) w xs (w.setStatus c s) xs :=
  turns_setConn rfl rfl

theorem turns_setStatusComp (c : ℕ) (s : TcpStatus) (b : Bool) :
    Turns c (Held.setComp b ∘ Held.setStatus s) w xs
      (w.setConn c { w.conn c with status := s, compFailed := b }) xs :=
  turns_setConn rfl rfl

theorem turns_setComp (c : ℕ) (b : Bool) :
    Turns c (Held.setComp b) w xs (w.setConn c { w.conn c with compFailed := b }) xs :=
  turns_setConn rfl rfl

theorem turns_setArmed (c : ℕ) (b : Bool) :
    Turns c (Held.setArmed b) w xs (w.setConn c { w.conn c with toArmed := b }) xs :=
  turns_setConn rfl rfl

theorem turns_setListener {y : Listener} {n : ℕ}
    (hother : ∀ d, d ≠ c → y.waitConns.count d = (w.listeners l).waitConns.count d)
    (hself : y.waitConns.count c = n) : Turns c (Held.setWait l n) w xs (w.setListener l y) xs := by
  refine turns_of_frame (fun d hd => ?_) ?_ rfl
  · simp only [held, setListener, Held.mk.injEq, true_and]
    funext m
    by_cases hm : m = l
    · subst hm
      simp [hother d hd]
    · simp [hm]
  · simp only [held, setListener, Held.setWait, Held.mk.injEq, true_and]
    funext m
    by_cases hm : m = l
    · subst hm
      simp [hself]
    · simp [hm]

theorem turns_setListener_id {y : Listener} (hy : y.waitConns = (w.listeners l).waitConns) :
    Turns c id w xs (w.setListener l y) xs := by
  refine turns_id (fun d => ?_) rfl
  simp only [held, setListener, Held.mk.injEq, true_and]
  funext m
  by_cases hm : m = l
  · subst hm
    simp [hy]
  · simp [hm]

theorem turns_connAlloc (w : SlowTcp) (xs : List ℕ) :
    Turns (w.size + 1) Held.make w xs w.connAlloc xs := by
  refine turns_of_frame (fun d hd => ?_) ?_ ?_
  · have hlive : (d ≤ w.size + 1 ↔ d ≤ w.size) := by omega
    simp [held, connAlloc, setConn, isMade, hd, hlive]
  · simp [held, connAlloc, setConn, isMade]
  · exact congrArg (·, _, _, _) ((next_setConn _ _ _).trans (update_eq_self _ w.next))

theorem turns_freeBuffers (c : ℕ) : Turns c id w xs (w.freeBuffers c) xs :=
  turns_id (fun _ => rfl) rfl

theorem turns_freeConn (c : ℕ) : Turns c Held.free w xs (w.freeConn c) xs := by
  refine turns_of_frame (fun d hd => ?_) ?_ rfl
  · simp [held, freeConn, hd]
  · simp [held, freeConn, isFreed]

theorem turns_connFree (c : ℕ) : Turns c Held.free w xs (w.connFree c) xs :=
  (turns_freeBuffers c).trans (turns_freeConn c)

theorem turns_endOpen (c k : ℕ) (e : OpenEnd) : Turns c id w xs (w.endOpen k e) xs :=
  turns_id (fun _ => rfl) rfl

theorem turns_ended (e : OpenEnd) :
    Turns c id w xs (if w.active c then w.endOpen c e else w) xs := by
  split
  · exact turns_endOpen c c e
  · exact turns_refl c w xs

theorem turns_connRegister (c : ℕ) : Turns c Held.register w xs (w.connRegister c) xs := by
  refine turns_of_frame (fun d hd => ?_) ?_ rfl
  · simp [held, connRegister, count_cons_of_ne hd.symm]
  · simp [held, connRegister]

theorem turns_pushAsync (c : ℕ) :
    Turns c Held.pushAsync w xs { w with asyncQ := w.asyncQ ++ [c] } xs := by
  refine turns_of_frame (fun d hd => ?_) ?_ rfl
  · simp [held, count_append, count_cons_of_ne hd.symm]
  · simp [held, count_append]

theorem turns_popAsync {q : List ℕ} (hq : w.asyncQ = c :: q) :
    Turns c Held.popAsync w xs { w with asyncQ := q } xs := by
  refine turns_of_frame (fun d hd => ?_) ?_ rfl
  · simp [held, hq, count_cons_of_ne hd.symm]
  · simp [held, hq]

theorem turns_pushArp (c : ℕ) :
    Turns c Held.pushArp w xs { w with arpWait := c :: w.arpWait } xs := by
  refine turns_of_frame (fun d hd => ?_) ?_ rfl
  · simp [held, count_cons_of_ne hd.symm]
  · simp [held]

theorem turns_eraseArp (c : ℕ) :
    Turns c Held.eraseArp w xs { w with arpWait := w.arpWait.erase c } xs := by
  refine turns_of_frame (fun d hd => ?_) ?_ rfl
  · simp [held, count_erase_of_ne hd]
  · simp [held, count_erase_self]

theorem turns_pushApp (c : ℕ) :
    Turns c Held.pushApp w xs { w with appConns := c :: w.appConns } xs := by
  refine turns_of_frame (fun d hd => ?_) ?_ rfl
  · simp [held, count_cons_of_ne hd.symm]
  · simp [held]

theorem turns_eraseApp (c : ℕ) :
    Turns c Held.eraseApp w xs { w with appConns := w.appConns.erase c } xs := by
  refine turns_of_frame (fun d hd => ?_) ?_ rfl
  · simp [held, count_erase_of_ne hd]
  · simp [held, count_erase_self]

theorem turns_pushTimer (c : ℕ) (ty : TimeoutType) :
    Turns c (Held.pushTimer ty) w xs
      { w with timers := (c, ty) :: w.timers } xs := by
  refine turns_of_frame (fun d hd => ?_) ?_ rfl
  · simp [held, hd.symm]
  · simp only [held, Held.pushTimer, Held.mk.injEq, true_and, and_true]
    funext ty'
    by_cases hty : ty' = ty
    · subst hty
      simp
    · simp [hty, Ne.symm hty]

theorem turns_eraseTimer (c : ℕ) (ty : TimeoutType) :
    Turns c (Held.eraseTimer ty) w xs
      { w with timers := w.timers.erase (c, ty) } xs := by
  refine turns_of_frame (fun d hd => ?_) ?_ rfl
  · simp [held, count_erase, hd.symm]
  · simp only [held, Held.eraseTimer, Held.mk.injEq, true_and, and_true]
    funext ty'
    by_cases hty : ty' = ty
    · subst hty
      simp [count_erase_self]
    · simp [hty]

theorem turns_dropTimers (c : ℕ) :
    Turns c Held.dropTimers w xs
      { w with timers := w.timers.filter fun t => t.1 ≠ c } xs := by
  refine turns_of_frame (fun d hd => ?_) ?_ rfl
  · simp [held, count_filter, hd]
  · simp only [held, Held.dropTimers, Held.mk.injEq, true_and, and_true]
    funext ty
    rw [count_eq_zero]
    simp

theorem turns_ccConnInit (hc : c ≠ 0) (hmem : c ∉ xs) :
    Turns c Held.list w xs (w.ccConnInit c) (c :: xs) := by
  have hnext : (w.ccConnInit c).next = update w.next c w.ccConns := next_setConn ..
  refine ⟨eq_update_iff.mpr ⟨?_, fun d hd => ?_⟩, fun h => ⟨?_, ?_⟩, rfl⟩
  · simp [held, ccConnInit, setConn]
  · simp [held, ccConnInit, setConn, hd, count_cons_of_ne hd.symm]
  · rw [hnext]
    exact h.chain.pushFront hc hmem
  · exact h.next.imp_right (mem_cons_of_mem c)

theorem connUnregister_eq (h : c ∈ w.table) :
    w.connUnregister c = .ok { w with table := w.table.erase c } :=
  if_pos h

theorem turns_unregister (c : ℕ) :
    Turns c Held.unregister w xs { w with table := w.table.erase c } xs := by
  refine turns_of_frame (fun d hd => ?_) ?_ rfl
  · simp [held, count_erase_of_ne hd]
  · simp [held, count_erase_self]

theorem connUnregister_ends (h : 0 < (w.held xs c).table) :
    Goes (Turns c Held.unregister w xs · xs) (w.connUnregister c) := by
  have hturn : Turns c Held.unregister w xs _ xs := turns_unregister c
  rw [connUnregister_eq (count_pos_iff.mp h)]
  exact hturn

theorem connTimeoutArm_ends (ty : TimeoutType) (h : (w.held xs c).armed = false) :
    Goes (Turns c (Held.arm ty) w xs · xs)
      (w.connTimeoutArm c ty) := by
  have harm : ¬ (w.conn c).toArmed = true := by
    rw [show (w.conn c).toArmed = false from h]
    decide
  rw [connTimeoutArm, if_neg harm]
  exact (turns_setArmed c true).trans (turns_pushTimer c ty)

theorem connTimeoutDisarm_ends (h : (w.held xs c).armed = true) :
    Goes (Turns c Held.disarm w xs · xs)
      (w.connTimeoutDisarm c) := by
  rw [connTimeoutDisarm, if_pos (show (w.conn c).toArmed = true from h)]
  exact (turns_setArmed c false).trans (turns_dropTimers c)

theorem connDisarmArmed_ends (h : (w.held xs c).armed = false → ∀ ty, (w.held xs c).timer ty = 0) :
    Goes (Turns c Held.disarm w xs · xs)
      (w.connDisarmArmed c) := by
  rw [connDisarmArmed]
  split
  · next harm => exact connTimeoutDisarm_ends harm
  next harm =>
  have harm' : (w.held xs c).armed = false := by simpa [held] using harm
  refine turns_of_frame (fun _ _ => rfl) ?_ rfl
  exact (Held.disarm_eq_self harm' (h harm')).symm

theorem appifConnOpened_ends (room : Bool) (h : (w.held xs c).status = .failed) :
    Goes (Turns c (Held.freeIf room) w xs · xs)
      (w.appifConnOpened c false room) := by
  rw [appifConnOpened]
  cases room with
  | false =>
    refine turns_of_frame (fun _ _ => rfl) ?_ rfl
    simp
  | true =>
    have hstat : (w.conn c).status = .failed := h
    rw [if_neg (by simp), tcpDestroy, if_pos hstat]
    have hfree : Turns c Held.free w xs (w.connFree c) xs := turns_connFree c
    refine ⟨?_, hfree.cc, hfree.fault⟩
    simpa using hfree.held

theorem connFailed_ends (room : Bool) (htable : 0 < (w.held xs c).table)
    (harm : (w.held xs c).armed = false → ∀ ty, (w.held xs c).timer ty = 0) :
    Goes (Turns c (Held.failed room) w xs · xs) (w.connFailed c room) := by
  refine Turns.bind (connUnregister_ends htable) fun w₁ h₁ => ?_
  have harm₁ : (w₁.held xs c).armed = false → ∀ ty, (w₁.held xs c).timer ty = 0 := by
    rw [h₁.held_self]
    exact harm
  refine Turns.bind (connDisarmArmed_ends harm₁) fun w₂ _ => ?_
  have h₃ : Turns c (Held.setStatus .failed) w₂ xs _ xs := turns_setStatus c .failed
  refine h₃.then (Turns.bind (appifConnOpened_ends room ?_) fun w₄ _ => ?_)
  · rw [h₃.held_self]
    rfl
  · exact turns_ended _
end SlowTcp

end StackBench.Tas

import Mathlib.Data.Finset.Basic
import StackBench.Lib.Run

/-!
# Delivery of epoll events in mTCP

`AddEpollEvent`, `mtcp_epoll_ctl`, `mtcp_epoll_wait` and `FlushEpollEvents`,
run by several threads. Thread 0 is the mTCP thread, which owns the mTCP queue,
and thread 1 the application, which owns the shadow queue. The user queue is
used under `epoll_lock`. The mask `socket->events` is not: a thread reads it,
reads it again to change it, and writes it back.

A queue is a list with a capacity, and a round that `goto wait` starts is a new
call. Condition variables and statistics are left out.
-/

namespace StackBench.Mtcp

open Function List

/-- `enum mtcp_event_type` without `MTCP_EPOLLNONE`. -/
inductive EpollEvent where
  | epollIn
  | epollPri
  | epollOut
  | epollRdnorm
  | epollRdband
  | epollWrnorm
  | epollWrband
  | epollMsg
  | epollErr
  | epollHup
  | epollRdhup
  | epollOneshot
  | epollEt
deriving DecidableEq

inductive QueueType where
  | usr
  | usrShadow
  | mtcp
deriving DecidableEq

/-- `enum socket_type`, as far as `mtcp_epoll_ctl` looks at it. -/
inductive SockType where
  | unused
  | stream
  | pipe
  | other
deriving DecidableEq

/-- `mtcp_epoll_event_int`, with the number of the event among all that were
raised. -/
structure EventEntry where
  id : ℕ
  sockid : ℕ
  event : EpollEvent
  data : ℕ
deriving DecidableEq

/-- What `RaisePendingStreamEvents` reads of a stream. -/
structure StreamView where
  established : Bool
  closeWait : Bool
  mergedLen : Option ℕ
  sndWnd : Option ℕ

/-- What `RaisePendingPipeEvents` reads of a pipe. -/
structure PipeView where
  active : Bool
  closeWait : Bool
  bufLen : ℕ
  bufSize : ℕ

/-- The events that are raised for what is pending already. -/
def pendingEvents (epoll : Finset EpollEvent) (readable writable : Bool) : List EpollEvent :=
  (if .epollIn ∈ epoll ∧ readable then [.epollIn] else []) ++
    (if .epollOut ∈ epoll ∧ writable then [.epollOut] else [])

/-- `RaisePendingStreamEvents`. The test of the mask before the write event is
that of `AddEpollEvent`. -/
def raisePendingStreamEvents (epoll : Finset EpollEvent) (stream : Option StreamView) :
    List EpollEvent :=
  match stream with
  | none => []
  | some v =>
    if v.established then
      pendingEvents epoll (v.mergedLen.any (0 < ·) || v.closeWait) (v.sndWnd.all (0 < ·))
    else []

def raisePendingPipeEvents (epoll : Finset EpollEvent) (pp : Option PipeView) : List EpollEvent :=
  match pp with
  | none => []
  | some v =>
    if v.active then pendingEvents epoll (0 < v.bufLen || v.closeWait) (v.bufLen < v.bufSize)
    else []

/-- The local variables of `mtcp_epoll_wait`: the queue that is read, how many of its entries are
left, `cnt` and `maxevents`. -/
structure Fetch where
  shadow : Bool
  left : ℕ
  cnt : ℕ
  maxevents : ℕ

def Fetch.queue (f : Fetch) : QueueType := if f.shadow then .usrShadow else .usr

/-- Where a thread is. -/
inductive Pc where
  | idle
  /-- Calls of `AddEpollEvent` for the shadow queue are to be made. -/
  | raising (s : ℕ) (es : List EpollEvent)
  /-- `AddEpollEvent` has found the bit clear. -/
  | checked (q : QueueType) (s : ℕ) (e : EpollEvent) (es : List EpollEvent)
  /-- `AddEpollEvent` has read the mask that it is about to write. -/
  | loaded (q : QueueType) (s : ℕ) (e : EpollEvent) (mask : Finset EpollEvent)
      (es : List EpollEvent)
  | fetching (f : Fetch)
  /-- `mtcp_epoll_wait` knows whether the first entry is valid. -/
  | taking (f : Fetch) (x : EventEntry) (subscribed valid : Bool)
  /-- `mtcp_epoll_wait` has read the mask that it is about to write. -/
  | clearing (f : Fetch) (x : EventEntry) (subscribed valid : Bool) (mask : Finset EpollEvent)

/-- After a call of `AddEpollEvent`. -/
def Pc.resume (s : ℕ) : List EpollEvent → Pc
  | [] => .idle
  | e :: es => .raising s (e :: es)

/-- An entry that `mtcp_epoll_wait` took out, whether it was subscribed and whether it was returned.
-/
structure TakenEvent where
  entry : EventEntry
  subscribed : Bool
  returned : Bool
deriving DecidableEq

structure EpollConfig where
  size : ℕ
  /-- The threads other than mTCP and the application. -/
  others : ℕ
  socktype : ℕ → SockType

variable (cfg : EpollConfig)

def EpollConfig.threads : ℕ := cfg.others + 2

structure EpollWorld where
  queue : QueueType → List EventEntry
  epoll : ℕ → Finset EpollEvent
  epData : ℕ → ℕ
  events : ℕ → Finset EpollEvent
  pc : ℕ → Pc
  /-- The thread that holds `epoll_lock`. -/
  lock : Option ℕ
  raised : ℕ
  taken : List TakenEvent

inductive CtlOp where
  | add
  | del
  | mod
deriving DecidableEq

inductive EpollOp where
  /-- A call of `AddEpollEvent`. -/
  | add (t : ℕ) (q : QueueType) (s : ℕ) (e : EpollEvent)
  | ctl (op : CtlOp) (s : ℕ) (events : Finset EpollEvent) (data : ℕ) (stream : Option StreamView)
      (pp : Option PipeView)
  | wait (maxevents : ℕ)
  | flush
  /-- A thread goes on. -/
  | run (t : ℕ)

def flushEventsLoop (size : ℕ) :
    List EventEntry → List EventEntry → List EventEntry × List EventEntry
  | usr, [] => (usr, [])
  | usr, x :: mtcp =>
    if usr.length < size then flushEventsLoop size (usr ++ [x]) mtcp else (usr, x :: mtcp)

namespace EpollWorld

def start : EpollWorld where
  queue := fun _ => []
  epoll := fun _ => ∅
  epData := fun _ => 0
  events := fun _ => ∅
  pc := fun _ => .idle
  lock := none
  raised := 0
  taken := []

variable (w : EpollWorld)

def setPc (t : ℕ) (p : Pc) : EpollWorld :=
  { w with pc := update w.pc t p }

/-- The first access of `AddEpollEvent`. -/
def addCheck (t : ℕ) (q : QueueType) (s : ℕ) (e : EpollEvent) (es : List EpollEvent) : EpollWorld :=
  if e ∈ w.events s then w.setPc t (.resume s es) else w.setPc t (.checked q s e es)

/-- `AddEpollEvent` takes the lock of the user queue, looks for room and reads
the mask. -/
def addLoad (t : ℕ) (q : QueueType) (s : ℕ) (e : EpollEvent) (es : List EpollEvent) : EpollWorld :=
  if q = .usr ∧ w.lock.isSome then w
  else if (w.queue q).length ≥ cfg.size then w.setPc t (.resume s es)
  else
    { w.setPc t (.loaded q s e (w.events s) es) with
      lock := if q = .usr then some t else w.lock }

/-- `AddEpollEvent` writes the mask and the entry. -/
def addStore (t : ℕ) (q : QueueType) (s : ℕ) (e : EpollEvent)
    (mask : Finset EpollEvent) (es : List EpollEvent) : EpollWorld :=
  { w.setPc t (.resume s es) with
    events := update w.events s (insert e mask)
    queue := update w.queue q (w.queue q ++ [⟨w.raised, s, e, w.epData s⟩])
    raised := w.raised + 1
    lock := if q = .usr then none else w.lock }

/-- The head of a loop of `mtcp_epoll_wait`, and its test of the first entry. -/
def fetch (t : ℕ) (f : Fetch) : EpollWorld :=
  if f.left = 0 ∨ f.maxevents ≤ f.cnt then
    if f.shadow then { w.setPc t .idle with lock := none }
    else
      w.setPc t (.fetching { f with shadow := true, left := (w.queue .usrShadow).length })
  else
    match w.queue f.queue with
    | [] => w
    | x :: _ =>
      let subscribed := decide (x.event ∈ w.epoll x.sockid)
      w.setPc t (.taking f x subscribed (decide (cfg.socktype x.sockid ≠ .unused) && subscribed &&
        decide (x.event ∈ w.events x.sockid)))

/-- `mtcp_epoll_wait` clears the bit and drops the entry. -/
def take (t : ℕ) (f : Fetch) (x : EventEntry) (subscribed valid : Bool)
    (mask : Finset EpollEvent) : EpollWorld :=
  { w.setPc t (.fetching
      { f with left := f.left - 1, cnt := if valid then f.cnt + 1 else f.cnt }) with
    events := update w.events x.sockid (mask.erase x.event)
    queue := update w.queue f.queue (w.queue f.queue).tail
    taken := w.taken ++ [⟨x, subscribed, valid⟩] }

/-- A thread goes on. -/
def run (t : ℕ) : EpollWorld :=
  match w.pc t with
  | .idle => w
  | .raising _ [] => w.setPc t .idle
  | .raising s (e :: es) => w.addCheck t .usrShadow s e es
  | .checked q s e es => w.addLoad cfg t q s e es
  | .loaded q s e mask es => w.addStore t q s e mask es
  | .fetching f => w.fetch cfg t f
  | .taking f x subscribed valid =>
    w.setPc t (.clearing f x subscribed valid (w.events x.sockid))
  | .clearing f x subscribed valid mask => w.take t f x subscribed valid mask

/-- The subscription of `mtcp_epoll_ctl` and the events to raise for it. -/
def subscribe (s : ℕ) (events : Finset EpollEvent) (data : ℕ)
    (stream : Option StreamView) (pp : Option PipeView) : EpollWorld :=
  let epoll := events ∪ {.epollErr, .epollHup}
  { w.setPc 1 (.resume s (match cfg.socktype s with
      | .stream => raisePendingStreamEvents epoll stream
      | .pipe => raisePendingPipeEvents epoll pp
      | _ => [])) with
    epoll := update w.epoll s epoll
    epData := update w.epData s data }

/-- `mtcp_epoll_ctl`. The error exit of `MTCP_EPOLL_CTL_MOD` releases a lock it does not hold. -/
def epollCtl (op : CtlOp) (s : ℕ)
    (events : Finset EpollEvent) (data : ℕ) (stream : Option StreamView) (pp : Option PipeView) :
    EpollWorld :=
  match op with
  | .add => if w.epoll s = ∅ then w.subscribe cfg s events data stream pp else w
  | .mod => if w.epoll s = ∅ then { w with lock := none } else
      w.subscribe cfg s events data stream pp
  | .del => if w.epoll s = ∅ then w else { w with epoll := update w.epoll s ∅ }

/-- The start of a round of `mtcp_epoll_wait`. -/
def epollWait (maxevents : ℕ) : EpollWorld :=
  if w.lock.isSome ∨ maxevents = 0 then w
  else
    { w.setPc 1 (.fetching ⟨false, (w.queue .usr).length, 0, maxevents⟩) with lock := some 1 }

def flushEpollEvents : EpollWorld :=
  if w.lock.isSome then w
  else
    let moved := flushEventsLoop cfg.size (w.queue .usr) (w.queue .mtcp)
    { w with
      queue := update (update w.queue .usr moved.1) .mtcp moved.2 }

/-- A thread in a call starts no other one. -/
def step : EpollOp → EpollWorld
  | .add t q s e =>
    match w.pc t with
    | .idle => w.addCheck t q s e []
    | _ => w
  | .ctl op s events data stream pp =>
    match w.pc 1 with
    | .idle => w.epollCtl cfg op s events data stream pp
    | _ => w
  | .wait maxevents =>
    match w.pc 1 with
    | .idle => w.epollWait maxevents
    | _ => w
  | .flush =>
    match w.pc 0 with
    | .idle => w.flushEpollEvents cfg
    | _ => w
  | .run t => w.run cfg t

/-- All entries of the three queues. -/
def waiting : List EventEntry :=
  w.queue .usr ++ w.queue .usrShadow ++ w.queue .mtcp

end EpollWorld

/-- The socket whose mask a thread has read and is going to write. -/
def Pc.critical : Pc → Option ℕ
  | .checked _ s _ _ => some s
  | .loaded _ s _ _ _ => some s
  | .taking _ x _ _ => some x.sockid
  | .clearing _ x _ _ _ => some x.sockid
  | _ => none

/-- The thread holds `epoll_lock`. -/
def Pc.locks : Pc → Bool
  | .loaded q _ _ _ _ => q = .usr
  | .fetching _ => true
  | .taking _ _ _ _ => true
  | .clearing _ _ _ _ _ => true
  | _ => false

namespace EpollWorld

variable (w : EpollWorld)

/-- No other thread is about to write the mask of the socket. -/
def Alone (t s : ℕ) : Prop :=
  ∀ t' < cfg.threads, t' ≠ t → (w.pc t').critical ≠ some s

instance (cfg : EpollConfig) (w : EpollWorld) (t s : ℕ) : Decidable (w.Alone cfg t s) :=
  inferInstanceAs (Decidable (∀ t' < cfg.threads, t' ≠ t → (w.pc t').critical ≠ some s))

/-- A thread does not start on a mask that another one is about to write, and its queue has room. -/
def RunOk (t : ℕ) : Pc → Prop
  | .raising s (_ :: _) => w.Alone cfg t s
  | .checked q _ _ _ => (w.queue q).length < cfg.size
  | .fetching f => ∀ x ∈ (w.queue f.queue).head?, w.Alone cfg t x.sockid
  | _ => True

instance (cfg : EpollConfig) (w : EpollWorld) (t : ℕ) (p : Pc) : Decidable (w.RunOk cfg t p) := by
  unfold RunOk
  split <;> infer_instance

/-- The threads keep to their queues and to allocated sockets, there is room, and no two threads are
at one mask at the same time. -/
def Ok : EpollOp → Prop
  | .add t q s _ =>
    t < cfg.threads ∧ (q = .mtcp → t = 0) ∧ (q = .usrShadow → t = 1) ∧
      cfg.socktype s ≠ .unused ∧ w.Alone cfg t s
  | .ctl op s _ _ _ _ => op = .mod → w.epoll s ≠ ∅
  | .wait _ => True
  | .flush => True
  | .run t => t < cfg.threads ∧ w.RunOk cfg t (w.pc t)

instance (cfg : EpollConfig) (w : EpollWorld) (op : EpollOp) : Decidable (w.Ok cfg op) := by
  cases op <;> dsimp only [Ok] <;> infer_instance

/-- What a thread knows where it is: the mask as it was read, the entry it looks at, and room. -/
def PcOk (queue : QueueType → List EventEntry) (events : ℕ → Finset EpollEvent) (t : ℕ) : Pc → Prop
  | .idle => True
  | .raising s _ => cfg.socktype s ≠ .unused ∧ t = 1
  | .checked q s e es => cfg.socktype s ≠ .unused ∧ (q = .mtcp → t = 0) ∧
      (q = .usrShadow → t = 1) ∧ (es ≠ [] → t = 1) ∧ e ∉ events s
  | .loaded q s e mask es => cfg.socktype s ≠ .unused ∧ (q = .mtcp → t = 0) ∧
      (q = .usrShadow → t = 1) ∧ (es ≠ [] → t = 1) ∧ e ∉ events s ∧ mask = events s ∧
      (queue q).length < cfg.size
  | .fetching f => f.left ≤ (queue f.queue).length
  | .taking f x subscribed valid => f.left ≤ (queue f.queue).length ∧ 0 < f.left ∧
      (queue f.queue).head? = some x ∧ valid = subscribed
  | .clearing f x subscribed valid mask => f.left ≤ (queue f.queue).length ∧ 0 < f.left ∧
      (queue f.queue).head? = some x ∧ valid = subscribed ∧ mask = events x.sockid

/-- The threads agree with each other. -/
structure Threads (cfg : EpollConfig) (w : EpollWorld) : Prop where
  beyond : ∀ t, cfg.threads ≤ t → w.pc t = .idle
  lock : ∀ t, (w.pc t).locks = true ↔ w.lock = some t
  apart : ∀ t t' s, t ≠ t' → (w.pc t).critical = some s → (w.pc t').critical ≠ some s
  pcs : ∀ t, PcOk cfg w.queue w.events t (w.pc t)

def isFor (s : ℕ) (e : EpollEvent) (x : EventEntry) : Bool := x.sockid = s ∧ x.event = e

/-- The bits agree with the entries, and every event that was raised waits in
a queue or was taken out. -/
structure Stock (cfg : EpollConfig) (w : EpollWorld) : Prop where
  bits : ∀ s e, w.waiting.countP (isFor s e) = if e ∈ w.events s then 1 else 0
  used : ∀ x ∈ w.waiting, cfg.socktype x.sockid ≠ .unused
  ids : (w.waiting.map (·.id) ++ w.taken.map (·.entry.id)).Perm (List.range w.raised)
  returned : ∀ x ∈ w.taken, x.returned = x.subscribed
  room : ∀ q, (w.queue q).length ≤ cfg.size

structure Inv (cfg : EpollConfig) (w : EpollWorld) : Prop where
  threads : w.Threads cfg
  stock : w.Stock cfg

variable {cfg} {w w' : EpollWorld} {t : ℕ}

theorem one_lt_threads (cfg : EpollConfig) : 1 < cfg.threads := by
  unfold EpollConfig.threads
  omega

theorem inv_start (cfg : EpollConfig) : start.Inv cfg where
  threads := by
    refine ⟨fun _ _ => rfl, fun t => ⟨?_, ?_⟩, fun t t' s _ h => ?_, fun _ => trivial⟩
    · intro h
      cases h
    · intro h
      cases h
    · cases h
  stock := ⟨fun _ _ => rfl, nofun, List.Perm.refl _, nofun, fun _ => Nat.zero_le _⟩

theorem Fetch.queue_ne_mtcp (f : Fetch) : f.queue ≠ .mtcp := by
  unfold Fetch.queue
  split <;> decide

variable {p : Pc} {x : EventEntry}

theorem PcOk.frame {queue queue' : QueueType → List EventEntry}
    {events events' : ℕ → Finset EpollEvent} (h : PcOk cfg queue events t p)
    (hevents : ∀ s, p.critical = some s → events' s = events s)
    (hlocks : p.locks = true → ∀ q, q ≠ .mtcp → queue q <+: queue' q)
    (hloaded : ∀ q s e mask es, p = .loaded q s e mask es →
      (queue' q).length ≤ (queue q).length) : PcOk cfg queue' events' t p := by
  have hhead : ∀ {f : Fetch} {x : EventEntry}, queue f.queue <+: queue' f.queue →
      (queue f.queue).head? = some x → (queue' f.queue).head? = some x := by
    intro f x hpre hx
    obtain ⟨rest, hrest⟩ := hpre
    rw [← hrest, head?_append, hx]
    rfl
  cases p with
  | idle => trivial
  | raising s es => exact h
  | checked q s e es =>
    obtain ⟨hused, hmtcp, hshadow, hes, hclear⟩ := h
    exact ⟨hused, hmtcp, hshadow, hes, by rw [hevents s rfl]; exact hclear⟩
  | loaded q s e mask es =>
    obtain ⟨hused, hmtcp, hshadow, hes, hclear, hmask, hroom⟩ := h
    refine ⟨hused, hmtcp, hshadow, hes, ?_, ?_, ?_⟩
    · rw [hevents s rfl]
      exact hclear
    · rw [hevents s rfl, hmask]
    · exact lt_of_le_of_lt (hloaded q s e mask es rfl) hroom
  | fetching f =>
    exact le_trans h (hlocks rfl f.queue (Fetch.queue_ne_mtcp f)).length_le
  | taking f x subscribed valid =>
    obtain ⟨hleft, hpos, hx, hvalid⟩ := h
    have hpre := hlocks rfl f.queue (Fetch.queue_ne_mtcp f)
    exact ⟨le_trans hleft hpre.length_le, hpos, hhead hpre hx, hvalid⟩
  | clearing f x subscribed valid mask =>
    obtain ⟨hleft, hpos, hx, hvalid, hmask⟩ := h
    have hpre := hlocks rfl f.queue (Fetch.queue_ne_mtcp f)
    refine ⟨le_trans hleft hpre.length_le, hpos, hhead hpre hx, hvalid, ?_⟩
    rw [hevents x.sockid rfl, hmask]

theorem Threads.at (h : w.Threads cfg) (hpc : w.pc t = p) :
    PcOk cfg w.queue w.events t p ∧ (p.locks = true ↔ w.lock = some t) := by
  subst hpc
  exact ⟨h.pcs t, h.lock t⟩

theorem Threads.alone (h : w.Threads cfg) {s : ℕ} (halone : w.Alone cfg t s) {t' : ℕ}
    (hne : t' ≠ t) : (w.pc t').critical ≠ some s := by
  by_cases hlt : t' < cfg.threads
  · exact halone t' hlt hne
  · rw [h.beyond t' (by omega)]
    nofun

theorem Threads.move (h : w.Threads cfg) (ht : t < cfg.threads)
    (hpc : w'.pc = update w.pc t p) (hself : p.locks = true ↔ w'.lock = some t)
    (hlock : ∀ t', t' ≠ t → (w'.lock = some t' ↔ w.lock = some t'))
    (halone : ∀ s, p.critical = some s → ∀ t', t' ≠ t → (w.pc t').critical ≠ some s)
    (hok : PcOk cfg w'.queue w'.events t p)
    (hothers : ∀ t', t' ≠ t → PcOk cfg w'.queue w'.events t' (w.pc t')) : w'.Threads cfg where
  beyond u hu := by
    rw [hpc, update_of_ne (by omega)]
    exact h.beyond u hu
  lock := by
    rw [hpc, forall_update_iff w.pc fun u q => q.locks = true ↔ w'.lock = some u]
    exact ⟨hself, fun u hu => (h.lock u).trans (hlock u hu).symm⟩
  apart u v s huv := by
    rw [hpc]
    by_cases hut : u = t
    · subst hut
      rw [update_self, update_of_ne huv.symm]
      exact fun hu => halone s hu v huv.symm
    by_cases hvt : v = t
    · subst hvt
      rw [update_self, update_of_ne hut]
      exact fun hu hv => halone s hv u hut hu
    · rw [update_of_ne hut, update_of_ne hvt]
      exact h.apart u v s huv
  pcs := by
    rw [hpc, forall_update_iff w.pc (PcOk cfg w'.queue w'.events)]
    exact ⟨hok, hothers⟩

theorem Inv.control (h : w.Inv cfg) {lock : Option ℕ} {epoll : ℕ → Finset EpollEvent}
    {epData : ℕ → ℕ} (ht : t < cfg.threads) (hself : p.locks = true ↔ lock = some t)
    (hlock : ∀ t', t' ≠ t → (lock = some t' ↔ w.lock = some t'))
    (halone : ∀ s, p.critical = some s → ∀ t', t' ≠ t → (w.pc t').critical ≠ some s)
    (hok : PcOk cfg w.queue w.events t p) :
    ({ w.setPc t p with lock := lock, epoll := epoll, epData := epData } : EpollWorld).Inv
      cfg where
  threads := h.threads.move ht rfl hself hlock halone hok fun t' _ => h.threads.pcs t'
  stock := { h.stock with }

theorem Inv.setPc (h : w.Inv cfg) (ht : t < cfg.threads) (hlocks : p.locks = (w.pc t).locks)
    (halone : ∀ s, p.critical = some s → ∀ t', t' ≠ t → (w.pc t').critical ≠ some s)
    (hok : PcOk cfg w.queue w.events t p) : (w.setPc t p).Inv cfg :=
  h.control ht (by rw [hlocks]; exact h.threads.lock t) (fun _ _ => Iff.rfl)
    halone hok

theorem Stock.add (h : w.Stock cfg) (hwaiting : w'.waiting.Perm (x :: w.waiting))
    (hevents : w'.events =
      update w.events x.sockid (insert x.event (w.events x.sockid)))
    (hclear : x.event ∉ w.events x.sockid) (hused : cfg.socktype x.sockid ≠ .unused)
    (hid : x.id = w.raised) (hraised : w'.raised = w.raised + 1) (htaken : w'.taken = w.taken)
    (hroom : ∀ q, (w'.queue q).length ≤ cfg.size) : w'.Stock cfg where
  bits s e := by
    have hbits := h.bits s e
    rw [hwaiting.countP_eq, countP_cons, hbits, hevents]
    by_cases hs : s = x.sockid
    · subst hs
      by_cases he : e = x.event
      · subst he
        simp [isFor, hclear]
      · have hne : isFor x.sockid e x = false := by simp [isFor, Ne.symm he]
        simp [hne, Finset.mem_insert, he]
    · have hne : isFor s e x = false := by simp [isFor, Ne.symm hs]
      simp [hne, update_of_ne hs]
  used y hy := by
    rcases mem_cons.mp (hwaiting.mem_iff.mp hy) with rfl | hy
    · exact hused
    · exact h.used y hy
  ids := by
    rw [hraised, htaken, range_succ]
    have hperm := (hwaiting.map (·.id)).append_right (w.taken.map (·.entry.id))
    refine hperm.trans ?_
    rw [map_cons, cons_append, hid]
    exact (h.ids.cons _).trans (perm_append_singleton _ _).symm
  returned := by
    rw [htaken]
    exact h.returned
  room := hroom

theorem Stock.take (h : w.Stock cfg) {b : Bool} (hwaiting : w.waiting.Perm (x :: w'.waiting))
    (hevents : w'.events = update w.events x.sockid ((w.events x.sockid).erase x.event))
    (hraised : w'.raised = w.raised) (htaken : w'.taken = w.taken ++ [⟨x, b, b⟩])
    (hroom : ∀ q, (w'.queue q).length ≤ cfg.size) : w'.Stock cfg where
  bits s e := by
    have hbits := h.bits s e
    rw [hwaiting.countP_eq, countP_cons] at hbits
    rw [hevents]
    by_cases hs : s = x.sockid
    · subst hs
      rw [update_self]
      by_cases he : e = x.event
      · subst he
        have hself : isFor x.sockid x.event x = true := by simp [isFor]
        rw [if_pos hself] at hbits
        rw [if_neg (Finset.notMem_erase _ _)]
        split at hbits <;> omega
      · have hne : isFor x.sockid e x = false := by simp [isFor, Ne.symm he]
        simpa [hne, Finset.mem_erase, he] using hbits
    · have hne : isFor s e x = false := by simp [isFor, Ne.symm hs]
      simpa [hne, update_of_ne hs] using hbits
  used y hy := h.used y (hwaiting.mem_iff.mpr (mem_cons_of_mem x hy))
  ids := by
    rw [hraised, htaken, map_append]
    refine List.Perm.trans ?_ h.ids
    have hperm := (hwaiting.map (·.id)).append_right (w.taken.map (·.entry.id))
    refine List.Perm.trans ?_ hperm.symm
    rw [← append_assoc]
    exact perm_append_singleton _ _
  returned y hy := by
    rw [htaken] at hy
    rcases mem_append.mp hy with hy | hy
    · exact h.returned y hy
    · rw [mem_singleton.mp hy]
  room := hroom

theorem waiting_append (w : EpollWorld) (q : QueueType) (x : EventEntry)
    (hqueue : w'.queue = update w.queue q (w.queue q ++ [x])) :
    w'.waiting.Perm (x :: w.waiting) := by
  unfold waiting
  rw [hqueue]
  cases q with
  | usr =>
    simp only [update_apply, reduceCtorEq, ↓reduceIte, append_assoc]
    exact perm_middle
  | usrShadow =>
    simp only [update_apply, reduceCtorEq, ↓reduceIte]
    rw [← append_assoc, append_assoc, singleton_append]
    exact perm_middle
  | mtcp =>
    simp only [update_apply, reduceCtorEq, ↓reduceIte]
    rw [← append_assoc]
    exact perm_append_singleton _ _

theorem waiting_tail (w : EpollWorld) {q : QueueType} (hx : (w.queue q).head? = some x)
    (hqueue : w'.queue = update w.queue q (w.queue q).tail) : w.waiting.Perm (x :: w'.waiting) := by
  have hcons : w.queue q = x :: (w.queue q).tail := (cons_head?_tail hx).symm
  unfold waiting
  rw [hqueue]
  cases q with
  | usr =>
    nth_rewrite 1 [hcons]
    exact List.Perm.refl _
  | usrShadow =>
    nth_rewrite 1 [hcons]
    rw [append_assoc, append_assoc]
    exact perm_middle
  | mtcp =>
    nth_rewrite 1 [hcons]
    exact perm_middle

variable (size : ℕ) (usr mtcp : List EventEntry)

theorem flushEventsLoop_append :
    (flushEventsLoop size usr mtcp).1 ++ (flushEventsLoop size usr mtcp).2 = usr ++ mtcp := by
  induction mtcp generalizing usr with
  | nil => rfl
  | cons x mtcp ih =>
    unfold flushEventsLoop
    split
    · rw [ih, append_assoc]
      rfl
    · rfl

theorem flushEventsLoop_length {size : ℕ} {usr : List EventEntry} (mtcp : List EventEntry)
    (hroom : usr.length ≤ size) : (flushEventsLoop size usr mtcp).1.length ≤ size := by
  induction mtcp generalizing usr with
  | nil => exact hroom
  | cons x mtcp ih =>
    unfold flushEventsLoop
    split
    · next hlt =>
      refine ih ?_
      rw [length_append, length_singleton]
      exact hlt
    · exact hroom

theorem flushEventsLoop_suffix : (flushEventsLoop size usr mtcp).2 <:+ mtcp := by
  induction mtcp generalizing usr with
  | nil => exact suffix_refl _
  | cons x mtcp ih =>
    unfold flushEventsLoop
    split
    · exact (ih (usr ++ [x])).trans (suffix_cons x mtcp)
    · exact suffix_refl _

theorem resume_locks (s : ℕ) (es : List EpollEvent) : (Pc.resume s es).locks = false := by
  cases es <;> rfl

theorem resume_critical (s : ℕ) (es : List EpollEvent) : (Pc.resume s es).critical = none := by
  cases es <;> rfl

theorem resume_ok {queue : QueueType → List EventEntry} {events : ℕ → Finset EpollEvent} {s : ℕ}
    {es : List EpollEvent} (hused : es ≠ [] → cfg.socktype s ≠ .unused) (hes : es ≠ [] → t = 1) :
    PcOk cfg queue events t (.resume s es) := by
  cases es with
  | nil => trivial
  | cons e es => exact ⟨hused (cons_ne_nil e es), hes (cons_ne_nil e es)⟩

variable {f : Fetch}

namespace Inv

variable (h : w.Inv cfg)
include h

variable {s : ℕ} {es : List EpollEvent} {q : QueueType}

section

variable (ht : t < cfg.threads)
include ht

theorem resume (hlocks : (w.pc t).locks = false) (hused : es ≠ [] → cfg.socktype s ≠ .unused)
    (hes : es ≠ [] → t = 1) : (w.setPc t (.resume s es)).Inv cfg := by
  refine h.setPc ht ?_ ?_ (resume_ok hused hes)
  · rw [resume_locks, hlocks]
  · rw [resume_critical]
    nofun

omit ht in
theorem addCheck (e : EpollEvent) (ht : t < cfg.threads) (hlocks : (w.pc t).locks = false)
    (halone : w.Alone cfg t s) (hused : cfg.socktype s ≠ .unused) (hmtcp : q = .mtcp → t = 0)
    (hshadow : q = .usrShadow → t = 1) (hes : es ≠ [] → t = 1) :
    (w.addCheck t q s e es).Inv cfg := by
  unfold EpollWorld.addCheck
  split
  · exact h.resume ht hlocks (fun _ => hused) hes
  next hclear =>
  refine h.setPc ht hlocks.symm ?_ ⟨hused, hmtcp, hshadow, hes, hclear⟩
  intro s' hs' t' hne
  cases hs'
  exact h.threads.alone halone hne

theorem addLoad {e : EpollEvent} (hpc : w.pc t = .checked q s e es)
    (hroom : (w.queue q).length < cfg.size) : (w.addLoad cfg t q s e es).Inv cfg := by
  obtain ⟨⟨hused, hmtcp, hshadow, hes, hclear⟩, hlock⟩ := h.threads.at hpc
  have hfree : w.lock ≠ some t := fun heq => Bool.false_ne_true (hlock.mpr heq)
  unfold EpollWorld.addLoad
  split
  · exact h
  next hblocked =>
    rw [if_neg (by omega)]
    refine h.control ht ?_ ?_ ?_ ⟨hused, hmtcp, hshadow, hes, hclear, rfl, hroom⟩
    · show decide (q = .usr) = true ↔ (if q = .usr then some t else w.lock) = some t
      split
      · next hq => simp [hq]
      · next hq => simp [hq, hfree]
    · intro t' hne
      split
      · next hq =>
        rw [Option.not_isSome_iff_eq_none.mp fun hsome => hblocked ⟨hq, hsome⟩]
        simp [hne.symm]
      · exact Iff.rfl
    · intro s' hs' t' hne
      exact h.threads.apart t t' s' hne.symm (by rw [hpc]; exact hs')

theorem addStore {e : EpollEvent} {mask : Finset EpollEvent}
    (hpc : w.pc t = .loaded q s e mask es) : (w.addStore t q s e mask es).Inv cfg := by
  obtain ⟨⟨hused, hmtcp, hshadow, hes, hclear, rfl, hroom⟩, hlock⟩ := h.threads.at hpc
  have hlength : ∀ q', ((w.addStore t q s e (w.events s) es).queue q').length ≤ cfg.size := by
    refine (forall_update_iff w.queue fun _ xs => xs.length ≤ cfg.size).mpr
      ⟨?_, fun q' _ => h.stock.room q'⟩
    rw [length_append]
    exact hroom
  refine ⟨?_, h.stock.add (waiting_append w q _ rfl) rfl hclear hused rfl rfl rfl hlength⟩
  refine h.threads.move (p := .resume s es) ht rfl ?_ ?_ ?_ (resume_ok (fun _ => hused) hes) ?_
  · rw [resume_locks]
    show false = true ↔ (if q = .usr then none else w.lock) = some t
    split
    · simp
    · next hq =>
      rw [← hlock]
      simp [Pc.locks, hq]
  · intro t' hne
    show (if q = .usr then none else w.lock) = some t' ↔ w.lock = some t'
    split
    · next hq =>
      rw [hlock.mp (decide_eq_true hq)]
      simp [hne.symm]
    · exact Iff.rfl
  · rw [resume_critical]
    nofun
  · -- another thread is at another socket, and it is not filling the same queue
    intro t' hne
    refine (h.threads.pcs t').frame ?_ ?_ ?_
    · intro s' hs'
      have hss : s' ≠ s := by
        rintro rfl
        exact h.threads.apart t' t s' hne hs' (by rw [hpc]; rfl)
      exact update_of_ne hss _ _
    · exact fun _ q' _ => (forall_update_iff w.queue fun q' xs => w.queue q' <+: xs).mpr
        ⟨prefix_append _ _, fun _ _ => prefix_rfl⟩ q'
    · intro q' s' e' mask' es' hpc'
      obtain ⟨⟨-, hmtcp', hshadow', -⟩, hlock'⟩ := h.threads.at hpc'
      have hqq : q' ≠ q := by
        rintro rfl
        cases q' with
        | usr =>
          have heq := (hlock.mp rfl).symm.trans (hlock'.mp rfl)
          exact hne (Option.some.inj heq).symm
        | usrShadow => exact hne ((hshadow' rfl).trans (hshadow rfl).symm)
        | mtcp => exact hne ((hmtcp' rfl).trans (hmtcp rfl).symm)
      show (update w.queue q _ q').length ≤ _
      rw [update_of_ne hqq]

theorem fetch (hpc : w.pc t = .fetching f)
    (halone : ∀ x ∈ (w.queue f.queue).head?, w.Alone cfg t x.sockid) :
    (w.fetch cfg t f).Inv cfg := by
  obtain ⟨hleft, hlock⟩ := h.threads.at hpc
  have hlocked : w.lock = some t := hlock.mp rfl
  unfold EpollWorld.fetch
  split
  · split
    · refine h.control ht (by simp [Pc.locks]) ?_ nofun trivial
      intro t' hne
      rw [hlocked]
      simp [hne.symm]
    · refine h.setPc ht (by rw [hpc]; rfl) nofun ?_
      exact le_refl _
  next hmore =>
    split
    · exact h
    next x rest hqueue =>
    have hhead : (w.queue f.queue).head? = some x := by rw [hqueue]; rfl
    have hmem : x ∈ w.waiting := by
      have hin : x ∈ w.queue f.queue := mem_of_head? hhead
      unfold Fetch.queue at hin
      split at hin
      · exact mem_append_left _ (mem_append_right _ hin)
      · exact mem_append_left _ (mem_append_left _ hin)
    have hset : x.event ∈ w.events x.sockid := by
      by_contra hclear
      have hbits := h.stock.bits x.sockid x.event
      rw [if_neg hclear, countP_eq_zero] at hbits
      exact hbits x hmem (by simp [isFor])
    refine h.setPc ht (by rw [hpc]; rfl) ?_ ⟨hleft, by omega, hhead, ?_⟩
    · intro s hs t' hne
      cases hs
      exact h.threads.alone (halone x hhead) hne
    · simp [h.stock.used x hmem, hset]

theorem take {x : EventEntry} {subscribed valid : Bool} {mask : Finset EpollEvent}
    (hpc : w.pc t = .clearing f x subscribed valid mask) :
    (w.take t f x subscribed valid mask).Inv cfg := by
  obtain ⟨⟨hleft, hpos, hx, rfl, rfl⟩, hlock⟩ := h.threads.at hpc
  have hlocked : w.lock = some t := hlock.mp rfl
  have hshorter : ∀ q, (update w.queue f.queue (w.queue f.queue).tail q).length ≤
      (w.queue q).length := by
    refine (forall_update_iff w.queue fun q xs => xs.length ≤ (w.queue q).length).mpr
      ⟨?_, fun _ _ => le_refl _⟩
    rw [length_tail]
    omega
  refine ⟨?_, h.stock.take (waiting_tail w hx rfl) rfl rfl rfl fun q =>
    (hshorter q).trans (h.stock.room q)⟩
  refine h.threads.move ht rfl ?_ (fun _ _ => Iff.rfl) nofun ?_ ?_
  · exact iff_of_true rfl hlocked
  · show f.left - 1 ≤ (update w.queue f.queue _ f.queue).length
    rw [update_self, length_tail]
    omega
  · intro t' hne
    have hfree : (w.pc t').locks ≠ true := by
      intro hl
      have heq := hlocked.symm.trans ((h.threads.lock t').mp hl)
      exact hne (Option.some.inj heq).symm
    refine (h.threads.pcs t').frame ?_ (fun hl => absurd hl hfree) ?_
    · intro s hs
      have hss : s ≠ x.sockid := by
        rintro rfl
        exact h.threads.apart t' t _ hne hs (by rw [hpc]; rfl)
      exact update_of_ne hss _ _
    · exact fun q _ _ _ _ _ => hshorter q

theorem run (hok : w.RunOk cfg t (w.pc t)) : (w.run cfg t).Inv cfg := by
  have hpcs := h.threads.pcs t
  unfold EpollWorld.run
  split
  · exact h
  · next hpc => exact h.setPc (p := .idle) ht (by rw [hpc]; rfl) nofun trivial
  · next s e es hpc =>
    rw [hpc] at hok hpcs
    exact h.addCheck e ht (by rw [hpc]; rfl) hok hpcs.1 nofun (fun _ => hpcs.2) fun _ => hpcs.2
  · next q s e es hpc =>
    rw [hpc] at hok
    exact h.addLoad ht hpc hok
  · next hpc => exact h.addStore ht hpc
  · next f hpc =>
    rw [hpc] at hok
    exact h.fetch ht hpc hok
  · next f x subscribed valid hpc =>
    rw [hpc] at hpcs
    obtain ⟨hleft, hpos, hx, hvalid⟩ := hpcs
    refine h.setPc ht (by rw [hpc]; rfl) ?_ ⟨hleft, hpos, hx, hvalid, rfl⟩
    intro s hs t' hne
    exact h.threads.apart t t' s hne.symm (by rw [hpc]; exact hs)
  · next hpc => exact h.take ht hpc

end

theorem subscribe (hpc : w.pc 1 = .idle) (s : ℕ) (events : Finset EpollEvent)
    (data : ℕ) (stream : Option StreamView) (pp : Option PipeView) :
    (w.subscribe cfg s events data stream pp).Inv cfg := by
  refine h.control (one_lt_threads cfg) ?_ (fun _ _ => Iff.rfl) ?_
    (resume_ok (fun hne => ?_) fun _ => rfl)
  · rw [resume_locks]
    exact (h.threads.at hpc).2
  · rw [resume_critical]
    nofun
  · -- only streams and pipes have something pending
    intro hunused
    rw [hunused] at hne
    exact hne rfl

theorem epollCtl (hpc : w.pc 1 = .idle) {op : CtlOp} (hok : op = .mod → w.epoll s ≠ ∅)
    (events : Finset EpollEvent) (data : ℕ) (stream : Option StreamView) (pp : Option PipeView) :
    (w.epollCtl cfg op s events data stream pp).Inv cfg := by
  unfold EpollWorld.epollCtl
  cases op with
  | add =>
    dsimp only
    split
    · exact h.subscribe hpc s events data stream pp
    · exact h
  | mod =>
    dsimp only
    rw [if_neg (hok rfl)]
    exact h.subscribe hpc s events data stream pp
  | del =>
    dsimp only
    split
    · exact h
    · exact ⟨{ h.threads with }, { h.stock with }⟩

theorem epollWait (maxevents : ℕ) : (w.epollWait maxevents).Inv cfg := by
  unfold EpollWorld.epollWait
  split
  · exact h
  next hfree =>
  refine h.control (one_lt_threads cfg) (iff_of_true rfl rfl) ?_ nofun (le_refl _)
  intro t' hne
  rw [Option.not_isSome_iff_eq_none.mp fun hsome => hfree (Or.inl hsome)]
  simp [hne.symm]

theorem flushEpollEvents : (w.flushEpollEvents cfg).Inv cfg := by
  unfold EpollWorld.flushEpollEvents
  split
  · exact h
  next hfree =>
    have hnone : ∀ t, (w.pc t).locks ≠ true := by
      intro t hl
      rw [h.threads.lock t] at hl
      exact hfree (by rw [hl]; rfl)
    set moved := flushEventsLoop cfg.size (w.queue .usr) (w.queue .mtcp)
    have happend : moved.1 ++ moved.2 = w.queue .usr ++ w.queue .mtcp :=
      flushEventsLoop_append cfg.size _ _
    have hwaiting : (moved.1 ++ w.queue .usrShadow ++ moved.2).Perm w.waiting := by
      have hmove : ∀ a b c : List EventEntry, (a ++ b ++ c).Perm (a ++ c ++ b) := by
        intro a b c
        rw [append_assoc, append_assoc]
        exact perm_append_comm.append_left a
      exact (hmove _ _ _).trans (by rw [happend]; exact hmove _ _ _)
    refine ⟨⟨h.threads.beyond, h.threads.lock, h.threads.apart, fun t => ?_⟩, ?_⟩
    · refine (h.threads.pcs t).frame (fun _ _ => rfl) (fun hl => absurd hl (hnone t)) ?_
      intro q s e mask es hpct
      have hlocks := hnone t
      rw [hpct] at hlocks
      cases q with
      | usr => exact absurd rfl hlocks
      | usrShadow => exact le_refl _
      | mtcp => exact (flushEventsLoop_suffix cfg.size _ _).length_le
    · obtain ⟨hbits, hused, hids, hreturned, hroom⟩ := h.stock
      refine ⟨fun s e => ?_, fun x hx => hused x (hwaiting.mem_iff.mp hx), ?_, hreturned, ?_⟩
      · exact (hwaiting.countP_eq _).trans (hbits s e)
      · exact ((hwaiting.map _).append_right _).trans hids
      · intro q
        cases q with
        | usr => exact flushEventsLoop_length _ (hroom .usr)
        | usrShadow => exact hroom .usrShadow
        | mtcp => exact (flushEventsLoop_suffix cfg.size _ _).length_le.trans (hroom .mtcp)

theorem step (op : EpollOp) (hok : w.Ok cfg op) : (w.step cfg op).Inv cfg := by
  cases op with
  | add t q s e =>
    obtain ⟨ht, hmtcp, hshadow, hused, halone⟩ := hok
    unfold EpollWorld.step
    dsimp only
    split
    · next hpc => exact h.addCheck e ht (by rw [hpc]; rfl) halone hused hmtcp hshadow nofun
    · exact h
  | ctl op s events data stream pp =>
    unfold EpollWorld.step
    dsimp only
    split
    · next hpc => exact h.epollCtl hpc hok events data stream pp
    · exact h
  | wait maxevents =>
    unfold EpollWorld.step
    dsimp only
    split
    · exact h.epollWait maxevents
    · exact h
  | flush =>
    unfold EpollWorld.step
    dsimp only
    split
    · exact h.flushEpollEvents
    · exact h
  | run t => exact h.run hok.1 hok.2

end Inv

def Empties (cfg : EpollConfig) (op : EpollOp) : Prop :=
  op = .flush ∨ op = .wait (2 * cfg.size + 1) ∨ op = .run 1

/-- The queues can be emptied with no further event. -/
def CanEmpty (cfg : EpollConfig) (w : EpollWorld) : Prop :=
  ∃ ops, (∀ op ∈ ops, Empties cfg op) ∧ Run.Admissible (step cfg) (Ok cfg) w ops ∧
    (ops.foldl (step cfg) w).waiting = [] ∧ (ops.foldl (step cfg) w).raised = w.raised

theorem CanEmpty.head {op : EpollOp} (h : (w.step cfg op).CanEmpty cfg) (hop : Empties cfg op)
    (hok : w.Ok cfg op) (hraised : (w.step cfg op).raised = w.raised) : w.CanEmpty cfg := by
  obtain ⟨ops, hops, hrun, hwaiting, hsame⟩ := h
  refine ⟨op :: ops, ?_, ⟨hok, hrun⟩, hwaiting, hsame.trans hraised⟩
  intro op' hop'
  rcases mem_cons.mp hop' with rfl | hop'
  · exact hop
  · exact hops op' hop'

theorem setPc_self (w : EpollWorld) (t : ℕ) (p : Pc) : (w.setPc t p).pc t = p := by
  unfold EpollWorld.setPc
  dsimp only
  rw [update_self]

theorem setPc_of_ne (w : EpollWorld) {t t' : ℕ} (hne : t' ≠ t) (p : Pc) :
    (w.setPc t p).pc t' = w.pc t' := by
  unfold EpollWorld.setPc
  dsimp only
  rw [update_of_ne hne]

/-- Only the application is in a call. -/
structure Solo (cfg : EpollConfig) (w : EpollWorld) (p : Pc) : Prop where
  inv : w.Inv cfg
  app : w.pc 1 = p
  others : ∀ t, t ≠ 1 → w.pc t = .idle

theorem Solo.alone {p : Pc} (h : w.Solo cfg p) (s : ℕ) : w.Alone cfg 1 s := by
  intro t _ hne
  rw [h.others t hne]
  nofun

theorem Solo.go {p : Pc} (h : w.Solo cfg p) (w' : EpollWorld) (hok : w.RunOk cfg 1 p)
    (hrun : w.run cfg 1 = w') (hraised : w'.raised = w.raised)
    (hnext : w'.Inv cfg → w'.CanEmpty cfg) : w.CanEmpty cfg := by
  have hok' : w.Ok cfg (.run 1) := ⟨one_lt_threads cfg, by rw [h.app]; exact hok⟩
  subst hrun
  exact (hnext (h.inv.step _ hok')).head (Or.inr (Or.inr rfl)) hok' hraised

theorem Solo.setPc {p p' : Pc} (h : w.Solo cfg p) (hinv : (w.setPc 1 p').Inv cfg) :
    (w.setPc 1 p').Solo cfg p' where
  inv := hinv
  app := w.setPc_self 1 p'
  others _ hne := (w.setPc_of_ne hne p').trans (h.others _ hne)

theorem Solo.takeFirst (h : w.Solo cfg (.fetching f)) {x : EventEntry}
    {rest : List EventEntry} (hqueue : w.queue f.queue = x :: rest) (hleft : f.left ≠ 0)
    (hcnt : f.cnt < f.maxevents) (hnext : ∀ (c : ℕ) (w' : EpollWorld), c ≤ f.cnt + 1 →
      w'.Solo cfg (.fetching { f with left := f.left - 1, cnt := c }) →
      w'.queue = update w.queue f.queue rest → w'.CanEmpty cfg) : w.CanEmpty cfg := by
  obtain ⟨subscribed, valid, hrun⟩ : ∃ b b', w.run cfg 1 = w.setPc 1 (.taking f x b b') := by
    unfold EpollWorld.run
    rw [h.app]
    dsimp only
    unfold EpollWorld.fetch
    rw [if_neg (by omega), hqueue]
    exact ⟨_, _, rfl⟩
  refine h.go _ (fun _ _ => h.alone _) hrun rfl fun hinv => ?_
  have htaking := h.setPc hinv
  let v := (w.setPc 1 (.taking f x subscribed valid)).setPc 1
    (.clearing f x subscribed valid (w.events x.sockid))
  refine htaking.go v trivial ?_ rfl fun hinv' => ?_
  · rfl
  have hclearing := htaking.setPc hinv'
  refine hclearing.go (v.take 1 f x subscribed valid (w.events x.sockid)) trivial ?_ rfl
    fun hinv'' => ?_
  · unfold EpollWorld.run
    rw [hclearing.app]
  refine hnext (if valid then f.cnt + 1 else f.cnt) _ (by split <;> omega) ⟨hinv'', ?_, ?_⟩ ?_
  · exact v.setPc_self 1 _
  · exact fun t hne => (v.setPc_of_ne hne _).trans (hclearing.others t hne)
  · show update w.queue f.queue (w.queue f.queue).tail = _
    rw [hqueue]
    rfl

theorem Solo.drain (h : w.Solo cfg (.fetching f))
    (hleft : f.left = (w.queue f.queue).length) (hcnt : f.cnt + f.left < f.maxevents)
    (hnext : ∀ (c : ℕ) (w' : EpollWorld), c ≤ f.cnt + f.left →
      w'.Solo cfg (.fetching { f with left := 0, cnt := c }) →
      w'.queue = update w.queue f.queue [] → w'.CanEmpty cfg) : w.CanEmpty cfg := by
  generalize hn : f.left = n at *
  induction n generalizing w f with
  | zero =>
    refine hnext f.cnt w (by omega) ?_ ?_
    · rw [← hn]
      exact h
    · rw [eq_nil_of_length_eq_zero hleft.symm |>.symm, update_eq_self]
  | succ n ih =>
    cases hqueue : w.queue f.queue with
    | nil =>
      rw [hqueue] at hleft
      cases hleft
    | cons x rest =>
      refine h.takeFirst hqueue (by omega) (by omega) fun c w' hc hsolo hqueue' => ?_
      rw [hqueue] at hleft
      have hrest : w'.queue f.queue = rest := by rw [hqueue', update_self]
      refine ih hsolo ?_ ?_ ?_ ?_
      · show f.left - 1 = n
        omega
      · show n = (w'.queue f.queue).length
        rw [hrest]
        simpa using hleft
      · show c + n < f.maxevents
        omega
      · intro c' w'' hc' hsolo' hqueue''
        refine hnext c' w'' ?_ hsolo' ?_
        · dsimp only at hc'
          omega
        · rw [hqueue'', hqueue']
          exact update_idem ..

/-- Nothing happens outside of the queues. -/
structure Rest (cfg : EpollConfig) (w : EpollWorld) : Prop where
  inv : w.Inv cfg
  idle : ∀ t, w.pc t = .idle

theorem Rest.lock (h : w.Rest cfg) : w.lock = none := by
  cases hl : w.lock with
  | none => rfl
  | some t =>
    have hlocks := (h.inv.threads.lock t).mpr hl
    rw [h.idle t] at hlocks
    cases hlocks

theorem Rest.wait (h : w.Rest cfg)
    (hnext : ∀ w' : EpollWorld, w'.Rest cfg → w'.queue .usr = [] → w'.queue .usrShadow = [] →
      w'.queue .mtcp = w.queue .mtcp → w'.CanEmpty cfg) : w.CanEmpty cfg := by
  have hroom := h.inv.stock.room
  have hfirst : w.step cfg (.wait (2 * cfg.size + 1)) =
      { w.setPc 1 (.fetching ⟨false, (w.queue .usr).length, 0, 2 * cfg.size + 1⟩) with
        lock := some 1 } := by
    unfold EpollWorld.step
    dsimp only
    rw [h.idle 1]
    unfold EpollWorld.epollWait
    rw [if_neg (by rw [h.lock]; simp)]
  have hinv := h.inv.step (.wait (2 * cfg.size + 1)) trivial
  refine CanEmpty.head ?_ (Or.inr (Or.inl rfl)) trivial (by rw [hfirst]; rfl)
  rw [hfirst] at hinv ⊢
  have hsolo : Solo cfg { w.setPc 1
      (.fetching ⟨false, (w.queue .usr).length, 0, 2 * cfg.size + 1⟩) with lock := some 1 }
      (.fetching ⟨false, (w.queue .usr).length, 0, 2 * cfg.size + 1⟩) :=
    ⟨hinv, w.setPc_self 1 _, fun t hne => (w.setPc_of_ne hne _).trans (h.idle t)⟩
  refine hsolo.drain rfl ?_ fun c w' hc hsolo' hqueue => ?_
  · show 0 + (w.queue .usr).length < 2 * cfg.size + 1
    have := hroom .usr
    omega
  -- the loop goes on with the shadow queue
  have hqueue' : w'.queue = update w.queue .usr [] := hqueue
  have hshadow : w'.queue .usrShadow = w.queue .usrShadow := by
    rw [hqueue', update_of_ne (by decide)]
  have hsecond : w'.run cfg 1 = w'.setPc 1
      (.fetching ⟨true, (w'.queue .usrShadow).length, c, 2 * cfg.size + 1⟩) := by
    unfold EpollWorld.run
    rw [hsolo'.app]
    rfl
  refine hsolo'.go _ (fun _ _ => hsolo'.alone _) hsecond rfl fun hinv' => ?_
  refine (hsolo'.setPc hinv').drain rfl ?_ fun c' w'' _ hsolo'' hqueue'' => ?_
  · show c + (w'.queue .usrShadow).length < 2 * cfg.size + 1
    have hc' : c ≤ 0 + (w.queue .usr).length := hc
    have husr := hroom .usr
    have hsh := hroom .usrShadow
    rw [hshadow]
    omega
  have hqueue3 : w''.queue = update w'.queue .usrShadow [] := hqueue''
  have hthird : w''.run cfg 1 = { w''.setPc 1 .idle with lock := none } := by
    unfold EpollWorld.run
    rw [hsolo''.app]
    rfl
  refine hsolo''.go _ (fun _ _ => hsolo''.alone _) hthird rfl fun hinv'' => ?_
  refine hnext _ ⟨hinv'', fun t => ?_⟩ ?_ ?_ ?_
  · by_cases ht : t = 1
    · subst ht
      exact w''.setPc_self 1 _
    · exact (w''.setPc_of_ne ht _).trans (hsolo''.others t ht)
  · show w''.queue .usr = []
    rw [hqueue3, update_of_ne (by decide), hqueue', update_self]
  · show w''.queue .usrShadow = []
    rw [hqueue3, update_self]
  · show w''.queue .mtcp = _
    rw [hqueue3, update_of_ne (by decide), hqueue', update_of_ne (by decide)]

theorem Rest.flush (h : w.Rest cfg) : (w.step cfg .flush).Rest cfg ∧
    (w.step cfg .flush).raised = w.raised ∧ (w.step cfg .flush).queue .mtcp =
      (flushEventsLoop cfg.size (w.queue .usr) (w.queue .mtcp)).2 := by
  have hstep : w.step cfg .flush = w.flushEpollEvents cfg := by
    unfold EpollWorld.step
    rw [h.idle 0]
  have hinv := h.inv.step .flush trivial
  rw [hstep] at hinv ⊢
  unfold EpollWorld.flushEpollEvents at hinv ⊢
  rw [if_neg (by rw [h.lock]; simp)] at hinv ⊢
  exact ⟨⟨hinv, h.idle⟩, rfl, rfl⟩

theorem flushEventsLoop_all {size : ℕ} {usr mtcp : List EventEntry}
    (hroom : usr.length + mtcp.length ≤ size) : (flushEventsLoop size usr mtcp).2 = [] := by
  induction mtcp generalizing usr with
  | nil => rfl
  | cons x mtcp ih =>
    rw [length_cons] at hroom
    unfold flushEventsLoop
    rw [if_pos (by omega)]
    refine ih ?_
    rw [length_append, length_singleton]
    omega

theorem Rest.canEmpty (h : w.Rest cfg) : w.CanEmpty cfg := by
  obtain ⟨hrest, hraised, -⟩ := h.flush
  refine CanEmpty.head ?_ (Or.inl rfl) trivial hraised
  refine hrest.wait fun w' hrest' husr' _ _ => ?_
  obtain ⟨hrest2, hraised2, hmtcp2⟩ := hrest'.flush
  refine CanEmpty.head ?_ (Or.inl rfl) trivial hraised2
  refine hrest2.wait fun w'' _ husr hshadow hmtcp => ?_
  refine ⟨[], nofun, trivial, ?_, rfl⟩
  have hroom := hrest'.inv.stock.room .mtcp
  show w''.queue .usr ++ w''.queue .usrShadow ++ w''.queue .mtcp = []
  rw [husr, hshadow, hmtcp, hmtcp2, flushEventsLoop_all (by rw [husr']; simpa using hroom)]
  rfl

/-- A bit is set exactly while one entry for it waits, and every event that was raised waits or was
taken out once, and was returned exactly if subscribed. -/
structure Delivers (cfg : EpollConfig) (w : EpollWorld) : Prop where
  bits : ∀ s e, w.waiting.countP (isFor s e) = if e ∈ w.events s then 1 else 0
  ids : (w.waiting.map (·.id) ++ w.taken.map (·.entry.id)).Perm (List.range w.raised)
  returned : ∀ x ∈ w.taken, x.returned = x.subscribed
  later : (∀ t, w.pc t = .idle) → ∃ ops : List EpollOp, (∀ op ∈ ops, Empties cfg op) ∧
    ((ops.foldl (step cfg) w).taken.map (·.entry.id)).Perm (List.range w.raised)

theorem Inv.delivers (h : w.Inv cfg) : w.Delivers cfg where
  bits := h.stock.bits
  ids := h.stock.ids
  returned := h.stock.returned
  later hidle := by
    obtain ⟨ops, hops, hrun, hwaiting, hraised⟩ := Rest.canEmpty ⟨h, hidle⟩
    refine ⟨ops, hops, ?_⟩
    have hids := (hrun.invariant h fun _ op h hok => h.step op hok).stock.ids
    rw [hwaiting, hraised] at hids
    exact hids

/-- In every run in which no two threads are at one mask at the same time, events are delivered. -/
theorem events_delivered (cfg : EpollConfig) (ops : List EpollOp)
    (hops : Run.Admissible (step cfg) (Ok cfg) start ops) :
    (ops.foldl (step cfg) start).Delivers cfg :=
  (hops.invariant (inv_start cfg) fun _ op h hok => h.step op hok).delivers

def smallQueues : EpollConfig := ⟨4, 1, fun _ => .stream⟩

def interleaved : List EpollOp :=
  [.ctl .add 5 {.epollIn, .epollOut} 7 (some ⟨true, false, some 2, some 0⟩) none, .run 1, .run 1,
    .run 1, .add 0 .mtcp 5 .epollOut, .run 0, .run 0, .flush, .wait 4, .run 1, .run 1,
    .add 0 .mtcp 3 .epollIn, .run 0, .run 1, .run 0, .run 1]

theorem events_delivered_interleaved :
    Run.Admissible (step smallQueues) (Ok smallQueues) start interleaved ∧
      (interleaved.foldl (step smallQueues) start).taken =
        [⟨⟨1, 5, .epollOut, 7⟩, true, true⟩] ∧
      (interleaved.foldl (step smallQueues) start).Delivers smallQueues :=
  ⟨by decide +kernel, by decide +kernel,
    events_delivered smallQueues interleaved (by decide +kernel)⟩

def maskRace (last : List EpollOp) : List EpollOp :=
  [.ctl .add 5 {.epollIn, .epollOut} 7 none none, .add 0 .mtcp 5 .epollIn, .run 0, .run 0, .flush,
    .wait 4, .run 1, .run 1, .add 0 .mtcp 5 .epollOut, .run 0] ++ last

/-- If the application writes first a bit stays set without an entry; if last, an entry is lost. -/
theorem mask_race_breaks_delivery :
    (let w := (maskRace [.run 1, .run 0]).foldl (step smallQueues) start
     .epollIn ∈ w.events 5 ∧ w.waiting.countP (isFor 5 .epollIn) = 0) ∧
      (let w := (maskRace [.run 0, .run 1]).foldl (step smallQueues) start
       .epollOut ∉ w.events 5 ∧ w.waiting.countP (isFor 5 .epollOut) = 1) := by
  decide +kernel

end EpollWorld

end StackBench.Mtcp

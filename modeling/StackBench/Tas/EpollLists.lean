import StackBench.Lib.Doubly

/-!
# The lists behind epoll in the TAS sockets library

`epoll.c`: a registration (`struct epoll_socket`) is linked into a list of its
socket and into the active or the inactive list of its epoll. Pointers are
numbers, `0` is `NULL`.
-/

namespace StackBench.Tas.Sockets

open Function

structure EpollSocket where
  ep : ℕ
  s : ℕ
  data : UInt64
  mask : UInt32
  active : Bool
  epNext : ℕ
  epPrev : ℕ
  soNext : ℕ
  soPrev : ℕ

/-- What a registration is for. -/
structure Entry where
  ep : ℕ
  s : ℕ
  data : UInt64
  mask : UInt32

/-- A registration without its place in the lists. -/
def EpollSocket.entry (x : EpollSocket) : Entry := ⟨x.ep, x.s, x.data, x.mask⟩

/-- A registration without its links. -/
def EpollSocket.core (x : EpollSocket) : Entry × Bool := (x.entry, x.active)

open EpollSocket (core epNext epPrev soNext soPrev)

/-- `struct epoll`. `num_active` cannot wrap, since a socket has one registration
at most with an epoll. -/
structure Epoll where
  inactive : ℕ
  activeFirst : ℕ
  activeLast : ℕ
  numActive : ℕ
  numTas : UInt32

/-- The fields of `struct socket` that belong to epoll. -/
structure Sock where
  epEvents : UInt32
  eps : ℕ

/-- An entry of the array that `ep_poll_tas` fills, with its registration. -/
structure Report where
  ep : ℕ
  es : ℕ
  events : UInt32
  data : UInt64
deriving DecidableEq

/-- The memory of the library, the registrations, the entries reported, and a failed `assert`. -/
structure World where
  es : ℕ → EpollSocket
  epolls : ℕ → Epoll
  socks : ℕ → Sock
  live : List ℕ
  log : List Report
  failed : Bool

namespace World

variable (w : World) (r : ℕ)

def setEs (x : EpollSocket) : World :=
  { w with es := update w.es r x }

def setEpoll (e : ℕ) (x : Epoll) : World :=
  { w with epolls := update w.epolls e x }

def setSock (s : ℕ) (x : Sock) : World :=
  { w with socks := update w.socks s x }

def setEpNext (r v : ℕ) : World := w.setEs r { w.es r with epNext := v }

def setEpPrev (r v : ℕ) : World := w.setEs r { w.es r with epPrev := v }

def setSoNext (r v : ℕ) : World := w.setEs r { w.es r with soNext := v }

def setSoPrev (r v : ℕ) : World := w.setEs r { w.es r with soPrev := v }

def setActive (b : Bool) : World := w.setEs r { w.es r with active := b }

def setInactive (e v : ℕ) : World := w.setEpoll e { w.epolls e with inactive := v }

def setFirst (e v : ℕ) : World := w.setEpoll e { w.epolls e with activeFirst := v }

def setLast (e v : ℕ) : World := w.setEpoll e { w.epolls e with activeLast := v }

def setCount (e n : ℕ) : World := w.setEpoll e { w.epolls e with numActive := n }

def setEps (s v : ℕ) : World := w.setSock s { w.socks s with eps := v }

def assert (c : Bool) : World := { w with failed := w.failed || !c }

def esRemoveInactive : World :=
  let es := w.es r
  let w := w.assert !es.active
  let w := if es.epPrev ≠ 0 then w.setEpNext es.epPrev es.epNext else w.setInactive es.ep es.epNext
  if es.epNext ≠ 0 then w.setEpPrev es.epNext es.epPrev else w

def esAddInactive : World :=
  let ep := (w.es r).ep
  let first := (w.epolls ep).inactive
  let w := (w.setEpPrev r 0).setEpNext r first
  let w := if first ≠ 0 then w.setEpPrev first r else w
  w.setInactive ep r

def esRemoveActive : World :=
  let es := w.es r
  let n := (w.epolls es.ep).numActive
  let w := w.assert (es.active && decide (n > 0))
  let w := if es.epPrev ≠ 0 then w.setEpNext es.epPrev es.epNext else w.setFirst es.ep es.epNext
  let w := if es.epNext ≠ 0 then w.setEpPrev es.epNext es.epPrev else w.setLast es.ep es.epPrev
  w.setCount es.ep (n - 1)

def esAddActive : World :=
  let ep := (w.es r).ep
  let last := (w.epolls ep).activeLast
  let n := (w.epolls ep).numActive
  let w := (w.setEpPrev r last).setEpNext r 0
  let w := if last = 0 then w.setFirst ep r else w.setEpNext last r
  (w.setLast ep r).setCount ep (n + 1)

def esActivate : World :=
  if (w.es r).active then w else ((w.esRemoveInactive r).setActive r true).esAddActive r

def esDeactivate : World :=
  if (w.es r).active then ((w.esRemoveActive r).setActive r false).esAddInactive r else w

def esActivePushback : World :=
  ((w.assert (w.es r).active).esRemoveActive r).esAddActive r

def esRemoveEp : World :=
  if (w.es r).active then w.esRemoveActive r else w.esRemoveInactive r

def esRemoveSock : World :=
  let es := w.es r
  let w := if es.soPrev = 0 then w.setEps es.s es.soNext else w.setSoNext es.soPrev es.soNext
  if es.soNext ≠ 0 then w.setSoPrev es.soNext es.soPrev else w

def esAddSock : World :=
  let s := (w.es r).s
  let first := (w.socks s).eps
  let w := (w.setSoPrev r 0).setSoNext r first
  let w := if first ≠ 0 then w.setSoPrev first r else w
  w.setEps s r

def esFree : World :=
  let w := (w.esRemoveSock r).esRemoveEp r
  { w with live := w.live.erase r }

def epollErr : UInt32 := 0x8

def epollEt : UInt32 := 0x80000000

/-- `EPOLLIN | EPOLLOUT | EPOLLERR | EPOLLHUP | EPOLLRDHUP`. -/
def supportedEvents : UInt32 := 0x201D

/-- The operations of `tas_epoll_ctl`; every other number is unknown. -/
inductive CtlOp where
  | add
  | mod
  | del
  | unknown
deriving DecidableEq

/-- The values of `errno` set by `tas_epoll_ctl`. -/
inductive Errno where
  | einval
  | eexist
  | enomem
  | enoent
deriving DecidableEq

/-- The socket has an event pending that the registration asks for. -/
def ready : Bool := (w.socks (w.es r).s).epEvents &&& (w.es r).mask != 0

/-- The search of `tas_epoll_ctl` for a registration; `some 0` if there is none. -/
def findEs (s e : ℕ) : Option ℕ :=
  Linked.seek (fun r => decide ((w.es r).ep ≠ e)) (fun r => (w.es r).soNext) 0
    (w.live.length + 1) (w.socks s).eps

def addTas (e : ℕ) (d : UInt32) : World :=
  w.setEpoll e { w.epolls e with numTas := (w.epolls e).numTas + d }

/-- `EPOLL_CTL_ADD` behind its checks, with the address that `calloc` returned. -/
def ctlAdd (e s a : ℕ) (events : UInt32) (data : UInt64) : World :=
  let w := { w with live := a :: w.live }
  let w := w.setEs a ⟨e, s, data, events ||| epollErr, false, 0, 0, 0, 0⟩
  let w := (w.esAddSock a).esAddInactive a
  if w.ready a then w.esActivate a else w

/-- `EPOLL_CTL_MOD` behind its checks. -/
def ctlMod (events : UInt32) : World :=
  let w := w.setEs r { w.es r with mask := events ||| epollErr }
  if w.ready r then w.esActivate r else w

/-- `tas_epoll_ctl` for a socket of TAS; `alloc` is what `calloc` returns. -/
def tasEpollCtl (e : ℕ) (op : CtlOp) (s : ℕ) (events : UInt32) (data : UInt64)
    (alloc : Option ℕ) : World × Option Errno :=
  match w.findEs s e with
  | none => ({ w with failed := true }, none)
  | some es =>
    let events := events &&& ~~~epollEt
    if (op = .add ∨ op = .mod) ∧ events &&& ~~~supportedEvents ≠ 0 then (w, some .einval)
    else
      match op with
      | .add =>
        let w := w.addTas e 1
        if es ≠ 0 then (w, some .eexist)
        else
          match alloc with
          | none => (w, some .enomem)
          | some a => (w.ctlAdd e s a events data, none)
      | .mod => if es = 0 then (w, some .enoent) else (w.ctlMod es events, none)
      | .del =>
        let w := w.addTas e (-1)
        if es = 0 then (w, some .enoent) else (w.esFree es, none)
      | .unknown => (w, some .einval)

/-- The loop of `flextcp_epoll_set` over the registrations from `r` on. -/
def setLoop (newevs : UInt32) : ℕ → ℕ → World → World
  | 0, _, w => { w with failed := true }
  | fuel + 1, r, w =>
    if r = 0 then w
    else
      let w := if newevs &&& (w.es r).mask = 0 then w else w.esActivate r
      setLoop newevs fuel (w.es r).soNext w

def epollSet (s : ℕ) (evts : UInt32) : World :=
  let newevs := ~~~(w.socks s).epEvents &&& evts
  if newevs = 0 then w
  else
    let w := w.setSock s { w.socks s with epEvents := (w.socks s).epEvents ||| evts }
    setLoop newevs (w.live.length + 1) (w.socks s).eps w

def epollClear (s : ℕ) (evts : UInt32) : World :=
  w.setSock s { w.socks s with epEvents := (w.socks s).epEvents &&& ~~~evts }

/-- Free the registrations at the head of a list until there is none. -/
def drain (head : World → ℕ) : ℕ → World → World
  | 0, w => { w with failed := true }
  | fuel + 1, w => if head w = 0 then w else drain head fuel (w.esFree (head w))

def sockclose (s : ℕ) : World := drain (fun w => (w.socks s).eps) (w.live.length + 1) w

def epollDestroy (e : ℕ) : World :=
  let w := drain (fun w => (w.epolls e).activeFirst) (w.live.length + 1) w
  drain (fun w => (w.epolls e).inactive) (w.live.length + 1) w

/-- The loop of `ep_poll_tas`, with the iterations and the entries of the array that
are left. -/
def pollLoop (e : ℕ) : ℕ → ℕ → World → World
  | 0, _, w => w
  | _ + 1, 0, w => w
  | k + 1, room + 1, w =>
    let r := (w.epolls e).activeFirst
    if r = 0 then w
    else if w.ready r then
      let report := ⟨e, r, (w.socks (w.es r).s).epEvents &&& (w.es r).mask, (w.es r).data⟩
      pollLoop e k room ({ w with log := w.log ++ [report] }.esActivePushback r)
    else pollLoop e k (room + 1) (w.esDeactivate r)

/-- `ep_poll_tas`. Polling the contexts comes first, and sets events of sockets. -/
def epPollTas (e : ℕ) (sets : List (ℕ × UInt32)) (maxevents : ℕ) : World :=
  let w := sets.foldl (fun w x => w.epollSet x.1 x.2) w
  pollLoop e (w.epolls e).numActive maxevents w

/-- The links of the lists of the epolls. -/
def epLinks : Doubly.Links ℕ := ⟨fun r => (w.es r).epNext, fun r => (w.es r).epPrev⟩

/-- The links of the lists of the sockets. -/
def soLinks : Doubly.Links ℕ := ⟨fun r => (w.es r).soNext, fun r => (w.es r).soPrev⟩

/-- The first cell of the active (`true`) or inactive list of an epoll. -/
def epHead : ℕ × Bool → ℕ := fun k =>
  if k.2 then (w.epolls k.1).activeFirst else (w.epolls k.1).inactive

/-- The first cell of the list of a socket. -/
def soHead : ℕ → ℕ := fun s => (w.socks s).eps

section Setters

variable (r e s v : ℕ)

variable {x : EpollSocket} {β : Type}

theorem setEs_same (f : EpollSocket → β) (h : f x = f (w.es r)) (j : ℕ) :
    f ((w.setEs r x).es j) = f (w.es j) :=
  Linked.apply_update_same f h j

theorem setEs_field (f : EpollSocket → ℕ) :
    (fun j => f ((w.setEs r x).es j)) = update (fun j => f (w.es j)) r (f x) :=
  comp_update f w.es r x

theorem setEpoll_same {x : Epoll} (f : Epoll → β) (h : f x = f (w.epolls e)) (j : ℕ) :
    f ((w.setEpoll e x).epolls j) = f (w.epolls j) :=
  Linked.apply_update_same f h j

theorem epLinks_setEs (hnext : x.epNext = (w.es r).epNext)
    (hprev : x.epPrev = (w.es r).epPrev) : (w.setEs r x).epLinks = w.epLinks := by
  rw [epLinks, funext (setEs_same w r epNext hnext),
    funext (setEs_same w r epPrev hprev)]
  rfl

theorem soLinks_setEs (hnext : x.soNext = (w.es r).soNext)
    (hprev : x.soPrev = (w.es r).soPrev) : (w.setEs r x).soLinks = w.soLinks := by
  rw [soLinks, funext (setEs_same w r soNext hnext),
    funext (setEs_same w r soPrev hprev)]
  rfl

@[simp]
theorem soLinks_setSoNext :
    (w.setSoNext r v).soLinks = ⟨update w.soLinks.next r v, w.soLinks.prev⟩ := by
  rw [soLinks, setSoNext, setEs_field w r soNext,
    funext (setEs_same w r soPrev (by rfl))]
  rfl

@[simp]
theorem soLinks_setSoPrev :
    (w.setSoPrev r v).soLinks = ⟨w.soLinks.next, update w.soLinks.prev r v⟩ := by
  rw [soLinks, setSoPrev, setEs_field w r soPrev,
    funext (setEs_same w r soNext (by rfl))]
  rfl

theorem epHead_setInactive : (w.setInactive e v).epHead = update w.epHead (e, false) v := by
  funext k
  obtain ⟨j, b⟩ := k
  by_cases hj : j = e
  · subst hj
    cases b <;> simp [epHead, setInactive, setEpoll]
  · simp [epHead, setInactive, setEpoll, hj]

theorem epHead_setFirst : (w.setFirst e v).epHead = update w.epHead (e, true) v := by
  funext k
  obtain ⟨j, b⟩ := k
  by_cases hj : j = e
  · subst hj
    cases b <;> simp [epHead, setFirst, setEpoll]
  · simp [epHead, setFirst, setEpoll, hj]

theorem epHead_setEpoll {x : Epoll} (hinactive : x.inactive = (w.epolls e).inactive)
    (hfirst : x.activeFirst = (w.epolls e).activeFirst) : (w.setEpoll e x).epHead = w.epHead := by
  funext k
  rw [epHead, setEpoll_same w e Epoll.activeFirst hfirst,
    setEpoll_same w e Epoll.inactive hinactive]
  rfl

@[simp]
theorem soHead_setEps : (w.setEps s v).soHead = update w.soHead s v :=
  comp_update Sock.eps w.socks s _

end Setters

/-- Nothing but links, heads and counters changed. -/
structure Frame (w w' : World) : Prop where
  core : ∀ r, (w'.es r).core = (w.es r).core
  events : ∀ s, (w'.socks s).epEvents = (w.socks s).epEvents
  live : w'.live = w.live
  log : w'.log = w.log

/-- Nothing but the lists of the epolls changed. -/
structure EpFrame (w w' : World) : Prop extends Frame w w' where
  links : w'.soLinks = w.soLinks
  head : w'.soHead = w.soHead

/-- Nothing but the lists of the sockets changed. -/
structure SoFrame (w w' : World) : Prop extends Frame w w' where
  links : w'.epLinks = w.epLinks
  epolls : w'.epolls = w.epolls
  failed : w'.failed = w.failed

section Frame

variable {w w' w'' : World}

theorem Frame.trans (h : Frame w w') (h' : Frame w' w'') : Frame w w'' where
  core r := (h'.core r).trans (h.core r)
  events s := (h'.events s).trans (h.events s)
  live := h'.live.trans h.live
  log := h'.log.trans h.log

theorem EpFrame.refl (w : World) : EpFrame w w := ⟨⟨fun _ => rfl, fun _ => rfl, rfl, rfl⟩, rfl, rfl⟩

theorem EpFrame.trans (h : EpFrame w w') (h' : EpFrame w' w'') : EpFrame w w'' :=
  ⟨h.toFrame.trans h'.toFrame, h'.links.trans h.links, h'.head.trans h.head⟩

theorem SoFrame.refl (w : World) : SoFrame w w :=
  ⟨⟨fun _ => rfl, fun _ => rfl, rfl, rfl⟩, rfl, rfl, rfl⟩

theorem SoFrame.trans (h : SoFrame w w') (h' : SoFrame w' w'') : SoFrame w w'' :=
  ⟨h.toFrame.trans h'.toFrame, h'.links.trans h.links, h'.epolls.trans h.epolls,
    h'.failed.trans h.failed⟩

theorem epFrame_setEs (w : World) (r : ℕ) {x : EpollSocket} (hcore : x.core = (w.es r).core)
    (hnext : x.soNext = (w.es r).soNext) (hprev : x.soPrev = (w.es r).soPrev) :
    EpFrame w (w.setEs r x) :=
  ⟨⟨setEs_same w r core hcore, fun _ => rfl, rfl, rfl⟩,
    soLinks_setEs w r hnext hprev, rfl⟩

theorem soFrame_setEs (w : World) (r : ℕ) {x : EpollSocket} (hcore : x.core = (w.es r).core)
    (hnext : x.epNext = (w.es r).epNext) (hprev : x.epPrev = (w.es r).epPrev) :
    SoFrame w (w.setEs r x) :=
  ⟨⟨setEs_same w r core hcore, fun _ => rfl, rfl, rfl⟩,
    epLinks_setEs w r hnext hprev, rfl, rfl⟩

section

variable (h : EpFrame w w')
include h

theorem EpFrame.setEpNext (r v : ℕ) : EpFrame w (w'.setEpNext r v) :=
  h.trans (epFrame_setEs w' r rfl rfl rfl)

theorem EpFrame.setEpPrev (r v : ℕ) : EpFrame w (w'.setEpPrev r v) :=
  h.trans (epFrame_setEs w' r rfl rfl rfl)

theorem EpFrame.setEpoll (e : ℕ) (x : Epoll) : EpFrame w (w'.setEpoll e x) :=
  h.trans ⟨⟨fun _ => rfl, fun _ => rfl, rfl, rfl⟩, rfl, rfl⟩

theorem EpFrame.assert (c : Bool) : EpFrame w (w'.assert c) :=
  h.trans ⟨⟨fun _ => rfl, fun _ => rfl, rfl, rfl⟩, rfl, rfl⟩

end

theorem EpFrame.ite {c : Prop} [Decidable c] {w₁ w₂ : World} (h₁ : EpFrame w w₁)
    (h₂ : EpFrame w w₂) : EpFrame w (if c then w₁ else w₂) := by
  split
  · exact h₁
  · exact h₂

variable (w : World) (r : ℕ)

theorem esRemoveInactive_frame : EpFrame w (w.esRemoveInactive r) := by
  have hassert := (EpFrame.refl w).assert (!(w.es r).active)
  have hnext := EpFrame.ite (c := (w.es r).epPrev ≠ 0)
    (hassert.setEpNext (w.es r).epPrev (w.es r).epNext)
    (hassert.setEpoll (w.es r).ep { w.epolls (w.es r).ep with inactive := (w.es r).epNext })
  exact EpFrame.ite (hnext.setEpPrev _ _) hnext

theorem esAddInactive_frame : EpFrame w (w.esAddInactive r) := by
  have hself := ((EpFrame.refl w).setEpPrev r 0).setEpNext r (w.epolls (w.es r).ep).inactive
  exact (EpFrame.ite (hself.setEpPrev _ r) hself).setEpoll _ _

theorem esRemoveActive_frame : EpFrame w (w.esRemoveActive r) := by
  have hassert := (EpFrame.refl w).assert
    ((w.es r).active && decide ((w.epolls (w.es r).ep).numActive > 0))
  have hnext := EpFrame.ite (c := (w.es r).epPrev ≠ 0)
    (hassert.setEpNext (w.es r).epPrev (w.es r).epNext)
    (hassert.setEpoll (w.es r).ep { w.epolls (w.es r).ep with activeFirst := (w.es r).epNext })
  exact (EpFrame.ite (hnext.setEpPrev _ _) (hnext.setEpoll _ _)).setEpoll _ _

theorem esAddActive_frame : EpFrame w (w.esAddActive r) := by
  have hself := ((EpFrame.refl w).setEpPrev r (w.epolls (w.es r).ep).activeLast).setEpNext r 0
  exact ((EpFrame.ite (hself.setEpoll _ _) (hself.setEpNext _ r)).setEpoll _ _).setEpoll _ _

end Frame

/-- The lists of the epolls as they are in memory. -/
structure EpView where
  links : Doubly.Links ℕ
  head : ℕ × Bool → ℕ
  last : ℕ → ℕ
  count : ℕ → ℕ
  failed : Bool

def epView (w : World) : EpView where
  links := w.epLinks
  head := w.epHead
  last := fun e => (w.epolls e).activeLast
  count := fun e => (w.epolls e).numActive
  failed := w.failed

section Linking

variable (r e v : ℕ)

@[simp]
theorem epView_setEpNext : (w.setEpNext r v).epView = { w.epView with
      links := ⟨update w.epView.links.next r v, w.epView.links.prev⟩ } := by
  rw [epView, epLinks, setEpNext, setEs_field w r epNext,
    funext (setEs_same w r epPrev (by rfl))]
  rfl

@[simp]
theorem epView_setEpPrev : (w.setEpPrev r v).epView = { w.epView with
      links := ⟨w.epView.links.next, update w.epView.links.prev r v⟩ } := by
  rw [epView, epLinks, setEpPrev, setEs_field w r epPrev,
    funext (setEs_same w r epNext (by rfl))]
  rfl

@[simp]
theorem epView_setInactive : (w.setInactive e v).epView =
      { w.epView with head := update w.epView.head (e, false) v } := by
  rw [epView, epHead_setInactive, setInactive, funext (setEpoll_same w e Epoll.activeLast (by rfl)),
    funext (setEpoll_same w e Epoll.numActive (by rfl))]
  rfl

@[simp]
theorem epView_setFirst : (w.setFirst e v).epView =
      { w.epView with head := update w.epView.head (e, true) v } := by
  rw [epView, epHead_setFirst, setFirst, funext (setEpoll_same w e Epoll.activeLast (by rfl)),
    funext (setEpoll_same w e Epoll.numActive (by rfl))]
  rfl

theorem setEpoll_field {x : Epoll} (f : Epoll → ℕ) : (fun j => f ((w.setEpoll e x).epolls j)) =
      update (fun j => f (w.epolls j)) e (f x) :=
  comp_update f w.epolls e x

@[simp]
theorem epView_setLast :
    (w.setLast e v).epView = { w.epView with last := update w.epView.last e v } := by
  rw [epView, setLast, epHead_setEpoll w e (by rfl) (by rfl), setEpoll_field w e Epoll.activeLast,
    funext (setEpoll_same w e Epoll.numActive (by rfl))]
  rfl

@[simp]
theorem epView_setCount :
    (w.setCount e v).epView = { w.epView with count := update w.epView.count e v } := by
  rw [epView, setCount, epHead_setEpoll w e (by rfl) (by rfl), setEpoll_field w e Epoll.numActive,
    funext (setEpoll_same w e Epoll.activeLast (by rfl))]
  rfl

@[simp]
theorem epView_assert (c : Bool) :
    (w.assert c).epView = { w.epView with failed := w.failed || !c } := rfl

theorem esRemoveInactive_view : (w.esRemoveInactive r).epView = { w.epView with
      links := w.epView.links.unlink 0 r
      head := update w.epView.head ((w.es r).ep, false)
        (if w.epView.links.prev r = 0 then w.epView.links.next r
          else w.epView.head ((w.es r).ep, false))
      failed := w.failed || (w.es r).active } := by
  have hprev : w.epView.links.prev r = (w.es r).epPrev := rfl
  have hnext : w.epView.links.next r = (w.es r).epNext := rfl
  unfold esRemoveInactive Doubly.Links.unlink
  rw [hprev, hnext]
  by_cases hp : (w.es r).epPrev = 0 <;> by_cases hn : (w.es r).epNext = 0 <;> simp [hp, hn]

theorem esAddInactive_view : (w.esAddInactive r).epView = { w.epView with
      links := w.epView.links.pushFront 0 (w.epView.head ((w.es r).ep, false)) r
      head := update w.epView.head ((w.es r).ep, false) r } := by
  have hfirst : w.epView.head ((w.es r).ep, false) = (w.epolls (w.es r).ep).inactive := rfl
  unfold esAddInactive Doubly.Links.pushFront
  rw [hfirst]
  by_cases hf : (w.epolls (w.es r).ep).inactive = 0 <;> simp [hf]

theorem esRemoveActive_view : (w.esRemoveActive r).epView = { w.epView with
      links := w.epView.links.unlink 0 r
      head := update w.epView.head ((w.es r).ep, true)
        (if w.epView.links.prev r = 0 then w.epView.links.next r
          else w.epView.head ((w.es r).ep, true))
      last := update w.epView.last (w.es r).ep
        (if w.epView.links.next r = 0 then w.epView.links.prev r else w.epView.last (w.es r).ep)
      count := update w.epView.count (w.es r).ep (w.epView.count (w.es r).ep - 1)
      failed := w.failed || !((w.es r).active && decide (w.epView.count (w.es r).ep > 0)) } := by
  have hprev : w.epView.links.prev r = (w.es r).epPrev := rfl
  have hnext : w.epView.links.next r = (w.es r).epNext := rfl
  have hcount : w.epView.count (w.es r).ep = (w.epolls (w.es r).ep).numActive := rfl
  unfold esRemoveActive Doubly.Links.unlink
  rw [hprev, hnext, hcount]
  by_cases hp : (w.es r).epPrev = 0 <;> by_cases hn : (w.es r).epNext = 0 <;> simp [hp, hn]

theorem esAddActive_view : (w.esAddActive r).epView = { w.epView with
      links := w.epView.links.pushBack 0 (w.epView.last (w.es r).ep) r
      head := update w.epView.head ((w.es r).ep, true)
        (if w.epView.last (w.es r).ep = 0 then r else w.epView.head ((w.es r).ep, true))
      last := update w.epView.last (w.es r).ep r
      count := update w.epView.count (w.es r).ep (w.epView.count (w.es r).ep + 1) } := by
  have hlast : w.epView.last (w.es r).ep = (w.epolls (w.es r).ep).activeLast := rfl
  have hcount : w.epView.count (w.es r).ep = (w.epolls (w.es r).ep).numActive := rfl
  unfold esAddActive Doubly.Links.pushBack
  rw [hlast, hcount]
  by_cases hl : (w.epolls (w.es r).ep).activeLast = 0 <;> simp [hl]

end Linking

section SockLinking

variable (r : ℕ)

theorem SoFrame.ite {c : Prop} [Decidable c] {w w₁ w₂ : World} (h₁ : SoFrame w w₁)
    (h₂ : SoFrame w w₂) : SoFrame w (if c then w₁ else w₂) := by
  split
  · exact h₁
  · exact h₂

theorem SoFrame.setSoNext {w w' : World} (h : SoFrame w w') (r v : ℕ) :
    SoFrame w (w'.setSoNext r v) :=
  h.trans (soFrame_setEs w' r rfl rfl rfl)

theorem SoFrame.setSoPrev {w w' : World} (h : SoFrame w w') (r v : ℕ) :
    SoFrame w (w'.setSoPrev r v) :=
  h.trans (soFrame_setEs w' r rfl rfl rfl)

theorem SoFrame.setEps {w w' : World} (h : SoFrame w w') (s v : ℕ) : SoFrame w (w'.setEps s v) := by
  refine h.trans ⟨⟨fun _ => rfl, fun j => ?_, rfl, rfl⟩, rfl, rfl, rfl⟩
  by_cases hj : j = s
  · subst hj
    simp [World.setEps, setSock]
  · simp [World.setEps, setSock, hj]

theorem esRemoveSock_frame : SoFrame w (w.esRemoveSock r) := by
  have hnext := SoFrame.ite (c := (w.es r).soPrev = 0)
    ((SoFrame.refl w).setEps (w.es r).s (w.es r).soNext)
    ((SoFrame.refl w).setSoNext (w.es r).soPrev (w.es r).soNext)
  exact SoFrame.ite (hnext.setSoPrev _ _) hnext

theorem esAddSock_frame : SoFrame w (w.esAddSock r) := by
  have hself := ((SoFrame.refl w).setSoPrev r 0).setSoNext r (w.socks (w.es r).s).eps
  exact (SoFrame.ite (hself.setSoPrev _ r) hself).setEps _ _

@[simp]
theorem soLinks_setEps (s v : ℕ) : (w.setEps s v).soLinks = w.soLinks := rfl

@[simp]
theorem soHead_setSoNext (v : ℕ) : (w.setSoNext r v).soHead = w.soHead := rfl

@[simp]
theorem soHead_setSoPrev (v : ℕ) : (w.setSoPrev r v).soHead = w.soHead := rfl

theorem esRemoveSock_links : (w.esRemoveSock r).soLinks = w.soLinks.unlink 0 r ∧
      (w.esRemoveSock r).soHead = update w.soHead (w.es r).s
        (if w.soLinks.prev r = 0 then w.soLinks.next r else w.soHead (w.es r).s) := by
  have hprev : w.soLinks.prev r = (w.es r).soPrev := rfl
  have hnext : w.soLinks.next r = (w.es r).soNext := rfl
  unfold esRemoveSock Doubly.Links.unlink
  rw [hprev, hnext]
  by_cases hp : (w.es r).soPrev = 0 <;> by_cases hn : (w.es r).soNext = 0 <;> simp [hp, hn]

theorem esAddSock_links : (w.esAddSock r).soLinks = w.soLinks.pushFront 0 (w.soHead (w.es r).s) r ∧
      (w.esAddSock r).soHead = update w.soHead (w.es r).s r := by
  have hfirst : w.soHead (w.es r).s = (w.socks (w.es r).s).eps := rfl
  unfold esAddSock Doubly.Links.pushFront
  rw [hfirst]
  by_cases hf : (w.socks (w.es r).s).eps = 0 <;> simp [hf]

end SockLinking

/-- The active (`true`) and inactive lists of the epolls, and the lists of the sockets. -/
structure Lists where
  queue : ℕ × Bool → List ℕ
  regs : ℕ → List ℕ

/-- The lists of the epolls in memory are the lists `queue`. -/
structure EpShape (v : EpView) (queue : ℕ × Bool → List ℕ) : Prop where
  family : Doubly.Family v.links 0 v.head queue
  last : ∀ e, v.last e = (queue (e, true)).getLastD 0
  count : ∀ e, v.count e = (queue (e, true)).length

section Shape

variable {w} {r : ℕ} {queue : ℕ × Bool → List ℕ}

theorem update_inactive (queue : ℕ × Bool → List ℕ) (xs : List ℕ) (e j : ℕ) :
    update queue (j, false) xs (e, true) = queue (e, true) :=
  update_of_ne (by simp) _ _

theorem update_active_list {v : ℕ → ℕ} {f : List ℕ → ℕ} (h : ∀ e, v e = f (queue (e, true)))
    {x e : ℕ} {ys : List ℕ} (hx : x = f ys) (j : ℕ) :
    update v e x j = f (update queue (e, true) ys (j, true)) := by
  by_cases hj : j = e
  · subst hj
    rw [update_self, update_self, hx]
  · rw [update_of_ne hj, update_of_ne (by simp [hj]), h]

section

variable (h : EpShape w.epView queue)
include h

theorem EpShape.setInactive {links : Doubly.Links ℕ} {head : ℕ × Bool → ℕ} {failed : Bool} {e : ℕ}
    {xs : List ℕ} (hfamily : Doubly.Family links 0 head (update queue (e, false) xs)) :
    EpShape { w.epView with links, head, failed } (update queue (e, false) xs) where
  family := hfamily
  last j := (h.last j).trans (by rw [update_inactive])
  count j := (h.count j).trans (by rw [update_inactive])

theorem EpShape.removeInactive (hr : r ∈ queue ((w.es r).ep, false)) :
    EpShape (w.esRemoveInactive r).epView (update queue ((w.es r).ep, false)
      ((queue ((w.es r).ep, false)).erase r)) := by
  rw [esRemoveInactive_view]
  exact h.setInactive (h.family.unlink hr)

theorem EpShape.addInactive (hr : ∀ k, r ∉ queue k) (hne : r ≠ 0) :
    EpShape (w.esAddInactive r).epView (update queue ((w.es r).ep, false)
      (r :: queue ((w.es r).ep, false))) := by
  rw [esAddInactive_view]
  exact h.setInactive (h.family.pushFront hr hne _)

theorem EpShape.removeActive (hr : r ∈ queue ((w.es r).ep, true)) :
    EpShape (w.esRemoveActive r).epView (update queue ((w.es r).ep, true)
      ((queue ((w.es r).ep, true)).erase r)) := by
  rw [esRemoveActive_view]
  refine ⟨h.family.unlink hr, update_active_list (f := fun xs => xs.getLastD 0) h.last ?_,
    update_active_list (f := List.length) h.count ?_⟩
  · rw [h.family.getLastD_erase hr, h.last]
  · rw [List.length_erase_of_mem hr, h.count]

theorem EpShape.addActive (hr : ∀ k, r ∉ queue k) (hne : r ≠ 0) :
    EpShape (w.esAddActive r).epView (update queue ((w.es r).ep, true)
      (queue ((w.es r).ep, true) ++ [r])) := by
  rw [esAddActive_view]
  refine ⟨h.family.pushBack hr hne (h.last _),
    update_active_list (f := fun xs => xs.getLastD 0) h.last ?_,
    update_active_list (f := List.length) h.count ?_⟩
  · rw [List.getLastD_concat]
  · rw [List.length_append, h.count]
    rfl

end

end Shape

end World

end StackBench.Tas.Sockets

import StackBench.Lib.RoundRobin
import StackBench.Tas.EpollLists

/-!
# Registrations in the lists of epoll

Memory is related to plain lists, the active and the inactive one of each epoll
and that of each socket, through every call of `epoll.c`.
-/

namespace StackBench.Tas.Sockets

open Function List

theorem EpollSocket.of_core {x y : EpollSocket} (h : x.core = y.core) :
    x.ep = y.ep ∧ x.s = y.s ∧ x.data = y.data ∧ x.mask = y.mask ∧ x.active = y.active := by
  simpa [EpollSocket.core, EpollSocket.entry, and_assoc] using h

namespace World

open EpollSocket (core entry of_core)

/-- Every registration is in the list of its socket and in the one of its epoll that its flag says.
-/
structure Rep (w : World) (l : Lists) : Prop where
  ep : EpShape w.epView l.queue
  so : Doubly.Family w.soLinks 0 w.soHead l.regs
  mem_queue : ∀ {r e b}, r ∈ l.queue (e, b) ↔ r ∈ w.live ∧ (w.es r).ep = e ∧ (w.es r).active = b
  mem_regs : ∀ {r s}, r ∈ l.regs s ↔ r ∈ w.live ∧ (w.es r).s = s
  nodup : w.live.Nodup
  running : w.failed = false

/-- The registration `r` was moved to the active (`b = true`) or the inactive list. -/
structure Moved (w w' : World) (r : ℕ) (b : Bool) : Prop where
  entry : ∀ x, (w'.es x).entry = (w.es x).entry
  active : ∀ x, (w'.es x).active = if x = r then b else (w.es x).active
  events : ∀ s, (w'.socks s).epEvents = (w.socks s).epEvents
  live : w'.live = w.live
  log : w'.log = w.log
  links : w'.soLinks = w.soLinks
  head : w'.soHead = w.soHead

/-- The lists after the registration `r` went from the list `k₁` to the list `k₂`,
which then is `ys`. -/
def requeue (queue : ℕ × Bool → List ℕ) (k₁ k₂ : ℕ × Bool) (r : ℕ) (ys : List ℕ) :
    ℕ × Bool → List ℕ :=
  update (update queue k₁ ((queue k₁).erase r)) k₂ ys

variable {queue : ℕ × Bool → List ℕ} {κ : Type}

section Move

variable {w w' : World} {l : Lists} {r e : ℕ} {b : Bool}

theorem Rep.ne_zero (h : Rep w l) (hr : r ∈ w.live) : r ≠ 0 :=
  (h.so.segment (w.es r).s).ne_nil (h.mem_regs.mpr ⟨hr, rfl⟩)

theorem mem_update_erase [DecidableEq κ] {xs : κ → List ℕ} {j k : κ} {x : ℕ} (hnodup : (xs k).Nodup)
    (honly : ∀ j, r ∈ xs j → j = k) :
    x ∈ update xs k ((xs k).erase r) j ↔ x ≠ r ∧ x ∈ xs j := by
  by_cases hj : j = k
  · subst hj
    rw [update_self, hnodup.mem_erase_iff]
  rw [update_of_ne hj]
  refine ⟨fun hx => ⟨?_, hx⟩, And.right⟩
  rintro rfl
  exact hj (honly j hx)

theorem mem_requeue {k₁ k₂ k : ℕ × Bool} {ys : List ℕ} {x : ℕ} (hnodup : (queue k₁).Nodup)
    (honly : ∀ k, r ∈ queue k → k = k₁)
    (hys : ∀ x, x ∈ ys ↔ x = r ∨ x ∈ update queue k₁ ((queue k₁).erase r) k₂) :
    x ∈ requeue queue k₁ k₂ r ys k ↔ if x = r then k = k₂ else x ∈ queue k := by
  have hout : ∀ k, x ∈ update queue k₁ ((queue k₁).erase r) k ↔ x ≠ r ∧ x ∈ queue k :=
    fun k => mem_update_erase hnodup honly
  unfold requeue
  by_cases hk : k = k₂
  · subst hk
    rw [update_self, hys, hout]
    split
    · next hx => simp [hx]
    · next hx => simp [hx]
  rw [update_of_ne hk, hout]
  split
  · next hx => simp [hx, hk]
  · next hx => simp [hx]

theorem Rep.move {k₁ : ℕ × Bool} {ys : List ℕ} (h : Rep w l) (hm : Moved w w' r b)
    (hr : r ∈ l.queue k₁) (hys : ∀ x, x ∈ ys ↔
      x = r ∨ x ∈ update l.queue k₁ ((l.queue k₁).erase r) ((w.es r).ep, b))
    (hshape : EpShape w'.epView (requeue l.queue k₁ ((w.es r).ep, b) r ys))
    (hrun : w'.failed = false) :
    Rep w' { l with queue := requeue l.queue k₁ ((w.es r).ep, b) r ys } := by
  have hlive : r ∈ w.live := (h.mem_queue.mp hr).1
  have hentry : ∀ x, (w'.es x).ep = (w.es x).ep ∧ (w'.es x).s = (w.es x).s := fun x =>
    ⟨congrArg Entry.ep (hm.entry x), congrArg Entry.s (hm.entry x)⟩
  refine ⟨hshape, ?_, fun {x e c} => ?_, fun {x s} => ?_, hm.live ▸ h.nodup, hrun⟩
  · rw [hm.links, hm.head]
    exact h.so
  · rw [mem_requeue (h.ep.family.nodup k₁) (fun k hk => h.ep.family.apart hk hr) hys, hm.live,
      (hentry x).1, hm.active]
    by_cases hx : x = r
    · subst hx
      simp only [if_true, Prod.mk.injEq]
      exact ⟨fun ⟨he, hc⟩ => ⟨hlive, he.symm, hc.symm⟩, fun ⟨_, he, hc⟩ => ⟨he.symm, hc.symm⟩⟩
    · simp only [hx, if_false]
      exact h.mem_queue
  · rw [hm.live, (hentry x).2]
    exact h.mem_regs

theorem EpFrame.entry (h : EpFrame w w') (x : ℕ) : (w'.es x).entry = (w.es x).entry :=
  congrArg Prod.fst (h.core x)

theorem EpFrame.active (h : EpFrame w w') (x : ℕ) : (w'.es x).active = (w.es x).active :=
  congrArg Prod.snd (h.core x)

theorem EpFrame.moved (h : EpFrame w w') (hb : (w.es r).active = b) : Moved w w' r b := by
  refine { h with entry := h.entry, active := fun x => ?_ }
  rw [h.active]
  split
  · next hx => rw [hx, hb]
  · rfl

theorem setActive_entry (w : World) (r : ℕ) (b : Bool) (x : ℕ) :
    ((w.setActive r b).es x).entry = (w.es x).entry :=
  setEs_same w r entry (by rfl) x

theorem Moved.of_frames {w₁ : World} (h₁ : EpFrame w w₁) (h₂ : EpFrame (w₁.setActive r b) w') :
    Moved w w' r b := by
  refine ⟨fun x => ?_, fun x => ?_, fun s => ?_, h₂.live.trans h₁.live, h₂.log.trans h₁.log, ?_,
    h₂.head.trans h₁.head⟩
  · rw [h₂.entry, ← h₁.entry]
    exact setActive_entry w₁ r b x
  · rw [h₂.active, ← h₁.active]
    by_cases hx : x = r
    · subst hx
      simp [setActive, setEs]
    · simp [setActive, setEs, hx]
  · rw [h₂.events, ← h₁.events]
    rfl
  · rw [h₂.links, ← h₁.links]
    exact soLinks_setEs w₁ r (by rfl) (by rfl)

@[simp]
theorem epView_setActive (w : World) (r : ℕ) (b : Bool) : (w.setActive r b).epView = w.epView := by
  rw [epView, setActive, epLinks_setEs w r (by rfl) (by rfl)]
  rfl

theorem Rep.notMem_erase {k₁ : ℕ × Bool} (h : Rep w l) (hr : r ∈ l.queue k₁) (k : ℕ × Bool) :
    r ∉ update l.queue k₁ ((l.queue k₁).erase r) k := by
  by_cases hk : k = k₁
  · subst hk
    rw [update_self]
    exact (h.ep.family.nodup k).not_mem_erase
  · rw [update_of_ne hk]
    exact fun hmem => hk (h.ep.family.apart hmem hr)

end Move

/-- The lists after `es_activate` of an inactive registration. -/
def Lists.activate (l : Lists) (e r : ℕ) : Lists :=
  { l with queue := requeue l.queue (e, false) (e, true) r (l.queue (e, true) ++ [r]) }

/-- The lists after `es_deactivate` of an active registration. -/
def Lists.deactivate (l : Lists) (e r : ℕ) : Lists :=
  { l with queue := requeue l.queue (e, true) (e, false) r (r :: l.queue (e, false)) }

/-- The lists after `es_active_pushback`. -/
def Lists.pushback (l : Lists) (e r : ℕ) : Lists :=
  { l with queue := requeue l.queue (e, true) (e, true) r ((l.queue (e, true)).erase r ++ [r]) }

section Moves

variable {w : World} {l : Lists} {r : ℕ} {b : Bool}

theorem update_active (queue : ℕ × Bool → List ℕ) (xs : List ℕ) (e j : ℕ) :
    update queue (j, true) xs (e, false) = queue (e, false) :=
  update_of_ne (by simp) _ _

theorem esRemoveEp_frame (w : World) (r : ℕ) : EpFrame w (w.esRemoveEp r) := by
  unfold esRemoveEp
  split
  · exact esRemoveActive_frame w r
  · exact esRemoveInactive_frame w r

theorem EpShape.removeEp (h : EpShape w.epView queue)
    (hr : r ∈ queue ((w.es r).ep, (w.es r).active)) (hrun : w.failed = false) :
    EpShape (w.esRemoveEp r).epView
        (update queue ((w.es r).ep, (w.es r).active)
          ((queue ((w.es r).ep, (w.es r).active)).erase r)) ∧
      (w.esRemoveEp r).failed = false := by
  unfold esRemoveEp
  cases hb : (w.es r).active with
  | false =>
    rw [hb] at hr
    refine ⟨h.removeInactive hr, (congrArg EpView.failed (esRemoveInactive_view w r)).trans ?_⟩
    simp [hrun, hb]
  | true =>
    rw [hb] at hr
    refine ⟨h.removeActive hr, (congrArg EpView.failed (esRemoveActive_view w r)).trans ?_⟩
    have hcount : 0 < w.epView.count (w.es r).ep := h.count _ ▸ length_pos_of_mem hr
    simp [hrun, hb, hcount]

theorem Rep.relist {w₁ w' : World} {place : List ℕ → List ℕ} {c : Bool} (h : Rep w l)
    (hr : r ∈ w.live) (hc : (w.es r).active = c)
    (hview : w₁.epView = (w.esRemoveEp r).epView) (hframe : EpFrame w₁ w')
    (hmoved : Moved w w' r b) (hplace : ∀ xs x, x ∈ place xs ↔ x = r ∨ x ∈ xs)
    (hfailed : w'.epView.failed = w₁.epView.failed)
    (hadd : ∀ queue, EpShape w₁.epView queue → (∀ k, r ∉ queue k) → r ≠ 0 → EpShape w'.epView
      (update queue ((w₁.es r).ep, b) (place (queue ((w₁.es r).ep, b))))) :
    Rep w' { l with
      queue := requeue l.queue ((w.es r).ep, c) ((w.es r).ep, b) r (place (update l.queue
        ((w.es r).ep, c) ((l.queue ((w.es r).ep, c)).erase r) ((w.es r).ep, b))) } := by
  subst hc
  have hmem : r ∈ l.queue ((w.es r).ep, (w.es r).active) := h.mem_queue.mpr ⟨hr, rfl, rfl⟩
  have hep : (w₁.es r).ep = (w.es r).ep :=
    congrArg Entry.ep ((hframe.entry r).symm.trans (hmoved.entry r))
  obtain ⟨hshape, hrun⟩ := h.ep.removeEp hmem h.running
  rw [← hview] at hshape
  have hnew := hadd _ hshape (h.notMem_erase hmem) (h.ne_zero hr)
  rw [hep] at hnew
  refine h.move hmoved hmem (hplace _) hnew (hfailed.trans ?_)
  rw [hview]
  exact hrun

theorem mem_concat_iff (r : ℕ) (xs : List ℕ) (x : ℕ) : x ∈ xs ++ [r] ↔ x = r ∨ x ∈ xs := by
  rw [mem_append, mem_singleton, or_comm]

variable (h : Rep w l) (hr : r ∈ w.live)
include h hr

theorem Rep.esActivate_inactive (hb : (w.es r).active = false) :
    Rep (w.esActivate r) (l.activate (w.es r).ep r) ∧ Moved w (w.esActivate r) r true := by
  have hact : w.esActivate r = ((w.esRemoveEp r).setActive r true).esAddActive r := by
    rw [esActivate, esRemoveEp, hb]
    rfl
  rw [hact]
  have hmoved := Moved.of_frames (esRemoveEp_frame w r)
    (esAddActive_frame ((w.esRemoveEp r).setActive r true) r)
  have hrep := h.relist hr hb (epView_setActive _ r true) (esAddActive_frame _ r) hmoved
    (mem_concat_iff r) (by rw [esAddActive_view]) fun _ hs => hs.addActive
  rw [update_inactive] at hrep
  exact ⟨hrep, hmoved⟩

theorem Rep.esDeactivate_active (hb : (w.es r).active = true) :
    Rep (w.esDeactivate r) (l.deactivate (w.es r).ep r) ∧ Moved w (w.esDeactivate r) r false := by
  have hact : w.esDeactivate r = ((w.esRemoveEp r).setActive r false).esAddInactive r := by
    rw [esDeactivate, esRemoveEp, hb]
    rfl
  rw [hact]
  have hmoved := Moved.of_frames (esRemoveEp_frame w r)
    (esAddInactive_frame ((w.esRemoveEp r).setActive r false) r)
  have hrep := h.relist hr hb (epView_setActive _ r false) (esAddInactive_frame _ r) hmoved
    (fun _ _ => mem_cons) (by rw [esAddInactive_view]) fun _ hs => hs.addInactive
  rw [update_active] at hrep
  exact ⟨hrep, hmoved⟩

theorem Rep.esActivePushback (hb : (w.es r).active = true) :
    Rep (w.esActivePushback r) (l.pushback (w.es r).ep r) ∧
      Moved w (w.esActivePushback r) r true := by
  have hact : w.esActivePushback r = (w.esRemoveEp r).esAddActive r := by
    rw [World.esActivePushback, World.assert, esRemoveEp, hb]
    simp
  rw [hact]
  have hframe := esAddActive_frame (w.esRemoveEp r) r
  have hmoved := ((esRemoveEp_frame w r).trans hframe).moved hb
  have hrep := h.relist hr hb rfl hframe hmoved (mem_concat_iff r) (by rw [esAddActive_view])
    fun _ hs => hs.addActive
  rw [update_self] at hrep
  exact ⟨hrep, hmoved⟩

end Moves

/-- The registration `r` was freed and nothing else changed but links. -/
structure Freed (w w' : World) (r : ℕ) : Prop where
  core : ∀ x, (w'.es x).core = (w.es x).core
  events : ∀ s, (w'.socks s).epEvents = (w.socks s).epEvents
  live : w'.live = w.live.erase r
  log : w'.log = w.log

/-- The lists without the registration `r` of the socket `s` in the list `k`. -/
def Lists.drop (l : Lists) (k : ℕ × Bool) (s r : ℕ) : Lists where
  queue := update l.queue k ((l.queue k).erase r)
  regs := update l.regs s ((l.regs s).erase r)

/-- The lists with a new registration `a` of the socket `s` with the epoll `e`. -/
def Lists.register (l : Lists) (e s a : ℕ) : Lists where
  queue := update l.queue (e, false) (a :: l.queue (e, false))
  regs := update l.regs s (a :: l.regs s)

section FreeAdd

variable {w w' : World} {l : Lists} {r e s a : ℕ}

theorem SoFrame.epView (h : SoFrame w w') : w'.epView = w.epView := by
  have hhead : w'.epHead = w.epHead := by
    ext k
    simp only [epHead, h.epolls]
  simp only [World.epView, hhead, h.links, h.epolls, h.failed]

theorem Rep.esFree (h : Rep w l) (hr : r ∈ w.live) :
    Rep (w.esFree r) (l.drop ((w.es r).ep, (w.es r).active) (w.es r).s r) ∧
      Freed w (w.esFree r) r := by
  have hsock := esRemoveSock_frame w r
  obtain ⟨hlinks, hhead⟩ := esRemoveSock_links w r
  have hregs : r ∈ l.regs (w.es r).s := h.mem_regs.mpr ⟨hr, rfl⟩
  have hqueue : r ∈ l.queue ((w.es r).ep, (w.es r).active) := h.mem_queue.mpr ⟨hr, rfl, rfl⟩
  obtain ⟨hep, -, -, -, hact⟩ := of_core (hsock.core r)
  have hshape : EpShape (w.esRemoveSock r).epView l.queue := hsock.epView ▸ h.ep
  obtain ⟨hout, hrun⟩ := hshape.removeEp (r := r) (by rw [hep, hact]; exact hqueue)
    (hsock.failed.trans h.running)
  have hframe := esRemoveEp_frame (w.esRemoveSock r) r
  rw [hep, hact] at hout
  have hfreed : Freed w (w.esFree r) r := by
    refine ⟨fun x => (hframe.core x).trans (hsock.core x),
      fun s => (hframe.events s).trans (hsock.events s), ?_, hframe.log.trans hsock.log⟩
    exact congrArg (fun xs => xs.erase r) (hframe.live.trans hsock.live)
  refine ⟨⟨hout, ?_, fun {x e b} => ?_, fun {x s} => ?_, ?_, hrun⟩, hfreed⟩
  · have hso := h.so.unlink hregs
    rw [← hlinks, ← hhead, ← hframe.links, ← hframe.head] at hso
    exact hso
  · obtain ⟨hxep, -, -, -, hxact⟩ := of_core (hfreed.core x)
    rw [hfreed.live, h.nodup.mem_erase_iff, hxep, hxact]
    refine (mem_update_erase (h.ep.family.nodup _)
      (fun k hk => h.ep.family.apart hk hqueue)).trans ?_
    rw [h.mem_queue, and_assoc]
  · obtain ⟨-, hxs, -⟩ := of_core (hfreed.core x)
    rw [hfreed.live, h.nodup.mem_erase_iff, hxs]
    refine (mem_update_erase (h.so.nodup _) (fun k hk => h.so.apart hk hregs)).trans ?_
    rw [h.mem_regs, and_assoc]
  · rw [hfreed.live]
    exact h.nodup.erase r

/-- The registration `a` was allocated with the content `x`. -/
structure Added (w w' : World) (a : ℕ) (x : EpollSocket) : Prop where
  core : ∀ y, (w'.es y).core = if y = a then x.core else (w.es y).core
  events : ∀ s, (w'.socks s).epEvents = (w.socks s).epEvents
  live : w'.live = a :: w.live
  log : w'.log = w.log

theorem Rep.notMem_lists (h : Rep w l) (ha : a ∉ w.live) :
    (∀ k, a ∉ l.queue k) ∧ ∀ s, a ∉ l.regs s :=
  ⟨fun _ hmem => ha (h.mem_queue.mp hmem).1, fun _ hmem => ha (h.mem_regs.mp hmem).1⟩

theorem Rep.write_fresh (h : Rep w l) (ha : a ∉ w.live) (x : EpollSocket) :
    EpShape (w.setEs a x).epView l.queue ∧
      Doubly.Family (w.setEs a x).soLinks 0 (w.setEs a x).soHead l.regs := by
  obtain ⟨hqueue, hregs⟩ := h.notMem_lists ha
  have hkeep : ∀ y ≠ a, (w.setEs a x).es y = w.es y := fun y hy => update_of_ne hy _ _
  refine ⟨⟨h.ep.family.congr fun k y hy => ?_, h.ep.last, h.ep.count⟩, h.so.congr fun s y hy => ?_⟩
  · have hya : y ≠ a := fun hcon => hqueue k (hcon ▸ hy)
    simp only [epView, epLinks, hkeep y hya, and_self]
  · have hya : y ≠ a := fun hcon => hregs s (hcon ▸ hy)
    simp only [soLinks, hkeep y hya, and_self]

theorem mem_update_cons [DecidableEq κ] {xs : κ → List ℕ} {j k : κ} {y : ℕ} :
    y ∈ update xs k (a :: xs k) j ↔ y = a ∧ j = k ∨ y ∈ xs j := by
  by_cases hj : j = k
  · subst hj
    simp
  · simp [hj]

theorem Rep.register (h : Rep w l) (ha : a ∉ w.live) (hne : a ≠ 0) {x : EpollSocket}
    (hx : x.active = false) (hw : w' = (({ w with live := a :: w.live }.setEs a x).esAddSock
      a).esAddInactive a) : Rep w' (l.register x.ep x.s a) ∧ Added w w' a x := by
  obtain ⟨hqueue, hregs⟩ := h.notMem_lists ha
  obtain ⟨hshape, hfamily⟩ := h.write_fresh ha x
  generalize hw₁ : { w with live := a :: w.live }.setEs a x = w₁ at hw
  have hself : w₁.es a = x := by
    rw [← hw₁]
    exact update_self _ _ _
  have hsock := esAddSock_frame w₁ a
  have hinactive := esAddInactive_frame (w₁.esAddSock a) a
  rw [← hw] at hinactive
  obtain ⟨hep, -⟩ := of_core (hsock.core a)
  have hadded : Added w w' a x := by
    refine ⟨fun y => ?_, fun s => ?_, ?_, ?_⟩
    · rw [hinactive.core, hsock.core]
      split
      · next hy => rw [hy, hself]
      · next hy =>
        rw [← hw₁]
        exact congrArg core (update_of_ne hy _ _)
    · rw [hinactive.events, hsock.events, ← hw₁]
      rfl
    · rw [hinactive.live, hsock.live, ← hw₁]
      rfl
    · rw [hinactive.log, hsock.log, ← hw₁]
      rfl
  have hshape₁ : EpShape w₁.epView l.queue := hw₁ ▸ hshape
  rw [← hsock.epView] at hshape₁
  have hin := hshape₁.addInactive hqueue hne
  rw [← hw, hep, hself] at hin
  have hfamily₁ : Doubly.Family w₁.soLinks 0 w₁.soHead l.regs := hw₁ ▸ hfamily
  have hso := hfamily₁.pushFront hregs hne (w₁.es a).s
  obtain ⟨hlinks, hhead⟩ := esAddSock_links w₁ a
  rw [← hlinks, ← hhead, ← hinactive.links, ← hinactive.head, hself] at hso
  refine ⟨⟨hin, hso, fun {y e b} => ?_, fun {y s} => ?_, ?_, ?_⟩, hadded⟩
  · refine mem_update_cons.trans ?_
    rw [h.mem_queue, hadded.live, mem_cons]
    by_cases hy : y = a
    · subst hy
      obtain ⟨hxep, -, -, -, hxact⟩ := of_core ((hadded.core y).trans (if_pos rfl))
      rw [hxep, hxact, hx]
      simp [ha, eq_comm]
    · obtain ⟨hyep, -, -, -, hyact⟩ := of_core ((hadded.core y).trans (if_neg hy))
      rw [hyep, hyact]
      simp [hy]
  · refine mem_update_cons.trans ?_
    rw [h.mem_regs, hadded.live, mem_cons]
    by_cases hy : y = a
    · subst hy
      obtain ⟨-, hxs, -⟩ := of_core ((hadded.core y).trans (if_pos rfl))
      rw [hxs]
      simp [ha, eq_comm]
    · obtain ⟨-, hys, -⟩ := of_core ((hadded.core y).trans (if_neg hy))
      rw [hys]
      simp [hy]
  · rw [hadded.live]
    exact nodup_cons.mpr ⟨ha, h.nodup⟩
  · have hfailed := congrArg EpView.failed (esAddInactive_view (w₁.esAddSock a) a)
    rw [hsock.epView, ← hw, ← hw₁] at hfailed
    exact hfailed.trans h.running

end FreeAdd

/-- Every registration with an event is in the active list. -/
def Served (w : World) : Prop := ∀ r ∈ w.live, w.ready r = true → (w.es r).active = true

/-- Some registrations were activated. -/
structure Grown (w : World) (l : Lists) (w' : World) (l' : Lists) : Prop where
  entry : ∀ x, (w'.es x).entry = (w.es x).entry
  active : ∀ x, (w.es x).active = true → (w'.es x).active = true
  events : ∀ s, (w'.socks s).epEvents = (w.socks s).epEvents
  live : w'.live = w.live
  log : w'.log = w.log
  links : w'.soLinks = w.soLinks
  head : w'.soHead = w.soHead
  queue : ∀ e, (l.queue (e, true)).Sublist (l'.queue (e, true))

section Activation

variable {w w' w'' : World} {l l' l'' : Lists} {r e s : ℕ}

theorem ready_congr (hentry : (w'.es r).entry = (w.es r).entry)
    (hevents : ∀ s, (w'.socks s).epEvents = (w.socks s).epEvents) : w'.ready r = w.ready r := by
  have hs : (w'.es r).s = (w.es r).s := congrArg Entry.s hentry
  have hmask : (w'.es r).mask = (w.es r).mask := congrArg Entry.mask hentry
  simp only [ready, hs, hmask, hevents]

theorem Grown.refl (w : World) (l : Lists) : Grown w l w l :=
  ⟨fun _ => rfl, fun _ h => h, fun _ => rfl, rfl, rfl, rfl, rfl, fun _ => .refl _⟩

theorem Grown.trans (h : Grown w l w' l') (h' : Grown w' l' w'' l'') : Grown w l w'' l'' where
  entry x := (h'.entry x).trans (h.entry x)
  active x hx := h'.active x (h.active x hx)
  events s := (h'.events s).trans (h.events s)
  live := h'.live.trans h.live
  log := h'.log.trans h.log
  links := h'.links.trans h.links
  head := h'.head.trans h.head
  queue e := (h.queue e).trans (h'.queue e)

theorem Grown.ready (h : Grown w l w' l') (x : ℕ) : w'.ready x = w.ready x :=
  ready_congr (h.entry x) h.events

theorem Rep.esActivate (h : Rep w l) (hr : r ∈ w.live) :
    ∃ l', Rep (w.esActivate r) l' ∧ Grown w l (w.esActivate r) l' ∧
      ((w.esActivate r).es r).active = true := by
  cases hb : (w.es r).active with
  | true =>
    have hstay : w.esActivate r = w := by simp [World.esActivate, hb]
    rw [hstay]
    exact ⟨l, h, Grown.refl w l, hb⟩
  | false =>
    obtain ⟨hrep, hmoved⟩ := h.esActivate_inactive hr hb
    refine ⟨_, hrep, ?_, by rw [hmoved.active, if_pos rfl]⟩
    refine { hmoved with active := fun x hx => ?_, queue := fun e => ?_ }
    · rw [hmoved.active]
      split
      · rfl
      · exact hx
    · by_cases he : e = (w.es r).ep
      · subst he
        simp only [Lists.activate, requeue, update_self]
        exact sublist_append_left _ _
      · have hne : (e, true) ≠ ((w.es r).ep, true) := by simp [he]
        simp only [Lists.activate, requeue, update_of_ne hne, update_inactive]
        exact List.Sublist.refl _

theorem Rep.activate_ready (h : Rep w l) (hr : r ∈ w.live)
    (hserved : ∀ x ∈ w.live, x ≠ r → w.ready x = true → (w.es x).active = true) :
    ∃ l', Rep (if w.ready r then w.esActivate r else w) l' ∧
      Served (if w.ready r then w.esActivate r else w) ∧
      Grown w l (if w.ready r then w.esActivate r else w) l' := by
  cases hready : w.ready r with
  | false =>
    rw [if_neg Bool.false_ne_true]
    refine ⟨l, h, fun x hx hxr => ?_, Grown.refl w l⟩
    by_cases hne : x = r
    · rw [hne, hready] at hxr
      cases hxr
    · exact hserved x hx hne hxr
  | true =>
    rw [if_pos rfl]
    obtain ⟨l', hrep, hgrown, hactive⟩ := h.esActivate hr
    refine ⟨l', hrep, fun x hx hxr => ?_, hgrown⟩
    by_cases hne : x = r
    · rw [hne]
      exact hactive
    · rw [hgrown.live] at hx
      rw [hgrown.ready] at hxr
      exact hgrown.active x (hserved x hx hne hxr)

theorem Rep.setLoop {fuel : ℕ} {xs : List ℕ} (h : Rep w l) (newevs : UInt32)
    (hchain : Linked.Chain w.soLinks.next 0 r xs) (hlive : ∀ x ∈ xs, x ∈ w.live)
    (hfuel : xs.length < fuel) :
    ∃ l', Rep (setLoop newevs fuel r w) l' ∧ Grown w l (setLoop newevs fuel r w) l' ∧
      ∀ x ∈ xs, newevs &&& (w.es x).mask ≠ 0 → ((setLoop newevs fuel r w).es x).active = true := by
  induction xs generalizing w l r fuel with
  | nil =>
    obtain _ | fuel := fuel
    · omega
    have hr : r = 0 := hchain
    have hstay : World.setLoop newevs (fuel + 1) r w = w := by simp [World.setLoop, hr]
    rw [hstay]
    exact ⟨l, h, Grown.refl w l, by simp⟩
  | cons x xs ih =>
    obtain _ | fuel := fuel
    · omega
    obtain ⟨rfl, hne, htail⟩ := hchain
    have hmem : r ∈ w.live := hlive r mem_cons_self
    obtain ⟨l₁, hrep, hgrown, hactive⟩ : ∃ l₁,
        Rep (if newevs &&& (w.es r).mask = 0 then w else w.esActivate r) l₁ ∧
        Grown w l (if newevs &&& (w.es r).mask = 0 then w else w.esActivate r) l₁ ∧
        (newevs &&& (w.es r).mask ≠ 0 →
          ((if newevs &&& (w.es r).mask = 0 then w else w.esActivate r).es r).active = true) := by
      split
      · next hz => exact ⟨l, h, Grown.refl w l, fun hcon => absurd hz hcon⟩
      · obtain ⟨l₁, hrep, hgrown, hactive⟩ := h.esActivate hmem
        exact ⟨l₁, hrep, hgrown, fun _ => hactive⟩
    rw [World.setLoop, if_neg hne]
    generalize (if newevs &&& (w.es r).mask = 0 then w else w.esActivate r) = w₁ at *
    obtain ⟨l₂, hrep₂, hgrown₂, hrest⟩ := ih hrep (hgrown.links ▸ htail)
      (fun y hy => hgrown.live ▸ hlive y (mem_cons_of_mem _ hy)) (by simpa using hfuel)
    refine ⟨l₂, hrep₂, hgrown.trans hgrown₂, fun y hy hmask => ?_⟩
    rcases mem_cons.mp hy with rfl | hy
    · exact hgrown₂.active y (hactive hmask)
    · have hsame : (w₁.es y).mask = (w.es y).mask := congrArg Entry.mask (hgrown.entry y)
      exact hrest y hy (hsame ▸ hmask)

end Activation

end World

end StackBench.Tas.Sockets

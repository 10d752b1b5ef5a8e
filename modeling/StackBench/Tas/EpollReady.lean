import StackBench.Lib.Run
import StackBench.Tas.EpollQueues

/-!
# Readiness in the epoll of the TAS sockets library

Over every sequence of calls the lists stay intact, a registration with a
pending event is active, and a poll reports pending events only. One that stays
ready is reported within one turn of the active list.
-/

namespace StackBench.Tas.Sockets

open Function List

namespace World

section Calls

variable {w w' w'' : World} {l l' l'' : Lists} {r e s a : ℕ}

section

variable (h : Rep w l)
include h

theorem Rep.setEvents (s : ℕ) (v : UInt32) :
    Rep (w.setSock s { w.socks s with epEvents := v }) l := by
  have hhead : (w.setSock s { w.socks s with epEvents := v }).soHead = w.soHead := by
    ext j
    by_cases hj : j = s
    · subst hj
      simp [soHead, setSock]
    · simp [soHead, setSock, hj]
  exact { h with so := hhead ▸ h.so }

omit h in
theorem epView_addTas (w : World) (e : ℕ) (d : UInt32) : (w.addTas e d).epView = w.epView := by
  have hlast := funext (setEpoll_same w e Epoll.activeLast (x := { w.epolls e with
    numTas := (w.epolls e).numTas + d }) rfl)
  have hcount := funext (setEpoll_same w e Epoll.numActive (x := { w.epolls e with
    numTas := (w.epolls e).numTas + d }) rfl)
  rw [epView, addTas, epHead_setEpoll w e (by rfl) (by rfl), hlast, hcount]
  rfl

theorem Rep.addTas (e : ℕ) (d : UInt32) : Rep (w.addTas e d) l :=
  { h with ep := epView_addTas w e d ▸ h.ep }

theorem Rep.length_regs_le (s : ℕ) : (l.regs s).length ≤ w.live.length :=
  ((h.so.nodup s).subperm fun _ hx => (h.mem_regs.mp hx).1).length_le

theorem Rep.findEs (s e : ℕ) : ∃ r, w.findEs s e = some r ∧ (r ≠ 0 → r ∈ w.live) := by
  have hchain := (h.so.segment s).chain
  have hfuel : (l.regs s).length < w.live.length + 1 := Nat.lt_succ_of_le (h.length_regs_le s)
  refine ⟨_, hchain.seek_eq hfuel, fun hne => ?_⟩
  rcases Linked.headD_mem_or ((l.regs s).dropWhile fun r => decide ((w.es r).ep ≠ e)) 0 with hz | hm
  · exact absurd hz hne
  · exact (h.mem_regs.mp ((dropWhile_sublist _).subset hm)).1

/-- What a call may do to the active lists when it reports nothing. -/
structure Quiet (w : World) (l : Lists) (w' : World) (l' : Lists) : Prop where
  log : w'.log = w.log
  queue : (∀ e, (l.queue (e, true)).Sublist (l'.queue (e, true))) ∨
    ∀ e, (l'.queue (e, true)).Sublist (l.queue (e, true))

omit h in
theorem Quiet.same (hlog : w'.log = w.log) : Quiet w l w' l := ⟨hlog, Or.inl fun _ => .refl _⟩

theorem Rep.ctlAdd (hserved : Served w) (ha : a ∉ w.live) (hne : a ≠ 0)
    (events : UInt32) (data : UInt64) :
    ∃ l', Rep (w.ctlAdd e s a events data) l' ∧ Served (w.ctlAdd e s a events data) ∧
      Quiet w l (w.ctlAdd e s a events data) l' := by
  obtain ⟨hrep, hadded⟩ := h.register ha hne
    (x := ⟨e, s, data, events ||| epollErr, false, 0, 0, 0, 0⟩) rfl rfl
  have hold : ∀ x ≠ a, _ := fun x hx => EpollSocket.of_core ((hadded.core x).trans (if_neg hx))
  obtain ⟨l', hrep', hserved', hgrown⟩ := hrep.activate_ready (r := a)
    (by rw [hadded.live]; exact mem_cons_self) fun x hx hxa hready => by
      obtain ⟨-, hs, -, hmask, hactive⟩ := hold x hxa
      rw [hactive]
      refine hserved x ?_ ?_
      · rw [hadded.live] at hx
        exact (mem_cons.mp hx).resolve_left hxa
      · simpa only [ready, hs, hmask, hadded.events] using hready
  refine ⟨l', hrep', hserved', hgrown.log.trans hadded.log, Or.inl fun j => ?_⟩
  have hstep := hgrown.queue j
  simp only [Lists.register, update_inactive] at hstep
  exact hstep

theorem Rep.ctlMod (hserved : Served w) (hr : r ∈ w.live) (events : UInt32) :
    ∃ l', Rep (w.ctlMod r events) l' ∧ Served (w.ctlMod r events) ∧
      Quiet w l (w.ctlMod r events) l' := by
  generalize hw₁ : w.setEs r { w.es r with mask := events ||| epollErr } = w₁
  have hsame : ∀ {β : Type} (f : EpollSocket → β),
      f { w.es r with mask := events ||| epollErr } = f (w.es r) → ∀ x, f (w₁.es x) = f (w.es x) :=
    fun f hf x => hw₁ ▸ setEs_same w r f hf x
  have hrep : Rep w₁ l := by
    refine ⟨?_, ?_, fun {x e b} => ?_, fun {x s} => ?_, hw₁ ▸ h.nodup, hw₁ ▸ h.running⟩
    · have hview : w₁.epView = w.epView := by
        rw [← hw₁, epView, epLinks_setEs w r (by rfl) (by rfl)]
        rfl
      exact hview ▸ h.ep
    · have hlinks : w₁.soLinks = w.soLinks := hw₁ ▸ soLinks_setEs w r (by rfl) (by rfl)
      have hhead : w₁.soHead = w.soHead := hw₁ ▸ rfl
      rw [hlinks, hhead]
      exact h.so
    · rw [hsame EpollSocket.ep rfl, hsame EpollSocket.active rfl, ← hw₁]
      exact h.mem_queue
    · rw [hsame EpollSocket.s rfl, ← hw₁]
      exact h.mem_regs
  obtain ⟨l', hrep', hserved', hgrown⟩ := hrep.activate_ready (r := r) (hw₁ ▸ hr)
    fun x hx hxr hready => by
      have hx' : w₁.es x = w.es x := hw₁ ▸ update_of_ne hxr _ _
      rw [hx']
      have hlive : w₁.live = w.live := hw₁ ▸ rfl
      refine hserved x (hlive ▸ hx) ?_
      rw [ready, hx', ← hw₁] at hready
      exact hready
  have hact : w.ctlMod r events = if w₁.ready r then w₁.esActivate r else w₁ := hw₁ ▸ rfl
  rw [hact]
  exact ⟨l', hrep', hserved', hgrown.log.trans (hw₁ ▸ rfl), Or.inl hgrown.queue⟩

omit h in
theorem events_split (a b m : UInt32) : (a ||| b) &&& m = (a &&& m) ||| ((~~~a &&& b) &&& m) := by
  apply UInt32.eq_of_toBitVec_eq
  ext i hi
  simp only [UInt32.toBitVec_and, UInt32.toBitVec_or, UInt32.toBitVec_not, BitVec.getElem_and,
    BitVec.getElem_or, BitVec.getElem_not]
  cases a.toBitVec[i] <;> simp

/-- Registrations stay as they are and ready ones ready, and active ones keep their order. -/
structure Raised (w : World) (l : Lists) (w' : World) (l' : Lists) : Prop where
  entry : ∀ x, (w'.es x).entry = (w.es x).entry
  ready : ∀ x, w.ready x = true → w'.ready x = true
  live : w'.live = w.live
  log : w'.log = w.log
  queue : ∀ e, (l.queue (e, true)).Sublist (l'.queue (e, true))

omit h in
theorem Raised.refl (w : World) (l : Lists) : Raised w l w l :=
  ⟨fun _ => rfl, fun _ h => h, rfl, rfl, fun _ => .refl _⟩

omit h in
theorem Raised.trans (h : Raised w l w' l') (h' : Raised w' l' w'' l'') : Raised w l w'' l'' where
  entry x := (h'.entry x).trans (h.entry x)
  ready x hx := h'.ready x (h.ready x hx)
  live := h'.live.trans h.live
  log := h'.log.trans h.log
  queue e := (h.queue e).trans (h'.queue e)

theorem Rep.epollSet (hserved : Served w) (s : ℕ) (evts : UInt32) :
    ∃ l', Rep (w.epollSet s evts) l' ∧ Served (w.epollSet s evts) ∧
      Raised w l (w.epollSet s evts) l' := by
  unfold World.epollSet
  dsimp only
  split
  · exact ⟨l, h, hserved, Raised.refl w l⟩
  generalize hw₁ :
    w.setSock s { w.socks s with epEvents := (w.socks s).epEvents ||| evts } = w₁
  have hrep : Rep w₁ l := hw₁ ▸ h.setEvents s _
  have hes : w₁.es = w.es := hw₁ ▸ rfl
  have hlive : w₁.live = w.live := hw₁ ▸ rfl
  have hevents : ∀ j, (w₁.socks j).epEvents =
      if j = s then (w.socks s).epEvents ||| evts else (w.socks j).epEvents := by
    intro j
    rw [← hw₁]
    by_cases hj : j = s
    · subst hj
      simp [setSock]
    · simp [setSock, hj]
  -- the loop activates every registration of the socket that asks for a new event
  have hchain : Linked.Chain w₁.soLinks.next 0 (w₁.socks s).eps (l.regs s) :=
    (hrep.so.segment s).chain
  obtain ⟨l', hrep', hgrown, hloop⟩ := hrep.setLoop (~~~(w.socks s).epEvents &&& evts) hchain
    (fun x hx => (hrep.mem_regs.mp hx).1) (Nat.lt_succ_of_le (hrep.length_regs_le s))
  refine ⟨l', hrep', fun x hx hready => ?_, ?_⟩
  · rw [hgrown.live] at hx
    rw [hgrown.ready, ready, hes, hevents] at hready
    by_cases hxs : (w.es x).s = s
    · rw [if_pos hxs, events_split] at hready
      by_cases hnew : (~~~(w.socks s).epEvents &&& evts) &&& (w.es x).mask = 0
      · refine hgrown.active x (hes ▸ hserved x (hlive ▸ hx) ?_)
        rw [hnew, UInt32.or_zero] at hready
        rw [ready, hxs]
        exact hready
      · exact hloop x (hrep.mem_regs.mpr ⟨hx, hes ▸ hxs⟩) (hes ▸ hnew)
    · rw [if_neg hxs] at hready
      exact hgrown.active x (hes ▸ hserved x (hlive ▸ hx) hready)
  · refine ⟨fun x => hes ▸ hgrown.entry x, fun x hready => ?_, hgrown.live.trans hlive,
      hgrown.log.trans (hw₁ ▸ rfl), hgrown.queue⟩
    rw [hgrown.ready, ready, hes, hevents]
    split
    · next hxs =>
      rw [ready, hxs] at hready
      rw [events_split]
      simp only [bne_iff_ne, ne_eq, UInt32.or_eq_zero_iff, not_and] at hready ⊢
      exact fun hcon => absurd hcon hready
    · exact hready

/-- Registrations may be gone; those left keep their order. -/
structure Shrunk (w : World) (l : Lists) (w' : World) (l' : Lists) : Prop where
  core : ∀ x, (w'.es x).core = (w.es x).core
  events : ∀ s, (w'.socks s).epEvents = (w.socks s).epEvents
  live : ∀ x ∈ w'.live, x ∈ w.live
  log : w'.log = w.log
  queue : ∀ e, (l'.queue (e, true)).Sublist (l.queue (e, true))

omit h in
theorem Shrunk.refl (w : World) (l : Lists) : Shrunk w l w l :=
  ⟨fun _ => rfl, fun _ => rfl, fun _ h => h, rfl, fun _ => .refl _⟩

omit h in
theorem Shrunk.trans (h : Shrunk w l w' l') (h' : Shrunk w' l' w'' l'') : Shrunk w l w'' l'' where
  core x := (h'.core x).trans (h.core x)
  events s := (h'.events s).trans (h.events s)
  live x hx := h.live x (h'.live x hx)
  log := h'.log.trans h.log
  queue e := (h'.queue e).trans (h.queue e)

omit h in
theorem Shrunk.served (h : Shrunk w l w' l') (hserved : Served w) : Served w' := by
  intro x hx hready
  have hcore := h.core x
  have hactive : (w'.es x).active = (w.es x).active := congrArg Prod.snd hcore
  rw [ready_congr (congrArg Prod.fst hcore) h.events] at hready
  rw [hactive]
  exact hserved x (h.live x hx) hready

theorem Rep.esFree_shrunk (hr : r ∈ w.live) :
    ∃ l', Rep (w.esFree r) l' ∧ Shrunk w l (w.esFree r) l' := by
  obtain ⟨hrep, hfreed⟩ := h.esFree hr
  refine ⟨_, hrep, hfreed.core, hfreed.events, fun x hx => ?_, hfreed.log, fun e => ?_⟩
  · rw [hfreed.live] at hx
    exact mem_of_mem_erase hx
  · simp only [Lists.drop]
    by_cases hk : (e, true) = ((w.es r).ep, (w.es r).active)
    · rw [hk, update_self]
      exact erase_sublist
    · rw [update_of_ne hk]

theorem Rep.drain {fuel : ℕ} (head : World → ℕ)
    (hhead : ∀ {w l}, Rep w l → head w ≠ 0 → head w ∈ w.live) (hfuel : w.live.length < fuel) :
    ∃ l', Rep (drain head fuel w) l' ∧ Shrunk w l (drain head fuel w) l' := by
  induction fuel generalizing w l with
  | zero => exact absurd hfuel (Nat.not_lt_zero _)
  | succ fuel ih =>
    rw [World.drain]
    split
    · exact ⟨l, h, Shrunk.refl w l⟩
    next hne =>
    have hmem := hhead h hne
    obtain ⟨l₁, hrep, hshrunk⟩ := h.esFree_shrunk hmem
    have hlen : (w.esFree (head w)).live.length < fuel := by
      rw [(h.esFree hmem).2.live, length_erase_of_mem hmem]
      have := length_pos_of_mem hmem
      omega
    obtain ⟨l₂, hrep₂, hshrunk₂⟩ := ih hrep hlen
    exact ⟨l₂, hrep₂, hshrunk.trans hshrunk₂⟩

theorem Rep.queue_head (k : ℕ × Bool) : w.epHead k = (l.queue k).headD 0 :=
  (h.ep.family.segment k).head_eq

theorem Rep.epHead_live (k : ℕ × Bool) (hne : w.epHead k ≠ 0) : w.epHead k ∈ w.live := by
  rw [h.queue_head] at hne ⊢
  exact (h.mem_queue.mp ((Linked.headD_mem_or (l.queue k) 0).resolve_left hne)).1

theorem Rep.sockclose (s : ℕ) : ∃ l', Rep (w.sockclose s) l' ∧ Shrunk w l (w.sockclose s) l' := by
  apply h.drain _ _ (Nat.lt_succ_self _)
  intro w l h hne
  have hhead : (w.socks s).eps = (l.regs s).headD 0 := (h.so.segment s).head_eq
  rw [hhead] at hne ⊢
  exact (h.mem_regs.mp ((Linked.headD_mem_or (l.regs s) 0).resolve_left hne)).1

theorem Rep.epollDestroy (e : ℕ) :
    ∃ l', Rep (w.epollDestroy e) l' ∧ Shrunk w l (w.epollDestroy e) l' := by
  obtain ⟨l₁, hrep, hshrunk⟩ := h.drain (fun w => (w.epolls e).activeFirst)
    (fun h hne => h.epHead_live (e, true) hne) (Nat.lt_succ_self _)
  obtain ⟨l₂, hrep₂, hshrunk₂⟩ := hrep.drain (fun w => (w.epolls e).inactive)
    (fun h hne => h.epHead_live (e, false) hne) (Nat.lt_succ_self _)
  exact ⟨l₂, hrep₂, hshrunk.trans hshrunk₂⟩

end

/-- The entry for a registration, as a scan finds it. -/
def report (w : World) (e r : ℕ) : Report :=
  ⟨e, r, (w.socks (w.es r).s).epEvents &&& (w.es r).mask, (w.es r).data⟩

/-- The active list of the epoll `e` was scanned and the registrations `out` reported. -/
structure Scanned (e : ℕ) (w : World) (l : Lists) (w' : World) (l' : Lists) (out : List ℕ) :
    Prop where
  entry : ∀ x, (w'.es x).entry = (w.es x).entry
  events : ∀ s, (w'.socks s).epEvents = (w.socks s).epEvents
  live : w'.live = w.live
  log : w'.log = w.log ++ out.map (w.report e)
  other : ∀ j ≠ e, l'.queue (j, true) = l.queue (j, true)

theorem Scanned.ready {out : List ℕ} (h : Scanned e w l w' l' out) : w'.ready = w.ready :=
  funext fun x => ready_congr (h.entry x) h.events

theorem Scanned.report {out : List ℕ} (h : Scanned e w l w' l' out) : w'.report e = w.report e := by
  ext x
  have hs : (w'.es x).s = (w.es x).s := congrArg Entry.s (h.entry x)
  have hmask : (w'.es x).mask = (w.es x).mask := congrArg Entry.mask (h.entry x)
  have hdata : (w'.es x).data = (w.es x).data := congrArg Entry.data (h.entry x)
  simp only [World.report, hs, hmask, hdata, h.events]

theorem Scanned.refl (e : ℕ) (w : World) (l : Lists) : Scanned e w l w l [] :=
  ⟨fun _ => rfl, fun _ => rfl, rfl, (append_nil _).symm, fun _ _ => rfl⟩

theorem Scanned.trans {out out' : List ℕ} (h : Scanned e w l w' l' out)
    (h' : Scanned e w' l' w'' l'' out') : Scanned e w l w'' l'' (out ++ out') where
  entry x := (h'.entry x).trans (h.entry x)
  events s := (h'.events s).trans (h.events s)
  live := h'.live.trans h.live
  log := by rw [h'.log, h.log, h.report, map_append, append_assoc]
  other j hj := (h'.other j hj).trans (h.other j hj)

theorem requeue_other {queue : ℕ × Bool → List ℕ} {b c : Bool} {ys : List ℕ} {j : ℕ} (hj : j ≠ e) :
    requeue queue (e, b) (e, c) r ys (j, true) = queue (j, true) := by
  rw [requeue, update_of_ne (by simp [hj]), update_of_ne (by simp [hj])]

variable (h : Rep w l) (hserved : Served w)
include h hserved

theorem Rep.scan_ready {xs : List ℕ} (hq : l.queue (e, true) = r :: xs) (hw : w' = ({ w with
      log := w.log ++ [w.report e r] } : World).esActivePushback r) :
    ∃ l', Rep w' l' ∧ Served w' ∧ Scanned e w l w' l' [r] ∧ l'.queue (e, true) = xs ++ [r] := by
  obtain ⟨hlive, hep, hactive⟩ := h.mem_queue.mp (hq ▸ mem_cons_self : r ∈ l.queue (e, true))
  have hlog : Rep { w with log := w.log ++ [w.report e r] } l :=
    { h with }
  obtain ⟨hrep, hmoved⟩ := hlog.esActivePushback hlive hactive
  rw [← hw] at hrep hmoved
  have hscanned : Scanned e w l w' (l.pushback e r) [r] :=
    { hmoved with other := fun j hj => requeue_other hj }
  refine ⟨_, hep ▸ hrep, fun x hx hready => ?_, hscanned, ?_⟩
  · rw [hscanned.ready] at hready
    rw [hmoved.active]
    split
    · rfl
    · exact hserved x (hscanned.live ▸ hx) hready
  · simp only [Lists.pushback, requeue, update_self, hq, erase_cons_head]

theorem Rep.scan_unready {xs : List ℕ}
    (hq : l.queue (e, true) = r :: xs) (hready : w.ready r = false) (hw : w' = w.esDeactivate r) :
    ∃ l', Rep w' l' ∧ Served w' ∧ Scanned e w l w' l' [] ∧ l'.queue (e, true) = xs := by
  obtain ⟨hlive, hep, hactive⟩ := h.mem_queue.mp (hq ▸ mem_cons_self : r ∈ l.queue (e, true))
  obtain ⟨hrep, hmoved⟩ := h.esDeactivate_active hlive hactive
  rw [← hw] at hrep hmoved
  have hscanned : Scanned e w l w' (l.deactivate e r) [] :=
    ⟨hmoved.entry, hmoved.events, hmoved.live, hmoved.log.trans (append_nil _).symm,
      fun j hj => requeue_other hj⟩
  refine ⟨_, hep ▸ hrep, fun x hx hxr => ?_, hscanned, ?_⟩
  · rw [hscanned.ready] at hxr
    rw [hmoved.active]
    split
    · next hx =>
      rw [hx, hready] at hxr
      cases hxr
    · exact hserved x (hscanned.live ▸ hx) hxr
  · have hne : (e, true) ≠ (e, false) := by simp
    simp only [Lists.deactivate, requeue, update_of_ne hne, update_self, hq, erase_cons_head]

/-- The loop of `ep_poll_tas` is a round robin scan of the active list. -/
theorem Rep.pollLoop (e k room : ℕ) :
    ∃ l', Rep (pollLoop e k room w) l' ∧ Served (pollLoop e k room w) ∧
      Scanned e w l (pollLoop e k room w) l'
        (RoundRobin.scan w.ready k room (l.queue (e, true))).1 ∧
      l'.queue (e, true) = (RoundRobin.scan w.ready k room (l.queue (e, true))).2 := by
  induction k generalizing room w l with
  | zero => exact ⟨l, h, hserved, Scanned.refl e w l, rfl⟩
  | succ k ih =>
    cases room with
    | zero => exact ⟨l, h, hserved, Scanned.refl e w l, rfl⟩
    | succ room =>
      have hhead : (w.epolls e).activeFirst = (l.queue (e, true)).headD 0 := h.queue_head (e, true)
      cases hq : l.queue (e, true) with
      | nil =>
        have hstop : World.pollLoop e (k + 1) (room + 1) w = w := by
          simp [World.pollLoop, hhead, hq]
        rw [hstop]
        exact ⟨l, h, hserved, Scanned.refl e w l, hq⟩
      | cons r xs =>
        have hfirst : (w.epolls e).activeFirst = r := by rw [hhead, hq, headD_cons]
        have hne : r ≠ 0 := h.ne_zero
          (h.mem_queue.mp (hq ▸ mem_cons_self : r ∈ l.queue (e, true))).1
        simp only [World.pollLoop, hfirst, if_neg hne]
        cases hready : w.ready r with
        | true =>
          obtain ⟨l₁, hrep, hserved₁, hscan, hback⟩ := h.scan_ready hserved hq rfl
          obtain ⟨l₂, hrep₂, hserved₂, hrest, hend⟩ := ih hrep hserved₁ room
          rw [hback, hscan.ready] at hrest hend
          rw [RoundRobin.scan_cons_ready hready]
          exact ⟨l₂, hrep₂, hserved₂, hscan.trans hrest, hend⟩
        | false =>
          obtain ⟨l₁, hrep, hserved₁, hscan, hback⟩ := h.scan_unready hserved hq hready rfl
          obtain ⟨l₂, hrep₂, hserved₂, hrest, hend⟩ := ih hrep hserved₁ (room + 1)
          rw [hback, hscan.ready] at hrest hend
          rw [RoundRobin.scan_cons_unready hready]
          exact ⟨l₂, hrep₂, hserved₂, hscan.trans hrest, hend⟩

theorem Rep.sets (sets : List (ℕ × UInt32)) :
    ∃ l', Rep (sets.foldl (fun w x => w.epollSet x.1 x.2) w) l' ∧
      Served (sets.foldl (fun w x => w.epollSet x.1 x.2) w) ∧
      Raised w l (sets.foldl (fun w x => w.epollSet x.1 x.2) w) l' := by
  induction sets generalizing w l with
  | nil => exact ⟨l, h, hserved, Raised.refl w l⟩
  | cons x sets ih =>
    obtain ⟨l₁, hrep, hserved₁, hraised⟩ := h.epollSet hserved x.1 x.2
    obtain ⟨l₂, hrep₂, hserved₂, hraised₂⟩ := ih hrep hserved₁
    exact ⟨l₂, hrep₂, hserved₂, hraised.trans hraised₂⟩

end Calls

/-- A call into `epoll.c`, or of `sockinit` and `create`; `alloc` is what `calloc` returns. -/
inductive Op where
  | ctl (e : ℕ) (op : CtlOp) (s : ℕ) (events : UInt32) (data : UInt64) (alloc : Option ℕ)
  | set (s : ℕ) (evts : UInt32)
  | clear (s : ℕ) (evts : UInt32)
  | sockinit (s : ℕ)
  | sockclose (s : ℕ)
  | create (e : ℕ)
  | destroy (e : ℕ)
  | poll (e : ℕ) (sets : List (ℕ × UInt32)) (maxevents : ℕ)

def step (w : World) : Op → World
  | .ctl e op s events data alloc => (w.tasEpollCtl e op s events data alloc).1
  | .set s evts => w.epollSet s evts
  | .clear s evts => w.epollClear s evts
  | .sockinit s => w.setSock s ⟨0, 0⟩
  | .sockclose s => w.sockclose s
  | .create e => w.setEpoll e ⟨0, 0, 0, 0, 0⟩
  | .destroy e => w.epollDestroy e
  | .poll e sets maxevents => w.epPollTas e sets maxevents

/-- Memory is allocated where none is in use. -/
def Ok (w : World) : Op → Prop
  | .ctl _ _ _ _ _ alloc => ∀ a ∈ alloc, a ≠ 0 ∧ a ∉ w.live
  | .sockinit s => ∀ r ∈ w.live, (w.es r).s ≠ s
  | .create e => ∀ r ∈ w.live, (w.es r).ep ≠ e
  | _ => True

instance Ok.decidable (w : World) : DecidablePred w.Ok := fun op => by
  cases op <;> dsimp only [Ok] <;> infer_instance

section Step

variable {w w' : World} {l l' : Lists} {r e s : ℕ}
variable (h : Rep w l) (hserved : Served w)
include h hserved

theorem Rep.tasEpollCtl {op : CtlOp} {events : UInt32}
    {data : UInt64} {alloc : Option ℕ} (hok : ∀ a ∈ alloc, a ≠ 0 ∧ a ∉ w.live) :
    ∃ l', Rep (w.tasEpollCtl e op s events data alloc).1 l' ∧
      Served (w.tasEpollCtl e op s events data alloc).1 ∧
      Quiet w l (w.tasEpollCtl e op s events data alloc).1 l' := by
  obtain ⟨es, hfind, hes⟩ := h.findEs s e
  have hstay : ∀ d, Rep (w.addTas e d) l ∧ Served (w.addTas e d) ∧ Quiet w l (w.addTas e d) l :=
    fun d => ⟨h.addTas e d, hserved, Quiet.same rfl⟩
  simp only [World.tasEpollCtl, hfind]
  split
  · exact ⟨l, h, hserved, Quiet.same rfl⟩
  cases op with
  | add =>
    dsimp only
    split
    · exact ⟨l, hstay 1⟩
    cases alloc with
    | none => exact ⟨l, hstay 1⟩
    | some a =>
      obtain ⟨hne, hfresh⟩ := hok a rfl
      obtain ⟨l', hrep, hserved', hlog, hqueue⟩ :=
        (hstay 1).1.ctlAdd (e := e) (s := s) (hstay 1).2.1 hfresh hne _ data
      exact ⟨l', hrep, hserved', hlog, hqueue⟩
  | mod =>
    dsimp only
    split
    · exact ⟨l, h, hserved, Quiet.same rfl⟩
    · next hne => exact h.ctlMod hserved (hes hne) _
  | del =>
    dsimp only
    split
    · exact ⟨l, hstay (-1)⟩
    · next hne =>
      obtain ⟨l', hrep, hshrunk⟩ := (hstay (-1)).1.esFree_shrunk (hes hne)
      exact ⟨l', hrep, hshrunk.served (hstay (-1)).2.1, hshrunk.log, Or.inr hshrunk.queue⟩
  | unknown => exact ⟨l, h, hserved, Quiet.same rfl⟩

theorem Rep.epollClear (s : ℕ) (evts : UInt32) :
    Rep (w.epollClear s evts) l ∧ Served (w.epollClear s evts) := by
  refine ⟨h.setEvents s _, fun x hx hready => hserved x hx ?_⟩
  by_cases hxs : (w.es x).s = s
  · have hmask : ((w.socks s).epEvents &&& ~~~evts) &&& (w.es x).mask ≠ 0 := by
      simpa [ready, World.epollClear, setSock, hxs] using hready
    rw [ready, hxs, bne_iff_ne]
    intro hzero
    apply hmask
    rw [UInt32.and_assoc, UInt32.and_comm (~~~evts), ← UInt32.and_assoc, hzero, UInt32.zero_and]
  · simpa [ready, World.epollClear, setSock, hxs] using hready

theorem Rep.sockinit (hok : ∀ r ∈ w.live, (w.es r).s ≠ s) :
    Rep (w.setSock s ⟨0, 0⟩) l ∧ Served (w.setSock s ⟨0, 0⟩) := by
  have hempty : l.regs s = [] := by
    apply eq_nil_iff_forall_not_mem.mpr
    intro r hr
    obtain ⟨hlive, hs⟩ := h.mem_regs.mp hr
    exact hok r hlive hs
  have hhead : (w.setSock s ⟨0, 0⟩).soHead = w.soHead := by
    ext j
    by_cases hj : j = s
    · subst hj
      have hzero := (h.so.segment j).head_eq
      rw [hempty] at hzero
      rw [hzero]
      simp [soHead, setSock]
    · simp [soHead, setSock, hj]
  refine ⟨{ h with so := hhead ▸ h.so }, fun x hx hready => ?_⟩
  have hother : (w.setSock s ⟨0, 0⟩).socks (w.es x).s = w.socks (w.es x).s :=
    update_of_ne (hok x hx) _ _
  refine hserved x hx ?_
  rw [ready, ← hother]
  exact hready

theorem Rep.create (hok : ∀ r ∈ w.live, (w.es r).ep ≠ e) :
    Rep (w.setEpoll e ⟨0, 0, 0, 0, 0⟩) l ∧ Served (w.setEpoll e ⟨0, 0, 0, 0, 0⟩) := by
  have hempty : ∀ b, l.queue (e, b) = [] := by
    intro b
    apply eq_nil_iff_forall_not_mem.mpr
    intro r hr
    obtain ⟨hlive, hep, -⟩ := h.mem_queue.mp hr
    exact hok r hlive hep
  have hhead := fun b => hempty b ▸ h.queue_head (e, b)
  have hlast := hempty true ▸ h.ep.last e
  have hcount := hempty true ▸ h.ep.count e
  have hview : (w.setEpoll e ⟨0, 0, 0, 0, 0⟩).epView = w.epView := by
    rw [epView, epHead_setEpoll w e (hhead false).symm (hhead true).symm,
      funext (setEpoll_same w e Epoll.activeLast hlast.symm),
      funext (setEpoll_same w e Epoll.numActive hcount.symm)]
    rfl
  exact ⟨{ h with ep := hview ▸ h.ep }, hserved⟩

theorem Rep.epPollTas (e : ℕ) (sets : List (ℕ × UInt32))
    (maxevents : ℕ) {w₁ : World} (hw₁ : w₁ = sets.foldl (fun w x => w.epollSet x.1 x.2) w) :
    ∃ l₁ l', Rep w₁ l₁ ∧ Raised w l w₁ l₁ ∧ Rep (w.epPollTas e sets maxevents) l' ∧
      Served (w.epPollTas e sets maxevents) ∧
      Scanned e w₁ l₁ (w.epPollTas e sets maxevents) l' (RoundRobin.scan w₁.ready
        (l₁.queue (e, true)).length maxevents (l₁.queue (e, true))).1 ∧
      l'.queue (e, true) = (RoundRobin.scan w₁.ready
        (l₁.queue (e, true)).length maxevents (l₁.queue (e, true))).2 := by
  obtain ⟨l₁, hrep, hserved₁, hraised⟩ := h.sets hserved sets
  rw [← hw₁] at hrep hserved₁ hraised
  obtain ⟨l', hrep', hserved', hscan, hend⟩ :=
    hrep.pollLoop hserved₁ e (w₁.epolls e).numActive maxevents
  have hcount : (w₁.epolls e).numActive = (l₁.queue (e, true)).length := hrep.ep.count e
  have hpoll : w.epPollTas e sets maxevents =
      World.pollLoop e (w₁.epolls e).numActive maxevents w₁ := by
    rw [hw₁]
    rfl
  rw [← hpoll, hcount] at hscan
  rw [hcount] at hend
  exact ⟨l₁, l', hrep, hraised, hpoll ▸ hrep', hpoll ▸ hserved', hscan, hend⟩

end Step

/-- Memory before any call: no registrations. -/
def start : World where
  es _ := ⟨0, 0, 0, 0, false, 0, 0, 0, 0⟩
  epolls _ := ⟨0, 0, 0, 0, 0⟩
  socks _ := ⟨0, 0⟩
  live := []
  log := []
  failed := false

/-- The active list of an epoll, from its links. -/
def activeList (w : World) (e : ℕ) : List ℕ :=
  Linked.cells (fun r => (w.es r).epNext) 0 w.live.length (w.epolls e).activeFirst

/-- The inactive list of an epoll, from its links. -/
def inactiveList (w : World) (e : ℕ) : List ℕ :=
  Linked.cells (fun r => (w.es r).epNext) 0 w.live.length (w.epolls e).inactive

/-- Every registration is once in exactly the list that its flag says, and the lists end. -/
structure ListsExact (w : World) : Prop where
  active_chain : ∀ e, Linked.Chain (fun r => (w.es r).epNext) 0 (w.epolls e).activeFirst
    (w.activeList e)
  inactive_chain : ∀ e, Linked.Chain (fun r => (w.es r).epNext) 0 (w.epolls e).inactive
    (w.inactiveList e)
  active_nodup : ∀ e, (w.activeList e).Nodup
  inactive_nodup : ∀ e, (w.inactiveList e).Nodup
  mem_active : ∀ e r, r ∈ w.activeList e ↔ r ∈ w.live ∧ (w.es r).ep = e ∧ (w.es r).active = true
  mem_inactive : ∀ e r,
    r ∈ w.inactiveList e ↔ r ∈ w.live ∧ (w.es r).ep = e ∧ (w.es r).active = false
  count : ∀ e, (w.epolls e).numActive = (w.activeList e).length

/-- A poll appends entries of its registrations with pending events in the mask. -/
def PollExact (w : World) (e : ℕ) (sets : List (ℕ × UInt32)) (maxevents : ℕ) : Prop :=
  let w₁ := sets.foldl (fun w x => w.epollSet x.1 x.2) w
  ∃ out, (w.epPollTas e sets maxevents).log = w.log ++ out ∧ out.length ≤ maxevents ∧
    ∀ p ∈ out, p.ep = e ∧ p.es ∈ w₁.live ∧ (w₁.es p.es).ep = e ∧ p.data = (w₁.es p.es).data ∧
      p.events = (w₁.socks (w₁.es p.es).s).epEvents &&& (w₁.es p.es).mask ∧ p.events ≠ 0

/-- The registrations `R` of the epoll `e` are ready. -/
def AllReady (R : Finset ℕ) (e : ℕ) (w : World) : Prop :=
  ∀ r ∈ R, r ∈ w.live ∧ (w.es r).ep = e ∧ w.ready r = true
deriving Decidable

/-- The call polls `e` for at least `m` entries when only registrations in `R` are active. -/
def pollsOnly (R : Finset ℕ) (e m : ℕ) (w : World) : Op → Bool
  | .poll j sets maxevents =>
    decide (j = e ∧ m ≤ maxevents) &&
      ((sets.foldl (fun w x => w.epollSet x.1 x.2) w).activeList e).all fun x => decide (x ∈ R)
  | _ => false

/-- How many calls do so. -/
def countPolls (R : Finset ℕ) (e m : ℕ) : World → List Op → ℕ
  | _, [] => 0
  | w, op :: ops => (if pollsOnly R e m w op then 1 else 0) + countPolls R e m (w.step op) ops

/-- The registration `r` is among the entries reported since `w`. -/
def Reported (w w' : World) (e r : ℕ) : Prop := ∃ p ∈ w'.log.drop w.log.length, p.ep = e ∧ p.es = r

section Runs

variable {w w' w'' : World} {l l' : Lists} {r e m : ℕ} {R : Finset ℕ} {op : Op} {ops : List Op}

theorem rep_start : Rep start ⟨fun _ => [], fun _ => []⟩ where
  ep := ⟨⟨fun k => by cases hk : k.2 <;> simp [Doubly.Segment, epView, epHead, start, hk],
    fun _ => nodup_nil, fun h => by cases h⟩, fun _ => rfl, fun _ => rfl⟩
  so := ⟨fun _ => rfl, fun _ => nodup_nil, fun h => by cases h⟩
  mem_queue := by simp [start]
  mem_regs := by simp [start]
  nodup := nodup_nil
  running := rfl

theorem served_start : Served start := by
  intro r hr
  cases hr

section

variable (h : Rep w l)
include h

theorem Rep.cells_eq (k : ℕ × Bool) :
    Linked.cells (fun r => (w.es r).epNext) 0 w.live.length (w.epHead k) = l.queue k := by
  apply (h.ep.family.segment k).chain.cells_eq
  exact ((h.ep.family.nodup k).subperm fun _ hx => (h.mem_queue.mp hx).1).length_le

theorem Rep.activeList_eq (e : ℕ) : w.activeList e = l.queue (e, true) :=
  h.cells_eq (e, true)

theorem Rep.inactiveList_eq (e : ℕ) : w.inactiveList e = l.queue (e, false) :=
  h.cells_eq (e, false)

theorem Rep.listsExact : ListsExact w where
  active_chain e := h.activeList_eq e ▸ (h.ep.family.segment (e, true)).chain
  inactive_chain e := h.inactiveList_eq e ▸ (h.ep.family.segment (e, false)).chain
  active_nodup e := h.activeList_eq e ▸ h.ep.family.nodup (e, true)
  inactive_nodup e := h.inactiveList_eq e ▸ h.ep.family.nodup (e, false)
  mem_active e _ := h.activeList_eq e ▸ h.mem_queue
  mem_inactive e _ := h.inactiveList_eq e ▸ h.mem_queue
  count e := h.activeList_eq e ▸ h.ep.count e

theorem Rep.step_quiet (hserved : Served w) (hok : w.Ok op)
    (hop : ∀ e sets maxevents, op ≠ .poll e sets maxevents) :
    ∃ l', Rep (w.step op) l' ∧ Served (w.step op) ∧ Quiet w l (w.step op) l' := by
  cases op with
  | ctl e op s events data alloc => exact h.tasEpollCtl hserved hok
  | set s evts =>
    obtain ⟨l', hrep, hserved', hraised⟩ := h.epollSet hserved s evts
    exact ⟨l', hrep, hserved', hraised.log, Or.inl hraised.queue⟩
  | clear s evts =>
    obtain ⟨hrep, hserved'⟩ := h.epollClear hserved s evts
    exact ⟨l, hrep, hserved', Quiet.same rfl⟩
  | sockinit s =>
    obtain ⟨hrep, hserved'⟩ := h.sockinit hserved hok
    exact ⟨l, hrep, hserved', Quiet.same rfl⟩
  | sockclose s =>
    obtain ⟨l', hrep, hshrunk⟩ := h.sockclose s
    exact ⟨l', hrep, hshrunk.served hserved, hshrunk.log, Or.inr hshrunk.queue⟩
  | create e =>
    obtain ⟨hrep, hserved'⟩ := h.create hserved hok
    exact ⟨l, hrep, hserved', Quiet.same rfl⟩
  | destroy e =>
    obtain ⟨l', hrep, hshrunk⟩ := h.epollDestroy e
    exact ⟨l', hrep, hshrunk.served hserved, hshrunk.log, Or.inr hshrunk.queue⟩
  | poll e sets maxevents => exact absurd rfl (hop e sets maxevents)

end

/-- Memory holds intact lists and every registration with an event is active. -/
def Intact (w : World) : Prop := ∃ l, Rep w l ∧ Served w

theorem Intact.kept (h : Intact w) (hok : w.Ok op) : Intact (w.step op) := by
  obtain ⟨l, hrep, hserved⟩ := h
  by_cases hop : ∀ e sets maxevents, op ≠ .poll e sets maxevents
  · obtain ⟨l', hrep', hserved', -⟩ := hrep.step_quiet hserved hok hop
    exact ⟨l', hrep', hserved'⟩
  push Not at hop
  obtain ⟨e, sets, maxevents, rfl⟩ := hop
  obtain ⟨-, l', -, -, hrep', hserved', -⟩ := hrep.epPollTas hserved e sets maxevents rfl
  exact ⟨l', hrep', hserved'⟩

theorem Intact.pollExact (h : Intact w) (e : ℕ) (sets : List (ℕ × UInt32)) (maxevents : ℕ) :
    PollExact w e sets maxevents := by
  obtain ⟨l, hrep, hserved⟩ := h
  obtain ⟨l₁, l', hrep₁, hraised, -, -, hscan, -⟩ := hrep.epPollTas hserved e sets maxevents rfl
  refine ⟨_, hraised.log ▸ hscan.log, ?_, fun p hp => ?_⟩
  · rw [length_map]
    exact RoundRobin.length_reported_le
  · obtain ⟨x, hx, rfl⟩ := mem_map.mp hp
    obtain ⟨hready, hmem⟩ := RoundRobin.mem_reported hx
    obtain ⟨hlive, hep, -⟩ := hrep₁.mem_queue.mp hmem
    exact ⟨rfl, hlive, hep, rfl, rfl, by simpa [ready, report] using hready⟩

/-- The place of a registration among those of `R` in the active list. -/
def place (R : Finset ℕ) (e r : ℕ) (l : Lists) : ℕ :=
  RoundRobin.place (fun x => decide (x ∈ R)) r (l.queue (e, true))

theorem AllReady.mem_queue (hR : AllReady R e w) (h : Rep w l) (hserved : Served w)
    (hr : r ∈ R) : r ∈ l.queue (e, true) := by
  obtain ⟨hlive, hep, hready⟩ := hR r hr
  exact h.mem_queue.mpr ⟨hlive, hep, hserved r hlive hready⟩

theorem place_eq_of_sublist (hR : ∀ x ∈ R, x ∈ l.queue (e, true)) (h' : Rep w' l')
    (hsub : (l.queue (e, true)).Sublist (l'.queue (e, true))) : place R e r l = place R e r l' :=
  RoundRobin.place_eq_of_sublist hsub (h'.ep.family.nodup _)
    fun x _ hx => hR x (of_decide_eq_true hx)

theorem AllReady.raised (hR : AllReady R e w) (h : Raised w l w' l') : AllReady R e w' := by
  intro x hx
  obtain ⟨hlive, hep, hready⟩ := hR x hx
  exact ⟨h.live ▸ hlive, (congrArg Entry.ep (h.entry x)).trans hep, h.ready x hready⟩

section

variable (h : Rep w l) (hserved : Served w)
include h hserved

theorem place_scanned {out : List ℕ} {room : ℕ} (hR : AllReady R e w) (hr : r ∈ R)
    (hout : out = (RoundRobin.scan w.ready (l.queue (e, true)).length room (l.queue (e, true))).1)
    (hend : l'.queue (e, true) =
      (RoundRobin.scan w.ready (l.queue (e, true)).length room (l.queue (e, true))).2) :
    (r ∈ out ∨ place R e r l' ≤ place R e r l) ∧
      ((∀ x ∈ l.queue (e, true), x ∈ R) → m ≤ room →
        r ∈ out ∨ place R e r l' + m ≤ place R e r l) := by
  have hmem := hR.mem_queue h hserved hr
  have hready : ∀ x ∈ l.queue (e, true), decide (x ∈ R) = true → w.ready x = true :=
    fun x _ hx => (hR x (of_decide_eq_true hx)).2.2
  rw [hout, place, place, hend]
  refine ⟨?_, fun hall hm => ?_⟩
  · exact RoundRobin.scan_place hready hmem (decide_eq_true hr) (Nat.zero_le _) (Or.inl rfl)
  · exact RoundRobin.scan_moves_up hready hmem (fun x hx => decide_eq_true (hall x hx)) hm

theorem Rep.fair_step (hok : w.Ok op) (hR : AllReady R e w)
    (hR' : AllReady R e (w.step op)) (hr : r ∈ R) (m : ℕ) :
    ∃ l' out, Rep (w.step op) l' ∧ Served (w.step op) ∧ (w.step op).log = w.log ++ out ∧
      ((∃ p ∈ out, p.ep = e ∧ p.es = r) ∨
        place R e r l' + m * (if pollsOnly R e m w op then 1 else 0) ≤ place R e r l) := by
  by_cases hop : ∀ e sets maxevents, op ≠ .poll e sets maxevents
  · obtain ⟨l', hrep, hserved', hlog, hqueue⟩ := h.step_quiet hserved hok hop
    refine ⟨l', [], hrep, hserved', hlog.trans (append_nil _).symm, Or.inr ?_⟩
    have hno : pollsOnly R e m w op = false := by
      cases op with
      | poll e sets maxevents => exact absurd rfl (hop e sets maxevents)
      | _ => rfl
    have hsame : place R e r l' = place R e r l := by
      rcases hqueue with hgrown | hshrunk
      · exact (place_eq_of_sublist (fun x hx => hR.mem_queue h hserved hx) hrep (hgrown e)).symm
      · exact place_eq_of_sublist (fun x hx => hR'.mem_queue hrep hserved' hx) h (hshrunk e)
    rw [hno, hsame]
    exact Nat.le_refl _
  push Not at hop
  obtain ⟨j, sets, maxevents, rfl⟩ := hop
  generalize hw₁ : sets.foldl (fun w x => w.epollSet x.1 x.2) w = w₁
  obtain ⟨l₁, l', hrep₁, hraised, hrep', hserved', hscan, hend⟩ :=
    h.epPollTas hserved j sets maxevents hw₁.symm
  have hserved₁ : Served w₁ := by
    obtain ⟨-, -, hs, -⟩ := h.sets hserved sets
    exact hw₁ ▸ hs
  have hsame := place_eq_of_sublist (r := r) (fun x hx => hR.mem_queue h hserved hx) hrep₁
    (hraised.queue e)
  refine ⟨l', _, hrep', hserved', hraised.log ▸ hscan.log, ?_⟩
  have hreport : ∀ {out : List ℕ}, r ∈ out → ∃ p ∈ out.map (w₁.report e), p.ep = e ∧ p.es = r :=
    fun hmem => ⟨_, mem_map_of_mem hmem, rfl, rfl⟩
  rw [hsame]
  by_cases hj : j = e
  · subst hj
    obtain ⟨hkeep, hup⟩ := place_scanned (m := m) hrep₁ hserved₁ (hR.raised hraised) hr rfl hend
    cases hpoll : pollsOnly R j m w (.poll j sets maxevents) with
    | false => exact hkeep.imp hreport fun hle => hle
    | true =>
      simp only [pollsOnly, hw₁, hrep₁.activeList_eq, Bool.and_eq_true, decide_eq_true_eq,
        all_eq_true, true_and] at hpoll
      rw [if_pos rfl, Nat.mul_one]
      exact (hup hpoll.2 hpoll.1).imp hreport id
  right
  have hno : pollsOnly R e m w (.poll j sets maxevents) = false := by
    simp [pollsOnly, hj]
  rw [hno, place, hscan.other e (Ne.symm hj)]
  exact Nat.le_refl _

theorem Rep.fair_run (hrun : Run.Admissible step Ok w ops)
    (hstay : ∀ k ≤ ops.length, AllReady R e ((ops.take k).foldl step w)) (hr : r ∈ R) (m : ℕ) :
    ∃ l' out, (ops.foldl step w).log = w.log ++ out ∧
      ((∃ p ∈ out, p.ep = e ∧ p.es = r) ∨
        place R e r l' + m * countPolls R e m w ops ≤ place R e r l) := by
  induction ops generalizing w l with
  | nil => exact ⟨l, [], (append_nil _).symm, Or.inr (Nat.le_refl _)⟩
  | cons op ops ih =>
    have hnext : AllReady R e (w.step op) := by
      simpa using hstay 1 (by simp)
    obtain ⟨l₁, out, hrep, hserved₁, hlog, hplace⟩ :=
      h.fair_step hserved hrun.1 (hstay 0 (Nat.zero_le _)) hnext hr m
    obtain ⟨l₂, out', hlog', hplace'⟩ := ih hrep hserved₁ hrun.2 fun k hk => by
      simpa using hstay (k + 1) (by simpa using hk)
    refine ⟨l₂, out ++ out', ?_, ?_⟩
    · rw [foldl_cons, hlog', hlog, append_assoc]
    · rcases hplace with ⟨p, hp, hreport⟩ | hle
      · exact Or.inl ⟨p, mem_append_left _ hp, hreport⟩
      · rcases hplace' with ⟨p, hp, hreport⟩ | hle'
        · exact Or.inl ⟨p, mem_append_right _ hp, hreport⟩
        · right
          rw [countPolls, Nat.mul_add]
          omega

end

theorem Intact.fair (h : Intact w) (hrun : Run.Admissible step Ok w ops) (hm : 0 < m)
    (hstay : ∀ k ≤ ops.length, AllReady R e ((ops.take k).foldl step w))
    (hpolls : (R.card + m - 1) / m ≤ countPolls R e m w ops) (hr : r ∈ R) :
    Reported w (ops.foldl step w) e r := by
  obtain ⟨l, hrep, hserved⟩ := h
  obtain ⟨l', out, hlog, hplace⟩ := hrep.fair_run hserved hrun hstay hr m
  rw [Reported, hlog, drop_left]
  refine hplace.resolve_right fun hle => ?_
  have hlt : place R e r l < R.card := RoundRobin.place_lt_card (hrep.ep.family.nodup _)
    ((hstay 0 (Nat.zero_le _)).mem_queue hrep hserved hr) hr
  have hdiv : R.card ≤ m * ((R.card + m - 1) / m) := by
    have hmod := Nat.mod_lt (R.card + m - 1) hm
    have hsum := Nat.div_add_mod (R.card + m - 1) m
    omega
  have hmul := Nat.mul_le_mul_left m hpolls
  omega

/-- The lists are exact, a poll reports pending events only, and registrations that stay ready are
all reported in every `⌈A / maxevents⌉ + 1` polls that find only them. -/
theorem epoll_readiness (ops : List Op) (hrun : Run.Admissible step Ok start ops) :
    ListsExact (ops.foldl step start) ∧ (ops.foldl step start).failed = false ∧
      Served (ops.foldl step start) ∧
      (∀ e sets maxevents, PollExact (ops.foldl step start) e sets maxevents) ∧
      ∀ (more : List Op) (R : Finset ℕ) (e m : ℕ),
        Run.Admissible step Ok (ops.foldl step start) more → 0 < m →
        (∀ k ≤ more.length, AllReady R e ((more.take k).foldl step (ops.foldl step start))) →
        (R.card + m - 1) / m + 1 ≤ countPolls R e m (ops.foldl step start) more →
        ∀ r ∈ R, Reported (ops.foldl step start) (more.foldl step (ops.foldl step start)) e r := by
  have hintact : Intact (ops.foldl step start) :=
    hrun.invariant ⟨_, rep_start, served_start⟩ fun _ _ h hok => h.kept hok
  obtain ⟨l, hrep, hserved⟩ := hintact
  refine ⟨hrep.listsExact, hrep.running, hserved, fun e sets maxevents => ?_, ?_⟩
  · exact Intact.pollExact ⟨l, hrep, hserved⟩ e sets maxevents
  · intro more R e m hmore hm hstay hpolls r hr
    exact Intact.fair ⟨l, hrep, hserved⟩ hmore hm hstay (Nat.le_of_succ_le hpolls) hr

def twoReady : List Op :=
  [.create 1, .sockinit 10, .sockinit 11, .ctl 1 .add 10 1 7 (some 100),
    .ctl 1 .add 11 1 8 (some 101), .set 11 1, .set 10 1]

def onePolls : List Op := [.poll 1 [] 1, .poll 1 [] 1, .poll 1 [] 1]

theorem epoll_readiness_two :
    Run.Admissible step Ok start twoReady ∧ (twoReady.foldl step start).activeList 1 = [101, 100] ∧
      Reported (twoReady.foldl step start) (onePolls.foldl step (twoReady.foldl step start)) 1
        100 :=
  ⟨by decide +kernel, by decide +kernel,
    (epoll_readiness twoReady (by decide +kernel)).2.2.2.2 onePolls {100, 101} 1 1
      (by decide +kernel) (by decide +kernel) (by decide +kernel) (by decide +kernel) 100
      (by decide +kernel)⟩

end Runs

end World

end StackBench.Tas.Sockets

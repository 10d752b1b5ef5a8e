import StackBench.Tas.AtxQueue

/-!
# The queue from a fast-path core to an application

`arx_cache_flush` reserves entries with `fast_actx_rxq_alloc` and writes them
afterwards, and `fast_actx_rxq_probe` looks for freed ones. `fastpath_poll` of
the library applies the entry at its head and frees it, or leaves it when there
is no room for the events.
-/

namespace StackBench.Tas

open Entry (msg read)

/-- The queue of one context and core. `produced`, `seen` and `overwrote` record
what happened. -/
structure ArxQueue where
  mem : ℕ → Entry Arx
  rxHead : UInt32
  rxAvail : UInt32
  /-- The entries that `arx_cache_flush` reserved and has not written. -/
  parx : List UInt32
  /-- The core is inside the loop of `fast_actx_rxq_probe`. -/
  scan : Option Scan
  rxqHead : UInt32
  /-- The library applied the entry at its head and has not freed it. -/
  busy : Bool
  produced : List (Entry Arx)
  seen : List (Entry Arx)
  overwrote : Bool

inductive ArxOp where
  | alloc
  | write (x : Arx)
  | probe
  | probeStep
  | poll (room : Bool)
  | pollDone

namespace ArxQueue

variable (len : UInt32) (w : ArxQueue)

/-- A new queue of `len` bytes, cleared by the slow path. -/
def init : ArxQueue where
  mem _ := ⟨0, ⟨0, 0, 0, 0, 0, false⟩⟩
  rxHead := 0
  rxAvail := len
  parx := []
  scan := none
  rxqHead := 0
  busy := false
  produced := []
  seen := []
  overwrote := false

/-- `fast_actx_rxq_alloc`; the caller ends the program when it fails. -/
def alloc : ArxQueue :=
  if w.rxAvail = 0 then w
  else
    { w with
      rxHead := nextEntry 32 len w.rxHead
      rxAvail := w.rxAvail - 32
      parx := w.parx ++ [w.rxHead] }

/-- `fast_actx_rxq_probe` up to its loop. -/
def probe : ArxQueue :=
  if w.rxAvail > len / 2 then w
  else { w with scan := some (scanStart len w.rxHead w.rxAvail) }

/-- One iteration of the loop, which counts in `rx_avail` itself. -/
def probeStep (s : Scan) : ArxQueue :=
  match scanStep 32 len (2 * 16) w.mem s with
  | some s' => { w with rxAvail := s'.avail, scan := some s' }
  | none => { w with scan := none }

/-- One step of the core or the library. The core probes when all it reserved is written. -/
def step : ArxOp → ArxQueue
  | .alloc => if w.scan = none then w.alloc len else w
  | .write x =>
    match w.parx with
    | p :: ps =>
      { w with
        mem := Entry.put w.mem 32 p ⟨1, x⟩
        parx := ps
        produced := w.produced ++ [⟨1, x⟩]
        overwrote := w.overwrote || (read w.mem 32 p).type != 0 }
    | [] => w
  | .probe => if w.scan = none ∧ w.parx = [] then w.probe len else w
  | .probeStep =>
    match w.scan with
    | some s => w.probeStep len s
    | none => w
  | .poll room =>
    let e := read w.mem 32 w.rxqHead
    if w.busy ∨ e.type = 0 ∨ ¬ room then w else { w with busy := true, seen := w.seen ++ [e] }
  | .pollDone =>
    if w.busy then
      { w with
        mem := Entry.free w.mem 32 w.rxqHead
        rxqHead := nextEntry 32 len w.rxqHead
        busy := false }
    else w

/-- A whole call of `fast_actx_rxq_probe`, not interrupted. -/
def rxqProbe : ArxQueue :=
  (List.replicate len.toNat .probeStep).foldl (step len) (w.step len .probe)

/-- The library freed `c` entries and the core may reserve `a`. -/
structure Inv (len : UInt32) (n c a : ℕ) (w : ArxQueue) : Prop where
  ring : Slots.Ring n (Entry.slot w.mem) w.produced c (w.produced.length + w.parx.length) a
  head : At 32 len w.rxHead (w.produced.length + w.parx.length)
  avail : w.rxAvail.toNat = 32 * a
  parx : Ats 32 len w.produced.length w.parx
  scan : ∀ s, w.scan = some s →
    w.parx = [] ∧ At 32 len s.pos (w.produced.length + a) ∧ s.avail = w.rxAvail
  rxqHead : At 32 len w.rxqHead c
  busy : w.busy = true → c < w.produced.length
  seen : w.seen = w.produced.take (c + w.busy.toNat)
  kept : w.overwrote = false

/-- What holds of the queue in every state. -/
def Valid (n : ℕ) (w : ArxQueue) : Prop := ∃ c a, w.Inv len n c a

/-- The start of a scan does not leave the word. -/
structure Fits (len : UInt32) (n : ℕ) : Prop where
  layout : Layout 32 len n
  half : len.toNat + len.toNat / 2 < 2 ^ 32

variable {len} {n c a : ℕ} {w}

theorem inv_init (hfits : Fits len n) : (init len).Inv len n 0 n where
  ring := Slots.ring_empty n fun _ => rfl
  head := at_zero 32 len
  avail := hfits.layout.len
  parx := trivial
  scan := nofun
  rxqHead := at_zero 32 len
  busy := nofun
  seen := rfl
  kept := rfl

namespace Inv

variable (h : w.Inv len n c a)
include h

theorem seen_le : c + w.busy.toNat ≤ w.produced.length := by
  cases hb : w.busy with
  | false => simpa using h.ring.cleared
  | true => exact h.busy hb

section

variable (hfits : Fits len n)
include hfits

theorem alloc (hscan : w.scan = none) : ∃ a', (w.alloc len).Inv len n c a' := by
  unfold ArxQueue.alloc
  split
  · exact ⟨a, h⟩
  next havail =>
  cases a with
  | zero => exact absurd (UInt32.toNat_inj.mp h.avail) havail
  | succ a =>
    have hlength : w.produced.length + (w.parx ++ [w.rxHead]).length =
        w.produced.length + w.parx.length + 1 := by
      rw [List.length_append]
      rfl
    have hbytes := h.avail
    have hsub : (w.rxAvail - 32).toNat = w.rxAvail.toNat - 32 :=
      Word.sub_toNat (b := 32) (by rw [hbytes]; show 32 ≤ _; omega)
    refine ⟨a, ?_, ?_, ?_, h.parx.concat h.head, ?_, h.rxqHead, h.busy, h.seen, h.kept⟩
    · rw [hlength]
      exact h.ring.reserve
    · rw [hlength]
      exact h.head.next hfits.layout
    · show (w.rxAvail - 32).toNat = 32 * a
      omega
    · intro s hs
      rw [hscan] at hs
      cases hs

theorem write {p : UInt32} {ps : List UInt32} (hparx : w.parx = p :: ps) (x : Arx) : ({ w with
        mem := Entry.put w.mem 32 p ⟨1, x⟩
        parx := ps
        produced := w.produced ++ [⟨1, x⟩]
        overwrote := w.overwrote || (read w.mem 32 p).type != 0 } : ArxQueue).Inv
      len n c a := by
  obtain ⟨hat, hrest⟩ : At 32 len p w.produced.length ∧ Ats 32 len (w.produced.length + 1) ps := by
    have hats := h.parx
    rw [hparx] at hats
    exact hats
  have hlength : (w.produced ++ [(⟨1, x⟩ : Entry Arx)]).length = w.produced.length + 1 :=
    List.length_append
  have hcount : w.produced.length + w.parx.length = w.produced.length + 1 + ps.length := by
    rw [hparx, List.length_cons]
    omega
  have hfree := (hat.read_type_eq_zero hfits.layout).mpr (h.ring.free_next (by omega))
  have hwrite := h.ring.write (by omega) (⟨1, x⟩ : Entry Arx)
  rw [← hat.slot_put hfits.layout (show (1 : UInt8) ≠ 0 by decide), hcount] at hwrite
  refine ⟨?_, ?_, h.avail, ?_, ?_, h.rxqHead, ?_, ?_, ?_⟩
  · rw [hlength]
    exact hwrite
  · rw [hlength, ← hcount]
    exact h.head
  · rw [hlength]
    exact hrest
  · intro s hs
    have hnil := (h.scan s hs).1
    rw [hparx] at hnil
    cases hnil
  · intro hbusy
    rw [hlength]
    exact (h.busy hbusy).trans (Nat.lt_succ_self _)
  · rw [List.take_append_of_le_length h.seen_le]
    exact h.seen
  · rw [h.kept, hfree]
    rfl

theorem probe (hparx : w.parx = []) : (w.probe len).Inv len n c a := by
  unfold ArxQueue.probe
  split
  · exact h
  next hhalf =>
  have hring := h.ring
  have hhead := h.head
  rw [hparx] at hring hhead
  have hscan := scans_start hfits.layout hfits.half hring hhead h.avail hhalf
  refine { h with scan := ?_ }
  intro s hs
  cases hs
  exact ⟨hparx, hscan.pos, rfl⟩

omit hfits in
theorem scans {s : Scan} (hs : w.scan = some s) : Scans 32 len n w.mem w.produced c a s := by
  obtain ⟨hparx, hpos, havail⟩ := h.scan s hs
  have hring := h.ring
  rw [hparx] at hring
  exact ⟨hring, hpos, by rw [havail]; exact h.avail⟩

theorem probeStep_some {s s' : Scan}
    (hs : w.scan = some s) (hscan : scanStep 32 len (2 * 16) w.mem s = some s') :
    ({ w with rxAvail := s'.avail, scan := some s' } : ArxQueue).Inv len n c (a + 1) := by
  have hparx := (h.scan s hs).1
  have hnext := (h.scans hs).step hfits.layout hscan
  refine { h with ring := ?_, avail := hnext.avail, scan := ?_ }
  · rw [hparx]
    exact hnext.ring
  · intro t ht
    cases ht
    exact ⟨hparx, hnext.pos, rfl⟩

omit hfits in
theorem probeStep_none : ({ w with scan := none } : ArxQueue).Inv len n c a :=
  { h with scan := nofun }

theorem head_entry (htype : (read w.mem 32 w.rxqHead).type ≠ 0) :
    w.produced[c]? = some (read w.mem 32 w.rxqHead) := by
  rw [← h.ring.stores c (Nat.le_refl c) (Nat.lt_add_of_pos_right hfits.layout.pos)]
  exact h.rxqHead.slot_eq_read hfits.layout htype

theorem poll (hbusy : w.busy = false) (htype : (read w.mem 32 w.rxqHead).type ≠ 0) :
    ({ w with busy := true, seen := w.seen ++ [read w.mem 32 w.rxqHead] } : ArxQueue).Inv
      len n c a := by
  have hentry := h.head_entry hfits htype
  obtain ⟨hlt, -⟩ := List.getElem?_eq_some_iff.mp hentry
  refine { h with busy := fun _ => hlt, seen := ?_ }
  have hseen := h.seen
  rw [hbusy] at hseen
  show w.seen ++ [read w.mem 32 w.rxqHead] = w.produced.take (c + 1)
  rw [hseen, List.take_add_one, hentry]
  rfl

theorem pollDone (hbusy : w.busy = true) : ({ w with
        mem := Entry.free w.mem 32 w.rxqHead
        rxqHead := nextEntry 32 len w.rxqHead
        busy := false } : ArxQueue).Inv len n (c + 1) a := by
  have hring := h.ring.clear (h.busy hbusy)
  rw [← h.rxqHead.slot_free hfits.layout] at hring
  refine ⟨hring, h.head, h.avail, h.parx, h.scan, h.rxqHead.next hfits.layout, nofun, ?_, h.kept⟩
  have hseen := h.seen
  rw [hbusy] at hseen
  exact hseen

theorem step (op : ArxOp) : (w.step len op).Valid len n := by
  cases op with
  | alloc =>
    simp only [ArxQueue.step]
    split
    · next hscan =>
      obtain ⟨a', h'⟩ := h.alloc hfits hscan
      exact ⟨c, a', h'⟩
    · exact ⟨c, a, h⟩
  | write x =>
    simp only [ArxQueue.step]
    split
    · next p ps hparx => exact ⟨c, a, h.write hfits hparx x⟩
    · exact ⟨c, a, h⟩
  | probe =>
    simp only [ArxQueue.step]
    split
    · next hidle => exact ⟨c, a, h.probe hfits hidle.2⟩
    · exact ⟨c, a, h⟩
  | probeStep =>
    simp only [ArxQueue.step]
    split
    · next s hs =>
      unfold ArxQueue.probeStep
      split
      · next s' hscan => exact ⟨c, a + 1, h.probeStep_some hfits hs hscan⟩
      · exact ⟨c, a, h.probeStep_none⟩
    · exact ⟨c, a, h⟩
  | poll room =>
    simp only [ArxQueue.step]
    split
    · exact ⟨c, a, h⟩
    next hgo =>
    have hbusy : w.busy = false := by
      cases hb : w.busy with
      | false => rfl
      | true => exact absurd (Or.inl hb) hgo
    exact ⟨c, a, h.poll hfits hbusy fun hzero => hgo (Or.inr (Or.inl hzero))⟩
  | pollDone =>
    simp only [ArxQueue.step]
    split
    · next hbusy => exact ⟨c + 1, a, h.pollDone hfits hbusy⟩
    · exact ⟨c, a, h⟩

end

end Inv

/-- The queue delivers in order and loses nothing, and the core gets room. -/
structure Sound (len : UInt32) (n : ℕ) (w : ArxQueue) : Prop where
  inOrder : w.seen = w.produced.take w.seen.length
  complete : w.busy = false → (read w.mem 32 w.rxqHead).type = 0 → w.seen = w.produced
  kept : w.overwrote = false
  avail : w.rxAvail.toNat + 32 * w.parx.length ≤ 32 * freeEntries n w.mem
  refill : w.scan = none → w.parx = [] → w.busy = false → w.seen = w.produced →
    (w.rxqProbe len).scan = none ∧ (w.rxqProbe len).rxAvail ≠ 0

theorem Inv.seen_length (h : w.Inv len n c a) : w.seen.length = c + w.busy.toNat := by
  rw [h.seen, List.length_take]
  exact Nat.min_eq_left h.seen_le

theorem Inv.complete (h : w.Inv len n c a) (hfits : Fits len n) (hbusy : w.busy = false)
    (htype : (read w.mem 32 w.rxqHead).type = 0) : w.seen = w.produced := by
  have hslot := (h.rxqHead.read_type_eq_zero hfits.layout).mp htype
  rw [h.ring.stores c (Nat.le_refl c) (Nat.lt_add_of_pos_right hfits.layout.pos)] at hslot
  rw [h.seen, hbusy]
  exact List.take_of_length_le (List.getElem?_eq_none_iff.mp hslot)

/-- `fast_actx_rxq_probe` on a drained queue after `j` iterations: it is over with room, or has
found `j` entries. -/
def Refilling (len : UInt32) (n j : ℕ) (w : ArxQueue) : Prop :=
  ∃ a, w.Inv len n w.produced.length a ∧
    ((w.scan = none ∧ w.rxAvail ≠ 0) ∨ ∃ s, w.scan = some s ∧ j ≤ a ∧ (a = 0 → s.i = 0))

theorem Refilling.step {j : ℕ} (h : w.Refilling len n j) (hfits : Fits len n) :
    (w.step len .probeStep).Refilling len n (j + 1) := by
  obtain ⟨a, hinv, ⟨hnone, havail⟩ | ⟨s, hs, hj, hi⟩⟩ := h
  · have hsame : w.step len .probeStep = w := by
      rw [ArxQueue.step, hnone]
    rw [hsame]
    exact ⟨a, hinv, Or.inl ⟨hnone, havail⟩⟩
  have hstep : w.step len .probeStep = w.probeStep len s := by
    rw [ArxQueue.step, hs]
  rw [hstep]
  unfold ArxQueue.probeStep
  split
  · next s' hscan =>
    exact ⟨a + 1, hinv.probeStep_some hfits hs hscan, Or.inr ⟨s', rfl, Nat.succ_le_succ hj, nofun⟩⟩
  next hscan =>
  refine ⟨a, hinv.probeStep_none, Or.inl ⟨rfl, ?_⟩⟩
  have hne := (hinv.scans hs).avail_ne_zero hfits.layout (by decide) hi hscan
  rw [(hinv.scan s hs).2.2] at hne
  exact hne

theorem Inv.refill (h : w.Inv len n w.produced.length a) (hfits : Fits len n)
    (hnone : w.scan = none) (hparx : w.parx = []) :
    (w.rxqProbe len).scan = none ∧ (w.rxqProbe len).rxAvail ≠ 0 := by
  have hstart : (w.step len .probe).Refilling len n 0 := by
    have hinv := h.probe hfits hparx
    have hstep : w.step len .probe = w.probe len := if_pos ⟨hnone, hparx⟩
    rw [hstep]
    unfold ArxQueue.probe at hinv ⊢
    split
    · next hhalf =>
      rw [if_pos hhalf] at hinv
      refine ⟨a, hinv, Or.inl ⟨hnone, ?_⟩⟩
      intro hzero
      rw [hzero] at hhalf
      exact absurd hhalf (UInt32.not_lt.mpr UInt32.zero_le)
    · next hhalf =>
      rw [if_neg hhalf] at hinv
      exact ⟨a, hinv, Or.inr ⟨_, rfl, Nat.zero_le a, fun _ => rfl⟩⟩
  obtain ⟨b, hinv, hdone | ⟨s, -, hb, -⟩⟩ :=
    Run.foldl_replicate_invariant (fun _ _ h => h.step hfits) hstart len.toNat
  · exact hdone
  -- the scan cannot have found more entries than there are
  have hroom := hinv.ring.room
  have hlen : len.toNat = 32 * n := hfits.layout.len
  have hpos := hfits.layout.pos
  omega

theorem Inv.sound (h : w.Inv len n c a) (hfits : Fits len n) : w.Sound len n where
  inOrder := by
    rw [h.seen_length]
    exact h.seen
  complete := h.complete hfits
  kept := h.kept
  avail := by
    have hfree := freeEntries_ge h.ring
    have havail := h.avail
    omega
  refill hnone hparx hbusy hseen := by
    have hc : w.produced.length = c := by
      rw [← hseen, h.seen_length, hbusy]
      rfl
    rw [← hc] at h
    exact h.refill hfits hnone hparx

end ArxQueue

/-- In every run of a queue of at least a batch from the application, and one of at least one entry
to it, both are sound. -/
theorem app_queues_sound (txLen rxLen : UInt32) (n m : ℕ) (htx : AtxQueue.Fits txLen n)
    (hrx : ArxQueue.Fits rxLen m) (txOps : List AtxOp) (rxOps : List ArxOp)
    (hrun : Run.Admissible (AtxQueue.step txLen) AtxQueue.Ok (AtxQueue.init txLen) txOps) :
    (txOps.foldl (AtxQueue.step txLen) (AtxQueue.init txLen)).Sound txLen n ∧
      (rxOps.foldl (ArxQueue.step rxLen) (ArxQueue.init rxLen)).Sound rxLen m := by
  constructor
  · have hstart : (AtxQueue.init txLen).Valid txLen n := ⟨0, n, AtxQueue.inv_init htx⟩
    obtain ⟨c, a, h⟩ := hrun.invariant hstart fun _ _ ⟨_, _, h⟩ hok => h.step htx hok
    exact h.sound htx
  · have hstart : (ArxQueue.init rxLen).Valid rxLen m := ⟨0, m, ArxQueue.inv_init hrx⟩
    have hend : (rxOps.foldl (ArxQueue.step rxLen) (ArxQueue.init rxLen)).Valid rxLen m :=
      Run.foldl_invariant hstart fun _ op ⟨_, _, h⟩ => h.step hrx op
    obtain ⟨c, a, h⟩ := hend
    exact h.sound hrx

def postTwoUpdates : List AtxOp :=
  [.publish ⟨3, ⟨0, 0, 5, false⟩⟩, .pollFetch, .txDone, .publish ⟨3, ⟨1, 0, 6, false⟩⟩, .pollBump,
    .txDone, .bumpDone, .pollFetch]

def announceTwice : List ArxOp :=
  [.alloc, .write ⟨0, 7, 5, 0, 0, false⟩, .poll true, .alloc, .pollDone, .probe, .probeStep,
    .probeStep, .alloc, .write ⟨0, 7, 6, 5, 0, false⟩, .poll false]

theorem app_queues_sound_postTwoUpdates :
    ((postTwoUpdates.foldl (AtxQueue.step 256) (AtxQueue.init 256)).Sound 256 16 ∧
      (announceTwice.foldl (ArxQueue.step 32) (ArxQueue.init 32)).Sound 32 1) ∧
    (postTwoUpdates.foldl (AtxQueue.step 256) (AtxQueue.init 256)).seen.length = 1 ∧
    (announceTwice.foldl (ArxQueue.step 32) (ArxQueue.init 32)).produced.length = 2 := by
  have htx : AtxQueue.Fits 256 16 :=
    ⟨⟨by decide, by decide, by decide⟩, by decide, Nat.le_refl 16⟩
  have hrx : ArxQueue.Fits 32 1 := ⟨⟨by decide, by decide, by decide⟩, by decide⟩
  refine ⟨?_, by decide +kernel, by decide +kernel⟩
  exact app_queues_sound 256 32 16 1 htx hrx postTwoUpdates announceTwice (by decide +kernel)

/-- A queue of one entry: the batch of the fast path fetches the posted entry
twice, and applies it twice. -/
theorem single_entry_applied_twice :
    let ops : List AtxOp := [.publish ⟨3, ⟨0, 0, 5, false⟩⟩, .txDone, .pollFetch, .pollFetch,
      .pollBump, .bumpDone, .pollBump, .bumpDone]
    let w := ops.foldl (AtxQueue.step 16) (AtxQueue.init 16)
    Layout 16 16 1 ∧ Run.Admissible (AtxQueue.step 16) AtxQueue.Ok (AtxQueue.init 16) ops ∧
      w.produced.map msg = [⟨3, ⟨0, 0, 5, false⟩⟩] ∧
      w.seen.map msg = [⟨3, ⟨0, 0, 5, false⟩⟩, ⟨3, ⟨0, 0, 5, false⟩⟩] := by
  refine ⟨⟨by decide, by decide, by decide⟩, by decide +kernel, by decide +kernel,
    by decide +kernel⟩

end StackBench.Tas

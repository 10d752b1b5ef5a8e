import Mathlib.Algebra.Order.Ring.Nat
import Mathlib.Data.UInt
import StackBench.Lib.Linked
import StackBench.Lib.Run
import StackBench.Lib.Tiling

/-!
# The packet memory of the TAS slow path

`packetmem.c`: a first-fit allocator. The free ranges are a linked list of
handles, and an allocation is a handle outside of it. Handles are numbered in
the order of `malloc`, `0` is `NULL`.
-/

namespace StackBench.Tas

open Function List
open Linked (Chain)
open Spans (Span Tiles)

structure Handle where
  base : UInt64
  len : UInt64
  next : ℕ
deriving DecidableEq

/-- What a caller of `packetmem_alloc` got. -/
structure Allocation where
  handle : ℕ
  off : UInt64
  length : UInt64
deriving DecidableEq

def Allocation.span (a : Allocation) : Span ℕ := ⟨a.off.toNat, a.off.toNat + a.length.toNat⟩

/-- The handles and the free list, the number of handles so far, and the allocations not freed. -/
structure PacketMem where
  mem : ℕ → Handle
  freelist : ℕ
  count : ℕ
  live : List Allocation
  hung : Bool

namespace PacketMem

def packetmemInit (size : UInt64) : PacketMem where
  mem := fun _ => ⟨0, size, 0⟩
  freelist := 1
  count := 1
  live := []
  hung := false

def next (w : PacketMem) (p : ℕ) : ℕ := (w.mem p).next

variable (w : PacketMem)

def set (p : ℕ) (x : Handle) : PacketMem :=
  { w with mem := update w.mem p x }

/-- `v` becomes the successor of the handle `prev`, or the first handle if `prev` is
`NULL`. -/
def relink (prev v : ℕ) : PacketMem :=
  if prev = 0 then { w with freelist := v } else w.set prev { w.mem prev with next := v }

/-- The search for the first fit: the predecessor and the handle. -/
def findFit (length : UInt64) : Option (ℕ × ℕ) :=
  Linked.trail (fun p => decide ((w.mem p).len < length)) w.next 0 (w.count + 1) 0 w.freelist

/-- Cut an allocation off the start of the range of `ph`. -/
def splitHandle (ph : ℕ) (length : UInt64) : PacketMem :=
  let w' := { w with count := w.count + 1 }.set (w.count + 1) ⟨(w.mem ph).base, length, 0⟩
  w'.set ph { w'.mem ph with
    base := (w'.mem ph).base + length
    len := (w'.mem ph).len - length }

/-- `packetmem_alloc`: the handle, or `none` if there is no fit. -/
def packetmemAlloc (length : UInt64) : Option (PacketMem × Option ℕ) :=
  (w.findFit length).map fun r =>
    if r.2 = 0 then (w, none)
    else if (w.mem r.2).len = length then (w.relink r.1 (w.next r.2), some r.2)
    else (w.splitHandle r.2 length, some (w.count + 1))

/-- The search for the place of a freed handle: the predecessor it gets. The loop looks
one handle ahead. -/
def findPlace (h : ℕ) : Option ℕ :=
  (Linked.trail (fun p => decide (w.next p ≠ 0 ∧ (w.mem (w.next p)).base < (w.mem h).base)) w.next
    0 (w.count + 1) 0 w.freelist).map Prod.fst

/-- The range of `q`, the successor of `p`, is added to the range of `p`. -/
def absorb (p q : ℕ) : PacketMem :=
  w.set p { w.mem p with len := (w.mem p).len + (w.mem q).len, next := w.next q }

def meets (p q : ℕ) : Bool := (w.mem p).base + (w.mem p).len == (w.mem q).base

/-- The first half of `merge_items`, with the handle that it goes on with. -/
def mergePrev (prev : ℕ) : PacketMem × ℕ :=
  if prev = 0 then (w, w.freelist)
  else if w.meets prev (w.next prev) then (w.absorb prev (w.next prev), prev)
  else (w, w.next prev)

/-- The second half of `merge_items`. -/
def mergeNext (ph : ℕ) : PacketMem :=
  if w.next ph ≠ 0 ∧ w.meets ph (w.next ph) = true then w.absorb ph (w.next ph) else w

def mergeItems (prev : ℕ) : PacketMem :=
  (w.mergePrev prev).1.mergeNext (w.mergePrev prev).2

/-- `packetmem_free` behind its search. -/
def insertFree (h prev : ℕ) : PacketMem :=
  let after := if prev = 0 then w.freelist else w.next prev
  ((w.set h { w.mem h with next := after }).relink prev h).mergeItems prev

def packetmemFree (h : ℕ) : Option PacketMem :=
  (w.findPlace h).map fun prev => w.insertFree h prev

end PacketMem

inductive PmOp where
  | alloc (length : UInt64)
  | free (h : ℕ)

namespace PacketMem

variable (w : PacketMem)

/-- The allocations after a call of `packetmem_alloc`. -/
def grant (length : UInt64) : Option ℕ → PacketMem
  | none => w
  | some h => { w with live := ⟨h, (w.mem h).base, length⟩ :: w.live }

/-- One call; a loop that does not end leaves the allocator hung. -/
def step : PmOp → PacketMem
  | .alloc length =>
    match w.packetmemAlloc length with
    | none => { w with hung := true }
    | some r => r.1.grant length r.2
  | .free h =>
    match w.packetmemFree h with
    | none => { w with hung := true }
    | some w' => { w' with live := w'.live.filter fun a => a.handle ≠ h }

open PacketMem (step)

/-- Lengths are positive, and only live handles are freed. -/
def Ok : PmOp → Prop
  | .alloc length => 0 < length
  | .free h => ∃ a ∈ w.live, a.handle = h

instance (w : PacketMem) : DecidablePred w.Ok := fun op => by
  cases op <;> dsimp only [Ok] <;> infer_instance

def span (p : ℕ) : Span ℕ :=
  ⟨(w.mem p).base.toNat, (w.mem p).base.toNat + (w.mem p).len.toNat⟩

def handles : List ℕ := w.live.map Allocation.handle

/-- The handles `ps` are distinct, and their ranges tile the memory. -/
structure Parts (w : PacketMem) (size : UInt64) (ps : List ℕ) : Prop where
  nodup : ps.Nodup
  bound : ∀ p ∈ ps, 0 < p ∧ p ≤ w.count
  tiles : Tiles ⟨0, size.toNat⟩ (ps.map w.span)
  le : ∀ p ∈ ps, (w.span p).hi ≤ size.toNat
  pos : ∀ p ∈ ps, 0 < size.toNat → 0 < (w.mem p).len.toNat

variable {x : Handle}

section Parts

variable {w w' : PacketMem} {size length : UInt64} {ps qs xs : List ℕ} {p q h : ℕ}

theorem Parts.perm (hp : Parts w size ps) (hperm : ps.Perm qs) : Parts w size qs where
  nodup := hperm.nodup_iff.mp hp.nodup
  bound r hr := hp.bound r (hperm.mem_iff.mpr hr)
  tiles := hp.tiles.perm (hperm.map _)
  le r hr := hp.le r (hperm.mem_iff.mpr hr)
  pos r hr := hp.pos r (hperm.mem_iff.mpr hr)

theorem span_lt_iff : (w.span p).lo < (w.span p).hi ↔ 0 < (w.mem p).len.toNat := by
  simp only [span]
  omega

/-- The range lies in the memory and is not empty. -/
def Inside (size : UInt64) (s : Span ℕ) : Prop := s.hi ≤ size.toNat ∧ (0 < size.toNat → s.lo < s.hi)

theorem Parts.inside (hp : Parts w size ps) (hmem : p ∈ ps) : Inside size (w.span p) :=
  ⟨hp.le p hmem, fun hsize => span_lt_iff.mpr (hp.pos p hmem hsize)⟩

theorem parts_of_inside (hnodup : ps.Nodup) (hbound : ∀ p ∈ ps, 0 < p ∧ p ≤ w.count)
    (htiles : Tiles ⟨0, size.toNat⟩ (ps.map w.span)) (hinside : ∀ p ∈ ps, Inside size (w.span p)) :
    Parts w size ps :=
  ⟨hnodup, hbound, htiles, fun p hp => (hinside p hp).1,
    fun p hp hsize => span_lt_iff.mp ((hinside p hp).2 hsize)⟩

theorem Parts.congr (hp : Parts w size ps) (hcount : w'.count = w.count)
    (hspan : w'.span = w.span) : Parts w' size ps :=
  parts_of_inside hp.nodup (hcount ▸ hp.bound) (hspan ▸ hp.tiles) (hspan ▸ fun _ => hp.inside)

theorem Parts.length_le (hp : Parts w size (xs ++ ps)) : xs.length ≤ w.count := by
  have hnodup := (nodup_append.mp hp.nodup).1
  have hsub : xs ⊆ List.range' 1 w.count := by
    intro r hr
    have hr := hp.bound r (mem_append_left _ hr)
    rw [mem_range'_1]
    omega
  simpa using (hnodup.subperm hsub).length_le

theorem Parts.fresh (hp : Parts w size ps) : w.count + 1 ∉ ps := fun hmem => by
  have := hp.bound _ hmem
  omega

theorem set_same {β : Type} (f : Handle → β) (hf : f x = f (w.mem p)) (r : ℕ) :
    f ((w.set p x).mem r) = f (w.mem r) :=
  Linked.apply_update_same f hf r

theorem next_set : (w.set p x).next = update w.next p x.next :=
  comp_update Handle.next w.mem p x

theorem span_set (hbase : x.base = (w.mem p).base) (hlen : x.len = (w.mem p).len) :
    (w.set p x).span = w.span := by
  funext r
  rw [span, span, set_same Handle.base hbase, set_same Handle.len hlen]

theorem Parts.splitHandle_span (hp : Parts w size (p :: ps))
    (hlt : length.toNat < (w.mem p).len.toNat) : (w.splitHandle p length).span (w.count + 1) =
        ⟨(w.span p).lo, (w.span p).lo + length.toNat⟩ ∧
      (w.splitHandle p length).span p = ⟨(w.span p).lo + length.toNat, (w.span p).hi⟩ ∧
      ∀ r ∈ ps, (w.splitHandle p length).span r = w.span r := by
  have hle : (w.mem p).base.toNat + (w.mem p).len.toNat ≤ size.toNat := hp.le p mem_cons_self
  have hsize := size.toNat_lt
  have hfresh := hp.fresh
  have hnew : p ≠ w.count + 1 := fun heq => hfresh (heq ▸ mem_cons_self)
  have hself : (w.splitHandle p length).mem p =
      { w.mem p with base := (w.mem p).base + length, len := (w.mem p).len - length } := by
    simp [splitHandle, set, update_of_ne hnew]
  have hbase : ((w.mem p).base + length).toNat = (w.mem p).base.toNat + length.toNat := by
    rw [UInt64.toNat_add, Nat.mod_eq_of_lt (by omega)]
  have hlen : ((w.mem p).len - length).toNat = (w.mem p).len.toNat - length.toNat :=
    UInt64.toNat_sub_of_le _ _ (by rw [UInt64.le_iff_toNat_le]; omega)
  refine ⟨?_, ?_, fun r hr => ?_⟩
  · simp [span, splitHandle, set, update_of_ne hnew.symm]
  · simp only [span, hself, hbase, hlen, Span.mk.injEq, true_and]
    omega
  · have hrp : r ≠ p := fun heq => (nodup_cons.mp hp.nodup).1 (heq ▸ hr)
    have hrn : r ≠ w.count + 1 := fun heq => hfresh (heq ▸ mem_cons_of_mem _ hr)
    simp [span, splitHandle, set, update_of_ne hrp, update_of_ne hrn]

theorem Parts.split (hp : Parts w size (p :: ps)) (hlength : 0 < length.toNat)
    (hlt : length.toNat < (w.mem p).len.toNat) :
    Parts (w.splitHandle p length) size ((w.count + 1) :: p :: ps) := by
  obtain ⟨hnew, hself, hother⟩ := hp.splitHandle_span hlt
  have hhi : (w.span p).hi = (w.span p).lo + (w.mem p).len.toNat := rfl
  have hle := hp.le p mem_cons_self
  refine parts_of_inside (nodup_cons.mpr ⟨hp.fresh, hp.nodup⟩) ?_ ?_ ?_
  · intro r hr
    have hcount : (w.splitHandle p length).count = w.count + 1 := rfl
    rcases mem_cons.mp hr with rfl | hr
    · omega
    · have := hp.bound r hr
      omega
  · rw [map_cons, map_cons, hnew, hself, map_congr_left hother,
      Spans.tiles_cut (by omega) (by omega)]
    exact hp.tiles
  · rw [forall_mem_cons, forall_mem_cons, hnew, hself]
    refine ⟨⟨?_, fun _ => ?_⟩, ⟨hle, fun _ => ?_⟩, fun r hr => ?_⟩
    · dsimp only
      omega
    · dsimp only
      omega
    · dsimp only
      omega
    · rw [hother r hr]
      exact hp.inside (mem_cons_of_mem _ hr)

theorem Parts.meets_iff (hp : Parts w size ps) (hmem : p ∈ ps) :
    w.meets p q = true ↔ (w.span p).hi = (w.span q).lo := by
  have hle : (w.mem p).base.toNat + (w.mem p).len.toNat ≤ size.toNat := hp.le p hmem
  have hsize := size.toNat_lt
  rw [meets, beq_iff_eq, ← UInt64.toNat_inj, UInt64.toNat_add, Nat.mod_eq_of_lt (by omega)]
  rfl

variable (hp : Parts w size (p :: q :: ps)) (hmeets : w.meets p q = true)
include hp p hmeets

theorem Parts.absorb_span :
    (w.absorb p q).span p = ⟨(w.span p).lo, (w.span q).hi⟩ ∧
      ∀ r ∈ ps, (w.absorb p q).span r = w.span r := by
  have hjoin := (hp.meets_iff mem_cons_self).mp hmeets
  have hle : (w.mem q).base.toNat + (w.mem q).len.toNat ≤ size.toNat := hp.le q (by simp)
  have hsize := size.toNat_lt
  simp only [span] at hjoin
  have hlen : ((w.mem p).len + (w.mem q).len).toNat =
      (w.mem p).len.toNat + (w.mem q).len.toNat := by
    rw [UInt64.toNat_add, Nat.mod_eq_of_lt (by omega)]
  refine ⟨?_, fun r hr => ?_⟩
  · simp only [span, absorb, set, update_self, hlen, Span.mk.injEq, true_and]
    omega
  · have hrp : r ≠ p := fun heq =>
      (nodup_cons.mp hp.nodup).1 (heq ▸ mem_cons_of_mem _ hr)
    simp [span, absorb, set, update_of_ne hrp]

theorem Parts.absorb : Parts (w.absorb p q) size (p :: ps) := by
  obtain ⟨hself, hother⟩ := hp.absorb_span hmeets
  have hjoin := (hp.meets_iff mem_cons_self).mp hmeets
  have hp_le : (w.span p).lo ≤ (w.span p).hi := Nat.le_add_right _ _
  have hq_le : (w.span q).lo ≤ (w.span q).hi := Nat.le_add_right _ _
  have hsub : (p :: ps).Sublist (p :: q :: ps) := (sublist_cons_self q ps).cons_cons p
  refine parts_of_inside (hp.nodup.sublist hsub) (fun r hr => hp.bound r (hsub.subset hr)) ?_ ?_
  · have htiles := hp.tiles
    have hcut : w.span q = ⟨(w.span p).hi, (w.span q).hi⟩ := by rw [hjoin]
    rw [map_cons, map_cons, hcut] at htiles
    rw [map_cons, hself, map_congr_left hother]
    exact (Spans.tiles_cut hp_le (hjoin ▸ hq_le)).mp htiles
  · rw [forall_mem_cons, hself]
    refine ⟨⟨hp.le q (by simp), fun hpos => ?_⟩, fun r hr => ?_⟩
    · have hlt := (hp.inside mem_cons_self).2 hpos
      exact lt_of_lt_of_le hlt (hjoin.le.trans hq_le)
    · rw [hother r hr]
      exact hp.inside (by simp [hr])

end Parts

/-- The free list is `xs`, and together with the handles `hs` it tiles the memory. -/
structure Shape (w : PacketMem) (size : UInt64) (xs hs : List ℕ) : Prop where
  chain : Chain w.next 0 w.freelist xs
  parts : Parts w size (xs ++ hs)

/-- The ranges of the handles `hs` and the allocations are the same. -/
structure Keeps (w w' : PacketMem) (hs : List ℕ) : Prop where
  base : ∀ r ∈ hs, (w'.mem r).base = (w.mem r).base
  len : ∀ r ∈ hs, (w'.mem r).len = (w.mem r).len
  live : w'.live = w.live
  hung : w'.hung = w.hung

section Shape

variable {w w' w'' : PacketMem} {size length : UInt64} {xs as bs cs ds hs : List ℕ} {p q h v : ℕ}

theorem Shape.parts_middle (h : Shape w size (as ++ p :: bs) hs) :
    Parts w size (p :: (as ++ (bs ++ hs))) := by
  refine h.parts.perm ?_
  rw [append_assoc, cons_append]
  exact perm_middle

theorem perm_move (p : ℕ) (as bs hs : List ℕ) :
    ((as ++ p :: bs) ++ hs).Perm ((as ++ bs) ++ p :: hs) := by
  rw [append_assoc, cons_append]
  refine perm_middle.trans ?_
  rw [← append_assoc]
  exact perm_middle.symm

theorem keeps_refl (w : PacketMem) (hs : List ℕ) : Keeps w w hs :=
  ⟨fun _ _ => rfl, fun _ _ => rfl, rfl, rfl⟩

theorem Keeps.trans (h : Keeps w w' hs) (h' : Keeps w' w'' hs) : Keeps w w'' hs where
  base r hr := (h'.base r hr).trans (h.base r hr)
  len r hr := (h'.len r hr).trans (h.len r hr)
  live := h'.live.trans h.live
  hung := h'.hung.trans h.hung

theorem keeps_set (hp : p ∉ hs) : Keeps w (w.set p x) hs := by
  have hmem : ∀ r ∈ hs, (w.set p x).mem r = w.mem r := by
    intro r hr
    have hrp : r ≠ p := fun heq => hp (heq ▸ hr)
    exact update_of_ne hrp _ _
  exact ⟨fun r hr => by rw [hmem r hr], fun r hr => by rw [hmem r hr], rfl, rfl⟩

theorem relink_next : (w.relink p v).next = if p = 0 then w.next else update w.next p v := by
  rw [relink]
  split
  · rfl
  · exact next_set

theorem relink_freelist : (w.relink p v).freelist = if p = 0 then v else w.freelist := by
  rw [relink]
  split <;> rfl

theorem relink_keeps (hs : List ℕ) : Keeps w (w.relink p v) hs := by
  rw [relink]
  split
  · exact ⟨fun _ _ => rfl, fun _ _ => rfl, rfl, rfl⟩
  · exact ⟨fun r _ => set_same Handle.base (by rfl) r, fun r _ => set_same Handle.len (by rfl) r,
      rfl, rfl⟩

theorem relink_count : (w.relink p v).count = w.count := by
  rw [relink]
  split <;> rfl

theorem relink_span : (w.relink p v).span = w.span := by
  rw [relink]
  split
  · rfl
  · exact span_set rfl rfl

theorem Parts.relink (hp : Parts w size cs) : Parts (w.relink p v) size cs :=
  hp.congr relink_count relink_span

theorem Shape.ne_zero (h : Shape w size xs hs) (hp : p ∈ xs) : p ≠ 0 := h.chain.ne_nil hp

theorem Shape.notMem (h : Shape w size xs hs) (hp : p ∈ xs) : p ∉ hs := fun hmem =>
  (nodup_append.mp h.parts.nodup).2.2 p hp p hmem rfl

theorem Shape.relink_chain (h : Shape w size (as ++ bs) hs) (hcs : Chain w.next 0 v cs)
    (hapart : ∀ x ∈ as, x ∉ cs) :
    Chain (w.relink (as.getLastD 0) v).next 0 (w.relink (as.getLastD 0) v).freelist
      (as ++ cs) := by
  have hnodup := (nodup_append.mp (nodup_append.mp h.parts.nodup).1).1
  rw [relink_next, relink_freelist]
  exact h.chain.relink hnodup hapart hcs

theorem Shape.remove (h : Shape w size (as ++ p :: bs) hs) :
    Shape (w.relink (as.getLastD 0) (w.next p)) size (as ++ bs) (p :: hs) where
  chain := by
    refine h.relink_chain h.chain.drop.2.2 fun x hx hmem => ?_
    have hnodup := (nodup_append.mp (nodup_append.mp h.parts.nodup).1).2.2
    exact hnodup x hx x (mem_cons_of_mem _ hmem) rfl
  parts := h.parts.relink.perm (perm_move p as bs hs)

theorem Shape.splitHandle (h : Shape w size (as ++ p :: bs) hs) (hlength : 0 < length.toNat)
    (hlt : length.toNat < (w.mem p).len.toNat) :
    Shape (w.splitHandle p length) size (as ++ p :: bs) ((w.count + 1) :: hs) where
  chain := by
    have hfresh : w.count + 1 ∉ as ++ p :: bs := fun hmem =>
      h.parts.fresh (mem_append_left _ hmem)
    refine h.chain.congr fun r hr => ?_
    have hrn : r ≠ w.count + 1 := fun heq => hfresh (heq ▸ hr)
    by_cases hrp : r = p
    · subst hrp
      simp [next, PacketMem.splitHandle, set, hrn]
    · simp [next, PacketMem.splitHandle, set, hrn, hrp]
  parts := by
    refine (h.parts_middle.split hlength hlt).perm ?_
    rw [append_assoc, cons_append]
    have hmove : (p :: (as ++ (bs ++ hs))).Perm (as ++ p :: (bs ++ hs)) := perm_middle.symm
    refine (hmove.cons _).trans ?_
    have hlast : (as ++ p :: (bs ++ (w.count + 1) :: hs)) =
        (as ++ p :: bs) ++ (w.count + 1) :: hs := by simp
    have hfirst : as ++ p :: (bs ++ hs) = (as ++ p :: bs) ++ hs := by simp
    rw [hlast, hfirst]
    exact perm_middle.symm

theorem Shape.insert (h : Shape w size (as ++ bs) (q :: hs)) :
    Shape ((w.set q { w.mem q with
        next := if as.getLastD 0 = 0 then w.freelist else w.next (as.getLastD 0) }).relink
      (as.getLastD 0) q) size (as ++ q :: bs) hs := by
  have hq : q ∉ as ++ bs := fun hmem => h.notMem hmem mem_cons_self
  have hq0 : q ≠ 0 := Nat.pos_iff_ne_zero.mp (h.parts.bound q (by simp)).1
  have hbs := h.chain.behind
  generalize (if as.getLastD 0 = 0 then w.freelist else w.next (as.getLastD 0)) = after at hbs ⊢
  have hset : Shape (w.set q { w.mem q with next := after }) size (as ++ bs) (q :: hs) := by
    refine ⟨?_, h.parts.congr rfl (span_set rfl rfl)⟩
    rw [next_set]
    exact h.chain.update hq _
  refine ⟨hset.relink_chain ?_ ?_, hset.parts.relink.perm (perm_move q as bs hs).symm⟩
  · rw [next_set]
    exact hbs.pushFront hq0 fun hmem => hq (mem_append_right _ hmem)
  · intro x hx hmem
    rcases mem_cons.mp hmem with rfl | hmem
    · exact hq (mem_append_left _ hx)
    · exact (nodup_append.mp (nodup_append.mp h.parts.nodup).1).2.2 x hx x hmem rfl

theorem Shape.absorb (h : Shape w size (cs ++ p :: q :: ds) hs) (hmeets : w.meets p q = true) :
    Shape (w.absorb p q) size (cs ++ p :: ds) hs where
  chain := by
    rw [PacketMem.absorb, next_set]
    exact h.chain.unlink (nodup_append.mp h.parts.nodup).1
  parts := by
    have hparts : Parts w size (p :: q :: (cs ++ (ds ++ hs))) := by
      refine h.parts.perm ?_
      rw [append_assoc, cons_append, cons_append]
      exact perm_middle.trans (perm_middle.cons p)
    refine (hparts.absorb hmeets).perm ?_
    rw [append_assoc, cons_append]
    exact perm_middle.symm

theorem Shape.absorb_keeps (h : Shape w size xs hs) (hp : p ∈ xs) : Keeps w (w.absorb p q) hs :=
  keeps_set (h.notMem hp)

theorem Shape.mergeNext (h : Shape w size (cs ++ p :: ds) hs) :
    ∃ ds', Shape (w.mergeNext p) size (cs ++ p :: ds') hs ∧ Keeps w (w.mergeNext p) hs := by
  rw [PacketMem.mergeNext]
  split
  · next hmerge =>
    have hchain := h.chain.drop.2.2
    cases ds with
    | nil => exact absurd hchain hmerge.1
    | cons q ds =>
      obtain ⟨hq, -, -⟩ := hchain
      rw [hq] at hmerge ⊢
      exact ⟨ds, h.absorb hmerge.2, h.absorb_keeps (by simp)⟩
  · exact ⟨ds, h, keeps_refl w hs⟩

/-- The first half of `merge_items`, for the handle `q` behind the handles `as`. -/
theorem Shape.mergePrev (h : Shape w size (as ++ q :: bs) hs) :
    ∃ cs p ds, (w.mergePrev (as.getLastD 0)).2 = p ∧
      Shape (w.mergePrev (as.getLastD 0)).1 size (cs ++ p :: ds) hs ∧
      Keeps w (w.mergePrev (as.getLastD 0)).1 hs := by
  rw [PacketMem.mergePrev]
  rcases eq_nil_or_concat' as with rfl | ⟨as, p, rfl⟩
  · exact ⟨[], q, bs, h.chain.1, h, keeps_refl w hs⟩
  have hp : p ≠ 0 := h.ne_zero (by simp)
  rw [getLastD_concat, if_neg hp]
  rw [append_assoc, singleton_append] at h
  have hq : w.next p = q := h.chain.drop.2.2.1
  rw [hq]
  split
  · next hmeets =>
    exact ⟨as, p, bs, rfl, h.absorb hmeets, h.absorb_keeps (by simp)⟩
  · refine ⟨as ++ [p], q, bs, rfl, ?_, keeps_refl w hs⟩
    rw [append_assoc, singleton_append]
    exact h

theorem Shape.insertFree (h : Shape w size (as ++ bs) (q :: hs)) :
    ∃ xs, Shape (w.insertFree q (as.getLastD 0)) size xs hs ∧
      Keeps w (w.insertFree q (as.getLastD 0)) hs := by
  have hq : q ∉ hs := by
    have hnodup := (nodup_append.mp h.parts.nodup).2.1
    exact (nodup_cons.mp hnodup).1
  have hkeeps₀ : Keeps w ((w.set q { w.mem q with
        next := if as.getLastD 0 = 0 then w.freelist else w.next (as.getLastD 0) }).relink
      (as.getLastD 0) q) hs := (keeps_set hq).trans (relink_keeps hs)
  obtain ⟨cs, p, ds, hp, h₁, hkeeps₁⟩ := h.insert.mergePrev
  obtain ⟨ds', h₂, hkeeps₂⟩ := h₁.mergeNext
  unfold PacketMem.insertFree mergeItems
  dsimp only
  rw [hp]
  exact ⟨_, h₂, (hkeeps₀.trans hkeeps₁).trans hkeeps₂⟩

end Shape

/-- What holds between calls, with the free list `xs`. -/
structure Inv (size : UInt64) (w : PacketMem) (xs : List ℕ) : Prop where
  running : w.hung = false
  shape : Shape w size xs w.handles
  granted : ∀ a ∈ w.live, (w.mem a.handle).base = a.off ∧ (w.mem a.handle).len = a.length

def Sound (size : UInt64) (w : PacketMem) : Prop := ∃ xs, Inv size w xs

/-- The handles of the allocations other than `q`. -/
def kept (w : PacketMem) (q : ℕ) : List ℕ :=
  (w.live.filter fun a => a.handle ≠ q).map Allocation.handle

/-- The handles of the free list. -/
def freeHandles (w : PacketMem) : List ℕ := Linked.cells w.next 0 w.count w.freelist

section Inv

variable {w w' : PacketMem} {size length : UInt64} {xs xs' as bs : List ℕ} {p h : ℕ}

theorem Inv.init (size : UInt64) : Inv size (packetmemInit size) [1] where
  running := rfl
  shape := by
    refine ⟨⟨rfl, by simp, rfl⟩, by simp [packetmemInit, handles], ?_, ?_, ?_, ?_⟩
    · simp [packetmemInit, handles]
    · have hspans : ([1] ++ (packetmemInit size).handles).map (packetmemInit size).span =
          [⟨0, size.toNat⟩] := by
        simp [packetmemInit, handles, span]
      rw [hspans]
      exact Spans.tiles_singleton _
    · simp [packetmemInit, handles, span]
    · simp [packetmemInit, handles]
  granted := by simp [packetmemInit]

theorem Inv.freeHandles_eq (h : Inv size w xs) : w.freeHandles = xs :=
  h.shape.chain.cells_eq h.shape.parts.length_le

theorem Inv.alloc_cases (h : Inv size w xs) (length : UInt64) :
    (w.packetmemAlloc length = some (w, none) ∧ ∀ p ∈ xs, (w.mem p).len < length) ∨
      ∃ as p bs, xs = as ++ p :: bs ∧
        ((w.packetmemAlloc length = some (w.relink (as.getLastD 0) (w.next p), some p) ∧
            (w.mem p).len = length) ∨
          (w.packetmemAlloc length = some (w.splitHandle p length, some (w.count + 1)) ∧
            length.toNat < (w.mem p).len.toNat)) := by
  have hfuel : xs.length < w.count + 1 := Nat.lt_succ_of_le h.shape.parts.length_le
  rw [packetmemAlloc, findFit, h.shape.chain.trail_eq 0 hfuel, Option.map_some]
  set test := fun p => decide ((w.mem p).len < length) with htest
  cases hdrop : xs.dropWhile test with
  | nil =>
    refine Or.inl ⟨rfl, fun p hp => ?_⟩
    have hall := dropWhile_eq_nil_iff.mp hdrop p hp
    simpa [htest] using hall
  | cons p bs =>
    have hxs : xs = xs.takeWhile test ++ p :: bs := by
      rw [← hdrop, takeWhile_append_dropWhile]
    have hp0 : p ≠ 0 := h.shape.ne_zero (by rw [hxs]; simp)
    have hlong : ¬(w.mem p).len < length := by
      have hstop := head?_dropWhile_not test xs
      rw [hdrop] at hstop
      simpa [htest] using hstop
    refine Or.inr ⟨xs.takeWhile test, p, bs, hxs, ?_⟩
    rw [headD_cons, if_neg hp0]
    by_cases hlen : (w.mem p).len = length
    · rw [if_pos hlen]
      exact Or.inl ⟨rfl, hlen⟩
    rw [if_neg hlen]
    refine Or.inr ⟨rfl, ?_⟩
    rw [UInt64.lt_iff_toNat_lt] at hlong
    rw [← UInt64.toNat_inj] at hlen
    omega

theorem Inv.remove (h : Inv size w (as ++ p :: bs)) :
    Inv size ((w.relink (as.getLastD 0) (w.next p)).grant (w.mem p).len (some p)) (as ++ bs) := by
  have hkeeps : Keeps w (w.relink (as.getLastD 0) (w.next p)) (p :: w.handles) := relink_keeps _
  refine ⟨hkeeps.hung.trans h.running, ?_, ?_⟩
  · have hshape := h.shape.remove
    rw [handles, ← hkeeps.live] at hshape
    exact ⟨hshape.chain, hshape.parts.congr rfl rfl⟩
  · intro a ha
    rcases mem_cons.mp ha with rfl | ha
    · exact ⟨rfl, hkeeps.len p (by simp)⟩
    rw [hkeeps.live] at ha
    have hmem : a.handle ∈ p :: w.handles := mem_cons_of_mem _ (mem_map_of_mem ha)
    exact ⟨(hkeeps.base _ hmem).trans (h.granted a ha).1,
      (hkeeps.len _ hmem).trans (h.granted a ha).2⟩

theorem Inv.splitHandle (h : Inv size w (as ++ p :: bs)) (hlength : 0 < length.toNat)
    (hlt : length.toNat < (w.mem p).len.toNat) :
    Inv size ((w.splitHandle p length).grant length (some (w.count + 1))) (as ++ p :: bs) := by
  have hshape := h.shape.splitHandle hlength hlt
  refine ⟨h.running, ⟨hshape.chain, hshape.parts.congr rfl rfl⟩, ?_⟩
  have hp : p ≠ w.count + 1 := fun heq =>
    h.shape.parts.fresh (heq ▸ mem_append_left _ (by simp))
  intro a ha
  rcases mem_cons.mp ha with rfl | ha
  · refine ⟨rfl, ?_⟩
    simp [grant, PacketMem.splitHandle, set, hp.symm]
  have hmem : a.handle ∈ w.handles := mem_map_of_mem ha
  have hap : a.handle ≠ p := fun heq => h.shape.notMem (p := p) (by simp) (heq ▸ hmem)
  have han : a.handle ≠ w.count + 1 := fun heq =>
    h.shape.parts.fresh (heq ▸ mem_append_right _ hmem)
  have hkept : ((w.splitHandle p length).grant length (some (w.count + 1))).mem a.handle =
      w.mem a.handle := by
    simp [grant, PacketMem.splitHandle, set, hap, han]
  rw [hkept]
  exact h.granted a ha

theorem Inv.free_eq (h : Inv size w xs) (q : ℕ) :
    ∃ as bs, xs = as ++ bs ∧ w.packetmemFree q = some (w.insertFree q (as.getLastD 0)) ∧
      as = xs.takeWhile fun p =>
        decide (w.next p ≠ 0 ∧ (w.mem (w.next p)).base < (w.mem q).base) := by
  have hfuel : xs.length < w.count + 1 := Nat.lt_succ_of_le h.shape.parts.length_le
  refine ⟨_, _, (takeWhile_append_dropWhile (p := fun p =>
    decide (w.next p ≠ 0 ∧ (w.mem (w.next p)).base < (w.mem q).base))).symm, ?_, rfl⟩
  rw [packetmemFree, findPlace, h.shape.chain.trail_eq 0 hfuel]
  rfl

theorem Inv.shape_free (h : Inv size w xs) {q : ℕ} (hq : ∃ a ∈ w.live, a.handle = q) :
    Shape w size xs (q :: w.kept q) := by
  obtain ⟨a, ha, rfl⟩ := hq
  have hmem : a.handle ∈ w.handles := mem_map_of_mem ha
  have hnodup : w.handles.Nodup := (nodup_append.mp h.shape.parts.nodup).2.1
  have hfilter : w.kept a.handle = w.handles.erase a.handle := by
    rw [kept, hnodup.erase_eq_filter, handles, filter_map]
    congr 1
    apply filter_congr
    intro b _
    exact Bool.eq_iff_iff.mpr (by simp)
  rw [hfilter]
  exact ⟨h.shape.chain, h.shape.parts.perm ((perm_cons_erase hmem).append_left xs)⟩

theorem Inv.free_done (h : Inv size w xs) {q : ℕ}
    (hshape : Shape w' size xs' (w.kept q)) (hkeeps : Keeps w w' (w.kept q)) :
    Inv size { w' with live := w'.live.filter fun a => a.handle ≠ q } xs' := by
  refine ⟨hkeeps.hung.trans h.running, ?_, ?_⟩
  · rw [kept, ← hkeeps.live] at hshape
    exact ⟨hshape.chain, hshape.parts.congr rfl rfl⟩
  · intro a ha
    rw [hkeeps.live] at ha
    have hmem := mem_map_of_mem (f := Allocation.handle) ha
    have hgranted := h.granted a (mem_of_mem_filter ha)
    exact ⟨(hkeeps.base _ hmem).trans hgranted.1, (hkeeps.len _ hmem).trans hgranted.2⟩

theorem Inv.free (h : Inv size w xs) {q : ℕ} (hq : ∃ a ∈ w.live, a.handle = q) :
    Sound size (w.step (.free q)) := by
  obtain ⟨as, bs, rfl, hrun, -⟩ := h.free_eq q
  obtain ⟨xs', hshape, hkeeps⟩ := (h.shape_free hq).insertFree
  rw [step, hrun]
  exact ⟨xs', h.free_done hshape hkeeps⟩

theorem Inv.alloc (h : Inv size w xs) (hlength : 0 < length) :
    Sound size (w.step (.alloc length)) := by
  rw [step]
  rcases h.alloc_cases length with ⟨hrun, -⟩ | ⟨as, p, bs, rfl, ⟨hrun, rfl⟩ | ⟨hrun, hlt⟩⟩
  · rw [hrun]
    exact ⟨xs, h⟩
  · rw [hrun]
    exact ⟨_, h.remove⟩
  · rw [hrun]
    exact ⟨_, h.splitHandle (UInt64.lt_iff_toNat_lt.mp hlength) hlt⟩

theorem Inv.step (h : Inv size w xs) {op : PmOp} (hok : w.Ok op) : Sound size (w.step op) := by
  cases op with
  | alloc length => exact h.alloc hok
  | free q => exact h.free hok

/-- The free ranges and the ranges of the allocations. -/
def ranges (w : PacketMem) : List (Span ℕ) := w.freeHandles.map w.span ++ w.live.map Allocation.span

theorem Inv.ranges_eq (h : Inv size w xs) : w.ranges = (xs ++ w.handles).map w.span := by
  rw [ranges, h.freeHandles_eq, map_append, handles, map_map]
  congr 1
  apply map_congr_left
  intro a ha
  obtain ⟨hoff, hlength⟩ := h.granted a ha
  rw [comp_apply, span, hoff, hlength, Allocation.span]

/-- Free ranges and allocations tile the memory, and an allocation has the length asked for. -/
theorem allocations_tile (size : UInt64) (ops : List PmOp)
    (hrun : Run.Admissible step Ok (packetmemInit size) ops) :
    let w := ops.foldl step (packetmemInit size)
    w.hung = false ∧ Chain w.next 0 w.freelist w.freeHandles ∧
      (w.ranges.Pairwise fun s t => ∀ x, s.Mem x → ¬t.Mem x) ∧
      (∀ x, x < size.toNat ↔ ∃ s ∈ w.ranges, s.Mem x) ∧
      ∀ length, 0 < length → ∃ w' r, w.packetmemAlloc length = some (w', r) ∧
        (∀ h, r = some h → (w'.mem h).len = length) ∧
        (r = none → ∀ p ∈ w.freeHandles, (w.mem p).len < length) := by
  intro w
  have hsound : Sound size w := by
    refine hrun.invariant ⟨[1], Inv.init size⟩ ?_
    rintro _ _ ⟨xs, h⟩ hok
    exact h.step hok
  obtain ⟨xs, h⟩ := hsound
  have htiles := h.shape.parts.tiles
  rw [← h.ranges_eq] at htiles
  refine ⟨h.running, ?_, htiles.disjoint, fun x => ?_, fun length hlength => ?_⟩
  · rw [h.freeHandles_eq]
    exact h.shape.chain
  · have hmem := htiles.mem_iff x
    simpa [Span.Mem, Spans.Covers] using hmem
  · rw [h.freeHandles_eq]
    rcases h.alloc_cases length with ⟨hrun, hall⟩ | ⟨as, p, bs, rfl, ⟨hrun, hlen⟩ | ⟨hrun, -⟩⟩
    · exact ⟨_, _, hrun, by simp, fun _ => hall⟩
    · refine ⟨_, _, hrun, fun q hq => ?_, by simp⟩
      obtain rfl := Option.some.inj hq
      exact ((relink_keeps [p]).len p (by simp)).trans hlen
    · refine ⟨_, _, hrun, fun q hq => ?_, by simp⟩
      obtain rfl := Option.some.inj hq
      have hp : p ≠ w.count + 1 := fun heq =>
        h.shape.parts.fresh (heq ▸ mem_append_left _ (by simp))
      simp [PacketMem.splitHandle, set, hp.symm]

def reuse : List PmOp := [.alloc 10, .alloc 6, .free 2, .alloc 4]

theorem allocations_tile_reuse :
    let w := reuse.foldl step (packetmemInit 32)
    w.hung = false ∧ Chain w.next 0 w.freelist w.freeHandles ∧
      (w.ranges.Pairwise fun s t => ∀ x, s.Mem x → ¬t.Mem x) ∧
      (∀ x, x < (32 : UInt64).toNat ↔ ∃ s ∈ w.ranges, s.Mem x) ∧
      ∀ length, 0 < length → ∃ w' r, w.packetmemAlloc length = some (w', r) ∧
        (∀ h, r = some h → (w'.mem h).len = length) ∧
        (r = none → ∀ p ∈ w.freeHandles, (w.mem p).len < length) :=
  allocations_tile 32 reuse (by decide +kernel)

end Inv

/-- The free list is in order, and no two ranges in it touch. -/
def Coalesced (w : PacketMem) : Prop := (w.freeHandles.map w.span).Pairwise Spans.Apart
deriving Decidable

/-- Only handles that lie below the whole free list are freed. -/
def Below (w : PacketMem) : PmOp → Prop
  | .alloc length => 0 < length
  | .free h => (∃ a ∈ w.live, a.handle = h) ∧ ∀ p ∈ w.freeHandles, (w.mem h).base < (w.mem p).base

instance (w : PacketMem) : DecidablePred w.Below := fun op => by
  cases op <;> dsimp only [Below] <;> infer_instance

section Coalescing

variable {w w' : PacketMem} {size length : UInt64} {xs xs' as bs : List ℕ} {p q h : ℕ}

/-- What holds between calls if freed handles lie below the free list. -/
structure Tidy (size : UInt64) (w : PacketMem) (xs : List ℕ) : Prop extends Inv size w xs where
  apart : (xs.map w.span).Pairwise Spans.Apart

theorem apart_mono {s t : ℕ → Span ℕ} (h : (xs.map s).Pairwise Spans.Apart)
    (hlo : ∀ r ∈ xs, (s r).lo ≤ (t r).lo) (hhi : ∀ r ∈ xs, (t r).hi = (s r).hi) :
    (xs.map t).Pairwise Spans.Apart := by
  rw [pairwise_map] at h ⊢
  refine h.imp_of_mem fun {r r'} hr hr' happ => ?_
  unfold Spans.Apart at happ ⊢
  rw [hhi r hr]
  exact lt_of_lt_of_le happ (hlo r' hr')

theorem Tidy.alloc (h : Tidy size w xs) (hlength : 0 < length) :
    ∃ xs', Tidy size (w.step (.alloc length)) xs' := by
  rw [step]
  rcases h.alloc_cases length with ⟨hrun, -⟩ | ⟨as, p, bs, rfl, ⟨hrun, rfl⟩ | ⟨hrun, hlt⟩⟩
  · rw [hrun]
    exact ⟨xs, h⟩
  · rw [hrun]
    refine ⟨_, h.toInv.remove, ?_⟩
    have hspan : ((w.relink (as.getLastD 0) (w.next p)).grant (w.mem p).len (some p)).span =
        w.span := relink_span
    rw [hspan]
    exact h.apart.sublist (((sublist_cons_self p bs).append_left as).map _)
  · rw [hrun]
    refine ⟨_, h.toInv.splitHandle (UInt64.lt_iff_toNat_lt.mp hlength) hlt, ?_⟩
    obtain ⟨-, hself, hother⟩ := h.shape.parts_middle.splitHandle_span hlt
    have hr : ∀ r ∈ as ++ p :: bs, (w.span r).lo ≤ ((w.splitHandle p length).span r).lo ∧
        ((w.splitHandle p length).span r).hi = (w.span r).hi := by
      intro r hr
      by_cases hrp : r = p
      · subst hrp
        rw [hself]
        exact ⟨Nat.le_add_right _ _, rfl⟩
      have hmem : r ∈ as ++ (bs ++ w.handles) := by
        simp only [mem_append, mem_cons] at hr ⊢
        tauto
      rw [hother r hmem]
      exact ⟨le_rfl, rfl⟩
    exact apart_mono h.apart (fun r hmem => (hr r hmem).1) fun r hmem => (hr r hmem).2

theorem Tidy.free_eq (h : Tidy size w xs) (hbelow : ∀ p ∈ xs, (w.mem q).base < (w.mem p).base) :
    w.packetmemFree q = some (w.insertFree q 0) := by
  obtain ⟨as, bs, -, hrun, has⟩ := h.toInv.free_eq q
  have hnil : as = [] := by
    rw [has]
    cases xs with
    | nil => rfl
    | cons p xs =>
      apply takeWhile_cons_of_neg
      rw [decide_eq_true_eq, not_and]
      intro hnext
      have hmem := (h.shape.chain.next_mem (x := p) (by simp)).resolve_left hnext
      exact UInt64.lt_asymm (hbelow _ hmem)
  rw [hrun, hnil]
  rfl

theorem Tidy.hi_le (h : Tidy size w xs) (hq : ∃ a ∈ w.live, a.handle = q) (hp : p ∈ xs)
    (hbelow : (w.mem q).base < (w.mem p).base) : (w.span q).hi ≤ (w.span p).lo := by
  have hlt : (w.span q).lo < (w.span p).lo := UInt64.lt_iff_toNat_lt.mp hbelow
  have hle : (w.span p).hi ≤ size.toNat := h.shape.parts.le p (by simp [hp])
  have hlen : (w.span p).lo ≤ (w.span p).hi := Nat.le_add_right _ _
  have hpos := h.shape.parts.pos p (by simp [hp]) (by omega)
  have hself : (w.span p).Mem (w.span p).lo := ⟨le_rfl, span_lt_iff.mpr hpos⟩
  have hdisjoint := (h.shape_free hq).parts.tiles.disjoint
  rw [map_append, map_cons, pairwise_append] at hdisjoint
  by_contra hcon
  exact hdisjoint.2.2 _ (mem_map_of_mem hp) _ mem_cons_self _ hself
    ⟨hlt.le, not_le.mp hcon⟩

theorem Tidy.free (h : Tidy size w xs) (hq : ∃ a ∈ w.live, a.handle = q)
    (hbelow : ∀ p ∈ xs, (w.mem q).base < (w.mem p).base) :
    ∃ xs', Tidy size (w.step (.free q)) xs' := by
  have hshape : Shape w size ([] ++ xs) (q :: w.kept q) := h.shape_free hq
  have hqs : q ∉ w.kept q := by simp [kept]
  obtain ⟨w₁, hw₁⟩ : ∃ w₁, w₁ = (w.set q { w.mem q with next := w.freelist }).relink 0 q := ⟨_, rfl⟩
  have h₁ : Shape w₁ size (q :: xs) (w.kept q) := hw₁ ▸ hshape.insert
  have hkeeps : Keeps w w₁ (w.kept q) := hw₁ ▸ (keeps_set hqs).trans (relink_keeps _)
  have hspan : w₁.span = w.span := by
    rw [hw₁, relink_span]
    exact span_set rfl rfl
  have hrun : w.packetmemFree q = some (w₁.mergeNext q) := by
    rw [h.free_eq hbelow, hw₁]
    rfl
  have hle : ∀ p ∈ xs, (w.span q).hi ≤ (w.span p).lo := fun p hp =>
    h.hi_le hq hp (hbelow p hp)
  rw [step, hrun]
  dsimp only
  rw [PacketMem.mergeNext]
  have hnext := h₁.chain.2.2
  split
  · next hmerge =>
    cases xs with
    | nil => exact absurd hnext hmerge.1
    | cons r xs =>
      rw [hnext.1] at hmerge ⊢
      have hjoin : Shape w₁ size ([] ++ q :: r :: xs) _ := h₁
      refine ⟨q :: xs, h.toInv.free_done (hjoin.absorb hmerge.2)
        (hkeeps.trans (h₁.absorb_keeps mem_cons_self)), ?_⟩
      have hparts : Parts w₁ size (q :: r :: (xs ++ _)) := h₁.parts
      obtain ⟨hself, hother⟩ := hparts.absorb_span hmerge.2
      have hrest : xs.map (w₁.absorb q r).span = xs.map w.span := by
        rw [← hspan]
        exact map_congr_left fun p hp => hother p (mem_append_left _ hp)
      have happ := pairwise_cons.mp h.apart
      rw [hspan] at hself
      have hgoal : ((q :: xs).map (w₁.absorb q r).span).Pairwise Spans.Apart := by
        rw [map_cons, hself, hrest]
        exact pairwise_cons.mpr ⟨happ.1, happ.2⟩
      exact hgoal
  next hmerge =>
  refine ⟨q :: xs, h.toInv.free_done h₁ hkeeps, ?_⟩
  have hgoal : ((q :: xs).map w₁.span).Pairwise Spans.Apart := by
    rw [hspan, map_cons]
    refine pairwise_cons.mpr ⟨fun s hs => ?_, h.apart⟩
    obtain ⟨p, hp, rfl⟩ := mem_map.mp hs
    cases xs with
    | nil => cases hp
    | cons r xs =>
      have hr : w₁.next q = r := hnext.1
      have hgap : (w.span q).hi ≠ (w.span r).lo := by
        rw [← hspan]
        intro hmeets
        have hjoin := (h₁.parts.meets_iff (p := q) (by simp)).mpr hmeets
        exact hmerge ⟨hr ▸ h₁.ne_zero (by simp), hr ▸ hjoin⟩
      have hfirst : (w.span q).hi < (w.span r).lo := lt_of_le_of_ne (hle r (by simp)) hgap
      rcases mem_cons.mp hp with rfl | hp
      · exact hfirst
      · have happ := (pairwise_cons.mp h.apart).1 _ (mem_map_of_mem hp)
        exact hfirst.trans (lt_of_le_of_lt (Nat.le_add_right _ _) happ)
  exact hgoal

theorem Tidy.init (size : UInt64) : Tidy size (packetmemInit size) [1] := ⟨Inv.init size, by simp⟩

def Clean (size : UInt64) (w : PacketMem) : Prop := ∃ xs, Tidy size w xs

theorem Clean.step (h : Clean size w) {op : PmOp} (hok : w.Below op) : Clean size (w.step op) := by
  obtain ⟨xs, h⟩ := h
  cases op with
  | alloc length => exact h.alloc hok
  | free q => exact h.free hok.1 (h.freeHandles_eq ▸ hok.2)

theorem Tidy.span_whole (h : Tidy size w xs) (hlive : w.live = []) (hsize : 0 < size.toNat) :
    ∃ p, xs = [p] ∧ w.span p = ⟨0, size.toNat⟩ := by
  have htiles := h.shape.parts.tiles
  have hpos := h.shape.parts.pos
  rw [handles, hlive, map_nil, append_nil] at htiles hpos
  have hsep : Spans.Separated (xs.map w.span) := by
    refine ⟨h.apart, fun s hs => ?_⟩
    obtain ⟨p, hp, rfl⟩ := mem_map.mp hs
    exact span_lt_iff.mpr (hpos p hp hsize)
  have hone := htiles.eq_whole hsep hsize
  obtain ⟨p, hp, hspan⟩ := map_eq_singleton_iff.mp hone
  exact ⟨p, hp, hspan⟩

/-- If freed handles lie below the free list, it is in order and no two ranges touch. -/
theorem free_list_coalesced (size : UInt64) (ops : List PmOp)
    (hrun : Run.Admissible step Below (packetmemInit size) ops) :
    let w := ops.foldl step (packetmemInit size)
    w.Coalesced ∧ (w.live = [] → ∀ length, 0 < length → length ≤ size →
      ∃ w' h, w.packetmemAlloc length = some (w', some h)) := by
  intro w
  have hclean : Clean size w :=
    hrun.invariant ⟨[1], Tidy.init size⟩ fun _ _ h hok => h.step hok
  obtain ⟨xs, h⟩ := hclean
  refine ⟨?_, fun hlive length hpos hle => ?_⟩
  · rw [Coalesced, h.freeHandles_eq]
    exact h.apart
  · rw [UInt64.le_iff_toNat_le] at hle
    obtain ⟨p, rfl, hspan⟩ := h.span_whole hlive (Nat.lt_of_lt_of_le hpos hle)
    have hlen : (w.mem p).len.toNat = size.toNat := by
      simp only [span, Span.mk.injEq] at hspan
      omega
    rcases h.alloc_cases length with ⟨-, hshort⟩ | ⟨as, q, bs, -, ⟨hrun, -⟩ | ⟨hrun, -⟩⟩
    · have hlt := UInt64.lt_iff_toNat_lt.mp (hshort p (by simp))
      omega
    · exact ⟨_, _, hrun⟩
    · exact ⟨_, _, hrun⟩

def lifo : List PmOp := [.alloc 10, .alloc 10, .alloc 12, .free 1, .free 3, .free 2]

theorem free_list_coalesced_lifo :
    let w := lifo.foldl step (packetmemInit 32)
    w.Coalesced ∧ (w.live = [] → ∀ length, 0 < length → length ≤ 32 →
      ∃ w' h, w.packetmemAlloc length = some (w', some h)) :=
  free_list_coalesced 32 lifo (by decide +kernel)

def fifo : List PmOp := [.alloc 10, .alloc 10, .free 2, .free 1]

/-- The second range is put before the first: they are out of order, touch, and the whole memory
cannot be allocated. -/
theorem free_list_not_coalesced :
    Run.Admissible step Ok (packetmemInit 20) fifo ∧
      let w := fifo.foldl step (packetmemInit 20)
      w.freeHandles.map w.span = [⟨10, 20⟩, ⟨0, 10⟩] ∧ ¬w.Coalesced ∧ w.live = [] ∧
        (w.packetmemAlloc 20).map Prod.snd = some none := by
  decide +kernel

end Coalescing

end PacketMem

end StackBench.Tas

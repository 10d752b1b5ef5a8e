import StackBench.Lib.Linked
import StackBench.Lib.Run
import StackBench.Tas.FlowHash

/-!
# Connections in the flow hash table

`nicif_connection_add` takes a free flow id and enters the flow into the table,
`nicif_connection_disable` takes it out and `nicif_connection_free` gives the
id back. The table stands for the map from the addresses of live connections to
flow ids.
-/

namespace StackBench.Tas

open Function List

/-- The null pointer of the list of free flow ids, the number of ids. -/
def flowNull : UInt32 := 131072

/-- The table, the addresses in the flow states and the free ids; `live` and the ids in `closing`
record what the calls did. -/
structure FlowTable where
  hte : FlowHt
  flowst : UInt32 → FlowKey
  next : UInt32 → UInt32
  freelist : UInt32
  live : FlowKey → Option UInt32
  closing : List UInt32
  fault : Option SlotFault

inductive FlowTableOp where
  | add (key : FlowKey)
  | disable (f : UInt32)
  | free (f : UInt32)
deriving DecidableEq

namespace FlowTable

/-- The empty table and the list that `flow_id_alloc_init` builds. -/
def init : FlowTable where
  hte _ := ⟨0, 0⟩
  flowst _ := ⟨0, 0, 0, 0⟩
  next f := f + 1
  freelist := 0
  live _ := none
  closing := []
  fault := none

def flowIdFree (w : FlowTable) (f : UInt32) : FlowTable :=
  { w with next := update w.next f w.freelist, freelist := f }

/-- The end of `nicif_connection_add`, after `flow_slot_alloc` for the flow `f`. -/
def addFound (w : FlowTable) (h : UInt32) (key : FlowKey) (f : UInt32) (out : SlotOut) :
    FlowTable :=
  match out.slot with
  | none => { w with hte := out.hte }.flowIdFree f
  | some (i, d) =>
    if i < flowhtEntries ∧ d < 4 then
      { w with
        flowst := update w.flowst f key
        hte := update out.hte i ⟨Hte.word d f, h⟩
        live := update w.live key (some f) }
    else
      { w with hte := out.hte, fault := some .assertFailed }

variable (hash : FlowKey → UInt32) (w : FlowTable)

def add (key : FlowKey) : FlowTable :=
  if w.freelist = flowNull then w
  else
    match flowSlotAlloc w.hte (hash key) with
    | .error e => { w with freelist := w.next w.freelist, fault := some e }
    | .ok out =>
      { w with freelist := w.next w.freelist }.addFound (hash key) key w.freelist out

def disable (f : UInt32) : FlowTable :=
  { w with
    hte := flowSlotClear w.hte f (hash (w.flowst f))
    live := update w.live (w.flowst f) none
    closing := f :: w.closing }

def step : FlowTableOp → FlowTable
  | .add key => w.add hash key
  | .disable f => w.disable hash f
  | .free f => { w with closing := w.closing.erase f }.flowIdFree f

/-- A connection is added once, disabled while it lives and freed after that. -/
def Ok : FlowTableOp → Prop
  | .add key => w.live key = none
  | .disable f => w.live (w.flowst f) = some f
  | .free f => f ∈ w.closing

instance (w : FlowTable) : DecidablePred w.Ok := fun op => by
  cases op <;> dsimp only [Ok] <;> infer_instance

/-- The entries that the call moves record the displacements that they have: none
of them was moved before. -/
def MovesAccurate : FlowTableOp → Prop
  | .add key => ∀ out ∈ (flowSlotAlloc w.hte (hash key)).toOption, ∀ m ∈ out.moves, m.Accurate
  | _ => True

instance (hash : FlowKey → UInt32) (w : FlowTable) : DecidablePred (w.MovesAccurate hash) :=
  fun op => by cases op <;> dsimp only [MovesAccurate] <;> infer_instance

/-- The flow and the hash of a live connection. -/
def Entered (x : UInt32 × UInt32) : Prop :=
  ∃ key, w.live key = some x.1 ∧ hash key = x.2

structure Inv (hash : FlowKey → UInt32) (w : FlowTable) : Prop where
  placed : Placement Near (w.Entered hash) (cellOf w.hte)
  keys : ∀ {key f}, w.live key = some f → w.flowst f = key ∧ f < flowNull
  free : ∃ xs, Linked.Chain w.next flowNull w.freelist xs ∧ xs.Nodup ∧
    ∀ f ∈ xs, f < flowNull ∧ f ∉ w.closing ∧ ∀ key, w.live key ≠ some f
  closing : w.closing.Nodup ∧ ∀ f ∈ w.closing, f < flowNull ∧ ∀ key, w.live key ≠ some f
  running : w.fault = none

variable {hash} {w}

theorem chain_init (n a : ℕ) (h : a + n = 131072) :
    Linked.Chain (fun f : UInt32 => f + 1) flowNull (UInt32.ofNat a)
      ((List.range' a n).map UInt32.ofNat) := by
  induction n generalizing a with
  | zero =>
    obtain rfl : a = 131072 := by omega
    rfl
  | succ n ih =>
    refine ⟨rfl, ?_, ?_⟩
    · intro hcon
      have hnat := congrArg UInt32.toNat hcon
      rw [UInt32.toNat_ofNat_of_lt' (by show a < 2 ^ 32; omega)] at hnat
      have hnull : flowNull.toNat = 131072 := rfl
      omega
    · have hsucc : UInt32.ofNat a + 1 = UInt32.ofNat (a + 1) := by
        rw [UInt32.ofNat_add]
        rfl
      show Linked.Chain _ _ (UInt32.ofNat a + 1) _
      rw [hsucc]
      exact ih (a + 1) (by omega)

theorem inv_init (hash : FlowKey → UInt32) : init.Inv hash where
  placed := by
    apply Placement.empty
    · rintro x ⟨key, hkey, -⟩
      cases hkey
    · intro p
      have hempty : (⟨0, 0⟩ : Hte).content = none :=
        Hte.content_of_invalid (Hte.valid_of_lt (by decide : (0 : UInt32).toNat < 2 ^ 31))
      unfold cellOf
      split
      · exact hempty
      · rfl
  keys h := by cases h
  free := by
    refine ⟨(List.range' 0 131072).map UInt32.ofNat, chain_init 131072 0 rfl, ?_, ?_⟩
    · refine List.Nodup.map_on ?_ nodup_range'
      intro a ha b hb hab
      have ha' := (mem_range'_1.mp ha).2
      have hb' := (mem_range'_1.mp hb).2
      have hnat := congrArg UInt32.toNat hab
      rwa [UInt32.toNat_ofNat_of_lt' (by show a < 2 ^ 32; omega),
        UInt32.toNat_ofNat_of_lt' (by show b < 2 ^ 32; omega)] at hnat
    · intro f hf
      obtain ⟨a, ha, rfl⟩ := mem_map.mp hf
      have ha' := (mem_range'_1.mp ha).2
      refine ⟨?_, nofun, nofun⟩
      rw [UInt32.lt_iff_toNat_lt, UInt32.toNat_ofNat_of_lt' (by show a < 2 ^ 32; omega)]
      show a < 131072
      omega
  closing := ⟨nodup_nil, nofun⟩
  running := rfl

variable {f p : UInt32} {key : FlowKey}

theorem ne_flowNull (h : f < flowNull) : f ≠ flowNull := by
  rintro rfl
  exact absurd h (UInt32.lt_irrefl _)

theorem lt_pow_of_lt_flowNull (h : f < flowNull) : f.toNat < 2 ^ 29 := by
  have hlt : f.toNat < 131072 := UInt32.lt_iff_toNat_lt.mp h
  omega

theorem live_update_ne {live : FlowKey → Option UInt32} {g : UInt32} (hne : g ≠ f)
    (h : ∀ k, live k ≠ some g) (key k : FlowKey) : update live key (some f) k ≠ some g := by
  by_cases hk : k = key
  · subst hk
    rw [update_self]
    exact fun hcon => hne (Option.some.inj hcon).symm
  · rw [update_of_ne hk]
    exact h k

section

variable (h : w.Inv hash)
include h

theorem Inv.enter (hkey : w.live key = none) {xs : List UInt32} (hlt : f < flowNull)
    (hnotin : f ∉ xs) (hnotclosing : f ∉ w.closing) (hnotlive : ∀ k, w.live k ≠ some f)
    (hchain : Linked.Chain w.next flowNull (w.next f) xs) (hnodup : xs.Nodup)
    (hfree : ∀ g ∈ xs, g < flowNull ∧ g ∉ w.closing ∧ ∀ k, w.live k ≠ some g) {hte : FlowHt}
    (hplaced : Placement Near (w.Entered hash) (cellOf hte)) {d : UInt32} {t : ℕ} (ht : t < 4)
    (hd : d.toNat = t) (hinvalid : (hte (slotAt (hash key) t)).valid = false) : ({ w with
        freelist := w.next f
        flowst := update w.flowst f key
        hte := update hte (slotAt (hash key) t) ⟨Hte.word d f, hash key⟩
        live := update w.live key (some f) } : FlowTable).Inv hash where
  placed := by
    have hempty : cellOf hte (slotAt (hash key) t) = none := by
      rw [cellOf, if_pos (slotAt_lt _ t), Hte.content_of_invalid hinvalid]
    have hnew : ¬ w.Entered hash (f, hash key) := by
      rintro ⟨k, hk, -⟩
      exact hnotlive k hk
    rw [cellOf_update (slotAt_lt _ t), Hte.content_word (by omega) (lt_pow_of_lt_flowNull hlt)]
    refine hplaced.place hempty hnew (near_slotAt f (hash key) ht) ?_
    rintro ⟨g, g'⟩
    constructor
    · rintro ⟨k, hk, hh⟩
      simp only at hk hh
      by_cases hkk : k = key
      · subst hkk
        rw [update_self] at hk
        exact Or.inl (Prod.ext (Option.some.inj hk).symm hh.symm)
      · rw [update_of_ne hkk] at hk
        exact Or.inr ⟨k, hk, hh⟩
    · rintro (heq | ⟨k, hk, hh⟩)
      · cases heq
        exact ⟨key, update_self .., rfl⟩
      · have hkk : k ≠ key := by
          rintro rfl
          rw [hkey] at hk
          cases hk
        exact ⟨k, (update_of_ne hkk _ _).trans hk, hh⟩
  keys {k g} hk := by
    simp only at hk ⊢
    by_cases hkk : k = key
    · subst hkk
      rw [update_self] at hk
      cases hk
      exact ⟨update_self .., hlt⟩
    rw [update_of_ne hkk] at hk
    have hgf : g ≠ f := by
      rintro rfl
      exact hnotlive k hk
    rw [update_of_ne hgf]
    exact h.keys hk
  free := by
    refine ⟨xs, hchain, hnodup, fun g hg => ?_⟩
    obtain ⟨h₁, h₂, h₃⟩ := hfree g hg
    have hgf : g ≠ f := by
      rintro rfl
      exact hnotin hg
    exact ⟨h₁, h₂, live_update_ne hgf h₃ key⟩
  closing := by
    refine ⟨h.closing.1, fun g hg => ?_⟩
    obtain ⟨h₁, h₂⟩ := h.closing.2 g hg
    have hgf : g ≠ f := by
      rintro rfl
      exact hnotclosing hg
    exact ⟨h₁, live_update_ne hgf h₂ key⟩
  running := h.running

theorem Inv.add (hok : w.Ok (.add key))
    (hmoves : w.MovesAccurate hash (.add key)) : (w.add hash key).Inv hash := by
  unfold FlowTable.add
  split
  · exact h
  next hne =>
  obtain ⟨xs, hchain, hnodup, hfree⟩ := h.free
  cases xs with
  | nil => exact absurd hchain hne
  | cons f xs =>
    obtain ⟨hhead, hnull, htail⟩ := hchain
    rw [hhead]
    obtain ⟨hnotin, hnodup'⟩ := nodup_cons.mp hnodup
    obtain ⟨out, hout, hplaced, hslot⟩ := (flowSlotAlloc_ends h.placed (hash key)).returns
    simp only [MovesAccurate, hout] at hmoves
    have hplaced := hplaced trivial (hmoves out rfl)
    simp only [hout, addFound]
    cases hs : out.slot with
    | none =>
      exact ⟨hplaced, h.keys, ⟨f :: xs, htail.pushFront hnull hnotin, hnodup, hfree⟩,
        h.closing, h.running⟩
    | some r =>
      obtain ⟨i, d⟩ := r
      obtain ⟨hinvalid, t, ht, rfl, hd⟩ := hslot i d hs
      have hd4 : d < 4 := UInt32.lt_iff_toNat_lt.mpr (by rw [hd]; exact ht)
      obtain ⟨hlt, hnotclosing, hnotlive⟩ := hfree f mem_cons_self
      simp only
      rw [if_pos ⟨slotAt_lt _ t, hd4⟩]
      exact h.enter hok hlt hnotin hnotclosing hnotlive htail hnodup'
        (fun g hg => hfree g (mem_cons_of_mem _ hg)) hplaced ht hd hinvalid

omit h in
theorem mem_neighbourhood {h : UInt32} : p ∈ neighbourhood h ↔ ∃ t, t < 4 ∧ p = slotAt h t := by
  have h0 : h % flowhtEntries = slotAt h 0 := by
    show _ = (h + 0) % flowhtEntries
    rw [UInt32.add_zero]
  simp only [neighbourhood, h0, mem_cons, not_mem_nil, or_false]
  constructor
  · rintro (rfl | rfl | rfl | rfl)
    · exact ⟨0, by decide, rfl⟩
    · exact ⟨1, by decide, rfl⟩
    · exact ⟨2, by decide, rfl⟩
    · exact ⟨3, by decide, rfl⟩
  · rintro ⟨t, ht, rfl⟩
    have hcases : t = 0 ∨ t = 1 ∨ t = 2 ∨ t = 3 := by omega
    rcases hcases with rfl | rfl | rfl | rfl
    · exact Or.inl rfl
    · exact Or.inr (Or.inl rfl)
    · exact Or.inr (Or.inr (Or.inl rfl))
    · exact Or.inr (Or.inr (Or.inr rfl))

theorem Inv.exists_entry (hlive : w.live key = some f) :
    ∃ p ∈ neighbourhood (hash key), cellOf w.hte p = some (f, hash key) := by
  obtain ⟨p, hp⟩ := h.placed.complete (x := (f, hash key)) ⟨key, hlive, rfl⟩
  have hnear := (h.placed.sound hp).2
  exact ⟨p, mem_neighbourhood.mpr (hnear.exists_slotAt (cellOf_eq_some hp).1), hp⟩

theorem Inv.exists_live (hp : p < flowhtEntries) (hvalid : (w.hte p).valid = true) :
    ∃ key, w.live key = some (w.hte p).fid ∧ hash key = (w.hte p).flowHash ∧
      p ∈ neighbourhood (hash key) := by
  have hcell : cellOf w.hte p = some ((w.hte p).fid, (w.hte p).flowHash) := by
    rw [cellOf, if_pos hp, Hte.content_of_valid hvalid]
  obtain ⟨⟨key, hlive, hhash⟩, hnear⟩ := h.placed.sound hcell
  refine ⟨key, hlive, hhash, ?_⟩
  have hhash' : hash key = (w.hte p).flowHash := hhash
  rw [hhash']
  exact mem_neighbourhood.mpr (hnear.exists_slotAt hp)

omit h in
theorem lt_of_mem_neighbourhood {h : UInt32} (hp : p ∈ neighbourhood h) : p < flowhtEntries := by
  obtain ⟨t, -, rfl⟩ := mem_neighbourhood.mp hp
  exact slotAt_lt h t

theorem Inv.flowSlotClear (hlive : w.live key = some f) :
    ∃ p, cellOf w.hte p = some (f, hash key) ∧
      cellOf (flowSlotClear w.hte f (hash key)) = update (cellOf w.hte) p none := by
  obtain ⟨p, hmem, hp⟩ := h.exists_entry hlive
  obtain ⟨-, hvalid, heq⟩ := cellOf_eq_some hp
  have hfid := congrArg Prod.fst heq
  have hhash := congrArg Prod.snd heq
  simp only at hfid hhash
  refine ⟨p, hp, ?_⟩
  have hclear : ∀ e : Hte, ({ e with flowId := e.flowId &&& 0x7FFFFFFF } : Hte).content = none := by
    intro e
    apply Hte.content_of_invalid
    apply Hte.valid_of_lt
    have hand : (e.flowId &&& 0x7FFFFFFF).toNat = e.flowId.toNat % 2 ^ 31 := by
      exact Nat.and_two_pow_sub_one_eq_mod e.flowId.toNat 31
    rw [hand]
    exact Nat.mod_lt _ (by decide)
  unfold Tas.flowSlotClear
  split
  · next q hfind =>
    have hq := find?_some hfind
    simp only [Bool.and_eq_true, beq_iff_eq] at hq
    obtain ⟨⟨hqvalid, hqhash⟩, hqfid⟩ := hq
    have hqlt := lt_of_mem_neighbourhood (mem_of_find?_eq_some hfind)
    have hqcell : cellOf w.hte q = some (f, hash key) := by
      rw [cellOf, if_pos hqlt, Hte.content_of_valid hqvalid, hqhash, hqfid]
    rw [h.placed.unique hp hqcell, cellOf_update hqlt, hclear]
  · next hnone =>
    have hnot := find?_eq_none.mp hnone p hmem
    simp [hvalid, ← hhash, ← hfid] at hnot

theorem Inv.disable (hlive : w.live (w.flowst f) = some f) : (w.disable hash f).Inv hash := by
  obtain ⟨p, hp, hclear⟩ := h.flowSlotClear hlive
  obtain ⟨xs, hchain, hnodup, hfree⟩ := h.free
  -- the map without the connection
  have hsub : ∀ {k g}, update w.live (w.flowst f) none k = some g →
      w.live k = some g ∧ g ≠ f := by
    intro k g hk
    have hkk : k ≠ w.flowst f := by
      rintro rfl
      rw [update_self] at hk
      cases hk
    rw [update_of_ne hkk] at hk
    refine ⟨hk, ?_⟩
    rintro rfl
    exact hkk (h.keys hk).1.symm
  refine ⟨?_, fun hk => h.keys (hsub hk).1, ⟨xs, hchain, hnodup, ?_⟩, ?_, h.running⟩
  · show Placement Near _ (cellOf (Tas.flowSlotClear w.hte f (hash (w.flowst f))))
    rw [hclear]
    refine h.placed.remove hp ?_
    rintro ⟨g, g'⟩
    constructor
    · rintro ⟨k, hk, hh⟩
      obtain ⟨hk', hgf⟩ := hsub hk
      exact ⟨fun hcon => hgf (congrArg Prod.fst hcon), k, hk', hh⟩
    · rintro ⟨hne, k, hk, hh⟩
      simp only at hk hh
      refine ⟨k, ?_, hh⟩
      have hkk : k ≠ w.flowst f := by
        rintro rfl
        rw [hlive] at hk
        exact hne (Prod.ext (Option.some.inj hk).symm hh.symm)
      exact (update_of_ne hkk _ _).trans hk
  · intro g hg
    obtain ⟨h₁, h₂, h₃⟩ := hfree g hg
    refine ⟨h₁, ?_, fun k hk => h₃ k (hsub hk).1⟩
    intro hcon
    rcases mem_cons.mp hcon with rfl | hmem
    · exact h₃ _ hlive
    · exact h₂ hmem
  · refine ⟨nodup_cons.mpr ⟨?_, h.closing.1⟩, ?_⟩
    · exact fun hmem => (h.closing.2 f hmem).2 _ hlive
    · intro g hg
      rcases mem_cons.mp hg with rfl | hmem
      · exact ⟨(h.keys hlive).2, fun k hk => (hsub hk).2 rfl⟩
      · obtain ⟨h₁, h₂⟩ := h.closing.2 g hmem
        exact ⟨h₁, fun k hk => h₂ k (hsub hk).1⟩

theorem Inv.free_step (hmem : f ∈ w.closing) :
    ({ w with closing := w.closing.erase f }.flowIdFree f).Inv hash := by
  obtain ⟨xs, hchain, hnodup, hfree⟩ := h.free
  obtain ⟨hlt, hnotlive⟩ := h.closing.2 f hmem
  have hnotin : f ∉ xs := fun hx => (hfree f hx).2.1 hmem
  have hsub : ∀ {g}, g ∈ w.closing.erase f → g ∈ w.closing := mem_of_mem_erase
  refine ⟨h.placed, h.keys, ⟨f :: xs, hchain.pushFront (ne_flowNull hlt) hnotin,
    nodup_cons.mpr ⟨hnotin, hnodup⟩, ?_⟩, ⟨h.closing.1.erase f, ?_⟩, h.running⟩
  · intro g hg
    rcases mem_cons.mp hg with rfl | hx
    · exact ⟨hlt, h.closing.1.not_mem_erase, hnotlive⟩
    · obtain ⟨h₁, h₂, h₃⟩ := hfree g hx
      exact ⟨h₁, fun hcon => h₂ (hsub hcon), h₃⟩
  · exact fun g hg => h.closing.2 g (hsub hg)

theorem Inv.step {op : FlowTableOp} (hok : w.Ok op)
    (hmoves : w.MovesAccurate hash op) : (w.step hash op).Inv hash := by
  cases op with
  | add key => exact h.add hok hmoves
  | disable f => exact h.disable hok
  | free f => exact h.free_step hok

/-- The table stands for the map of live connections. -/
structure Sound (hash : FlowKey → UInt32) (w : FlowTable) : Prop where
  lookup : ∀ key, fastFlowsPacketFss hash w.hte w.flowst key = w.live key
  near : ∀ {key f}, w.live key = some f → ∃ p ∈ neighbourhood (hash key),
    (w.hte p).valid = true ∧ (w.hte p).flowHash = hash key ∧ (w.hte p).fid = f
  entries : ∀ {p}, p < flowhtEntries → (w.hte p).valid = true →
    ∃ key, w.live key = some (w.hte p).fid ∧ p ∈ neighbourhood (hash key)
  distinct : ∀ {k₁ k₂ f}, w.live k₁ = some f → w.live k₂ = some f → k₁ = k₂
  running : w.fault = none

theorem Inv.lookup (key : FlowKey) : fastFlowsPacketFss hash w.hte w.flowst key = w.live key := by
  -- an entry that matches belongs to the connection that is looked for
  have hmatch : ∀ p ∈ neighbourhood (hash key), (w.hte p).valid = true →
      w.flowst (w.hte p).fid = key → w.live key = some (w.hte p).fid := by
    intro p hp hvalid hkey
    obtain ⟨k, hk, -, -⟩ := h.exists_live (lt_of_mem_neighbourhood hp) hvalid
    obtain rfl : k = key := (h.keys hk).1.symm.trans hkey
    exact hk
  unfold fastFlowsPacketFss
  cases hfind : (neighbourhood (hash key)).findSome? fun k =>
      if (w.hte k).valid ∧ (w.hte k).flowHash = hash key ∧ w.flowst (w.hte k).fid = key then
        some (w.hte k).fid
      else none with
  | some f =>
    obtain ⟨p, hp, hpf⟩ := exists_of_findSome?_eq_some hfind
    split at hpf
    · next hcond =>
      cases hpf
      exact (hmatch p hp hcond.1 hcond.2.2).symm
    · cases hpf
  | none =>
    cases hlive : w.live key with
    | none => rfl
    | some f =>
      obtain ⟨p, hp, hcell⟩ := h.exists_entry hlive
      obtain ⟨-, hvalid, heq⟩ := cellOf_eq_some hcell
      have hnone := findSome?_eq_none_iff.mp hfind p hp
      have hfid : (w.hte p).fid = f := (congrArg Prod.fst heq).symm
      have hhash : (w.hte p).flowHash = hash key := (congrArg Prod.snd heq).symm
      rw [hfid, if_pos ⟨hvalid, hhash, (h.keys hlive).1⟩] at hnone
      cases hnone

theorem Inv.sound : w.Sound hash where
  lookup := h.lookup
  near {key f} hlive := by
    obtain ⟨p, hp, hcell⟩ := h.exists_entry hlive
    obtain ⟨-, hvalid, heq⟩ := cellOf_eq_some hcell
    exact ⟨p, hp, hvalid, (congrArg Prod.snd heq).symm, (congrArg Prod.fst heq).symm⟩
  entries {p} hp hvalid := by
    obtain ⟨key, hlive, -, hmem⟩ := h.exists_live hp hvalid
    exact ⟨key, hlive, hmem⟩
  distinct h₁ h₂ := (h.keys h₁).1.symm.trans (h.keys h₂).1
  running := h.running

end

end FlowTable

open FlowTable (init step)

/-- In every run in which no moved entry is moved again, the table stands for the live connections.
-/
theorem flow_table_sound (hash : FlowKey → UInt32) (ops : List FlowTableOp)
    (hrun : Run.Admissible (step hash)
      (fun w op => w.Ok op ∧ w.MovesAccurate hash op) init ops) :
    (ops.foldl (step hash) init).Sound hash := by
  have hinv := hrun.invariant (FlowTable.inv_init hash) fun _ _ h hok => h.step hok.1 hok.2
  exact hinv.sound

def webConn (host : UInt32) (remotePort : UInt16) : FlowKey :=
  { localIp := 0x0100000A
    remoteIp := (host <<< 24) ||| 0x0000000A
    localPort := 0x5000
    remotePort := (remotePort <<< 8) ||| (remotePort >>> 8) }

/-- A connection with home slot 1 and four with home slot 0; the last one moves
the first. -/
def crowdedSlot : List FlowTableOp :=
  [.add (webConn 8 7258), .add (webConn 4 61382), .add (webConn 5 12089),
    .add (webConn 12 10468), .add (webConn 13 59419)]

def crowdedAgain : List FlowTableOp :=
  crowdedSlot ++ [.add (webConn 6 1477), .add (webConn 8 55800), .add (webConn 2 62681)]

theorem flow_table_sound_crowdedSlot :
    (crowdedSlot.foldl (step flowHash) init).Sound flowHash ∧
      (crowdedSlot.foldl (step flowHash) init).live (webConn 8 7258) =
        some 0 := by
  refine ⟨?_, by decide +kernel⟩
  exact flow_table_sound flowHash crowdedSlot (by decide +kernel)

/-- The connection that was moved twice is not found any more. -/
theorem moved_flow_unreachable :
    let w := crowdedAgain.foldl (step flowHash) init
    Run.Admissible (step flowHash) FlowTable.Ok init crowdedAgain ∧
      w.live (webConn 8 7258) = some 0 ∧
      fastFlowsPacketFss flowHash w.hte w.flowst (webConn 8 7258) = none := by
  decide +kernel

end StackBench.Tas

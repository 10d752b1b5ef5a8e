import StackBench.Lib.Attempt
import StackBench.Lib.Placement
import StackBench.Lib.Word

/-!
# The flow hash table

An entry lies at most `FLEXNIC_PL_FLOWHT_NBSZ` slots behind its home slot; when
these are taken, `flow_slot_alloc` finds an empty slot further behind and moves
entries into it to bring it closer. The word `flow_id` packs a valid bit, the
displacement and the flow id.
-/

namespace StackBench.Tas

open Function
open UInt32 (toNat_add toNat_and toNat_mod toNat_or toNat_sub toNat_zero)

/-- The addresses and ports of a connection, as they lie in a packet. -/
structure FlowKey where
  localIp : UInt32
  remoteIp : UInt32
  localPort : UInt16
  remotePort : UInt16
deriving DecidableEq

/-- One bit of the CRC-32C of the processor. -/
def crcBit (crc : UInt32) : UInt32 :=
  if crc &&& 1 = 1 then (crc >>> 1) ^^^ 0x82F63B78 else crc >>> 1

/-- `crc32c_sse42_u32`; 64 bits are two such steps. -/
def crcWord (data crc : UInt32) : UInt32 := crcBit^[32] (crc ^^^ data)

/-- `flow_hash` of the slow path and of the fast path. -/
def flowHash (k : FlowKey) : UInt32 :=
  crcWord (k.localPort.toUInt32 ||| (k.remotePort.toUInt32 <<< 16))
    (crcWord k.remoteIp (crcWord k.localIp 0))

def flowhtEntries : UInt32 := 262144

structure Hte where
  flowId : UInt32
  flowHash : UInt32
deriving DecidableEq

namespace Hte

def valid (e : Hte) : Bool := e.flowId &&& 0x80000000 != 0

/-- The displacement that the entry records. -/
def pos (e : Hte) : UInt32 := (e.flowId >>> 29) &&& 3

def fid (e : Hte) : UInt32 := e.flowId &&& 0x1FFFFFFF

/-- The word of a valid entry. -/
def word (d f : UInt32) : UInt32 := (0x80000000 : UInt32) ||| (d <<< 29) ||| f

/-- An entry that `flow_slot_alloc` moves, with the slots it leaves and enters. -/
structure Move where
  entry : Hte
  src : UInt32
  dst : UInt32
deriving DecidableEq

/-- The entry records the displacement that it has. -/
def Move.Accurate (m : Move) : Prop := m.entry.pos = (m.src - m.entry.flowHash) % flowhtEntries
deriving Decidable

end Hte

abbrev FlowHt := UInt32 → Hte

/-- Why `flow_slot_alloc` does not return. -/
inductive SlotFault where
  | hung
  | assertFailed
deriving DecidableEq

/-- The table after `flow_slot_alloc`, the slot with its displacement or `none` for `-1`, and the
entries moved. -/
structure SlotOut where
  hte : FlowHt
  slot : Option (UInt32 × UInt32)
  moves : List Hte.Move

/-- The loops that look for an empty slot from `i` up to `stop`. -/
def seekFree (hte : FlowHt) (stop : UInt32) :
    ℕ → UInt32 → UInt32 → Except SlotFault (UInt32 × UInt32)
  | 0, _, _ => .error .hung
  | fuel + 1, i, d =>
    if i = stop then .ok (i, d)
    else if (hte i).valid = false then .ok (i, d)
    else seekFree hte stop fuel ((i + 1) % flowhtEntries) (d + 1)

/-- The loop that looks from `i` on for an entry that can be moved to the slot `k`. -/
def seekMovable (hte : FlowHt) (k : UInt32) : ℕ → UInt32 → Except SlotFault UInt32
  | 0, _ => .error .hung
  | fuel + 1, i =>
    if i = k then .ok i
    else if (hte i).valid = false then .error .assertFailed
    else if (k - i) % flowhtEntries ≤ 4 - 1 - (hte i).pos then .ok i
    else seekMovable hte k fuel ((i + 1) % flowhtEntries)

/-- The entry of slot `i` is moved to slot `k`, with the displacement it records. -/
def moveEntry (hte : FlowHt) (i k : UInt32) : FlowHt :=
  update
    (update hte k ⟨Hte.word (hte i).pos (hte i).fid, (hte i).flowHash⟩)
    i { hte i with flowId := 0 }

/-- The slot `i` does not lie in the neighbourhood from `j` to `l`. -/
def outside (j l i : UInt32) : Prop := (j > l ∨ i < j ∨ i ≥ l) ∧ (j < l ∨ (i ≥ l ∧ i < j))
deriving Decidable

/-- The loop that moves the empty slot `i` into the neighbourhood from `j` to `l`. -/
def moveBack (j l : UInt32) : ℕ → FlowHt → UInt32 → Except SlotFault SlotOut
  | 0, _, _ => .error .hung
  | fuel + 1, hte, k =>
    if outside j l k then do
      let i ← seekMovable hte k 32 ((k - 4) % flowhtEntries)
      if i = k then
        pure { hte := hte, slot := none, moves := [] }
      else if (hte k).valid then
        throw .assertFailed
      else
        let out ← moveBack j l fuel (moveEntry hte i k) i
        pure { out with moves := ⟨hte i, i, k⟩ :: out.moves }
    else
      pure { hte := hte, slot := some (k, (k - j) % flowhtEntries), moves := [] }

def flowSlotAlloc (hte : FlowHt) (h : UInt32) : Except SlotFault SlotOut := do
  let j := h % flowhtEntries
  let l := (j + 4) % flowhtEntries
  let (i, d) ← seekFree hte l 32 j 0
  if i ≠ l then
    pure { hte := hte, slot := some (i, d), moves := [] }
  else
    let k := (l + 4 * 4) % flowhtEntries
    let (i, _) ← seekFree hte k 32 l 0
    if i = k then
      pure { hte := hte, slot := none, moves := [] }
    else
      moveBack j l 32 hte i

def neighbourhood (h : UInt32) : List UInt32 :=
  [h % flowhtEntries, (h + 1) % flowhtEntries, (h + 2) % flowhtEntries, (h + 3) % flowhtEntries]

def flowSlotClear (hte : FlowHt) (f h : UInt32) : FlowHt :=
  match (neighbourhood h).find? fun k =>
      (hte k).valid && (hte k).flowHash == h && (hte k).fid == f with
  | some k => update hte k { hte k with flowId := (hte k).flowId &&& 0x7FFFFFFF }
  | none => hte

/-- `fast_flows_packet_fss` for one packet. -/
def fastFlowsPacketFss (hash : FlowKey → UInt32) (hte : FlowHt) (flowst : UInt32 → FlowKey)
    (key : FlowKey) : Option UInt32 :=
  (neighbourhood (hash key)).findSome? fun k =>
    if (hte k).valid ∧ (hte k).flowHash = hash key ∧ flowst (hte k).fid = key then
      some (hte k).fid
    else none

namespace Hte

variable (e : Hte)

theorem valid_iff : e.valid = true ↔ 2 ^ 31 ≤ e.flowId.toNat := by
  have hlt := e.flowId.toNat_lt
  have hand : (e.flowId &&& 0x80000000).toNat = (e.flowId.toNat.testBit 31).toNat * 2 ^ 31 := by
    exact Nat.and_two_pow e.flowId.toNat 31
  rw [valid, bne_iff_ne, ne_eq, ← UInt32.toNat_inj, hand, Nat.testBit_eq_decide_div_mod_eq]
  by_cases hbit : e.flowId.toNat / 2 ^ 31 % 2 = 1
  · simp only [hbit, decide_true, Bool.toNat_true, toNat_zero]
    omega
  · simp only [hbit, decide_false, Bool.toNat_false, toNat_zero]
    omega

theorem valid_of_lt {e : Hte} (h : e.flowId.toNat < 2 ^ 31) : e.valid = false := by
  rw [Bool.eq_false_iff, ne_eq, valid_iff]
  exact Nat.not_le.mpr h

theorem pos_toNat : e.pos.toNat = e.flowId.toNat / 2 ^ 29 % 4 := by
  show e.flowId.toNat >>> 29 &&& (2 ^ 2 - 1) = _
  rw [Nat.and_two_pow_sub_one_eq_mod, Nat.shiftRight_eq_div_pow]

theorem fid_toNat : e.fid.toNat = e.flowId.toNat % 2 ^ 29 := by
  exact Nat.and_two_pow_sub_one_eq_mod e.flowId.toNat 29

theorem word_toNat {d f : UInt32} (hd : d.toNat < 4) (hf : f.toNat < 2 ^ 29) :
    (word d f).toNat = 2 ^ 31 + 2 ^ 29 * d.toNat + f.toNat := by
  have hshift : (d <<< 29).toNat = 2 ^ 29 * d.toNat := by
    show d.toNat <<< 29 % 2 ^ 32 = _
    rw [Nat.shiftLeft_eq, Nat.mod_eq_of_lt (by omega), Nat.mul_comm]
  have hhigh : ((0x80000000 : UInt32) ||| (d <<< 29)).toNat = 2 ^ 29 * (4 + d.toNat) := by
    rw [toNat_or, hshift]
    show 2 ^ 31 * 1 ||| 2 ^ 29 * d.toNat = _
    rw [← Nat.two_pow_add_eq_or_of_lt (by omega)]
    omega
  rw [word, toNat_or, hhigh, ← Nat.two_pow_add_eq_or_of_lt hf]
  omega

/-- What the table says about a slot: the flow and the hash of a valid entry. -/
def content (e : Hte) : Option (UInt32 × UInt32) :=
  if e.valid then some (e.fid, e.flowHash) else none

theorem content_word {d f : UInt32} (hd : d.toNat < 4) (hf : f.toNat < 2 ^ 29) (h : UInt32) :
    (⟨word d f, h⟩ : Hte).content = some (f, h) := by
  have hword := word_toNat hd hf
  have hvalid : (⟨word d f, h⟩ : Hte).valid = true := by
    rw [valid_iff]
    show 2 ^ 31 ≤ (word d f).toNat
    omega
  have hfid : (⟨word d f, h⟩ : Hte).fid = f := by
    apply UInt32.toNat_inj.mp
    rw [fid_toNat]
    show (word d f).toNat % 2 ^ 29 = _
    omega
  rw [content, if_pos hvalid, hfid]

theorem content_of_valid {e : Hte} (h : e.valid = true) : e.content = some (e.fid, e.flowHash) :=
  if_pos h

theorem content_of_invalid {e : Hte} (h : e.valid = false) : e.content = none := by
  rw [content, h]
  rfl

theorem content_eq_some {e : Hte} {x : UInt32 × UInt32} (h : e.content = some x) :
    e.valid = true ∧ x = (e.fid, e.flowHash) := by
  unfold content at h
  split at h
  · next hvalid => exact ⟨hvalid, (Option.some.inj h).symm⟩
  · cases h

theorem pos_lt : e.pos.toNat < 4 := by
  rw [pos_toNat]
  exact Nat.mod_lt _ (by decide)

theorem fid_lt : e.fid.toNat < 2 ^ 29 := by
  rw [fid_toNat]
  exact Nat.mod_lt _ (by decide)

end Hte

/-- The slot `t` behind the slot `j`. -/
def slotAt (j : UInt32) (t : ℕ) : UInt32 := (j + UInt32.ofNat t) % flowhtEntries

theorem slotAt_toNat (j : UInt32) (t : ℕ) : (slotAt j t).toNat = (j.toNat + t) % 262144 := by
  show (j.toNat + t % 2 ^ 32) % 2 ^ 32 % 262144 = _
  omega

variable {t s fuel : ℕ} {j p : UInt32} {d : UInt32}

theorem slotAt_add (j : UInt32) (t : ℕ) (hd : d.toNat = s) :
    (slotAt j t + d) % flowhtEntries = slotAt j (t + s) := by
  apply UInt32.toNat_inj.mp
  rw [toNat_mod, toNat_add, slotAt_toNat, slotAt_toNat, hd]
  show ((j.toNat + t) % 262144 + s) % 2 ^ 32 % 262144 = _
  omega

theorem slotAt_back (j : UInt32) (ht : 4 ≤ t) :
    (slotAt j t - 4) % flowhtEntries = slotAt j (t - 4) := by
  apply UInt32.toNat_inj.mp
  rw [toNat_mod, toNat_sub, slotAt_toNat, slotAt_toNat]
  show (2 ^ 32 - 4 + (j.toNat + t) % 262144) % 2 ^ 32 % 262144 = _
  omega

theorem slotAt_inj (hs : s < 262144) (ht : t < 262144) (h : slotAt j s = slotAt j t) : s = t := by
  have hnat := congrArg UInt32.toNat h
  rw [slotAt_toNat, slotAt_toNat] at hnat
  omega

theorem slotAt_sub (j : UInt32) (hs : s ≤ t) (ht : t < 262144) :
    ((slotAt j t - slotAt j s) % flowhtEntries).toNat = t - s := by
  rw [toNat_mod, toNat_sub, slotAt_toNat, slotAt_toNat]
  show (2 ^ 32 - (j.toNat + s) % 262144 + (j.toNat + t) % 262144) % 2 ^ 32 % 262144 = _
  omega

theorem outside_iff (j : UInt32) (ht : t < 262144) :
    outside (slotAt j 0) (slotAt j 4) (slotAt j t) ↔ 4 ≤ t := by
  simp only [outside, gt_iff_lt, ge_iff_le, UInt32.lt_iff_toNat_lt, UInt32.le_iff_toNat_le,
    slotAt_toNat]
  omega

theorem slotAt_lt (j : UInt32) (t : ℕ) : slotAt j t < flowhtEntries := by
  exact Nat.mod_lt _ (by decide)

variable {hte : FlowHt}

theorem seekFree_ends {e : ℕ} (hs : s ≤ e) (he : e < 262144) (hfuel : e - s < fuel) :
    Attempt.Ends (fun r => ∃ t, s ≤ t ∧ t ≤ e ∧ r.1 = slotAt j t ∧
        r.2 = d + UInt32.ofNat (t - s) ∧ (∀ u, s ≤ u → u < t → (hte (slotAt j u)).valid = true) ∧
        (t < e → (hte (slotAt j t)).valid = false))
      (fun _ => False) (seekFree hte (slotAt j e) fuel (slotAt j s) d) := by
  induction fuel generalizing s d with
  | zero => omega
  | succ fuel ih =>
    rw [seekFree]
    split
    · next heq =>
      obtain rfl := slotAt_inj (by omega) he heq
      refine ⟨s, Nat.le_refl s, hs, rfl, ?_, fun u h₁ h₂ => by omega, fun h => by omega⟩
      simp
    next hne =>
    have hlt : s < e := by
      rcases Nat.lt_or_eq_of_le hs with hlt | rfl
      · exact hlt
      · exact absurd rfl hne
    split
    · next hfree =>
      refine ⟨s, Nat.le_refl s, hs, rfl, ?_, fun u h₁ h₂ => by omega, fun _ => hfree⟩
      simp
    next hvalid =>
    rw [slotAt_add j s (show (1 : UInt32).toNat = 1 from rfl)]
    refine (ih (d := d + 1) (by omega : s + 1 ≤ e) (by omega)).mono ?_
    rintro r ⟨t, h₁, h₂, h₃, h₄, h₅, h₆⟩
    refine ⟨t, by omega, h₂, h₃, ?_, ?_, h₆⟩
    · rw [h₄, show t - s = 1 + (t - (s + 1)) by omega, UInt32.ofNat_add, ← add_assoc]
      rfl
    · intro u hu hut
      rcases Nat.lt_or_eq_of_le hu with hlt | rfl
      · exact h₅ u hlt hut
      · exact Bool.not_eq_false _ ▸ hvalid

/-- The loop stops at an entry that may go as far as the end, or at the end; its assertion holds
when all are valid. -/
theorem seekMovable_ends {e : ℕ} (hs : s ≤ e) (he : e < 262144) (hfuel : e - s < fuel)
    (hvalid : ∀ u, s ≤ u → u < e → (hte (slotAt j u)).valid = true) :
    Attempt.Ends (fun i => ∃ t, s ≤ t ∧ t ≤ e ∧ i = slotAt j t ∧
        (t < e → e - t + (hte (slotAt j t)).pos.toNat < 4))
      (fun _ => False) (seekMovable hte (slotAt j e) fuel (slotAt j s)) := by
  induction fuel generalizing s with
  | zero => omega
  | succ fuel ih =>
    rw [seekMovable]
    split
    · next heq =>
      obtain rfl := slotAt_inj (by omega) he heq
      exact ⟨s, Nat.le_refl s, hs, rfl, fun h => by omega⟩
    next hne =>
    have hlt : s < e := by
      rcases Nat.lt_or_eq_of_le hs with hlt | rfl
      · exact hlt
      · exact absurd rfl hne
    rw [if_neg (by rw [hvalid s (Nat.le_refl s) hlt]; decide)]
    split
    · next hfar =>
      refine ⟨s, Nat.le_refl s, hs, rfl, fun _ => ?_⟩
      have hpos := (hte (slotAt j s)).pos_lt
      have hsub : (4 - 1 - (hte (slotAt j s)).pos : UInt32).toNat =
          3 - (hte (slotAt j s)).pos.toNat :=
        Word.sub_toNat (a := 3) (by show _ ≤ 3; omega)
      have hle := UInt32.le_iff_toNat_le.mp hfar
      rw [slotAt_sub j hs he, hsub] at hle
      omega
    rw [slotAt_add j s (show (1 : UInt32).toNat = 1 from rfl)]
    refine (ih (by omega : s + 1 ≤ e) (by omega) ?_).mono ?_
    · exact fun u hu hue => hvalid u (by omega) hue
    · rintro i ⟨t, h₁, h₂, h₃⟩
      exact ⟨t, by omega, h₂, h₃⟩

/-- An entry lies in the neighbourhood of its hash. -/
def Near (x : UInt32 × UInt32) (p : UInt32) : Prop := ((p - x.2) % flowhtEntries).toNat < 4

/-- The slots of the table and what they hold. -/
def cellOf (hte : FlowHt) (p : UInt32) : Option (UInt32 × UInt32) :=
  if p < flowhtEntries then (hte p).content else none

theorem near_slotAt (f h : UInt32) (ht : t < 4) : Near (f, h) (slotAt h t) := by
  show ((slotAt h t - h) % flowhtEntries).toNat < 4
  have hlt := h.toNat_lt
  rw [toNat_mod, toNat_sub, slotAt_toNat]
  show (2 ^ 32 - h.toNat + (h.toNat + t) % 262144) % 2 ^ 32 % 262144 < 4
  omega

theorem Near.exists_slotAt {f h : UInt32} (hnear : Near (f, h) p) (hp : p < flowhtEntries) :
    ∃ t, t < 4 ∧ p = slotAt h t := by
  refine ⟨_, hnear, UInt32.toNat_inj.mp ?_⟩
  have hlt := h.toNat_lt
  have hp' : p.toNat < 262144 := UInt32.lt_iff_toNat_lt.mp hp
  rw [slotAt_toNat, toNat_mod, toNat_sub]
  show p.toNat = (h.toNat + (2 ^ 32 - h.toNat + p.toNat) % 2 ^ 32 % 262144) % 262144
  omega

theorem cellOf_eq_some {x : UInt32 × UInt32} (h : cellOf hte p = some x) :
    p < flowhtEntries ∧ (hte p).valid = true ∧ x = ((hte p).fid, (hte p).flowHash) := by
  unfold cellOf at h
  split at h
  · next hp => exact ⟨hp, Hte.content_eq_some h⟩
  · cases h

theorem cellOf_update (hp : p < flowhtEntries) (e : Hte) :
    cellOf (update hte p e) = update (cellOf hte) p e.content := by
  funext q
  by_cases hq : q = p
  · subst hq
    rw [cellOf, if_pos hp, update_self, update_self]
  · rw [update_of_ne hq, cellOf, cellOf, update_of_ne hq]

theorem cellOf_moveEntry {i k : UInt32} (hi : i < flowhtEntries) (hk : k < flowhtEntries) :
    cellOf (moveEntry hte i k) = update
      (update (cellOf hte) k (some ((hte i).fid, (hte i).flowHash))) i none := by
  have hempty : ({ hte i with flowId := 0 } : Hte).content = none :=
    Hte.content_of_invalid (Hte.valid_of_lt (by decide : (0 : UInt32).toNat < 2 ^ 31))
  rw [moveEntry, cellOf_update hi, cellOf_update hk,
    Hte.content_word (hte i).pos_lt (hte i).fid_lt, hempty]

theorem Near.of_accurate (hs : s ≤ t) (ht : t < 262144)
    (hacc : (⟨hte (slotAt j s), slotAt j s, slotAt j t⟩ : Hte.Move).Accurate)
    (hfar : t - s + (hte (slotAt j s)).pos.toNat < 4) :
    Near ((hte (slotAt j s)).fid, (hte (slotAt j s)).flowHash) (slotAt j t) := by
  have hpos := congrArg UInt32.toNat hacc
  show ((slotAt j t - (hte (slotAt j s)).flowHash) % flowhtEntries).toNat < 4
  simp only at hpos
  generalize (hte (slotAt j s)).pos = d at hpos hfar
  generalize (hte (slotAt j s)).flowHash = h at hpos
  rw [toNat_mod, toNat_sub, slotAt_toNat] at hpos ⊢
  have hmod : flowhtEntries.toNat = 262144 := rfl
  rw [hmod] at hpos ⊢
  omega

/-- The slot is free and near, and the entries are placed when those moved recorded their
displacement. -/
def SlotOut.Placed (live : UInt32 × UInt32 → Prop) (h : UInt32) (before : Prop)
    (out : SlotOut) : Prop :=
  (before → (∀ m ∈ out.moves, m.Accurate) → Placement Near live (cellOf out.hte)) ∧
    ∀ i d, out.slot = some (i, d) →
      (out.hte i).valid = false ∧ ∃ t, t < 4 ∧ i = slotAt h t ∧ d.toNat = t

variable {live : UInt32 × UInt32 → Prop}

/-- The loop moves the empty slot back by one to three slots a round. The slots before it are full.
-/
theorem moveBack_ends {h : UInt32} {before : Prop} (ht : t < 262144) (hfuel : t < fuel)
    (hfull : ∀ u, u < t → (hte (slotAt h u)).valid = true)
    (hfree : (hte (slotAt h t)).valid = false) (hplaced : before → Placement Near live (cellOf hte))
    :
    Attempt.Ends (SlotOut.Placed live h before) (fun _ => False)
      (moveBack (slotAt h 0) (slotAt h 4) fuel hte (slotAt h t)) := by
  induction fuel generalizing hte t before with
  | zero => omega
  | succ fuel ih =>
    rw [moveBack]
    by_cases hout : 4 ≤ t
    · rw [if_pos ((outside_iff h ht).mpr hout), slotAt_back h hout]
      refine (seekMovable_ends (by omega) ht (by omega) fun u _ hu => hfull u hu).bind ?_
      rintro i ⟨s, hs, hst, rfl, hfar⟩
      by_cases heq : s = t
      · subst heq
        rw [if_pos rfl]
        exact ⟨fun hb _ => hplaced hb, nofun⟩
      have hlt : s < t := by omega
      have hne : ∀ {u v}, u < v → v ≤ t → slotAt h u ≠ slotAt h v := fun huv hvt hcon =>
        absurd (slotAt_inj (by omega) (by omega) hcon) (by omega)
      rw [if_neg (hne hlt (Nat.le_refl t)), if_neg (by rw [hfree]; decide)]
      -- the slots before `s` are not touched by the move
      have hfull' : ∀ u, u < s →
          (moveEntry hte (slotAt h s) (slotAt h t) (slotAt h u)).valid = true := by
        intro u hu
        rw [moveEntry, update_of_ne (hne hu hst), update_of_ne (hne (by omega) (Nat.le_refl t))]
        exact hfull u (by omega)
      have hfree' :
          (moveEntry hte (slotAt h s) (slotAt h t) (slotAt h s)).valid = false := by
        rw [moveEntry, update_self]
        exact Hte.valid_of_lt (by decide : (0 : UInt32).toNat < 2 ^ 31)
      have hplaced' :
          before ∧ (⟨hte (slotAt h s), slotAt h s, slotAt h t⟩ : Hte.Move).Accurate →
          Placement Near live (cellOf (moveEntry hte (slotAt h s) (slotAt h t))) := by
        rintro ⟨hb, hacc⟩
        have hcell : cellOf hte (slotAt h s) =
            some ((hte (slotAt h s)).fid, (hte (slotAt h s)).flowHash) := by
          rw [cellOf, if_pos (slotAt_lt h s), Hte.content_of_valid (hfull s hlt)]
        have hempty : cellOf hte (slotAt h t) = none := by
          rw [cellOf, if_pos (slotAt_lt h t), Hte.content_of_invalid hfree]
        rw [cellOf_moveEntry (slotAt_lt h s) (slotAt_lt h t)]
        exact (hplaced hb).move hcell hempty (Near.of_accurate hst ht hacc (hfar hlt))
      refine (ih (by omega) (by omega) hfull' hfree' hplaced').bind ?_
      intro out hout
      refine ⟨fun hb hmoves => ?_, hout.2⟩
      exact hout.1 ⟨hb, hmoves _ List.mem_cons_self⟩
        fun m hm => hmoves m (List.mem_cons_of_mem _ hm)
    · rw [if_neg (mt (outside_iff h ht).mp hout)]
      refine ⟨fun hb _ => hplaced hb, ?_⟩
      intro i d hslot
      cases hslot
      exact ⟨hfree, t, by omega, rfl, slotAt_sub h (Nat.zero_le t) ht⟩

theorem flowSlotAlloc_ends (hplaced : Placement Near live (cellOf hte)) (h : UInt32) :
    Attempt.Ends (SlotOut.Placed live h True) (fun _ => False) (flowSlotAlloc hte h) := by
  have hj : h % flowhtEntries = slotAt h 0 := by
    show _ = (h + 0) % flowhtEntries
    rw [UInt32.add_zero]
  rw [flowSlotAlloc]
  simp only [hj, slotAt_add h 0 (show (4 : UInt32).toNat = 4 from rfl)]
  refine (seekFree_ends (e := 4) (Nat.zero_le 4) (by decide) (by decide)).bind ?_
  rintro ⟨i, d⟩ ⟨t, -, ht, rfl, rfl, hfull, hfree⟩
  by_cases hlt : t < 4
  · have hne : slotAt h t ≠ slotAt h 4 := fun hcon =>
      absurd (slotAt_inj (by omega) (by decide) hcon) (by omega)
    rw [if_pos hne]
    refine ⟨fun _ _ => hplaced, ?_⟩
    intro i d hslot
    cases hslot
    refine ⟨hfree hlt, t, hlt, rfl, ?_⟩
    rw [UInt32.zero_add]
    exact UInt32.toNat_ofNat_of_lt' (by show t - 0 < 2 ^ 32; omega)
  obtain rfl : t = 4 := by omega
  rw [if_neg (fun hcon => hcon rfl)]
  simp only [slotAt_add h 4 (show (4 * 4 : UInt32).toNat = 16 from rfl)]
  refine (seekFree_ends (e := 4 + 16) (by decide : 4 ≤ 4 + 16) (by decide) (by decide)).bind ?_
  rintro ⟨i, d⟩ ⟨t, hlow, ht, rfl, -, hfull', hfree'⟩
  by_cases hend : t = 4 + 16
  · subst hend
    rw [if_pos rfl]
    exact ⟨fun _ _ => hplaced, nofun⟩
  have hne : slotAt h t ≠ slotAt h (4 + 16) := fun hcon =>
    absurd (slotAt_inj (by omega) (by decide) hcon) hend
  rw [if_neg hne]
  refine moveBack_ends (by omega) (by omega) ?_ (hfree' (by omega)) fun _ => hplaced
  intro u hu
  by_cases hu' : u < 4
  · exact hfull u (Nat.zero_le u) hu'
  · exact hfull' u (by omega) hu

end StackBench.Tas

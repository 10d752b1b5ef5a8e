import StackBench.Lib.Run
import StackBench.Lib.Word
import StackBench.Mtcp.SeqNum

/-!
# The retransmission timer wheel of mTCP

`AddtoRTOList`, `RemoveFromRTOList`, `RearrangeRTOStore` and `CheckRtmTimeout`
of `timer.c`. The store has a list for each of the next `RTO_HASH` ticks after
`rto_now_ts` and one for later deadlines. A call of `HandleRTO` is an entry of
a list of calls here.

Times are natural numbers that the code sees modulo `2 ^ 32`.
-/

namespace StackBench.Mtcp

open Function List
open UInt32 (toNat_inj toNat_mod toNat_ofNat' toNat_one toNat_sub)

def rtoHash : ℕ := 3000

/-- The `rto_hashstore`, the counter of the manager, and the two fields of each
stream that the store uses. -/
structure RtoStore where
  rtoNowIdx : UInt32
  rtoNowTs : UInt32
  rtoList : ℕ → List ℕ
  rtoListCnt : ℤ
  onRtoIdx : ℕ → ℤ
  tsRto : ℕ → UInt32

/-- The result of `CheckRtmTimeout`: the store, its counter and the streams
passed to `HandleRTO`. -/
structure RtoCheck where
  store : RtoStore
  cnt : ℤ
  handed : List ℕ

namespace RtoStore

/-- `InitRTOHashstore`, with no stream on a list. -/
def initRTOHashstore : RtoStore where
  rtoNowIdx := 0
  rtoNowTs := 0
  rtoList := fun _ => []
  rtoListCnt := 0
  onRtoIdx := fun _ => -1
  tsRto := fun _ => 0

variable (w : RtoStore)

def link (i s : ℕ) : RtoStore :=
  { w with
    rtoList := update w.rtoList i (w.rtoList i ++ [s])
    onRtoIdx := update w.onRtoIdx s i }

def unlink (i s : ℕ) : RtoStore :=
  { w with
    rtoList := update w.rtoList i ((w.rtoList i).erase s)
    onRtoIdx := update w.onRtoIdx s (-1) }

/-- `(diff + rto_now_idx) % RTO_HASH`. The index is unsigned, so is the sum. -/
def offset (diff : UInt32) : ℕ := ((diff + w.rtoNowIdx) % 3000).toNat

/-- An empty wheel starts at the deadline of the next stream. -/
def seed (s : ℕ) : RtoStore :=
  if w.rtoListCnt = 0 then { w with rtoNowIdx := 0, rtoNowTs := w.tsRto s } else w

/-- The list that `AddtoRTOList` puts a stream on. -/
def place (s : ℕ) : ℕ :=
  let diff := w.tsRto s - w.rtoNowTs
  if int32 diff < rtoHash then w.offset diff else rtoHash

/-- `AddtoRTOList`, for a stream that is on the time-wait list or not. -/
def addtoRTOList (onTimewaitList : Bool) (s : ℕ) : RtoStore :=
  let w := w.seed s
  if w.onRtoIdx s < 0 then
    if onTimewaitList then w
    else { w.link (w.place s) s with rtoListCnt := w.rtoListCnt + 1 }
  else w

def removeFromRTOList (s : ℕ) : RtoStore :=
  if w.onRtoIdx s < 0 then w
  else { w.unlink (w.onRtoIdx s).toNat s with rtoListCnt := w.rtoListCnt - 1 }

/-- The loop of `RearrangeRTOStore`. The difference is that of `AddtoRTOList`, exchanged. -/
def rearrangeOne (walk : ℕ) : RtoStore :=
  let diff := w.rtoNowTs - w.tsRto walk
  if int32 diff < rtoHash then (w.unlink rtoHash walk).link (w.offset diff) walk else w

def rearrangeRTOStore : RtoStore := (w.rtoList rtoHash).foldl rearrangeOne w

def tick : RtoStore :=
  { w with rtoNowIdx := (w.rtoNowIdx + 1) % 3000, rtoNowTs := w.rtoNowTs + 1 }

/-- The end of an iteration of `CheckRtmTimeout`. -/
def advance : RtoStore :=
  if w.tick.rtoNowIdx % 1000 = 0 then w.tick.rearrangeRTOStore else w.tick

/-- A stream of the current slot is passed to `HandleRTO`. -/
def expire (walk : ℕ) : RtoStore :=
  { w.unlink w.rtoNowIdx.toNat walk with rtoListCnt := w.rtoListCnt - 1 }

end RtoStore

/-- The loop of `CheckRtmTimeout` over the list of one slot. -/
def sweep (thresh : ℤ) : List ℕ → RtoCheck → RtoCheck
  | [], r => r
  | walk :: rest, r =>
    if r.cnt + 1 > thresh then { r with cnt := r.cnt + 1 }
    else if 0 ≤ r.store.onRtoIdx walk then
      sweep thresh rest ⟨r.store.expire walk, r.cnt + 1, r.handed ++ [walk]⟩
    else sweep thresh rest { r with cnt := r.cnt + 1 }

/-- The loop of `CheckRtmTimeout` over the slots, `none` where the fuel does not
last. -/
def checkLoop (curTs : UInt32) (thresh : ℤ) : ℕ → RtoCheck → Option RtoCheck
  | 0, _ => none
  | fuel + 1, r =>
    if int32 (curTs - r.store.rtoNowTs) < 0 then some r
    else
      let r := sweep thresh (r.store.rtoList r.store.rtoNowIdx.toNat) r
      if r.cnt > thresh then some r
      else checkLoop curTs thresh fuel { r with store := r.store.advance }

def RtoStore.checkRtmTimeout (w : RtoStore) (curTs : UInt32) (thresh : ℤ) : Option RtoCheck :=
  if w.rtoListCnt = 0 then some ⟨w, 0, []⟩
  else checkLoop curTs thresh ((int32 (curTs - w.rtoNowTs)).toNat + 2) ⟨w, 0, []⟩

def tsAt (time : ℕ) : UInt32 := UInt32.ofNat time

/-- A call of `HandleRTO`: the stream, its deadline and the clock. -/
structure Handed where
  stream : ℕ
  deadline : ℕ
  clock : ℕ
deriving DecidableEq

/-- The store with the time that its timestamps stand for. -/
structure RtoWorld where
  store : RtoStore
  /-- The time of `ts_rto`. -/
  deadline : ℕ → ℕ
  /-- The time of `rto_now_ts`. -/
  base : ℕ
  handed : List Handed

inductive RtoOp where
  /-- `ts_rto` is set and `AddtoRTOList` is called. -/
  | add (s deadline : ℕ) (onTimewaitList : Bool)
  | remove (s : ℕ)
  | check (clock : ℕ) (thresh : ℤ)

namespace RtoWorld

def start : RtoWorld where
  store := .initRTOHashstore
  deadline := fun _ => 0
  base := 0
  handed := []

def setTsRto (w : RtoWorld) (s d : ℕ) : RtoStore :=
  { w.store with tsRto := update w.store.tsRto s (tsAt d) }

def step (w : RtoWorld) : RtoOp → RtoWorld
  | .add s d onTimewaitList =>
    { w with
      store := (w.setTsRto s d).addtoRTOList onTimewaitList s
      deadline := update w.deadline s d
      base := if w.store.rtoListCnt = 0 then d else w.base }
  | .remove s => { w with store := w.store.removeFromRTOList s }
  | .check c thresh =>
    match w.store.checkRtmTimeout (tsAt c) thresh with
    | none => w
    | some r =>
      { w with
        store := r.store
        base := w.base + (r.store.rtoNowTs - w.store.rtoNowTs).toNat
        handed := w.handed ++ r.handed.map fun s => ⟨s, w.deadline s, c⟩ }

end RtoWorld

namespace RtoStore

/-- `RearrangeRTOStore` meets no stream while the wheel turns up to time `c`. -/
def Quiet (w : RtoStore) (base c : ℕ) : Prop :=
  w.rtoList rtoHash = [] ∨ c + 1 < base + (1000 - w.rtoNowIdx.toNat % 1000)
deriving Decidable

end RtoStore

/-- Deadlines keep within half the range from `rto_now_ts` and do not change while armed, and no
stream waits for a later slot at `RearrangeRTOStore`. -/
def RtoWorld.Ok (w : RtoWorld) : RtoOp → Prop
  | .add s d onTimewaitList =>
    if 0 ≤ w.store.onRtoIdx s then d = w.deadline s
    else onTimewaitList = true ∨ w.store.rtoListCnt = 0 ∨ w.base ≤ d ∧ d < w.base + 2 ^ 31
  | .remove _ => True
  | .check c _ =>
    w.store.rtoListCnt = 0 ∨
      c < w.base + 2 ^ 31 ∧ w.base ≤ c + 2 ^ 31 ∧ w.store.Quiet w.base c

instance (w : RtoWorld) (op : RtoOp) : Decidable (w.Ok op) := by
  cases op <;> dsimp only [RtoWorld.Ok] <;> infer_instance

namespace RtoStore

/-- Every index is `-1` or names the list of the stream, and the counter counts armed streams. -/
structure Filed (w : RtoStore) : Prop where
  now : w.rtoNowIdx.toNat < rtoHash
  idx : ∀ s, -1 ≤ w.onRtoIdx s ∧ w.onRtoIdx s ≤ rtoHash
  mem : ∀ i ≤ rtoHash, ∀ s, s ∈ w.rtoList i ↔ w.onRtoIdx s = i
  nodup : ∀ i ≤ rtoHash, (w.rtoList i).Nodup
  count : ∃ armed : Finset ℕ, (∀ s, s ∈ armed ↔ w.onRtoIdx s ≠ -1) ∧ w.rtoListCnt = armed.card

variable {w : RtoStore} {s : ℕ}

theorem filed_init : initRTOHashstore.Filed where
  now := by decide
  idx _ := ⟨le_refl (-1 : ℤ), show (-1 : ℤ) ≤ rtoHash by decide⟩
  mem i _ s := ⟨nofun, fun h => by cases h⟩
  nodup _ _ := nodup_nil
  count := ⟨∅, fun _ => by simp [initRTOHashstore], rfl⟩

theorem offset_lt (w : RtoStore) (diff : UInt32) : w.offset diff < rtoHash := by
  exact Nat.mod_lt _ (by decide)

section

variable (h : w.Filed)
include h

theorem Filed.armed_of_count (hcnt : w.rtoListCnt = 0) (s : ℕ) : w.onRtoIdx s = -1 := by
  obtain ⟨armed, hmem, hcard⟩ := h.count
  by_contra hne
  have hempty : armed = ∅ := Finset.card_eq_zero.mp (by omega)
  have hs := (hmem s).mpr hne
  rw [hempty] at hs
  cases hs

theorem Filed.link {i : ℕ} (hi : i ≤ rtoHash) (hs : w.onRtoIdx s = -1) :
    ({ w.link i s with rtoListCnt := w.rtoListCnt + 1 } : RtoStore).Filed where
  now := h.now
  idx t := by
    by_cases ht : t = s
    · subst ht
      simp only [RtoStore.link, update_self]
      omega
    · simp only [RtoStore.link, update_of_ne ht]
      exact h.idx t
  mem j hj t := by
    have hiff := h.mem j hj t
    have hnot : s ∉ w.rtoList j := by
      rw [h.mem j hj s, hs]
      omega
    simp only [RtoStore.link, update_apply]
    split
    · next hji =>
      subst hji
      rw [mem_append, mem_singleton, hiff]
      split <;> omega
    next hji =>
    by_cases ht : t = s
    · subst ht
      exact iff_of_false hnot (by omega)
    · rw [if_neg ht]
      exact hiff
  nodup j hj := by
    simp only [RtoStore.link, update_apply]
    split
    · next hji =>
      subst hji
      refine List.Nodup.append (h.nodup j hj) (nodup_singleton s) ?_
      rw [disjoint_singleton, h.mem j hj s, hs]
      omega
    · exact h.nodup j hj
  count := by
    obtain ⟨armed, hmem, hcard⟩ := h.count
    have hnot : s ∉ armed := fun hin => (hmem s).mp hin hs
    refine ⟨insert s armed, fun t => ?_, ?_⟩
    · rw [Finset.mem_insert, hmem]
      simp only [RtoStore.link, update_apply]
      split <;> omega
    · rw [Finset.card_insert_of_notMem hnot]
      simp only [hcard, Nat.cast_add, Nat.cast_one]

theorem Filed.unlink {i : ℕ} (hi : i ≤ rtoHash) (hs : w.onRtoIdx s = i) :
    ({ w.unlink i s with rtoListCnt := w.rtoListCnt - 1 } : RtoStore).Filed where
  now := h.now
  idx t := by
    by_cases ht : t = s
    · subst ht
      simp only [RtoStore.unlink, update_self]
      omega
    · simp only [RtoStore.unlink, update_of_ne ht]
      exact h.idx t
  mem j hj t := by
    have hiff := h.mem j hj t
    simp only [RtoStore.unlink, update_apply]
    split
    · next hji =>
      subst hji
      rw [(h.nodup j hj).mem_erase_iff, hiff]
      split <;> omega
    next hji =>
    by_cases ht : t = s
    · subst ht
      rw [if_pos rfl, hiff, hs]
      omega
    · rw [if_neg ht]
      exact hiff
  nodup j hj := by
    simp only [RtoStore.unlink, update_apply]
    split
    · next hji =>
      subst hji
      exact (h.nodup j hj).erase s
    · exact h.nodup j hj
  count := by
    obtain ⟨armed, hmem, hcard⟩ := h.count
    have hin : s ∈ armed := (hmem s).mpr (by omega)
    refine ⟨armed.erase s, fun t => ?_, ?_⟩
    · rw [Finset.mem_erase, hmem]
      simp only [RtoStore.unlink, update_apply]
      split <;> omega
    · have hpos := Finset.card_pos.mpr ⟨s, hin⟩
      rw [Finset.card_erase_of_mem hin]
      simp only [hcard]
      omega

theorem Filed.turn {idx : UInt32} (hidx : idx.toNat < rtoHash) (now : UInt32) (ts : ℕ → UInt32) :
    ({ w with rtoNowIdx := idx, rtoNowTs := now, tsRto := ts } : RtoStore).Filed :=
  { h with now := hidx }

theorem Filed.seed (s : ℕ) : (w.seed s).Filed := by
  unfold RtoStore.seed
  split
  · exact h.turn (by decide) _ _
  · exact h

omit h in
theorem place_le (w : RtoStore) (s : ℕ) : w.place s ≤ rtoHash := by
  unfold place
  dsimp only
  split
  · exact (offset_lt _ _).le
  · exact le_refl _

theorem Filed.addtoRTOList (onTimewaitList : Bool) (s : ℕ) :
    (w.addtoRTOList onTimewaitList s).Filed := by
  have hseed := h.seed s
  have hidx := hseed.idx s
  unfold RtoStore.addtoRTOList
  dsimp only
  split
  · split
    · exact hseed
    · exact hseed.link (place_le _ s) (by omega)
  · exact hseed

theorem Filed.removeFromRTOList (s : ℕ) : (w.removeFromRTOList s).Filed := by
  have hidx := h.idx s
  unfold RtoStore.removeFromRTOList
  split
  · exact h
  · exact h.unlink (by omega) (by omega)

theorem Filed.rearrangeOne (hs : s ∈ w.rtoList rtoHash) : (w.rearrangeOne s).Filed := by
  have hidx := (h.mem rtoHash (le_refl _) s).mp hs
  unfold RtoStore.rearrangeOne
  dsimp only
  split
  · have hlink := (h.unlink (le_refl _) hidx).link (s := s)
      (offset_lt w (w.rtoNowTs - w.tsRto s)).le (update_self ..)
    simp only [sub_add_cancel] at hlink
    exact hlink
  · exact h

omit h in
theorem mem_rearrangeOne (w : RtoStore) {s t : ℕ} (hne : t ≠ s) (ht : t ∈ w.rtoList rtoHash) :
    t ∈ (w.rearrangeOne s).rtoList rtoHash := by
  unfold rearrangeOne
  dsimp only
  split
  · have hoff := (offset_lt w (w.rtoNowTs - w.tsRto s)).ne'
    simp only [RtoStore.link, RtoStore.unlink, update_of_ne hoff, update_self]
    exact (mem_erase_of_ne hne).mpr ht
  · exact ht

theorem Filed.rearrangeRTOStore : w.rearrangeRTOStore.Filed := by
  -- each stream of the snapshot is still on the last list when its turn comes
  have hloop : ∀ (l : List ℕ) (v : RtoStore), v.Filed → l.Nodup →
      (∀ t ∈ l, t ∈ v.rtoList rtoHash) → (l.foldl RtoStore.rearrangeOne v).Filed := by
    intro l
    induction l with
    | nil => exact fun v hv _ _ => hv
    | cons t rest ih =>
      intro v hv hnodup hmem
      obtain ⟨hnot, hrest⟩ := nodup_cons.mp hnodup
      refine ih _ (hv.rearrangeOne (hmem t mem_cons_self)) hrest fun u hu => ?_
      exact v.mem_rearrangeOne (fun heq => hnot (heq ▸ hu)) (hmem u (mem_cons_of_mem t hu))
  exact hloop _ w h (h.nodup rtoHash (le_refl _)) fun _ ht => ht

omit h in
theorem nextIdx_lt (idx : UInt32) : ((idx + 1) % 3000).toNat < rtoHash := by
  exact Nat.mod_lt _ (by decide)

theorem Filed.advance : w.advance.Filed := by
  have hturn : w.tick.Filed := h.turn (nextIdx_lt w.rtoNowIdx) (w.rtoNowTs + 1) w.tsRto
  unfold RtoStore.advance
  split
  · exact hturn.rearrangeRTOStore
  · exact hturn

theorem Filed.expire (hs : s ∈ w.rtoList w.rtoNowIdx.toNat) : (w.expire s).Filed :=
  h.unlink h.now.le ((h.mem _ h.now.le s).mp hs)

end

theorem expire_list (w : RtoStore) {walk : ℕ} {rest : List ℕ}
    (hlist : w.rtoList w.rtoNowIdx.toNat = walk :: rest) :
    (w.expire walk).rtoList (w.expire walk).rtoNowIdx.toNat = rest := by
  show update w.rtoList w.rtoNowIdx.toNat _ w.rtoNowIdx.toNat = rest
  rw [update_self, hlist, erase_cons_head]

end RtoStore

theorem int32_tsAt_sub {a b : ℕ} (ha : a < b + 2 ^ 31) (hb : b ≤ a + 2 ^ 31) :
    int32 (tsAt a - tsAt b) = (a : ℤ) - b := by
  unfold int32 tsAt
  rw [toNat_sub, toNat_ofNat', toNat_ofNat']
  split <;> omega

theorem tsAt_sub_toNat {a b : ℕ} (hle : b ≤ a) (hlt : a < b + 2 ^ 32) :
    (tsAt a - tsAt b).toNat = a - b := by
  unfold tsAt
  rw [toNat_sub, toNat_ofNat', toNat_ofNat']
  omega

theorem tsAt_succ (a : ℕ) : tsAt a + 1 = tsAt (a + 1) := by
  rw [← toNat_inj]
  unfold tsAt
  rw [UInt32.toNat_add, toNat_ofNat', toNat_ofNat', toNat_one]
  omega

namespace RtoStore

/-- The slot of a stream is that of its deadline, where the wheel stands at the
time `base`. -/
structure Timed (w : RtoStore) (deadline : ℕ → ℕ) (base : ℕ) : Prop where
  now : w.rtoNowTs = tsAt base
  ts : ∀ s, w.tsRto s = tsAt (deadline s)
  slot : ∀ s (i : ℕ), i < rtoHash → w.onRtoIdx s = i →
    ∃ k < rtoHash, deadline s = base + k ∧ i = (w.rtoNowIdx.toNat + k) % rtoHash
  later : ∀ s, w.onRtoIdx s = rtoHash →
    base + rtoHash ≤ deadline s + w.rtoNowIdx.toNat % 1000

variable {w : RtoStore} {deadline : ℕ → ℕ} {base : ℕ} {s : ℕ}

theorem timed_of_empty (hnow : w.rtoNowTs = tsAt base) (hts : ∀ s, w.tsRto s = tsAt (deadline s))
    (hempty : ∀ s, w.onRtoIdx s = -1) : w.Timed deadline base where
  now := hnow
  ts := hts
  slot s i _ hi := by
    rw [hempty s] at hi
    omega
  later s hs := by
    rw [hempty s] at hs
    cases hs

section

variable (h : w.Timed deadline base)
include h

theorem Timed.base_le (hf : w.Filed) (hs : w.onRtoIdx s ≠ -1) : base ≤ deadline s := by
  obtain ⟨hlow, hhigh⟩ := hf.idx s
  by_cases hlater : w.onRtoIdx s = rtoHash
  · have hle := h.later s hlater
    unfold rtoHash at hle
    omega
  · obtain ⟨k, -, hk, -⟩ := h.slot s (w.onRtoIdx s).toNat (by omega) (by omega)
    omega

theorem Timed.unlink (i s : ℕ) (cnt : ℤ) :
    ({ w.unlink i s with rtoListCnt := cnt } : RtoStore).Timed deadline base where
  now := h.now
  ts := h.ts
  slot t j hj ht := by
    by_cases hts : t = s
    · subst hts
      simp only [RtoStore.unlink, update_self] at ht
      omega
    · simp only [RtoStore.unlink, update_of_ne hts] at ht
      exact h.slot t j hj ht
  later t ht := by
    by_cases hts : t = s
    · subst hts
      simp only [RtoStore.unlink, update_self] at ht
      omega
    · simp only [RtoStore.unlink, update_of_ne hts] at ht
      exact h.later t ht

variable (hf : w.Filed) (hlow : base ≤ deadline s) (hhigh : deadline s < base + 2 ^ 31)
include hf hlow hhigh

theorem Timed.place :
    w.place s = if deadline s < base + rtoHash then
      (w.rtoNowIdx.toNat + (deadline s - base)) % rtoHash else rtoHash := by
  have hsigned := int32_tsAt_sub hhigh (by omega)
  have hdiff := tsAt_sub_toNat hlow (by omega)
  have hidx := hf.now
  unfold RtoStore.place
  dsimp only
  rw [h.ts s, h.now, hsigned]
  unfold rtoHash at *
  split
  · rw [if_pos (by omega)]
    unfold offset
    rw [toNat_mod, Word.add_toNat (by omega), hdiff, Nat.add_comm]
    rfl
  · rw [if_neg (by omega)]

theorem Timed.link (cnt : ℤ) :
    ({ w.link (w.place s) s with rtoListCnt := cnt } : RtoStore).Timed deadline base where
  now := h.now
  ts := h.ts
  slot t j hj ht := by
    by_cases hts : t = s
    · subst hts
      simp only [RtoStore.link, update_self, h.place hf hlow hhigh] at ht
      split at ht
      · exact ⟨deadline t - base, by omega, by omega, by exact_mod_cast ht.symm⟩
      · omega
    · simp only [RtoStore.link, update_of_ne hts] at ht
      exact h.slot t j hj ht
  later t ht := by
    by_cases hts : t = s
    · subst hts
      simp only [RtoStore.link, update_self, h.place hf hlow hhigh] at ht
      split at ht
      · have hlt := Nat.mod_lt (w.rtoNowIdx.toNat + (deadline t - base))
          (show 0 < rtoHash by decide)
        omega
      · omega
    · simp only [RtoStore.link, update_of_ne hts] at ht
      exact h.later t ht

end

theorem seed_onRtoIdx (w : RtoStore) (s : ℕ) : (w.seed s).onRtoIdx = w.onRtoIdx := by
  unfold seed
  split <;> rfl

section

variable (h : w.Timed deadline base)
include h

theorem Timed.seed (hf : w.Filed) (s : ℕ) :
    (w.seed s).Timed deadline (if w.rtoListCnt = 0 then deadline s else base) := by
  unfold RtoStore.seed
  split
  · next hcnt => exact timed_of_empty (h.ts s) h.ts (hf.armed_of_count hcnt)
  · exact h

theorem Timed.addtoRTOList (hf : w.Filed) (onTimewaitList : Bool)
    (hok : 0 ≤ w.onRtoIdx s ∨ onTimewaitList = true ∨ w.rtoListCnt = 0 ∨
      base ≤ deadline s ∧ deadline s < base + 2 ^ 31) :
    (w.addtoRTOList onTimewaitList s).Timed deadline
      (if w.rtoListCnt = 0 then deadline s else base) := by
  have hseed := h.seed hf s
  unfold RtoStore.addtoRTOList
  dsimp only
  split
  · next hidx =>
    rw [seed_onRtoIdx] at hidx
    split
    · exact hseed
    next htw =>
    refine hseed.link (hf.seed s) ?_ ?_ _
    · split
      · exact le_refl _
      · rcases hok with hok | hok | hok | hok <;> first | omega | exact absurd hok htw
    · split
      · omega
      · rcases hok with hok | hok | hok | hok <;> first | omega | exact absurd hok htw
  · exact hseed

theorem Timed.setTsRto {d : ℕ} (hok : w.onRtoIdx s = -1 ∨ d = deadline s) :
    ({ w with tsRto := update w.tsRto s (tsAt d) } : RtoStore).Timed
      (update deadline s d) base := by
  have hsame : ∀ t, w.onRtoIdx t ≠ -1 → update deadline s d t = deadline t := by
    intro t ht
    by_cases hts : t = s
    · subst hts
      rw [update_self]
      exact hok.resolve_left ht
    · rw [update_of_ne hts]
  refine ⟨h.now, fun t => ?_, fun t i hi ht => ?_, fun t ht => ?_⟩
  · by_cases hts : t = s
    · subst hts
      simp only [update_self]
    · simp only [update_of_ne hts]
      exact h.ts t
  · rw [hsame t (fun hneg => by rw [hneg] at ht; omega)]
    exact h.slot t i hi ht
  · rw [hsame t (fun hneg => by rw [hneg] at ht; cases ht)]
    exact h.later t ht

end

theorem Filed.tick_idx (hf : w.Filed) :
    w.tick.rtoNowIdx.toNat = (w.rtoNowIdx.toNat + 1) % rtoHash := by
  have hidx := hf.now
  unfold RtoStore.tick rtoHash at *
  rw [toNat_mod, Word.add_toNat (by rw [toNat_one]; omega)]
  rfl

theorem Quiet.nil_of_tick {c : ℕ} (h : w.Quiet base c) (hf : w.Filed) (hbase : base ≤ c)
    (hzero : w.tick.rtoNowIdx.toNat % 1000 = 0) : w.rtoList rtoHash = [] := by
  rcases h with hnil | hlt
  · exact hnil
  rw [hf.tick_idx] at hzero
  unfold rtoHash at *
  omega

theorem Quiet.tick {c : ℕ} (h : w.Quiet base c) (hf : w.Filed) (hbase : base ≤ c) :
    w.tick.Quiet (base + 1) c := by
  by_cases hzero : w.tick.rtoNowIdx.toNat % 1000 = 0
  · exact Or.inl (h.nil_of_tick hf hbase hzero)
  refine Or.imp id (fun hlt => ?_) h
  rw [hf.tick_idx] at hzero ⊢
  unfold rtoHash at *
  omega

theorem Timed.tick (h : w.Timed deadline base) (hf : w.Filed)
    (hempty : w.rtoList w.rtoNowIdx.toNat = []) {c : ℕ} (hbase : base ≤ c)
    (hquiet : w.Quiet base c) : w.tick.Timed deadline (base + 1) := by
  have hidx := hf.now
  refine ⟨?_, h.ts, fun s i hi hs => ?_, fun s hs => ?_⟩
  · show w.rtoNowTs + 1 = _
    rw [h.now, tsAt_succ]
  · obtain ⟨k, hk, hdead, hslot⟩ := h.slot s i hi hs
    have hk0 : k ≠ 0 := by
      intro hzero
      rw [hzero, Nat.add_zero, Nat.mod_eq_of_lt hidx] at hslot
      have hmem := (hf.mem _ hidx.le s).mpr (hslot ▸ hs)
      rw [hempty] at hmem
      cases hmem
    refine ⟨k - 1, by omega, by omega, ?_⟩
    rw [hslot, hf.tick_idx]
    unfold rtoHash at *
    omega
  · have hle := h.later s hs
    have hne : w.tick.rtoNowIdx.toNat % 1000 ≠ 0 := by
      intro hzero
      have hmem := (hf.mem rtoHash (le_refl _) s).mpr hs
      rw [hquiet.nil_of_tick hf hbase hzero] at hmem
      cases hmem
    rw [hf.tick_idx] at hne ⊢
    unfold rtoHash at *
    omega

/-- Under the condition the wheel only turns, `RearrangeRTOStore` moves nothing. -/
theorem Quiet.advance_eq {c : ℕ} (h : w.Quiet base c) (hf : w.Filed) (hbase : base ≤ c) :
    w.advance = w.tick := by
  unfold RtoStore.advance
  split
  · next hzero =>
    have hnil : w.tick.rtoList rtoHash = [] := by
      refine h.nil_of_tick hf hbase ?_
      rw [← toNat_inj, toNat_mod] at hzero
      exact hzero
    unfold rearrangeRTOStore
    rw [hnil]
    rfl
  · rfl

end RtoStore

/-- What `CheckRtmTimeout` at time `c` has done to the store `w` so far. -/
structure Swept (w : RtoStore) (deadline : ℕ → ℕ) (c : ℕ) (r : RtoCheck) (base : ℕ) : Prop where
  filed : r.store.Filed
  timed : r.store.Timed deadline base
  quiet : r.store.Quiet base c
  due : ∀ s ∈ r.handed, deadline s ≤ c
  kept : ∀ s, w.onRtoIdx s ≠ -1 → r.store.onRtoIdx s ≠ -1 ∨ s ∈ r.handed

variable {w : RtoStore} {deadline : ℕ → ℕ} {c base : ℕ} {r : RtoCheck}

theorem Swept.expire (h : Swept w deadline c r base) {walk : ℕ} (cnt : ℤ)
    (hmem : walk ∈ r.store.rtoList r.store.rtoNowIdx.toNat) (hbase : base ≤ c) :
    Swept w deadline c ⟨r.store.expire walk, cnt, r.handed ++ [walk]⟩ base where
  filed := h.filed.expire hmem
  timed := h.timed.unlink _ _ _
  quiet := by
    refine Or.imp (fun hnil => ?_) id h.quiet
    have hne := h.filed.now.ne'
    show update r.store.rtoList r.store.rtoNowIdx.toNat _ rtoHash = []
    rw [update_of_ne hne, hnil]
  due s hs := by
    rcases mem_append.mp hs with hs | hs
    · exact h.due s hs
    -- the current slot is that of the time of the wheel
    have hidx := (h.filed.mem _ h.filed.now.le walk).mp hmem
    obtain ⟨k, hk, hdead, hslot⟩ := h.timed.slot walk _ h.filed.now hidx
    rw [mem_singleton.mp hs]
    unfold rtoHash at *
    omega
  kept s hs := by
    rcases h.kept s hs with harmed | hhanded
    · by_cases heq : s = walk
      · exact Or.inr (mem_append_right _ (mem_singleton.mpr heq))
      · refine Or.inl ?_
        show update r.store.onRtoIdx walk (-1) s ≠ -1
        rw [update_of_ne heq]
        exact harmed
    · exact Or.inr (mem_append_left _ hhanded)

theorem Swept.sweep (thresh : ℤ) (l : List ℕ) (h : Swept w deadline c r base) (hbase : base ≤ c)
    (hlist : r.store.rtoList r.store.rtoNowIdx.toNat = l) :
    Swept w deadline c (sweep thresh l r) base ∧
      ((sweep thresh l r).cnt ≤ thresh → (sweep thresh l r).store.rtoList
        (sweep thresh l r).store.rtoNowIdx.toNat = []) := by
  induction l generalizing r with
  | nil => exact ⟨h, fun _ => hlist⟩
  | cons walk rest ih =>
    have hmem : walk ∈ r.store.rtoList r.store.rtoNowIdx.toNat := by
      rw [hlist]
      exact mem_cons_self
    have hidx := (h.filed.mem _ h.filed.now.le walk).mp hmem
    unfold StackBench.Mtcp.sweep
    split
    · next hcut =>
      exact ⟨{ h with }, fun hle => absurd hle (not_le.mpr hcut)⟩
    · rw [if_pos (by omega)]
      exact ih (h.expire _ hmem hbase) (r.store.expire_list hlist)

/-- The loop ends, because the time of the wheel reaches the clock or because
the threshold is passed. -/
theorem Swept.checkLoop (thresh : ℤ) (fuel : ℕ) (h : Swept w deadline c r base)
    (hlow : c < base + 2 ^ 31) (hhigh : base ≤ c + 2 ^ 31) (hpos : 0 < fuel)
    (hfuel : c + 2 ≤ base + fuel) :
    ∃ r' base', checkLoop (tsAt c) thresh fuel r = some r' ∧ Swept w deadline c r' base' ∧
      base ≤ base' ∧ base' ≤ max base (c + 1) ∧ (r'.cnt ≤ thresh → c < base') := by
  induction fuel generalizing r base with
  | zero => omega
  | succ fuel ih =>
    have hsigned := int32_tsAt_sub hlow hhigh
    unfold StackBench.Mtcp.checkLoop
    rw [h.timed.now, hsigned]
    dsimp only
    split
    · exact ⟨r, base, rfl, h, le_refl _, le_max_left _ _, fun _ => by omega⟩
    next hdue =>
      obtain ⟨hswept, hempty⟩ := h.sweep thresh _ (by omega) rfl
      split
      · next hcut =>
        exact ⟨_, base, rfl, hswept, le_refl _, le_max_left _ _,
          fun hle => absurd hle (not_le.mpr hcut)⟩
      next hcut =>
      have hnil := hempty (not_lt.mp hcut)
      have hadvance := hswept.quiet.advance_eq hswept.filed (by omega)
      have hnext : Swept w deadline c
          { StackBench.Mtcp.sweep thresh (r.store.rtoList r.store.rtoNowIdx.toNat) r with
            store := (StackBench.Mtcp.sweep thresh
              (r.store.rtoList r.store.rtoNowIdx.toNat) r).store.advance } (base + 1) := by
        have hfiled := hswept.filed.advance
        rw [hadvance] at hfiled ⊢
        exact ⟨hfiled, hswept.timed.tick hswept.filed hnil (by omega) hswept.quiet,
          hswept.quiet.tick hswept.filed (by omega), hswept.due, hswept.kept⟩
      obtain ⟨r', base', hr', hswept', hle, hmax, hdone⟩ :=
        ih hnext (by omega) (by omega) (by omega) (by omega)
      exact ⟨r', base', hr', hswept', by omega, by omega, hdone⟩

theorem RtoStore.Timed.checkRtmTimeout (h : w.Timed deadline base) (hf : w.Filed)
    (hcnt : w.rtoListCnt ≠ 0) (hlow : c < base + 2 ^ 31) (hhigh : base ≤ c + 2 ^ 31)
    (hquiet : w.Quiet base c) (thresh : ℤ) :
    ∃ r base', w.checkRtmTimeout (tsAt c) thresh = some r ∧ Swept w deadline c r base' ∧
      base' = base + (r.store.rtoNowTs - w.rtoNowTs).toNat ∧ (r.cnt ≤ thresh → c < base') := by
  have hstart : Swept w deadline c ⟨w, 0, []⟩ base := ⟨hf, h, hquiet, nofun, fun _ hs => Or.inl hs⟩
  have hsigned := int32_tsAt_sub hlow hhigh
  unfold RtoStore.checkRtmTimeout
  rw [if_neg hcnt, h.now, hsigned]
  obtain ⟨r, base', hr, hswept, hle, hmax, hdone⟩ :=
    hstart.checkLoop thresh (((c : ℤ) - base).toNat + 2) hlow hhigh (by omega) (by omega)
  refine ⟨r, base', hr, hswept, ?_, hdone⟩
  rw [hswept.timed.now, tsAt_sub_toNat hle (by omega)]
  omega

namespace RtoWorld

structure Inv (w : RtoWorld) : Prop where
  filed : w.store.Filed
  timed : w.store.Timed w.deadline w.base
  due : ∀ e ∈ w.handed, e.deadline ≤ e.clock

/-- The lists, the indices and the counter agree, and streams are handed over when due. -/
structure Sound (w : RtoWorld) : Prop where
  filed : w.store.Filed
  due : ∀ e ∈ w.handed, e.deadline ≤ e.clock
  fires : ∀ c thresh, w.Ok (.check c thresh) →
    ∃ r, w.store.checkRtmTimeout (tsAt c) thresh = some r ∧ (r.cnt ≤ thresh →
      ∀ s, w.store.onRtoIdx s ≠ -1 → w.deadline s ≤ c → s ∈ r.handed)

variable {w : RtoWorld}

theorem inv_start : start.Inv where
  filed := RtoStore.filed_init
  timed := RtoStore.timed_of_empty rfl (fun _ => rfl) fun _ => rfl
  due := nofun

section

variable (h : w.Inv)
include h

theorem Inv.add {s d : ℕ} {onTimewaitList : Bool}
    (hok : w.Ok (.add s d onTimewaitList)) : (w.step (.add s d onTimewaitList)).Inv := by
  have hidx := h.filed.idx s
  have hset : (w.setTsRto s d).Timed (update w.deadline s d) w.base := by
    refine h.timed.setTsRto ?_
    simp only [Ok] at hok
    split at hok
    · exact Or.inr hok
    · exact Or.inl (by omega)
  have hfiled : (w.setTsRto s d).Filed := h.filed.turn h.filed.now _ _
  refine ⟨hfiled.addtoRTOList onTimewaitList s, ?_, h.due⟩
  have hadd := hset.addtoRTOList (s := s) hfiled onTimewaitList ?_
  · rw [update_self] at hadd
    exact hadd
  · rw [update_self]
    simp only [Ok] at hok
    split at hok
    · next harmed => exact Or.inl harmed
    · exact Or.inr hok

theorem Inv.remove (s : ℕ) : (w.step (.remove s)).Inv where
  filed := h.filed.removeFromRTOList s
  timed := by
    unfold step RtoStore.removeFromRTOList
    dsimp only
    split
    · exact h.timed
    · exact h.timed.unlink _ _ _
  due := h.due

theorem Inv.check {c : ℕ} {thresh : ℤ} (hok : w.Ok (.check c thresh)) :
    (w.step (.check c thresh)).Inv := by
  by_cases hcnt : w.store.rtoListCnt = 0
  · have hr : w.store.checkRtmTimeout (tsAt c) thresh = some ⟨w.store, 0, []⟩ := if_pos hcnt
    have hsame : w.step (.check c thresh) = w := by
      unfold step
      simp [hr]
    rw [hsame]
    exact h
  obtain ⟨hlow, hhigh, hquiet⟩ := hok.resolve_left hcnt
  obtain ⟨r, base', hr, hswept, hbase, -⟩ :=
    h.timed.checkRtmTimeout h.filed hcnt hlow hhigh hquiet thresh
  unfold step
  dsimp only
  rw [hr]
  subst hbase
  refine ⟨hswept.filed, hswept.timed, fun e he => ?_⟩
  rcases mem_append.mp he with he | he
  · exact h.due e he
  · obtain ⟨s, hs, rfl⟩ := mem_map.mp he
    exact hswept.due s hs

theorem Inv.step {op : RtoOp} (hok : w.Ok op) : (w.step op).Inv := by
  cases op with
  | add s d onTimewaitList => exact h.add hok
  | remove s => exact h.remove s
  | check c thresh => exact h.check hok

theorem Inv.fires {c : ℕ} {thresh : ℤ} (hok : w.Ok (.check c thresh)) :
    ∃ r, w.store.checkRtmTimeout (tsAt c) thresh = some r ∧ (r.cnt ≤ thresh →
      ∀ s, w.store.onRtoIdx s ≠ -1 → w.deadline s ≤ c → s ∈ r.handed) := by
  by_cases hcnt : w.store.rtoListCnt = 0
  · exact ⟨_, if_pos hcnt, fun _ s hs => absurd (h.filed.armed_of_count hcnt s) hs⟩
  obtain ⟨hlow, hhigh, hquiet⟩ := hok.resolve_left hcnt
  obtain ⟨r, base', hr, hswept, -, hdone⟩ :=
    h.timed.checkRtmTimeout h.filed hcnt hlow hhigh hquiet thresh
  refine ⟨r, hr, fun huncut s hs hdue => (hswept.kept s hs).resolve_left fun harmed => ?_⟩
  have hle := hswept.timed.base_le hswept.filed harmed
  omega

theorem Inv.sound : w.Sound where
  filed := h.filed
  due := h.due
  fires _ _ hok := h.fires hok

end

/-- In every run whose operations suit the wheel, timers fire at the first check after their
deadlines, and not before. -/
theorem timers_fire (ops : List RtoOp) (hops : Run.Admissible step Ok start ops) :
    (ops.foldl step start).Sound :=
  (hops.invariant inv_start fun _ _ h hok => h.step hok).sound

def fewTimers : List RtoOp :=
  [.add 0 5 false, .add 1 7 false, .add 2 4000 false, .check 5 1, .remove 1, .add 1 9 false,
    .remove 2, .check 8 1, .check 1200 1]

theorem timers_fire_fewTimers :
    Run.Admissible step Ok start fewTimers ∧ (fewTimers.foldl step start).Sound ∧
      (fewTimers.foldl step start).handed = [⟨0, 5, 5⟩, ⟨1, 9, 1200⟩] := by
  exact ⟨by decide +kernel, timers_fire fewTimers (by decide +kernel), by decide +kernel⟩

def lateTimer : List RtoOp := [.add 0 3000 false, .add 1 10 false]

def farTimer : List RtoOp := [.add 0 0 false, .add 1 3295 false, .check 1001 8]

def movedTimer : List RtoOp := [.add 0 0 false, .add 0 100 false, .check 0 8]

/-- The first stream is not handed over after its deadline, the others are handed over before
theirs. -/
theorem timers_misfire :
    (lateTimer.foldl step start).store.onRtoIdx 1 = 2306 ∧
      (lateTimer.foldl step start).deadline 1 = 10 ∧
      ((lateTimer.foldl step start).store.checkRtmTimeout (tsAt 20) 8).map
        (fun r => (r.cnt, r.handed)) = some (0, []) ∧
      ⟨1, 3295, 1001⟩ ∈ (farTimer.foldl step start).handed ∧
      ⟨0, 100, 0⟩ ∈ (movedTimer.foldl step start).handed := by
  decide +kernel

end RtoWorld

end StackBench.Mtcp

import StackBench.Mtcp.Fragments

/-!
# Reassembly in the mTCP receive buffer

What `RBPut` and `RBRemove` do to fragments and saved bytes, counted from
`head_seq`, whatever the bytes are.
-/

open List
open UInt32 (toNat_add toNat_ofNat' toNat_sub toNat_zero)

namespace StackBench.Mtcp

open Linked (Chain)
open Spans (Span covers_of_lt_runEnd lower runEnd)

def RingBuffer.contexts (rb : RingBuffer) : List ℕ := Linked.cells rb.next 0 rb.size.toNat rb.fctx

/-- The spans of the fragments, counted from `head_seq`. -/
def RingBuffer.spans (rb : RingBuffer) : List (Span ℕ) := spansOf rb.headSeq rb.frag rb.contexts

/-- The byte in the chunk at position `i` behind the head. -/
def RingBuffer.byte (rb : RingBuffer) (i : ℕ) : UInt8 := rb.data (rb.headOffset.toNat + i)

open RingBuffer (byte spans)

structure RingBuffer.Inv (rb : RingBuffer) : Prop where
  chain : Chain rb.next 0 rb.fctx rb.contexts
  nodup : rb.contexts.Nodup
  separated : Spans.Separated rb.spans
  saved : ∀ s ∈ rb.spans, s.hi ≤ rb.lastLen.toNat
  offsets : rb.headOffset.toNat + rb.lastLen.toNat = rb.tailOffset.toNat
  inside : rb.tailOffset.toNat ≤ rb.size.toNat
  merged : rb.mergedLen.toNat = runEnd 0 rb.spans

/-- The largest sizes leave no room for the comparison of two numbers behind
the ends of the buffer. -/
def sizeBound : ℕ := 2 ^ 31 - 2

-- adjacent fragments that fill a chunk of `2 ^ 31 - 1` bytes are not merged
example : canMerge { seq := 0, len := 2 ^ 31 - 2 } { seq := 2 ^ 31 - 2, len := 1 } = false := by
  decide

theorem rbInit_inv (data : ℕ → UInt8) (size initSeq : UInt32) : (rbInit data size initSeq).Inv := by
  have hempty : (rbInit data size initSeq).contexts = [] := by
    simp only [RingBuffer.contexts, rbInit]
    cases size.toNat with
    | zero => rfl
    | succ n => rfl
  have hspans : (rbInit data size initSeq).spans = [] := by
    simp only [spans, hempty, spansOf, map_nil]
  refine ⟨?_, ?_, ?_, ?_, rfl, Nat.zero_le _, ?_⟩
  · rw [hempty]
    rfl
  · rw [hempty]
    exact nodup_nil
  · rw [hspans]
    exact ⟨List.Pairwise.nil, by simp⟩
  · simp [hspans]
  · rw [hspans]
    rfl

variable {ptrs : List ℕ}

section Inv

variable {rb : RingBuffer}

theorem RingBuffer.Inv.mem_near (h : rb.Inv) (hsize : rb.size.toNat ≤ sizeBound) :
    ∀ p ∈ rb.contexts, (rb.frag p).Near rb.headSeq ∧ 0 < (rb.frag p).len.toNat := by
  intro p hp
  have hmem : (rb.frag p).span rb.headSeq ∈ rb.spans := mem_map_of_mem hp
  have hsaved := h.saved _ hmem
  have hpos := h.separated.nonempty _ hmem
  have hoff := h.offsets
  have hin := h.inside
  simp only [sizeBound] at hsize
  refine ⟨?_, ?_⟩
  · rw [Fragment.Near]
    omega
  · simpa [Fragment.span] using hpos

theorem RingBuffer.Inv.length_le (h : rb.Inv) : rb.contexts.length ≤ rb.size.toNat := by
  have hlen := h.separated.length_le (b := 0) (by simp) h.saved (Nat.zero_le _)
  have hoff := h.offsets
  have hin := h.inside
  rw [spans, spansOf, length_map] at hlen
  omega

theorem RingBuffer.contexts_eq (hchain : Chain rb.next 0 rb.fctx ptrs)
    (hlen : ptrs.length ≤ rb.size.toNat) : rb.contexts = ptrs :=
  hchain.cells_eq hlen

end Inv

theorem sizeT_toNat {x : UInt32} (hx : x.toNat < 2 ^ 31) : sizeT x = x.toNat := if_pos hx

theorem int32_toNat {x : UInt32} (hx : x.toNat < 2 ^ 31) : int32 x = x.toNat := if_pos hx

/-- `rb'` is `rb` with its bytes at another place of the chunk, where `n` bytes
fit behind the head. -/
structure Room (rb rb' : RingBuffer) (n : ℕ) : Prop where
  frame : rb' = { rb with
    data := rb'.data, headOffset := rb'.headOffset, tailOffset := rb'.tailOffset }
  offsets : rb'.headOffset.toNat + rb.lastLen.toNat = rb'.tailOffset.toNat
  inside : rb'.tailOffset.toNat ≤ rb.size.toNat
  fits : rb'.headOffset.toNat + n ≤ rb.size.toNat
  bytes : ∀ i < rb.lastLen.toNat, rb'.byte i = rb.byte i

section Bytes

variable {rb : RingBuffer} {endOff : UInt32}

theorem RingBuffer.Inv.makeRoom (h : rb.Inv) (hsize : rb.size.toNat ≤ sizeBound)
    (hend : endOff.toNat ≤ rb.size.toNat) : Room rb (makeRoom rb endOff) endOff.toNat := by
  have hoff := h.offsets
  have hin := h.inside
  simp only [sizeBound] at hsize
  have hsum : (rb.headOffset + endOff).toNat = rb.headOffset.toNat + endOff.toNat := by
    rw [toNat_add]
    omega
  have hlast : sizeT rb.lastLen = rb.lastLen.toNat := sizeT_toNat (by omega)
  unfold Mtcp.makeRoom
  split
  · -- the saved bytes go to the front
    refine ⟨rfl, ?_, ?_, ?_, ?_⟩
    · simp only [compact, toNat_sub, toNat_zero]
      omega
    · simp only [compact, toNat_sub]
      omega
    · simpa [compact] using hend
    · intro i hi
      simp only [byte, compact, memmove, hlast, toNat_zero, Nat.zero_add,
        Nat.zero_le, true_and, Nat.sub_zero, if_pos hi]
  · next hfit =>
    rw [UInt32.le_iff_toNat_le, hsum] at hfit
    exact ⟨rfl, hoff, hin, by omega, fun _ _ => rfl⟩

theorem RingBuffer.Inv.moveWrites_inside (h : rb.Inv) (hsize : rb.size.toNat ≤ sizeBound) :
    ∀ w ∈ moveWrites rb endOff, 0 ≤ w.pos ∧ w.pos + w.len ≤ rb.size.toNat := by
  have hoff := h.offsets
  have hin := h.inside
  simp only [sizeBound] at hsize
  have hlast : sizeT rb.lastLen = rb.lastLen.toNat := sizeT_toNat (by omega)
  intro w hw
  unfold moveWrites at hw
  split at hw
  · rw [mem_singleton.mp hw, hlast]
    dsimp only
    omega
  · cases hw

theorem storeSegment_byte {putx : UInt32} {data : List UInt8} (hx : putx.toNat < 2 ^ 31) (i : ℕ) :
    (storeSegment rb putx endOff data).byte i =
      if putx.toNat ≤ i ∧ i < putx.toNat + data.length then data.getD (i - putx.toNat) 0
      else rb.byte i := by
  have hiff : ((rb.headOffset.toNat : ℤ) + int32 putx ≤ (rb.headOffset.toNat + i : ℕ) ∧
      ((rb.headOffset.toNat + i : ℕ) : ℤ) < rb.headOffset.toNat + int32 putx + data.length) ↔
        putx.toNat ≤ i ∧ i < putx.toNat + data.length := by
    rw [int32_toNat hx]
    omega
  have hidx : (((rb.headOffset.toNat + i : ℕ) : ℤ) -
      (rb.headOffset.toNat + int32 putx)).toNat = i - putx.toNat := by
    rw [int32_toNat hx]
    omega
  simp only [byte, storeSegment, memcpy, hiff, hidx]

end Bytes

/-- `stored` is `rb` after the bytes `data` were copied to position `x`. -/
structure Stored (rb stored : RingBuffer) (x : ℕ) (data : List UInt8) : Prop where
  frame : stored = { rb with
    data := stored.data, headOffset := stored.headOffset, tailOffset := stored.tailOffset
    lastLen := stored.lastLen }
  lastLen : stored.lastLen.toNat = max rb.lastLen.toNat (x + data.length)
  offsets : stored.headOffset.toNat + stored.lastLen.toNat = stored.tailOffset.toNat
  inside : stored.tailOffset.toNat ≤ rb.size.toNat
  new : ∀ i < data.length, stored.byte (x + i) = data.getD i 0
  old : ∀ i < rb.lastLen.toNat, i < x ∨ x + data.length ≤ i → stored.byte i = rb.byte i

section Put

variable {rb : RingBuffer} {putx endOff : UInt32} {data : List UInt8}

theorem Room.stored {rb' : RingBuffer} (h : Room rb rb' endOff.toNat)
    (hsize : rb.size.toNat ≤ sizeBound) (hend : putx.toNat + data.length = endOff.toNat) :
    Stored rb (storeSegment rb' putx endOff data) putx.toNat data := by
  have hoff := h.offsets
  have hin := h.inside
  have hfit := h.fits
  simp only [sizeBound] at hsize
  have hsum : (rb'.headOffset + endOff).toNat = rb'.headOffset.toNat + endOff.toNat := by
    rw [toNat_add]
    omega
  have htail : (if rb'.tailOffset < rb'.headOffset + endOff then rb'.headOffset + endOff
      else rb'.tailOffset).toNat =
        rb'.headOffset.toNat + max rb.lastLen.toNat endOff.toNat := by
    split
    · next hlt =>
      rw [UInt32.lt_iff_toNat_lt] at hlt
      omega
    · next hge =>
      rw [UInt32.lt_iff_toNat_lt] at hge
      omega
  refine ⟨?_, ?_, ?_, ?_, ?_, ?_⟩
  · rw [h.frame]
    rfl
  · simp only [storeSegment, toNat_sub, htail]
    omega
  · simp only [storeSegment, toNat_sub, htail]
    omega
  · simp only [storeSegment, htail]
    omega
  · intro i hi
    rw [storeSegment_byte (by omega), if_pos (by omega), Nat.add_sub_cancel_left]
  · intro i hi hout
    rw [storeSegment_byte (by omega), if_neg (by omega), h.bytes i hi]

/-- The fragments after `RBPut` has stored a segment and inserted its span. -/
structure PutAccepted (rb : RingBuffer) (x : ℕ) (data : List UInt8) (r : RbPut) : Prop where
  inv : r.rb.Inv
  spans : r.rb.spans = Spans.insert ⟨x, x + data.length⟩ rb.spans
  headSeq : r.rb.headSeq = rb.headSeq
  size : r.rb.size = rb.size
  new : ∀ i < data.length, r.rb.byte (x + i) = data.getD i 0
  old : ∀ i < rb.lastLen.toNat, i < x ∨ x + data.length ≤ i → r.rb.byte i = rb.byte i
  ret : r.ret = data.length
  writes : ∀ w ∈ r.writes, 0 ≤ w.pos ∧ w.pos + w.len ≤ rb.size.toNat

theorem countMerged_frame (rb : RingBuffer) : countMerged rb = { rb with
    cumLen := (countMerged rb).cumLen, mergedLen := (countMerged rb).mergedLen } := by
  unfold countMerged
  split <;> rfl

/-- The old `merged_len` is kept only where nothing has been received at the head. -/
theorem countMerged_mergedLen (hchain : Chain rb.next 0 rb.fctx rb.contexts)
    (hne : rb.contexts ≠ []) (hsep : Spans.Separated rb.spans)
    (hold : rb.mergedLen.toNat ≠ 0 → Spans.Covers rb.spans 0) :
    (countMerged rb).mergedLen.toNat = runEnd 0 rb.spans := by
  obtain ⟨p, ps, hctx⟩ := exists_cons_of_ne_nil hne
  have hfctx : rb.fctx = p := by
    rw [hctx] at hchain
    exact hchain.1
  have hspans : rb.spans = (rb.frag p).span rb.headSeq :: spansOf rb.headSeq rb.frag ps := by
    rw [spans, hctx]
    rfl
  have hrun := hsep.not_covers_runEnd (b := 0) (fun _ _ => Nat.zero_le _)
  unfold countMerged
  rw [hfctx]
  split
  · next heq =>
    rw [hspans, runEnd, if_pos]
    · simp [Fragment.span, ← heq]
    · simp [Fragment.span, ← heq]
  next hneq =>
  have hlo : ((rb.frag p).span rb.headSeq).lo ≠ 0 := by
    intro hzero
    apply hneq
    rw [Fragment.seq_eq rb.headSeq (rb.frag p), hzero, seqAt_zero]
  rw [hspans, runEnd, if_neg hlo, ← hspans] at hrun
  rw [hspans, runEnd, if_neg hlo]
  by_contra hcon
  exact hrun (hold hcon)

theorem Stored.linked {stored : RingBuffer} {x : ℕ} {s : PutLoop} (h : rb.Inv)
    (hst : Stored rb stored x data) (hpos : 0 < data.length) (hlist : FragList s ptrs)
    (hspans : spansOf rb.headSeq s.frag ptrs = Spans.insert ⟨x, x + data.length⟩ rb.spans) :
    let rb' := countMerged { stored with fctx := s.fctx, frag := s.frag, next := s.next }
    rb'.Inv ∧ rb'.spans = Spans.insert ⟨x, x + data.length⟩ rb.spans := by
  have hsep : Spans.Separated (Spans.insert ⟨x, x + data.length⟩ rb.spans) :=
    Spans.insert_separated h.separated (by simpa using hpos)
  have hhi : ∀ t ∈ Spans.insert ⟨x, x + data.length⟩ rb.spans, t.hi ≤ stored.lastLen.toNat := by
    rw [hst.lastLen]
    refine Spans.insert_forall (P := fun t => t.hi ≤ _) Spans.hull_hi_le (le_max_right _ _) ?_
    exact fun t ht => (h.saved t ht).trans (le_max_left _ _)
  have hsize : stored.size = rb.size := by rw [hst.frame]
  have hhead : stored.headSeq = rb.headSeq := by rw [hst.frame]
  have hmergedLen : stored.mergedLen = rb.mergedLen := by rw [hst.frame]
  have hlen : ptrs.length ≤ stored.size.toNat := by
    have hle := hsep.length_le (b := 0) (by simp) hhi (Nat.zero_le _)
    rw [← hspans, spansOf, length_map] at hle
    have hoff := hst.offsets
    have hin := hst.inside
    rw [hsize]
    omega
  set mid : RingBuffer := { stored with fctx := s.fctx, frag := s.frag, next := s.next }
  have hctx : mid.contexts = ptrs := RingBuffer.contexts_eq hlist.chain hlen
  have hsp : mid.spans = Spans.insert ⟨x, x + data.length⟩ rb.spans := by
    rw [spans, hctx, ← hspans]
    exact congrArg (spansOf · s.frag ptrs) hhead
  have hchain : Chain mid.next 0 mid.fctx mid.contexts := by
    rw [hctx]
    exact hlist.chain
  have hne : mid.contexts ≠ [] := by
    intro hnil
    have hcov := (Spans.insert_covers ⟨x, x + data.length⟩ rb.spans x).mpr
      (Or.inl ⟨le_rfl, by simpa using hpos⟩)
    rw [← hsp, spans, hnil] at hcov
    obtain ⟨t, ht, -⟩ := hcov
    cases ht
  have hold : mid.mergedLen.toNat ≠ 0 → Spans.Covers mid.spans 0 := by
    intro hnz
    rw [show mid.mergedLen = rb.mergedLen from hmergedLen, h.merged] at hnz
    rw [hsp, Spans.insert_covers]
    exact Or.inr (covers_of_lt_runEnd le_rfl (Nat.pos_of_ne_zero hnz))
  have hmerged := countMerged_mergedLen hchain hne (hsp ▸ hsep) hold
  intro rb'
  have hframe : rb' = { mid with
      cumLen := (countMerged mid).cumLen, mergedLen := (countMerged mid).mergedLen } :=
    countMerged_frame mid
  have hcontexts : rb'.contexts = mid.contexts := by rw [hframe]; rfl
  have hspans' : rb'.spans = mid.spans := by rw [hframe]; rfl
  refine ⟨⟨?_, ?_, ?_, ?_, ?_, ?_, ?_⟩, hspans'.trans hsp⟩
  · rw [hcontexts, hframe]
    exact hchain
  · rw [hcontexts, hctx]
    exact hlist.nodup
  · rw [hspans', hsp]
    exact hsep
  · rw [hspans', hsp, hframe]
    exact hhi
  · rw [hframe]
    exact hst.offsets
  · rw [hframe]
    exact hsize ▸ hst.inside
  · rw [hspans']
    exact hmerged

variable (h : rb.Inv) (hsize : rb.size.toNat ≤ sizeBound)
include h hsize

theorem RingBuffer.Inv.rbPutAccept {ctx : ℕ} {curSeq : UInt32}
    (hne : ctx ≠ 0) (hctx : ctx ∉ rb.contexts)
    (hpos : 0 < data.length) (hend : (curSeq - rb.headSeq + UInt32.ofNat data.length).toNat =
      (curSeq - rb.headSeq).toNat + data.length)
    (hle : (curSeq - rb.headSeq).toNat + data.length ≤ rb.size.toNat) :
    ∃ r, rbPutAccept rb ctx data curSeq = some r ∧
      PutAccepted rb (curSeq - rb.headSeq).toNat data r := by
  have hsizeNat : rb.size.toNat ≤ 2 ^ 31 - 2 := hsize
  have hofNat : (UInt32.ofNat data.length).toNat = data.length := by
    rw [toNat_ofNat']
    omega
  have hend' : (curSeq - rb.headSeq + UInt32.ofNat data.length).toNat ≤ rb.size.toNat := by omega
  have hroom := h.makeRoom hsize hend'
  have hst : Stored rb _ _ data := hroom.stored hsize hend.symm
  unfold Mtcp.rbPutAccept
  dsimp only
  generalize storeSegment
    (Mtcp.makeRoom rb (curSeq - rb.headSeq + UInt32.ofNat data.length)) (curSeq - rb.headSeq)
      (curSeq - rb.headSeq + UInt32.ofNat data.length) data = stored at hst ⊢
  have hspan : Fragment.span rb.headSeq ⟨curSeq, UInt32.ofNat data.length⟩ =
      ⟨(curSeq - rb.headSeq).toNat, (curSeq - rb.headSeq).toNat + data.length⟩ := by
    simp only [Fragment.span, hofNat]
  have hnear : Fragment.Near rb.headSeq ⟨curSeq, UInt32.ofNat data.length⟩ := by
    rw [Fragment.Near, hspan]
    exact hle.trans hsizeNat
  have hchain : Chain stored.next 0 stored.fctx rb.contexts := by
    rw [hst.frame]
    exact h.chain
  have hfrag : stored.frag = rb.frag := by rw [hst.frame]
  have hfuel : rb.contexts.length < stored.size.toNat + 2 := by
    rw [hst.frame]
    exact Nat.lt_add_right 1 (Nat.lt_succ_of_le h.length_le)
  obtain ⟨s, ptrs, hput, hlist, hspans⟩ := putFragment_spec hchain h.nodup hctx hne hfuel
    (by rw [hofNat]; exact hpos) hnear (by rw [hfrag]; exact h.mem_near hsize)
  rw [hspan, hfrag] at hspans
  obtain ⟨hinv, hspans'⟩ := hst.linked h hpos hlist hspans
  rw [hput]
  refine ⟨_, rfl, hinv, hspans', ?_, ?_, ?_, ?_, rfl, ?_⟩
  · rw [countMerged_frame, hst.frame]
  · rw [countMerged_frame, hst.frame]
  · intro i hi
    rw [countMerged_frame]
    exact hst.new i hi
  · intro i hi hout
    rw [countMerged_frame]
    exact hst.old i hi hout
  · intro w hw
    rcases mem_append.mp hw with hw | hw
    · exact h.moveWrites_inside hsize w hw
    have hfits := hroom.fits
    rw [mem_singleton.mp hw, int32_toNat (by omega)]
    dsimp only
    omega

theorem RingBuffer.Inv.rbPut {ctx : ℕ} {curSeq : UInt32} (hne : ctx ≠ 0) (hctx : ctx ∉ rb.contexts)
    (hlen : data.length < 2 ^ 31)
    (hwin : (curSeq + UInt32.ofNat data.length - rb.headSeq).toNat < 2 ^ 31) :
    ∃ r, rbPut rb ctx data curSeq = some r ∧
      ((r.rb = rb ∧ r.ret ≤ 0 ∧ r.writes = []) ∨
        (0 < data.length ∧ (curSeq - rb.headSeq).toNat + data.length ≤ rb.size.toNat ∧
          PutAccepted rb (curSeq - rb.headSeq).toNat data r)) := by
  have hsizeNat : rb.size.toNat ≤ 2 ^ 31 - 2 := hsize
  have hofNat : (UInt32.ofNat data.length).toNat = data.length := by
    rw [toNat_ofNat']
    omega
  have hcomm : curSeq + UInt32.ofNat data.length - rb.headSeq =
      curSeq - rb.headSeq + UInt32.ofNat data.length := by grind
  rw [hcomm] at hwin
  unfold Mtcp.rbPut
  split
  · exact ⟨_, rfl, Or.inl ⟨rfl, le_rfl, rfl⟩⟩
  split
  · exact ⟨_, rfl, Or.inl ⟨rfl, le_rfl, rfl⟩⟩
  split
  · exact ⟨_, rfl, Or.inl ⟨rfl, Int.negSucc_le_zero 1, rfl⟩⟩
  next hnonempty hmin hfit =>
  have hpos : 0 < data.length := Nat.pos_of_ne_zero hnonempty
  have hputx := le_of_getMinSeq_eq (not_not.mp hmin)
  rw [int32_toNat (by omega), int32_toNat hwin] at hfit
  have hend : (curSeq - rb.headSeq + UInt32.ofNat data.length).toNat =
      (curSeq - rb.headSeq).toNat + data.length := by
    rw [toNat_add, hofNat]
    omega
  have hle : (curSeq - rb.headSeq).toNat + data.length ≤ rb.size.toNat := by omega
  obtain ⟨r, hr, hacc⟩ := h.rbPutAccept hsize hne hctx hpos hend hle
  exact ⟨r, hr, Or.inr ⟨hpos, hle, hacc⟩⟩

end Put

structure Removed (rb rb' : RingBuffer) (n : ℕ) : Prop where
  inv : rb'.Inv
  headSeq : rb'.headSeq = seqAt rb.headSeq n
  size : rb'.size = rb.size
  mergedLen : rb'.mergedLen.toNat = rb.mergedLen.toNat - n
  covers : ∀ i, Spans.Covers rb'.spans i ↔ Spans.Covers rb.spans (n + i)
  byte : ∀ i, rb'.byte i = rb.byte (n + i)

section Remove

variable {rb : RingBuffer}

theorem Fragment.span_seqAt {base : UInt32} {f : Fragment} {n : ℕ} (hlo : n ≤ (f.span base).lo) :
    f.span (seqAt base n) = lower n (f.span base) := by
  have hlt := (f.seq - base).toNat_lt
  have hsub : (f.seq - seqAt base n).toNat = (f.seq - base).toNat - n := by
    have heq : (seqAt base (f.span base).lo - seqAt base n).toNat = (f.span base).lo - n :=
      seqAt_sub_of_le hlo (by simp only [span]; omega)
    rwa [← Fragment.seq_eq] at heq
  simp only [span] at hlo
  simp only [span, lower, hsub, Span.mk.injEq, true_and]
  omega

variable (h : rb.Inv)
include h

theorem RingBuffer.Inv.merged_le : rb.mergedLen.toNat ≤ rb.lastLen.toNat := by
  by_contra hcon
  have hlt : rb.lastLen.toNat < runEnd 0 rb.spans := by
    rw [← h.merged]
    omega
  obtain ⟨s, hs, -, hhi⟩ := covers_of_lt_runEnd (Nat.zero_le _) hlt
  exact absurd (h.saved s hs) (not_le.mpr hhi)

theorem RingBuffer.Inv.removed {rb' : RingBuffer} {n : ℕ} {kept : List (Span ℕ)}
    (hsize : rb.size.toNat ≤ sizeBound) (hn : n ≤ rb.mergedLen.toNat) (hframe : rb' = { rb with
      headOffset := rb.headOffset + UInt32.ofNat n, headSeq := rb.headSeq + UInt32.ofNat n
      mergedLen := rb.mergedLen - UInt32.ofNat n, lastLen := rb.lastLen - UInt32.ofNat n
      fctx := rb'.fctx, frag := rb'.frag })
    (hchain : Chain rb.next 0 rb'.fctx ptrs) (hsub : ptrs.Sublist rb.contexts)
    (hspans : spansOf (seqAt rb.headSeq n) rb'.frag ptrs = kept.map (lower n))
    (hkept : kept.Sublist rb.spans) (hhi : ∀ s ∈ kept, n < s.hi)
    (hcov : ∀ i, Spans.Covers kept (n + i) ↔ Spans.Covers rb.spans (n + i)) : Removed rb rb' n := by
  have hle := h.merged_le
  have hoff := h.offsets
  have hin := h.inside
  have hsizeNat : rb.size.toNat ≤ 2 ^ 31 - 2 := hsize
  have hofNat : (UInt32.ofNat n).toNat = n := by
    rw [toNat_ofNat']
    omega
  have hctx : rb'.contexts = ptrs := by
    refine contexts_eq ?_ ?_
    · rw [hframe]
      exact hchain
    · rw [hframe]
      exact hsub.length_le.trans h.length_le
  have hsp : rb'.spans = kept.map (lower n) := by
    rw [spans, hctx, ← hspans, hframe]
    rfl
  have hsep : Spans.Separated rb'.spans := by
    rw [hsp]
    exact Spans.Separated.lower
      ⟨h.separated.apart.sublist hkept, fun s hs => h.separated.nonempty s (hkept.subset hs)⟩ hhi
  have hcovers : ∀ i, Spans.Covers rb'.spans i ↔ Spans.Covers rb.spans (n + i) := by
    intro i
    rw [hsp, Spans.covers_lower, hcov]
  have hmergedLen : rb'.mergedLen.toNat = rb.mergedLen.toNat - n := by
    rw [hframe]
    simp only [toNat_sub, hofNat]
    omega
  have hlastLen : rb'.lastLen.toNat = rb.lastLen.toNat - n := by
    rw [hframe]
    simp only [toNat_sub, hofNat]
    omega
  have hheadOffset : rb'.headOffset.toNat = rb.headOffset.toNat + n := by
    rw [hframe]
    simp only [toNat_add, hofNat]
    omega
  refine ⟨⟨?_, ?_, hsep, ?_, ?_, ?_, ?_⟩, ?_, ?_, hmergedLen, hcovers, ?_⟩
  · rw [hctx, hframe]
    exact hchain
  · rw [hctx]
    exact h.nodup.sublist hsub
  · intro t ht
    rw [hsp] at ht
    obtain ⟨s, hs, rfl⟩ := mem_map.mp ht
    have hsaved := h.saved s (hkept.subset hs)
    simp only [lower]
    omega
  · rw [hheadOffset, hlastLen, show rb'.tailOffset = rb.tailOffset by rw [hframe]]
    omega
  · rw [hframe]
    exact hin
  · -- the first position that is not covered stays the same
    have hrun := h.separated.not_covers_runEnd (b := 0) (fun _ _ => Nat.zero_le _)
    have hrun' := hsep.not_covers_runEnd (b := 0) (fun _ _ => Nat.zero_le _)
    rw [← h.merged] at hrun
    rw [hmergedLen]
    rcases Nat.lt_trichotomy (rb.mergedLen.toNat - n) (runEnd 0 rb'.spans) with
      hlt | heq | hgt
    · have hcon := (hcovers _).mp (covers_of_lt_runEnd (Nat.zero_le _) hlt)
      rw [Nat.add_sub_cancel' hn] at hcon
      exact absurd hcon hrun
    · exact heq
    · refine absurd ((hcovers _).mpr ?_) hrun'
      apply covers_of_lt_runEnd (Nat.zero_le _)
      rw [← h.merged]
      omega
  · rw [hframe]
    rfl
  · rw [hframe]
  · intro i
    rw [byte, byte, hheadOffset, Nat.add_assoc,
      show rb'.data = rb.data by rw [hframe]]

theorem RingBuffer.Inv.first (hpos : 0 < rb.mergedLen.toNat) :
    ∃ ps, rb.contexts = rb.fctx :: ps ∧ rb.fctx ≠ 0 ∧
      (rb.frag rb.fctx).span rb.headSeq = ⟨0, rb.mergedLen.toNat⟩ ∧
      (rb.frag rb.fctx).seq = rb.headSeq ∧ (rb.frag rb.fctx).len = rb.mergedLen := by
  have hchain := h.chain
  have hmerged := h.merged
  cases hctx : rb.contexts with
  | nil =>
    rw [spans, hctx] at hmerged
    exact absurd hmerged (Nat.pos_iff_ne_zero.mp hpos)
  | cons p ps =>
    rw [hctx] at hchain
    obtain ⟨hp, hne, -⟩ := hchain
    rw [spans, hctx, spansOf, map_cons, runEnd] at hmerged
    split at hmerged
    · next hlo =>
      have hseq : (rb.frag p).seq = rb.headSeq := by
        rw [Fragment.seq_eq rb.headSeq (rb.frag p), hlo, seqAt_zero]
      have hlen : (rb.frag p).len = rb.mergedLen := by
        rw [← UInt32.toNat_inj, hmerged]
        simp only [Fragment.span] at hlo ⊢
        omega
      rw [hp]
      refine ⟨ps, rfl, hne, ?_, hseq, hlen⟩
      rw [hmerged, ← hlo]
    · exact absurd hmerged (Nat.pos_iff_ne_zero.mp hpos)

theorem RingBuffer.Inv.rbRemove (hsize : rb.size.toNat ≤ sizeBound) (len : ℕ) :
    ∃ rb', rbRemove rb len = some (rb', min len rb.mergedLen.toNat) ∧
      Removed rb rb' (min len rb.mergedLen.toNat) := by
  have hle := h.merged_le
  have hoff := h.offsets
  have hin := h.inside
  have hsizeNat : rb.size.toNat ≤ 2 ^ 31 - 2 := hsize
  have hlen : (if sizeT rb.mergedLen < len then sizeT rb.mergedLen else len) =
      min len rb.mergedLen.toNat := by
    rw [sizeT_toNat (by omega)]
    split <;> omega
  unfold Mtcp.rbRemove
  rw [hlen]
  generalize hn : min len rb.mergedLen.toNat = n
  have hnle : n ≤ rb.mergedLen.toNat := by omega
  by_cases hzero : n = 0
  · subst hzero
    refine ⟨rb, if_pos rfl, h, (seqAt_zero _).symm, rfl, rfl, ?_, ?_⟩
    · intro i
      rw [Nat.zero_add]
    · intro i
      rw [Nat.zero_add]
  rw [if_neg hzero]
  obtain ⟨ps, hctx, hne, hspan, hseq, hflen⟩ := h.first (by omega)
  have hspans : rb.spans = ⟨0, rb.mergedLen.toNat⟩ :: spansOf rb.headSeq rb.frag ps := by
    rw [spans, hctx, ← hspan]
    rfl
  have hchain := h.chain
  rw [hctx] at hchain
  have hbehind : ∀ s ∈ spansOf rb.headSeq rb.frag ps, rb.mergedLen.toNat < s.lo := by
    have hapart := h.separated.apart
    rw [hspans] at hapart
    exact (pairwise_cons.mp hapart).1
  have hrest : ∀ s ∈ spansOf rb.headSeq rb.frag ps, s.lo < s.hi := by
    intro s hs
    exact h.separated.nonempty s (by rw [hspans]; exact mem_cons_of_mem _ hs)
  have hps : spansOf (seqAt rb.headSeq n) rb.frag ps =
      (spansOf rb.headSeq rb.frag ps).map (lower n) := by
    rw [spansOf, spansOf, map_map]
    apply map_congr_left
    intro p hp
    have hlo := hbehind _ (mem_map_of_mem hp)
    exact Fragment.span_seqAt (by omega)
  rw [if_neg hne, hflen]
  by_cases hall : n = rb.mergedLen.toNat
  · -- the whole first fragment goes
    rw [if_pos hall]
    refine ⟨_, rfl, h.removed hsize hnle rfl hchain.2.2 ?_ hps ?_ ?_ ?_⟩
    · rw [hctx]
      exact sublist_cons_self _ _
    · rw [hspans]
      exact sublist_cons_self _ _
    · intro s hs
      have hlo := hbehind s hs
      have hhi := hrest s hs
      omega
    · intro i
      have hout : ¬Span.Mem ⟨0, rb.mergedLen.toNat⟩ (n + i) := by
        simp only [Span.Mem]
        omega
      rw [hspans, Spans.covers_cons, or_iff_right hout]
  have hlt : n < rb.mergedLen.toNat := by omega
  rw [if_neg hall, if_pos hlt]
  have hnotmem : rb.fctx ∉ ps := by
    have hnodup := h.nodup
    rw [hctx] at hnodup
    exact (nodup_cons.mp hnodup).1
  have hhi : ∀ s ∈ rb.spans, n < s.hi := by
    intro s hs
    rw [hspans] at hs
    rcases mem_cons.mp hs with rfl | hs
    · exact hlt
    · have hlo := hbehind s hs
      have hhi := hrest s hs
      omega
  have hmap : spansOf (seqAt rb.headSeq n) (Function.update rb.frag rb.fctx
      ⟨(rb.frag rb.fctx).seq + UInt32.ofNat n, rb.mergedLen - UInt32.ofNat n⟩) rb.contexts =
        rb.spans.map (lower n) := by
    rw [hctx, hspans, map_cons, ← hps]
    refine congrArg₂ List.cons ?_ (spansOf_congr fun p hp => ?_)
    · have hofNat : (UInt32.ofNat n).toNat = n := by
        rw [toNat_ofNat']
        omega
      dsimp only
      rw [Function.update_self, hseq]
      simp only [Fragment.span, lower, seqAt, UInt32.sub_self, toNat_zero,
        toNat_sub, hofNat, Span.mk.injEq]
      omega
    · have hpne : p ≠ rb.fctx := by
        rintro rfl
        exact hnotmem hp
      exact Function.update_of_ne hpne _ _
  exact ⟨_, rfl, h.removed hsize hnle rfl h.chain (List.Sublist.refl _) hmap
    (List.Sublist.refl _) hhi (fun _ => Iff.rfl)⟩

end Remove

end StackBench.Mtcp

import StackBench.Lib.Run
import StackBench.Mtcp.Reassembly
import StackBench.Mtcp.RecvFrame

/-!
# The mTCP receive path

A peer sends slices of a byte stream `S` whose first byte has the number `irs +
1`, in any order and as often as it likes. The buffer holds what was accepted,
and the application reads a prefix of `S`.
-/

open List

namespace StackBench.Mtcp

open Attempt (Ends)
open Linked (Chain)
open Spans (Span Covers)

/-- The payload of a segment is a slice of the stream `S` at position `off`. -/
def SliceOf (S : List UInt8) (irs : UInt32) (off : ℕ) (pkt : Packet) : Prop :=
  (S.drop off).take pkt.payload.length = pkt.payload ∧ pkt.seq = seqAt (irs + 1) off
deriving Decidable

/-- The buffer holds what was accepted of `S`, from position `c` on. -/
structure Holds (S : List UInt8) (irs : UInt32) (rb : RingBuffer) (c : ℕ) (a : List (Span ℕ)) :
    Prop where
  inv : rb.Inv
  head : rb.headSeq = seqAt (irs + 1) c
  union : ∀ i, Covers rb.spans i ↔ Covers a (c + i)
  content : ∀ i, Covers rb.spans i → S[c + i]? = some (rb.byte i)

section Holds

variable {S : List UInt8} {irs : UInt32} {rb : RingBuffer} {c : ℕ} {a : List (Span ℕ)}

theorem RingBuffer.Inv.lt_lastLen (h : rb.Inv) {i : ℕ} (hi : Covers rb.spans i) :
    i < rb.lastLen.toNat := by
  obtain ⟨s, hs, -, hhi⟩ := hi
  exact hhi.trans_le (h.saved s hs)

theorem covers_append (a b : List (Span ℕ)) (i : ℕ) :
    Covers (a ++ b) i ↔ Covers a i ∨ Covers b i := by
  simp [Covers, or_and_right, exists_or]

section

variable (h : Holds S irs rb c a)
include h

theorem Holds.put {x : ℕ} {data : List UInt8} {r : RbPut}
    (hacc : PutAccepted rb x data r) (hdata : (S.drop (c + x)).take data.length = data) :
    Holds S irs r.rb c (a ++ [⟨c + x, c + x + data.length⟩]) := by
  have hmem : ∀ i, Covers r.rb.spans i ↔
      (x ≤ i ∧ i < x + data.length) ∨ Covers rb.spans i := by
    intro i
    rw [hacc.spans, Spans.insert_covers]
    rfl
  refine ⟨hacc.inv, hacc.headSeq.trans h.head, ?_, ?_⟩
  · intro i
    have hnew : Covers [⟨c + x, c + x + data.length⟩] (c + i) ↔
        x ≤ i ∧ i < x + data.length := by
      simp only [Covers, mem_singleton, exists_eq_left, Span.Mem]
      omega
    rw [hmem, covers_append, hnew, ← h.union, or_comm]
  · intro i hi
    by_cases hin : x ≤ i ∧ i < x + data.length
    · have hbyte := hacc.new (i - x) (by omega)
      rw [Nat.add_sub_cancel' hin.1] at hbyte
      have hlook : S[c + i]? = data[i - x]? := by
        conv_rhs => rw [← hdata]
        rw [getElem?_take_of_lt (by omega), getElem?_drop]
        congr 1
        omega
      rw [hlook, hbyte, getD_eq_getElem?_getD,
        getElem?_eq_getElem (by omega : i - x < data.length), Option.getD_some]
    · have hold : Covers rb.spans i := ((hmem i).mp hi).resolve_left hin
      rw [hacc.old i (h.inv.lt_lastLen hold) (by omega), h.content i hold]

theorem Holds.remove {rb' : RingBuffer} {n : ℕ}
    (hrem : Removed rb rb' n) : Holds S irs rb' (c + n) a := by
  refine ⟨hrem.inv, ?_, ?_, ?_⟩
  · rw [hrem.headSeq, h.head, seqAt, seqAt, seqAt, UInt32.ofNat_add, add_assoc]
  · intro i
    rw [hrem.covers, h.union, Nat.add_assoc]
  · intro i hi
    rw [Nat.add_assoc, hrem.byte, h.content _ ((hrem.covers i).mp hi)]

theorem Holds.covers_merged {i : ℕ} (hi : i < rb.mergedLen.toNat) : Covers rb.spans i := by
  rw [h.inv.merged] at hi
  exact Spans.covers_of_lt_runEnd (Nat.zero_le _) hi

theorem Holds.read {n : ℕ} (hn : n ≤ rb.mergedLen.toNat) :
    S.take c ++ rbRead rb n = S.take (c + n) := by
  have hread : rbRead rb n = (S.drop c).take n := by
    apply ext_getElem?
    intro i
    by_cases hi : i < n
    · rw [getElem?_take_of_lt hi, getElem?_drop, h.content i (h.covers_merged (by omega))]
      simp [rbRead, hi, RingBuffer.byte]
    · rw [getElem?_eq_none (by simp [rbRead]; omega), getElem?_eq_none (by simp; omega)]
  rw [hread, take_add]

end

end Holds

/-- The receive buffer, or the one that the next payload is put into. -/
def RecvView.buffer (v : RecvView) (pools : Pools) : RingBuffer :=
  match v.rcvbuf with
  | some rb => rb
  | none => rbInit pools.recvChunk pools.recvSize (v.irs + 1)

/-- How far the head of the buffer has moved. -/
def headMoved (v v' : RecvView) : ℕ :=
  match v'.rcvbuf with
  | some rb => (rb.headSeq - (v.rcvbuf.elim (v.irs + 1) RingBuffer.headSeq)).toNat
  | none => 0

/-- What was accepted of a segment with the stream position `off`. -/
def newSpans (off : ℕ) (v v' : RecvView) : List (Span ℕ) :=
  ((v'.puts.drop v.puts.length).filter fun r => 0 < r.ret).map fun r => ⟨off, off + r.len⟩

def InChunk (pools : Pools) (puts : List PutRecord) : Prop :=
  ∀ r ∈ puts, ∀ w ∈ r.writes, 0 ≤ w.pos ∧ w.pos + w.len ≤ pools.recvSize.toNat

/-- The receive side, after `c` bytes left the buffer, `a` was accepted and `d` delivered. -/
structure Receiving (pools : Pools) (irs : UInt32) (S : List UInt8) (v : RecvView) (s : TcpState)
    (c : ℕ) (a : List (Span ℕ)) (d : List UInt8) : Prop where
  live : v.onHashTable = true
  first : v.irs = irs
  size : (v.buffer pools).size = pools.recvSize
  holds : Holds S irs (v.buffer pools) c a
  next : s.takesPayload → v.rcvNxt = (v.buffer pools).headSeq + (v.buffer pools).mergedLen
  window : s.takesPayload → v.rcvWnd.toNat + (v.buffer pools).mergedLen.toNat ≤
    max pools.recvSize.toNat tcpInitialWindow.toNat
  writes : InChunk pools v.puts
  -- bytes that arrive after a close are discarded
  delivered : d = S.take c ∨
    s.userClosed ∧ (v.buffer pools).mergedLen = 0 ∧ d <+: S

/-- The segment ends less than `2 ^ 32` before the end of the window and behind the next byte. -/
def Unambiguous (pools : Pools) (v : RecvView) (c off len : ℕ) : Prop :=
  off + len < c + (v.buffer pools).mergedLen.toNat + 2 ^ 32 ∧
    c + (v.buffer pools).mergedLen.toNat + v.rcvWnd.toNat < off + len + 2 ^ 32
deriving Decidable

/-- A segment of `S` at the position `off`, with a context to put it into. -/
structure Arrives (pools : Pools) (irs : UInt32) (S : List UInt8) (v : RecvView) (c off ctx : ℕ)
    (pkt : Packet) : Prop where
  slice : SliceOf S irs off pkt
  short : pkt.payload.length < 2 ^ 16
  context : ctx ≠ 0 ∧ ctx ∉ (v.buffer pools).contexts
  position : Unambiguous pools v c off pkt.payload.length

theorem position_of_checks {base : UInt32} {n e : ℕ} {wnd : UInt32}
    (hlow : ¬tcpSeqLt (seqAt base e) (seqAt base n))
    (hhigh : ¬tcpSeqGt (seqAt base e) (seqAt base n + wnd)) (hwnd : wnd.toNat < 2 ^ 31)
    (hbefore : e < n + 2 ^ 32) (hbehind : n + wnd.toNat < e + 2 ^ 32) :
    n ≤ e ∧ e ≤ n + wnd.toNat := by
  rw [seqAt_add] at hhigh
  rw [tcpSeqLt_iff] at hlow
  rw [tcpSeqGt_iff] at hhigh
  have hdist := seqAt_sub_toNat base e n
  have hdist' := seqAt_sub_toNat base e (n + wnd.toNat)
  omega

theorem RingBuffer.Inv.merged_le_size {rb : RingBuffer} (h : rb.Inv) :
    rb.mergedLen.toNat ≤ rb.size.toNat := by
  have hle := h.merged_le
  have hoff := h.offsets
  have hin := h.inside
  omega

theorem RingBuffer.Inv.window {rb : RingBuffer} (h : rb.Inv) :
    (rb.size - rb.mergedLen).toNat + rb.mergedLen.toNat = rb.size.toNat := by
  have hle := h.merged_le_size
  rw [UInt32.toNat_sub_of_le _ _ (UInt32.le_iff_toNat_le.mpr hle)]
  omega

section Payload

variable {pools : Pools} {irs : UInt32} {S : List UInt8} {v : RecvView} {s : TcpState} {c off : ℕ}
  {a : List (Span ℕ)} {d : List UInt8} {ctx : ℕ} {pkt : Packet}

theorem Receiving.rbPut (h : Receiving pools irs S v s c a d) (htakes : s.takesPayload)
    (hsize : pools.recvSize.toNat ≤ sizeBound) (hin : Arrives pools irs S v c off ctx pkt)
    (hlow : ¬tcpSeqLt (pkt.seq + pkt.payloadlen) v.rcvNxt)
    (hhigh : ¬tcpSeqGt (pkt.seq + pkt.payloadlen) (v.rcvNxt + v.rcvWnd)) :
    ∃ r, rbPut (v.buffer pools) ctx pkt.payload pkt.seq = some r ∧
      Holds S irs r.rb c
        (a ++ if 0 < r.ret then [⟨off, off + pkt.payload.length⟩] else []) ∧
      r.rb.size = pools.recvSize ∧
      ∀ w ∈ r.writes, 0 ≤ w.pos ∧ w.pos + w.len ≤ pools.recvSize.toNat := by
  have hbound : pools.recvSize.toNat ≤ 2 ^ 31 - 2 := hsize
  have hwnd := h.window htakes
  have hinit : tcpInitialWindow.toNat = 14600 := rfl
  have hshort := hin.short
  have hlen : pkt.payloadlen.toNat = pkt.payload.length := by
    rw [Packet.payloadlen, UInt32.toNat_ofNat']
    omega
  have hend : pkt.seq + pkt.payloadlen = seqAt (irs + 1) (off + pkt.payload.length) := by
    rw [hin.slice.2, seqAt_add, hlen]
  have hnext : v.rcvNxt = seqAt (irs + 1) (c + (v.buffer pools).mergedLen.toNat) := by
    rw [h.next htakes, h.holds.head, seqAt_add]
  rw [hend, hnext] at hlow hhigh
  obtain ⟨hge, hle⟩ := position_of_checks hlow hhigh (by omega) hin.position.1 hin.position.2
  have hwin : (pkt.seq + UInt32.ofNat pkt.payload.length - (v.buffer pools).headSeq).toNat <
      2 ^ 31 := by
    rw [← Packet.payloadlen, hend, h.holds.head, seqAt_sub_of_le (by omega) (by omega)]
    omega
  obtain ⟨r, hr, hcases⟩ := h.holds.inv.rbPut (h.size ▸ hsize) hin.context.1 hin.context.2
    (by omega) hwin
  refine ⟨r, hr, ?_⟩
  rcases hcases with ⟨hrb, hret, hwrites⟩ | ⟨hpos, hfit, hacc⟩
  · rw [if_neg (by omega), append_nil, hrb, hwrites]
    exact ⟨h.holds, h.size, by simp⟩
  have hx := seqAt_sub_toNat (irs + 1) off c
  rw [← h.holds.head, ← hin.slice.2] at hx
  rw [h.size] at hfit
  have hoff : off = c + (pkt.seq - (v.buffer pools).headSeq).toNat := by omega
  have hput := h.holds.put hacc (by rw [← hoff]; exact hin.slice.1)
  rw [← hoff] at hput
  rw [if_pos (by rw [hacc.ret]; omega)]
  exact ⟨hput, hacc.size.trans h.size, h.size ▸ hacc.writes⟩

/-- What a step has done to the receive side that was `v`. -/
def Took (pools : Pools) (irs : UInt32) (S : List UInt8) (off : ℕ) (v : RecvView) (c : ℕ)
    (a : List (Span ℕ)) (d : List UInt8) (st : TcpStream) : Prop :=
  Receiving pools irs S st.recvView st.state (c + headMoved v st.recvView)
    (a ++ newSpans off v st.recvView) d

theorem headMoved_self (v : RecvView) : headMoved v v = 0 := by
  unfold headMoved
  split
  · next hrb => simp [hrb]
  · rfl

theorem newSpans_eq_nil {v' : RecvView} (off : ℕ) (hputs : v'.puts = v.puts) :
    newSpans off v v' = [] := by
  simp [newSpans, hputs]

theorem newSpans_append {v' : RecvView} {r : PutRecord} (off : ℕ)
    (hputs : v'.puts = v.puts ++ [r]) :
    newSpans off v v' = if 0 < r.ret then [⟨off, off + r.len⟩] else [] := by
  rw [newSpans, hputs, drop_left]
  by_cases hret : 0 < r.ret
  · simp [hret]
  · simp [hret]

theorem Receiving.took {st : TcpStream} (h : Receiving pools irs S st.recvView st.state c a d) :
    Took pools irs S off st.recvView c a d st := by
  rw [Took, headMoved_self, newSpans_eq_nil off rfl, append_nil, Nat.add_zero]
  exact h

theorem RecvView.buffer_headSeq (v : RecvView) (pools : Pools) :
    (v.buffer pools).headSeq = v.rcvbuf.elim (v.irs + 1) RingBuffer.headSeq := by
  unfold RecvView.buffer
  cases v.rcvbuf with
  | none => rfl
  | some rb => rfl

theorem Receiving.add_headMoved {v' : RecvView} {rb : RingBuffer} {n : ℕ} {a' : List (Span ℕ)}
    (h : Receiving pools irs S v s c a d) (hrb : v'.rcvbuf = some rb)
    (hholds : Holds S irs rb (c + n) a') (hn : n < 2 ^ 32) : headMoved v v' = n := by
  rw [headMoved, hrb, ← v.buffer_headSeq pools]
  dsimp only
  rw [hholds.head, h.holds.head, seqAt_sub_of_le (by omega) (by omega)]
  omega

theorem discard_holds {rb : RingBuffer} (h : Holds S irs rb c a)
    (hsize : rb.size.toNat ≤ sizeBound) (discard : Prop) [Decidable discard] :
    ∃ rb' n m, (if discard then rbRemove rb (sizeT rb.mergedLen) else some (rb, 0)) =
        some (rb', m) ∧
      n < 2 ^ 31 ∧ Holds S irs rb' (c + n) a ∧ rb'.size = rb.size ∧
      (discard → rb'.mergedLen = 0) ∧ (¬discard → n = 0) := by
  have hbound : rb.size.toNat ≤ 2 ^ 31 - 2 := hsize
  have hmerged := h.inv.merged_le_size
  split
  · next hdiscard =>
    obtain ⟨rb', hrb', hrem⟩ := h.inv.rbRemove hsize (sizeT rb.mergedLen)
    rw [sizeT_toNat (by omega), min_self] at hrem
    refine ⟨rb', _, _, hrb', ?_, h.remove hrem, hrem.size, ?_, fun hnot => absurd hdiscard hnot⟩
    · omega
    · intro _
      rw [← UInt32.toNat_inj, hrem.mergedLen, Nat.sub_self]
      rfl
  · next hkeep =>
    exact ⟨rb, 0, 0, rfl, by omega, h, rfl, fun hdiscard => absurd hdiscard hkeep, fun _ => rfl⟩

theorem processTCPPayload_took {st : TcpStream}
    (h : Receiving pools irs S st.recvView st.state c a d) (htakes : st.state.takesPayload)
    (hsize : pools.recvSize.toNat ≤ sizeBound)
    (hin : Arrives pools irs S st.recvView c off ctx pkt) :
    Ends (fun out => out.1.state = st.state ∧ Took pools irs S off st.recvView c a d out.1) NotRing
      (processTCPPayload st ⟨pools.recvChunk, pools.recvSize, ctx⟩ pkt) := by
  unfold processTCPPayload
  dsimp only
  split
  · exact ⟨rfl, h.took⟩
  split
  · exact ⟨rfl, h.took⟩
  next hlow hhigh =>
    obtain ⟨put, hput, hholds, hputSize, hwrites⟩ := h.rbPut htakes hsize hin hlow hhigh
    have hbuf : recvBuffer st pools.recvChunk pools.recvSize = st.recvView.buffer pools := rfl
    rw [hbuf, hput]
    obtain ⟨rb, n, m, hrb, hn, hholds', hrbSize, hempty, hkeep⟩ := discard_holds hholds
      (hputSize ▸ hsize) (st.state = .finWait1 ∨ st.state = .finWait2)
    dsimp only
    rw [hrb]
    refine ⟨rfl, ?_⟩
    rw [Took, h.add_headMoved rfl hholds' (by omega), newSpans_append off rfl]
    refine ⟨h.live, h.first, hrbSize.trans hputSize, hholds', fun _ => rfl, fun _ => ?_, ?_, ?_⟩
    · have hsizes : rb.size.toNat = pools.recvSize.toNat := by rw [hrbSize, hputSize]
      exact (hholds'.inv.window.trans hsizes).trans_le (le_max_left _ _)
    · intro r hr
      rcases mem_append.mp hr with hr | hr
      · exact h.writes r hr
      · rw [mem_singleton.mp hr]
        exact hwrites
    · by_cases hdiscard : st.state = .finWait1 ∨ st.state = .finWait2
      · refine Or.inr ⟨?_, hempty hdiscard, ?_⟩
        · rcases hdiscard with hs | hs <;> exact congrArg TcpState.userClosed hs
        · rcases h.delivered with hd | hd
          · exact hd ▸ take_prefix _ _
          · exact hd.2.2
      · rw [hkeep hdiscard, Nat.add_zero]
        refine h.delivered.imp_right fun hd => absurd hd.1 ?_
        cases hs : st.state <;> simp_all [TcpState.userClosed, TcpState.takesPayload]

variable {st st' : TcpStream} {curTs : UInt32}

theorem Receiving.quiet (h : Receiving pools irs S st.recvView st.state c a d) (hq : Quiet st st') :
    Receiving pools irs S st'.recvView st'.state c a d := by
  rw [hq.view]
  exact ⟨h.live, h.first, h.size, h.holds, fun hp => h.next (hq.payload hp),
    fun hp => h.window (hq.payload hp), h.writes,
    h.delivered.imp_right fun hd => ⟨hq.closed hd.1, hd.2⟩⟩

section

variable (h : Took pools irs S off v c a d st)
include h

theorem Took.quiet (hq : Quiet st st') : Took pools irs S off v c a d st' := by
  rw [Took, hq.view]
  have hrecv := Receiving.quiet h hq
  rw [hq.view] at hrecv
  exact hrecv

theorem Took.fin {n : UInt32} (hview : st'.recvView = { st.recvView with rcvNxt := n })
    (hstate : st'.state.takesPayload = false)
    (hclosed : st.state.userClosed → st'.state.userClosed) : Took pools irs S off v c a d st' := by
  rw [Took, hview]
  have hoff : ¬ st'.state.takesPayload = true := by
    rw [hstate]
    exact Bool.false_ne_true
  exact ⟨h.live, h.first, h.size, h.holds, fun hp => absurd hp hoff,
    fun hp => absurd hp hoff, h.writes,
    h.delivered.imp_right fun hd => ⟨hclosed hd.1, hd.2⟩⟩

theorem handleFin_took (pkt : Packet) : Took pools irs S off v c a d (handleFin st pkt) := by
  unfold handleFin
  split
  · dsimp only
    split
    · exact h.fin rfl rfl fun _ => rfl
    · refine (h.fin rfl rfl fun _ => rfl : Took pools irs S off v c a d
        { st with rcvNxt := st.rcvNxt + 1, state := .timeWait }).quiet ?_
      exact ((addtoTimewaitList_aside _).still.trans (addtoControlList_aside _).still).quiet
  · exact h

end

/-- A segment has been handled, or it has ended the stream. -/
def Handled (pools : Pools) (irs : UInt32) (S : List UInt8) (off : ℕ) (c : ℕ)
    (a : List (Span ℕ)) (d : List UInt8) (st st' : TcpStream) : Prop :=
  Took pools irs S off st.recvView c a d st' ∨ Gone st st'

theorem Handled.after {st₁ : TcpStream} (h : Handled pools irs S off c a d st₁ st')
    (hs : Still st st₁) : Handled pools irs S off c a d st st' := by
  rw [Handled, ← hs.view]
  exact h.imp_right fun hg =>
    ⟨hg.onHashTable, hg.rcvbuf, hg.puts.trans (congrArg RecvView.puts hs.view)⟩

theorem advertise_still (st : TcpStream) : Still st (advertise st) := by
  unfold advertise
  split <;> exact ⟨rfl, rfl⟩

theorem Removed.next {rb rb' : RingBuffer} {n : ℕ} (h : Removed rb rb' n)
    (hn : n ≤ rb.mergedLen.toNat) : rb'.headSeq + rb'.mergedLen = rb.headSeq + rb.mergedLen := by
  rw [h.headSeq, seqAt_add, h.mergedLen, Nat.add_sub_cancel' hn, seqAt, UInt32.ofNat_toNat]

section

variable (h : Receiving pools irs S st.recvView st.state c a d)
include h

theorem Receiving.still (hs : Still st st') : Took pools irs S off st.recvView c a d st' :=
  Took.quiet h.took hs.quiet

theorem Receiving.calm (hc : Calm st st') : Handled pools irs S off c a d st st' :=
  hc.imp_left fun hq => Took.quiet h.took hq

variable (hsize : pools.recvSize.toNat ≤ sizeBound)
include hsize

section

variable (hin : pkt.payload ≠ [] → Arrives pools irs S st.recvView c off ctx pkt)
include hin

theorem handlePayload_took (htakes : st.state.takesPayload) :
    Ends (fun st' => st'.state = st.state ∧ Took pools irs S off st.recvView c a d st') NotRing
      (handlePayload st ⟨pools.recvChunk, pools.recvSize, ctx⟩ pkt) := by
  unfold handlePayload
  split
  · exact ⟨rfl, h.took⟩
  next hne =>
    have hpayload := hin (fun hnil => hne (by rw [hnil]; rfl))
    refine (processTCPPayload_took h htakes hsize hpayload).bind ?_
    rintro ⟨st₁, aggregate⟩ ⟨hstate, htook⟩
    have hstill := (enqueueACK_aside st₁ (if aggregate then .aggregate else .now)).still
    exact ⟨hstill.state.trans hstate, htook.quiet hstill.quiet⟩

theorem handleEstablished_took (hstate : st.state = .established) :
    Ends (Took pools irs S off st.recvView c a d) NotRing
      (handleEstablished st ⟨pools.recvChunk, pools.recvSize, ctx⟩ curTs pkt) := by
  unfold handleEstablished
  split
  · exact h.still ⟨rfl, rfl⟩
  refine (handlePayload_took h hsize hin (by rw [hstate]; rfl)).bind fun st₁ htook => ?_
  have hack : Ends (Still st₁) NotRing
      (if pkt.ack then processACKIfBuffered st₁ curTs pkt else pure st₁) := by
    split
    · exact processACKIfBuffered_still st₁ curTs pkt
    · exact Still.refl st₁
  refine hack.bind fun st₂ hstill => ?_
  have htook₂ := htook.2.quiet hstill.quiet
  split
  · split
    · refine htook₂.fin rfl rfl ?_
      rw [hstill.state, htook.1, hstate]
      exact fun hc => hc
    · exact htook₂.quiet (enqueueACK_aside st₂ .now).still.quiet
  · exact htook₂

theorem handleFinWait1_took (hstate : st.state = .finWait1) :
    Ends (Took pools irs S off st.recvView c a d) NotRing
      (handleFinWait1 st ⟨pools.recvChunk, pools.recvSize, ctx⟩ curTs pkt) := by
  unfold handleFinWait1
  split
  · exact h.still (addtoControlList_aside st).still
  split
  · exact h.took
  refine (processACKIfBuffered_still st curTs pkt).bind fun st₁ hstill => ?_
  generalize hst₂ :
    (if st₁.sndvar.isFinSent && pkt.ackSeq == st₁.sndvar.fss + 1 then _ else st₁) = st₂
  have hquiet : Quiet st st₂ ∧ st₂.state.takesPayload = true := by
    rw [← hst₂]
    split
    · exact ⟨⟨hstill.view, fun _ => by rw [hstate]; rfl, fun _ => rfl⟩, rfl⟩
    · exact ⟨hstill.quiet, by rw [hstill.state, hstate]; rfl⟩
  have hpayload := handlePayload_took (h.quiet hquiet.1) hsize
    (by rw [hquiet.1.view]; exact hin) hquiet.2
  rw [hquiet.1.view] at hpayload
  exact hpayload.bind fun st₃ htook => handleFin_took htook.2 pkt

theorem handleFinWait2_took (hstate : st.state = .finWait2) :
    Ends (Took pools irs S off st.recvView c a d) NotRing
      (handleFinWait2 st ⟨pools.recvChunk, pools.recvSize, ctx⟩ curTs pkt) := by
  unfold handleFinWait2
  split
  · exact h.took
  refine (processACKIfBuffered_still st curTs pkt).bind fun st₁ hstill => ?_
  have hpayload := handlePayload_took (h.quiet hstill.quiet) hsize
    (by rw [hstill.view]; exact hin) (by rw [hstill.state, hstate]; rfl)
  rw [hstill.view] at hpayload
  exact hpayload.bind fun st₂ htook => handleFin_took htook.2 pkt

end

section

variable (hin : st.state.takesPayload → pkt.payload ≠ [] →
  Arrives pools irs S st.recvView c off ctx pkt)
include hin

theorem dispatch_handled :
    Ends (Handled pools irs S off c a d st) NotRing
      (dispatch st ⟨pools.recvChunk, pools.recvSize, ctx⟩ curTs pkt) := by
  unfold dispatch
  split
  next hs => exact (handleEstablished_took h hsize (hin (by rw [hs]; rfl)) hs).mono fun _ => Or.inl
  next => exact (handleCloseWait_still st curTs pkt).mono fun _ hst => h.calm hst.calm
  next => exact (handleLastAck_calm st curTs pkt).mono fun _ hst => h.calm hst
  next hs => exact (handleFinWait1_took h hsize (hin (by rw [hs]; rfl)) hs).mono fun _ => Or.inl
  next hs => exact (handleFinWait2_took h hsize (hin (by rw [hs]; rfl)) hs).mono fun _ => Or.inl
  next => exact (handleClosing_quiet st curTs pkt).mono fun _ hst => h.calm hst.calm
  next => exact h.calm (addtoControlList_aside st).still.calm
  next => exact h.calm (Still.refl st).calm

theorem dispatch_after (hs : Still st st') :
    Ends (Handled pools irs S off c a d st) NotRing
      (dispatch st' ⟨pools.recvChunk, pools.recvSize, ctx⟩ curTs pkt) := by
  rw [← hs.view, ← hs.state] at hin
  exact (dispatch_handled (h.quiet hs.quiet) hsize hin).mono fun _ hdone => hdone.after hs

theorem processTCPPacket_handled (hrst : pkt.rst = false) :
    Ends (Handled pools irs S off c a d st) NotRing
      (processTCPPacket st ⟨pools.recvChunk, pools.recvSize, ctx⟩ curTs pkt) := by
  have hvalid :
      Still st (if st.state = .closed then (st, true) else validateSequence st pkt).1 := by
    split
    · exact Still.refl st
    · exact (validateSequence_aside st pkt).still
  unfold processTCPPacket
  split
  · next st₁ heq => exact h.calm (heq ▸ hvalid).calm
  next st₁ heq =>
  rw [heq] at hvalid
  rw [if_neg (by rw [hrst]; exact Bool.false_ne_true)]
  exact dispatch_after h hsize hin (hvalid.trans ⟨rfl, rfl⟩)

end

theorem copyToUser_took {rb : RingBuffer} (hrb : st.rcvvar.rcvbuf = some rb) (len : ℤ) :
    Ends (fun out => Took pools irs S off st.recvView c a (d ++ out.bytes) out.st) NotRing
      (copyToUser st rb len) := by
  have hbuf : st.recvView.buffer pools = rb := by
    rw [RecvView.buffer, TcpStream.recvView, hrb]
  have hholds : Holds S irs rb c a := hbuf ▸ h.holds
  have hrbSize : rb.size = pools.recvSize := hbuf ▸ h.size
  have hbound : pools.recvSize.toNat ≤ 2 ^ 31 - 2 := hsize
  have hmerged := hholds.inv.merged_le_size
  have hint : int32 rb.mergedLen = rb.mergedLen.toNat :=
    int32_toNat (by rw [hrbSize] at hmerged; omega)
  have hnone : Took pools irs S off st.recvView c a (d ++ []) st := (append_nil d).symm ▸ h.took
  unfold copyToUser
  dsimp only
  rw [hint]
  split
  · exact hnone
  next hpos =>
    obtain ⟨rb', hrb', hrem⟩ := hholds.inv.rbRemove (hrbSize ▸ hsize)
      (min (rb.mergedLen.toNat : ℤ) len).toNat
    have hn : (min (rb.mergedLen.toNat : ℤ) len).toNat ≤ rb.mergedLen.toNat := by omega
    rw [Nat.min_eq_left hn] at hrb' hrem
    rw [hrb']
    refine Took.quiet ?_ (advertise_still _).quiet
    have hholds' := hholds.remove hrem
    rw [Took, h.add_headMoved rfl hholds' (hn.trans_lt (UInt32.toNat_lt _)), newSpans_eq_nil off,
      append_nil]
    swap
    · rfl
    refine ⟨h.live, h.first, hrem.size.trans hrbSize, hholds', fun hp => ?_, fun _ => ?_,
      h.writes, ?_⟩
    · have hnext := h.next hp
      rw [hbuf] at hnext
      exact hnext.trans (hrem.next hn).symm
    · have hsizes : rb'.size.toNat = pools.recvSize.toNat := by rw [hrem.size, hrbSize]
      exact (hrem.inv.window.trans hsizes).trans_le (le_max_left _ _)
    · rcases h.delivered with hd | ⟨-, hzero, -⟩
      · left
        rw [hd]
        exact hholds.read hn
      · rw [hbuf] at hzero
        rw [hzero] at hpos
        exact absurd (min_le_left _ _) hpos

theorem mtcpRecv_took (len : ℤ) :
    Ends (fun out => Took pools irs S off st.recvView c a (d ++ out.bytes) out.st) NotRing
      (mtcpRecv st len) := by
  have hnone : Took pools irs S off st.recvView c a (d ++ []) st := (append_nil d).symm ▸ h.took
  unfold mtcpRecv
  split
  all_goals first
    | exact hnone
    | next hrb =>
      split
      · exact hnone
      · exact copyToUser_took h hsize hrb len

end

end Payload

/-- A stream with the delivered bytes, the accepted spans of the peer's stream, and how many bytes
have left the buffer. -/
structure RecvWorld where
  st : TcpStream
  fault : Option Fault
  delivered : List UInt8
  accepted : List (Span ℕ)
  consumed : ℕ

def RecvWorld.start (st : TcpStream) : RecvWorld where
  st := st
  fault := none
  delivered := []
  accepted := []
  consumed := 0

/-- A step of the stream, with the position of the payload in the peer's stream. -/
structure RecvInput where
  op : StreamOp
  off : ℕ := 0

def RecvWorld.step (pools : Pools) (w : RecvWorld) (i : RecvInput) : RecvWorld :=
  match w.fault with
  | some _ => w
  | none =>
    match i.op.run pools w.st with
    | .error f => { w with fault := some f }
    | .ok out =>
      { st := out.st
        fault := none
        delivered := w.delivered ++ out.read
        accepted := w.accepted ++ newSpans i.off w.st.recvView out.st.recvView
        consumed := w.consumed + headMoved w.st.recvView out.st.recvView }

open RecvWorld (start step)

/-- Segments carry slices of `S` at their numbers, without RST, and a fragment
context is free. -/
def RecvOk (pools : Pools) (irs : UInt32) (S : List UInt8) (w : RecvWorld) (i : RecvInput) : Prop :=
  match i.op with
  | .packet _ pkt ctx =>
    pkt.rst = false ∧ (pkt.payload ≠ [] → SliceOf S irs i.off pkt) ∧
      pkt.payload.length < 2 ^ 16 ∧ ctx ≠ 0 ∧ ctx ∉ (w.st.recvView.buffer pools).contexts
  | _ => True

/-- The number of a segment tells its position. -/
def RecvNear (pools : Pools) (w : RecvWorld) (i : RecvInput) : Prop :=
  match i.op with
  | .packet _ pkt _ => w.st.state.takesPayload → pkt.payload ≠ [] →
      Unambiguous pools w.st.recvView w.consumed i.off pkt.payload.length
  | _ => True

/-- A stream after its handshake, before the first payload. -/
structure Fresh (irs : UInt32) (st : TcpStream) : Prop where
  onHashTable : st.onHashTable = true
  state : st.state = .established
  first : st.rcvvar.irs = irs
  rcvNxt : st.rcvNxt = irs + 1
  rcvWnd : st.rcvvar.rcvWnd = tcpInitialWindow
  rcvbuf : st.rcvvar.rcvbuf = none
  puts : st.puts = []

/-- The receive buffer in a reachable state. -/
structure BufferSpec (irs : UInt32) (S : List UInt8) (w : RecvWorld) (rb : RingBuffer) :
    Prop where
  head : rb.headSeq = seqAt (irs + 1) w.consumed
  linked : Chain rb.next 0 rb.fctx rb.contexts
  -- in the order of the numbers, with at least one byte between two fragments
  separated : Spans.Separated rb.spans
  union : ∀ i, Covers rb.spans i ↔ Covers w.accepted (w.consumed + i)
  merged : (∀ i < rb.mergedLen.toNat, Covers rb.spans i) ∧ ¬Covers rb.spans rb.mergedLen.toNat
  content : ∀ i, Covers rb.spans i → S[w.consumed + i]? = some (rb.byte i)

/-- What holds in every state of a run. -/
structure Reassembled (pools : Pools) (irs : UInt32) (S : List UInt8) (w : RecvWorld) : Prop where
  buffer : ∀ rb, w.st.rcvvar.rcvbuf = some rb → BufferSpec irs S w rb
  writes : InChunk pools w.st.puts
  asserts : w.fault ≠ some .ringBuffer
  delivered : w.delivered <+: S

structure RecvWorld.Inv (pools : Pools) (irs : UInt32) (S : List UInt8) (w : RecvWorld) :
    Prop where
  live : w.st.onHashTable = true →
    Receiving pools irs S w.st.recvView w.st.state w.consumed w.accepted w.delivered
  gone : w.st.onHashTable = false → w.st.rcvvar.rcvbuf = none
  writes : InChunk pools w.st.puts
  asserts : w.fault ≠ some .ringBuffer
  delivered : w.delivered <+: S

section Run

variable {pools : Pools} {irs : UInt32} {S : List UInt8} {w : RecvWorld} {i : RecvInput}

theorem Receiving.delivered_prefix {v : RecvView} {s : TcpState} {c : ℕ} {a : List (Span ℕ)}
    {d : List UInt8} (h : Receiving pools irs S v s c a d) : d <+: S := by
  rcases h.delivered with hd | ⟨-, -, hd⟩
  · exact hd ▸ take_prefix c S
  · exact hd

theorem Holds.bufferSpec {rb : RingBuffer} (h : Holds S irs rb w.consumed w.accepted) :
    BufferSpec irs S w rb where
  head := h.head
  linked := h.inv.chain
  separated := h.inv.separated
  union := h.union
  merged := by
    refine ⟨fun i hi => h.covers_merged hi, ?_⟩
    rw [h.inv.merged]
    exact h.inv.separated.not_covers_runEnd (fun _ _ => Nat.zero_le _)
  content := h.content

theorem RecvWorld.Inv.reassembled (h : w.Inv pools irs S) : Reassembled pools irs S w := by
  refine ⟨fun rb hrb => ?_, h.writes, h.asserts, h.delivered⟩
  by_cases hlive : w.st.onHashTable = true
  · have hholds := (h.live hlive).holds
    rw [RecvView.buffer, TcpStream.recvView, hrb] at hholds
    exact hholds.bufferSpec
  · rw [h.gone (Bool.eq_false_iff.mpr hlive)] at hrb
    exact absurd hrb (Option.some_ne_none rb).symm

theorem runLive_ends (h : w.Inv pools irs S) (hlive : w.st.onHashTable = true)
    (hsize : pools.recvSize.toNat ≤ sizeBound) (hok : RecvOk pools irs S w i)
    (hnear : RecvNear pools w i) :
    Ends (fun out => Took pools irs S i.off w.st.recvView w.consumed w.accepted
        (w.delivered ++ out.read) out.st ∨ Gone w.st out.st ∧ out.read = []) NotRing
      (i.op.runLive pools w.st) := by
  have hrecv := h.live hlive
  have hcalm : ∀ st', Calm w.st st' → Took pools irs S i.off w.st.recvView w.consumed w.accepted
      (w.delivered ++ []) st' ∨ Gone w.st st' ∧ ([] : List UInt8) = [] := by
    intro st' hst
    rw [append_nil]
    exact (hrecv.calm hst).imp_right fun hgone => ⟨hgone, rfl⟩
  obtain ⟨op, off⟩ := i
  cases op with
  | packet curTs pkt ctx =>
    obtain ⟨hrst, hslice, hshort, hcontext⟩ := hok
    refine (processTCPPacket_handled hrecv hsize (fun htakes hne =>
      ⟨hslice hne, hshort, hcontext, hnear htakes hne⟩) hrst).map fun st' hst => ?_
    rw [append_nil]
    exact hst.imp_right fun hgone => ⟨hgone, rfl⟩
  | recv len => exact (mtcpRecv_took hrecv hsize len).map fun out hout => Or.inl hout
  | write data => exact (mtcpWrite_still w.st _ data).map fun out hout => hcalm out.1 hout.calm
  | close => exact hcalm _ (closeStreamSocket_still w.st).calm
  | applicationCalls => exact (handleApplicationCalls_calm w.st).map fun st' hst => hcalm st' hst
  | timeout =>
    rw [StreamOp.runLive]
    split
    · exact (handleRTO_calm w.st).map fun st' hst => hcalm st' hst
    · exact hcalm _ (Still.refl w.st).calm
  | controlList curTs txBuf => exact hcalm _ (writeTCPControlList_calm w.st curTs txBuf)
  | ackList curTs txBufs => exact hcalm _ (writeTCPACKList_aside w.st curTs txBufs).still.calm
  | dataList curTs txBufs =>
    exact (writeTCPDataList_still w.st curTs txBufs).map fun out hout => hcalm out.st hout.calm

theorem RecvWorld.Inv.step (h : w.Inv pools irs S) (hsize : pools.recvSize.toNat ≤ sizeBound)
    (hok : RecvOk pools irs S w i) (hnear : RecvNear pools w i) :
    (w.step pools i).Inv pools irs S := by
  unfold RecvWorld.step
  split
  · exact h
  unfold StreamOp.run
  by_cases hlive : w.st.onHashTable = true
  · have hends := runLive_ends h hlive hsize hok hnear
    rw [if_pos hlive]
    revert hends
    cases i.op.runLive pools w.st with
    | error f => exact fun hf => { h with asserts := fun hring => hf (Option.some.inj hring) }
    | ok out =>
      rintro (htook | ⟨hgone, hread⟩)
      · refine ⟨fun _ => htook, fun hdead => ?_, htook.writes, (Option.some_ne_none _).symm,
          htook.delivered_prefix⟩
        exact absurd (hdead.symm.trans htook.live) Bool.false_ne_true
      · refine ⟨fun hlive => ?_, fun _ => hgone.rcvbuf, ?_, (Option.some_ne_none _).symm, ?_⟩
        · rw [hgone.onHashTable] at hlive
          exact absurd hlive Bool.false_ne_true
        · rw [hgone.puts]
          exact h.writes
        · dsimp only
          rw [hread, append_nil]
          exact h.delivered
  rw [if_neg hlive]
  dsimp only
  rw [headMoved_self, newSpans_eq_nil i.off rfl, append_nil, append_nil]
  exact { h with asserts := (Option.some_ne_none _).symm }

theorem Fresh.receiving {st : TcpStream} (h : Fresh irs st) :
    Receiving pools irs S st.recvView st.state 0 [] [] := by
  have hbuf : st.recvView.buffer pools = rbInit pools.recvChunk pools.recvSize (irs + 1) := by
    rw [RecvView.buffer, TcpStream.recvView, h.rcvbuf, h.first]
  have hinv := rbInit_inv pools.recvChunk pools.recvSize (irs + 1)
  have hnone : ∀ i, ¬Covers (rbInit pools.recvChunk pools.recvSize (irs + 1)).spans i :=
    fun i hi => Nat.not_lt_zero i (hinv.lt_lastLen hi)
  refine ⟨h.onHashTable, h.first, ?_, ?_, fun _ => ?_, fun _ => ?_, ?_, Or.inl rfl⟩
  · rw [hbuf]
    rfl
  · rw [hbuf]
    refine ⟨hinv, (seqAt_zero _).symm, fun i => ?_, fun i hi => absurd hi (hnone i)⟩
    refine iff_of_false (hnone i) ?_
    rintro ⟨_, hmem, _⟩
    exact not_mem_nil hmem
  · rw [hbuf]
    exact h.rcvNxt.trans (UInt32.add_zero _).symm
  · rw [hbuf]
    exact (congrArg UInt32.toNat h.rcvWnd).trans_le (le_max_right _ _)
  · intro r hr
    rw [TcpStream.recvView, h.puts] at hr
    exact absurd hr not_mem_nil

theorem Fresh.inv {st : TcpStream} (h : Fresh irs st) : (start st).Inv pools irs S where
  live _ := h.receiving
  gone hdead := absurd (hdead.symm.trans h.onHashTable) Bool.false_ne_true
  writes := (h.receiving (S := S)).writes
  asserts := (Option.some_ne_none _).symm
  delivered := nil_prefix

/-- If numbers tell positions, the buffer holds what was accepted, and a prefix of `S` was read. -/
theorem segments_reassemble (pools : Pools) (irs : UInt32) (S : List UInt8) (st : TcpStream)
    (inputs : List RecvInput) (hsize : pools.recvSize.toNat ≤ sizeBound) (hfresh : Fresh irs st)
    (hrun : Run.Admissible (step pools)
      (fun w i => RecvOk pools irs S w i ∧ RecvNear pools w i) (start st) inputs) :
    Reassembled pools irs S (inputs.foldl (step pools) (start st)) := by
  have hinv : RecvWorld.Inv pools irs S
      (inputs.foldl (step pools) (start st)) :=
    hrun.invariant hfresh.inv fun _ _ h hok => h.step hsize hok.1 hok.2
  exact hinv.reassembled

end Run

instance (pools : Pools) (irs : UInt32) (S : List UInt8) (w : RecvWorld) (i : RecvInput) :
    Decidable (RecvOk pools irs S w i) := by
  unfold RecvOk
  split <;> infer_instance

instance (pools : Pools) (w : RecvWorld) (i : RecvInput) : Decidable (RecvNear pools w i) := by
  unfold RecvNear
  split <;> infer_instance

theorem opened_fresh : Fresh 100 opened := ⟨rfl, rfl, rfl, rfl, rfl, rfl, rfl⟩

def swappedSegments : List RecvInput :=
  [{ op := .packet 0 { seq := 104, ackSeq := 0, payload := [4, 5] } 1, off := 3 },
   { op := .packet 0 { seq := 101, ackSeq := 0, payload := [1, 2, 3, 4] } 2 },
   { op := .recv 10 }]

theorem segments_reassemble_swapped :
    (swappedSegments.foldl (step smallPools) (start opened)).delivered =
        [1, 2, 3, 4, 5] ∧
      Reassembled smallPools 100 [1, 2, 3, 4, 5, 6]
        (swappedSegments.foldl (step smallPools) (start opened)) :=
  ⟨by decide +kernel,
    segments_reassemble smallPools 100 [1, 2, 3, 4, 5, 6] opened swappedSegments (by decide)
      opened_fresh (by decide +kernel)⟩

def longStream : List UInt8 := List.replicate (2 ^ 32) 0 ++ [1]

def farSegment : List RecvInput :=
  [{ op := .packet 0 { seq := 101, ackSeq := 0, payload := [1] } 1, off := 2 ^ 32 },
   { op := .recv 10 }]

/-- A segment that is far ahead is taken for the first one. -/
theorem far_segment_taken_first :
    Fresh 100 opened ∧
      Run.Admissible (step smallPools) (RecvOk smallPools 100 longStream)
        (start opened) farSegment ∧
      ¬Reassembled smallPools 100 longStream
        (farSegment.foldl (step smallPools) (start opened)) := by
  refine ⟨opened_fresh, ⟨⟨rfl, fun _ => ⟨?_, by decide⟩, by decide, by decide, by decide⟩,
    trivial, trivial⟩, fun h => ?_⟩
  · rw [longStream, drop_left' length_replicate]
    rfl
  · have hread : (farSegment.foldl (step smallPools)
        (start opened)).delivered = [1] := by decide +kernel
    have hfirst : longStream[0]? = some 0 := by
      rw [longStream, getElem?_append_left (by rw [length_replicate]; omega),
        getElem?_replicate_of_lt (by omega)]
    obtain ⟨rest, hrest⟩ := h.delivered
    rw [← hrest, hread] at hfirst
    exact absurd hfirst (by simp)

end StackBench.Mtcp

import StackBench.Lib.Run
import StackBench.Mtcp.Flush
import StackBench.Mtcp.StreamOps

/-!
# Requested acks in mTCP

`EnqueueACK` counts requests in a field of six bits. Its guard compares promoted
integers and always holds, so the count wraps and requests are forgotten.
-/

namespace StackBench.Mtcp

open Attempt (Ends)
open Run (Admissible)

/-- What happens between two runs of `WriteTCPACKList`. -/
inductive AckOp where
  | request (opt : AckOpt)
  | dataList (curTs : UInt32) (txBufs : ℕ)

/-- A stream, and whether a request waits for a segment with an ack. -/
structure AckWorld where
  st : TcpStream
  waiting : Bool

def AckWorld.step (w : AckWorld) : AckOp → AckWorld
  | .request opt => { st := enqueueACK w.st opt, waiting := w.waiting || opt != .wack }
  | .dataList curTs txBufs =>
    match writeTCPDataList w.st curTs txBufs with
    | .ok out => { st := out.st, waiting := w.waiting && !out.sent.any (·.flags.ack) }
    | .error _ => w

/-- The count has room for a request. -/
def Counts (w : AckWorld) : AckOp → Prop
  | .request .now => w.st.sndvar.ackCnt ≠ 63
  | _ => True

/-- The stream is established, and while `b` holds it is on the ack list for a request. -/
structure Listed (b : Bool) (st : TcpStream) : Prop where
  state : st.state = .established
  listed : b = true → st.sndvar.onAckList = true ∧ 0 < st.sndvar.ackCnt

variable {b : Bool} {st : TcpStream} {curTs : UInt32}

theorem Listed.packetSent (h : Listed b st) (flags : OutFlags) (n : ℕ) :
    Listed b (packetSent st curTs flags n) := by
  unfold Mtcp.packetSent addtoRTOList
  dsimp only
  repeat' split
  all_goals exact ⟨h.state, h.listed⟩

theorem Listed.windowFull (h : Listed b st) : Listed b (windowFull st curTs) := by
  unfold Mtcp.windowFull
  split
  · exact ⟨h.state, fun hb => ⟨rfl, (h.listed hb).2⟩⟩
  · exact h

/-- The flush counts segments only, and all carry an ack. -/
structure Carried (b : Bool) (out : FlushOut) : Prop where
  listed : Listed b out.st
  acks : out.sent.any (·.flags.ack) = true ∨ out.packets ≤ 0

theorem Carried.rounds (b : Bool) (buf : SendBuffer) : Rounds buf curTs (Carried b) where
  skip out h _ _ := ⟨⟨h.listed.state, h.listed.listed⟩, h.acks⟩
  full out h := ⟨h.listed.windowFull, Or.inr (neg_nonpos.mpr (by decide))⟩
  fail out h := ⟨h.listed, Or.inr (neg_nonpos.mpr (by decide))⟩
  sent out seg h _ hack := by
    refine ⟨h.listed.packetSent _ _, Or.inl ?_⟩
    rw [List.any_append, List.any_cons, hack, Bool.true_or, Bool.or_true]

/-- Acks are taken off the count only where segments were sent. -/
theorem Listed.dataList (h : Listed b st) (curTs : UInt32) (txBufs : ℕ) :
    Ends (fun out : WriteOut => Listed (b && !out.sent.any (·.flags.ack)) out.st) (fun _ => True)
      (writeTCPDataList st curTs txBufs) := by
  unfold writeTCPDataList controlListTurn
  have hless : ∀ {c : Bool} {st : TcpStream}, Listed b st → Listed (b && c) st := fun h =>
    ⟨h.state, fun hb => h.listed (Bool.and_elim_left hb)⟩
  split
  · exact hless h
  suffices hflush : Ends (Carried b) (fun _ => True) _ by
    refine Ends.map hflush fun out hout => ?_
    dsimp only
    split
    · exact hless hout.listed
    next hsent =>
    have hkeeps : (b && !out.sent.any (·.flags.ack)) = true → out.st.sndvar.onAckList = true ∧
        0 < if out.packets < out.st.sndvar.ackCnt.val then
          Fin.ofNat 64 (out.st.sndvar.ackCnt.val - out.packets.toNat) else 0 := by
      intro hb
      rw [Bool.and_eq_true, Bool.not_eq_true'] at hb
      have hnone : out.packets = 0 := by
        have hle := hout.acks.resolve_left (Bool.eq_false_iff.mp hb.2)
        omega
      obtain ⟨hon, hpos⟩ := hout.listed.listed hb.1
      rw [hnone, if_pos (Int.natCast_pos.mpr hpos)]
      exact ⟨hon, by rwa [Int.toNat_zero, Nat.sub_zero, Fin.ofNat_val_eq_self]⟩
    split <;> exact ⟨hout.listed.state, hkeeps⟩
  rw [h.state]
  dsimp only
  split
  · exact ⟨h, Or.inr (neg_nonpos.mpr zero_le_one)⟩
  · refine (Rounds.flush ?_ txBufs ⟨h, Or.inr le_rfl⟩).weaken fun _ _ => trivial
    exact fun buf _ => Carried.rounds b buf

abbrev AckWorld.Inv (w : AckWorld) : Prop := Listed w.waiting w.st

theorem enqueueACK_count {w : AckWorld} {opt : AckOpt} (hok : Counts w (.request opt)) :
    w.st.sndvar.ackCnt ≤ (enqueueACK w.st opt).sndvar.ackCnt ∧
      (opt ≠ .wack → 0 < (enqueueACK w.st opt).sndvar.ackCnt) := by
  unfold enqueueACK addtoACKList
  cases opt with
  | now =>
    have hval : w.st.sndvar.ackCnt.val ≠ 63 := fun h => hok (Fin.ext h)
    simp only [Fin.le_def, Fin.lt_def, Fin.val_add]
    grind
  | aggregate => grind
  | wack => exact ⟨le_rfl, fun h => absurd rfl h⟩

theorem Listed.request {w : AckWorld} {opt : AckOpt} (h : w.Inv) (hok : Counts w (.request opt)) :
    (w.step (.request opt)).Inv := by
  refine ⟨h.state, fun hb => ⟨rfl, ?_⟩⟩
  have hb' : w.waiting = true ∨ opt ≠ .wack := by simpa [AckWorld.step] using hb
  rcases hb' with hw | hopt
  · exact lt_of_lt_of_le (h.listed hw).2 (enqueueACK_count hok).1
  · exact (enqueueACK_count hok).2 hopt

/-- While the count has room, a stream with a request that waits is on the ack list. -/
theorem ack_requests_kept (st : TcpStream) (hst : st.state = .established) (ops : List AckOp)
    (hrun : Admissible AckWorld.step Counts ⟨st, false⟩ ops) :
    let w := ops.foldl AckWorld.step ⟨st, false⟩
    (w.waiting = true → w.st.sndvar.onAckList = true ∧ 0 < w.st.sndvar.ackCnt) ∧
      ∀ opt, Counts w (.request opt) →
        w.st.sndvar.ackCnt ≤ (enqueueACK w.st opt).sndvar.ackCnt := by
  have hend : (ops.foldl AckWorld.step ⟨st, false⟩).Inv := by
    refine hrun.invariant ⟨hst, nofun⟩ fun w op h hok => ?_
    cases op with
    | request opt => exact h.request hok
    | dataList curTs txBufs =>
      have hdata := h.dataList curTs txBufs
      show AckWorld.Inv (match writeTCPDataList w.st curTs txBufs with | .ok _ => _ | .error _ => _)
      split
      · next heq => rwa [heq] at hdata
      · exact h
  exact ⟨hend.listed, fun opt hok => (enqueueACK_count hok).1⟩

/-- A stream with three bytes to send. -/
def sending : TcpStream :=
  { opened with sndvar := { opened.sndvar with
      onSendList := true
      sndbuf := some (sbPut (sbInit (fun _ => 0) 8 301) [1, 2, 3]).1 } }

/-- The data carry the ack for the first two requests, and the third one waits. -/
theorem ack_requests_kept_data :
    let ops := [AckOp.request .now, .request .now, .dataList 0 1, .request .aggregate]
    let w := ops.foldl AckWorld.step ⟨sending, false⟩
    w.waiting = true ∧ 0 < w.st.sndvar.ackCnt := by
  intro ops w
  have hfirst : sending.sndvar.ackCnt ≠ 63 := by decide
  have hsecond : (enqueueACK sending .now).sndvar.ackCnt ≠ 63 := by decide
  have hwaiting : w.waiting = true := by decide +kernel
  exact ⟨hwaiting, ((ack_requests_kept sending rfl ops
    ⟨hfirst, hsecond, trivial, trivial, trivial⟩).1 hwaiting).2⟩

/-- The request with the number 64 takes the count back to zero. -/
theorem ack_requests_forgotten :
    let w := (List.replicate 64 (AckOp.request .now)).foldl AckWorld.step ⟨opened, false⟩
    w.waiting = true ∧ w.st.sndvar.ackCnt = 0 := by
  decide +kernel

end StackBench.Mtcp

import StackBench.Tas.QmanPoll
import StackBench.Tas.Transmit

/-!
# Credit in the TAS queue manager

One core with its queue manager and all flows. The credit of a flow steered to
the core covers what it may send, so that its queue is linked while there is
data, and no segment is longer than its charge.
-/

namespace StackBench.Tas

open Function
open UInt32 (lt_iff_toNat_lt toNat_inj)

/-- The bytes of the stream, a closing `FIN` included, that a call of
`fast_flows_qman` moved the flow over. -/
def takenBytes (fs fs' : FlowSt) : UInt32 := fs'.txNextSeq - fs.txNextSeq

/-- A core of the fast path, with the firings and the bytes sent. `hung`: a call does not return. -/
structure CoreWorld where
  qman : QmanThread
  flows : UInt32 → FlowSt
  sent : List (Firing × UInt32)
  hung : Bool

def CoreWorld.init (rng : ℕ → UInt32) (ts : UInt32) (flows : UInt32 → FlowSt) : CoreWorld :=
  { qman := qmanThreadInit rng ts, flows := flows, sent := [], hung := false }

/-- The operations of a core. `connect` stands for the slow path, which fills
a flow slot. -/
inductive CoreOp where
  | connect (id : UInt32) (a : ConnArgs)
  | packet (id : UInt32) (p : Pkt) (ts : UInt32)
  | bump (id : UInt32) (b : Bump) (ts : UInt32)
  | retransmit (id : UInt32)
  | poll (steering : UInt16 → UInt16) (txBuf : UInt32 → ℕ → UInt8) (ts : UInt32) (num : ℕ)

/-- Store what an operation did to the flow `id`, and make its call of `qman_set`. -/
def CoreWorld.apply (w : CoreWorld) (id : UInt32) (out : FlowOut) : CoreWorld :=
  let w := { w with flows := update w.flows id out.fs }
  match out.qman with
  | none => w
  | some s =>
    match qmanSet w.qman s with
    | none => { w with hung := true }
    | some t => { w with qman := t }

/-- The call of `fast_flows_qman` for one queue that `qman_poll` returned. -/
def CoreWorld.serve (core : UInt16) (steering : UInt16 → UInt16) (txBuf : UInt32 → ℕ → UInt8)
    (ts : UInt32) (w : CoreWorld) (f : Firing) : CoreWorld :=
  let out := fastFlowsQman core steering f.id (w.flows f.id) (txBuf f.id) ts
  { w.apply f.id out with sent := w.sent ++ [(f, takenBytes (w.flows f.id) out.fs)] }

/-- `poll_qman`: poll the queue manager, then serve every queue it returned. -/
def CoreWorld.pollQman (core : UInt16) (steering : UInt16 → UInt16) (txBuf : UInt32 → ℕ → UInt8)
    (ts : UInt32) (num : ℕ) (w : CoreWorld) : CoreWorld :=
  match qmanPoll w.qman ts num with
  | none => { w with hung := true }
  | some (t, fs) => fs.foldl (serve core steering txBuf ts) { w with qman := t }

def CoreWorld.step (core : UInt16) (w : CoreWorld) : CoreOp → CoreWorld
  | .connect id a =>
    { w with flows := update w.flows id (nicifConnectionAdd (w.flows id) a) }
  | .packet id p ts => w.apply id (fastFlowsPacket id (w.flows id) p ts)
  | .bump id b ts => w.apply id (fastFlowsBump id (w.flows id) b ts)
  | .retransmit id => w.apply id (fastFlowsRetransmit id (w.flows id))
  | .poll steering txBuf ts num => w.pollQman core steering txBuf ts num

open CoreWorld (init step)

/-- The call of `qman_set` does not wrap the credit of the queue `f`. -/
def CoreWorld.NoWrap (f : UInt32) (w : CoreWorld) (out : FlowOut) : Prop :=
  ∀ s ∈ out.qman, s.id = f → (w.qman.queues f).avail.toNat + s.avail.toNat < 2 ^ 32
deriving Decidable

/-- Flow ids lie in the table, the credit of `f` does not wrap, and its group is steered to the
core. -/
def CoreOk (core : UInt16) (f : UInt32) (w : CoreWorld) : CoreOp → Prop
  | .connect _ _ => True
  | .packet id p ts => id.toNat < numQmqueues ∧ w.NoWrap f (fastFlowsPacket id (w.flows id) p ts)
  | .bump id b ts => id.toNat < numQmqueues ∧ w.NoWrap f (fastFlowsBump id (w.flows id) b ts)
  | .retransmit id => id.toNat < numQmqueues ∧ w.NoWrap f (fastFlowsRetransmit id (w.flows id))
  | .poll steering _ _ _ => steering (w.flows f).flowGroup = core

instance (core : UInt16) (f : UInt32) (w : CoreWorld) : DecidablePred (CoreOk core f w) :=
  fun op => by cases op <;> dsimp only [CoreOk] <;> infer_instance

/-- The credit an operation adds to the queue `id` is the rise of `tcp_txavail`. -/
def AddsRise (id : UInt32) (fs : FlowSt) (out : FlowOut) : Prop :=
  ∃ fs', out.qman = qmanCredit id fs' (tcpTxavail fs) (tcpTxavail out.fs)

section

variable (id : UInt32) (fs : FlowSt)
include id fs

theorem addsRise_none (out : FlowOut) (hqman : out.qman = none)
    (hsame : tcpTxavail out.fs = tcpTxavail fs) : AddsRise id fs out := by
  refine ⟨fs, ?_⟩
  rw [hqman, hsame, qmanCredit, if_neg (UInt32.lt_irrefl _)]

theorem fastFlowsPacket_addsRise (p : Pkt) (ts : UInt32) :
    AddsRise id.toUInt16.toUInt32 fs (fastFlowsPacket id fs p ts) := by
  rcases fastFlowsPacket_cases id fs p ts with ⟨slow, -, hout⟩ | ⟨-, hout⟩
  · rw [hout]
    exact addsRise_none _ _ _ rfl rfl
  · rw [hout]
    exact ⟨(packetBody fs p ts).fs, rfl⟩

theorem fastFlowsBump_addsRise (b : Bump) (ts : UInt32) :
    AddsRise id fs (fastFlowsBump id fs b ts) := by
  rcases fastFlowsBump_cases id fs b ts with ⟨s, hout⟩ | ⟨-, -, hout⟩
  · rw [hout]
    exact addsRise_none _ _ _ rfl rfl
  · rw [hout]
    exact ⟨fs, rfl⟩

theorem fastFlowsRetransmit_addsRise : AddsRise id fs (fastFlowsRetransmit id fs) := by
  unfold fastFlowsRetransmit
  split
  · exact addsRise_none _ _ _ rfl rfl
  · exact ⟨flowResetRetransmit fs, rfl⟩

end

variable {fs : FlowSt}

theorem tcpTxavail_txTake {len : UInt32} (hle : len.toNat ≤ (tcpTxavail fs).toNat) :
    (tcpTxavail (txTake fs len)).toNat = (tcpTxavail fs).toNat - len.toNat := by
  have hwindow : remoteWindow (txTake fs len) - (fs.txSent + len) =
      remoteWindow fs - fs.txSent - len := by
    change remoteWindow fs - (fs.txSent + len) = _
    grind
  have hfield : tcpTxavail (txTake fs len) =
      if remoteWindow fs - fs.txSent - len < fs.txAvail - len then
        remoteWindow fs - fs.txSent - len
      else fs.txAvail - len := by
    rw [← hwindow]
    rfl
  rw [hfield]
  simp only [tcpTxavail, tcpTxavailOf, lt_iff_toNat_lt] at hle ⊢
  split at hle
  · next hlt =>
    have hsub := Word.sub_toNat hle
    have hsub' : (fs.txAvail - len).toNat = fs.txAvail.toNat - len.toNat :=
      Word.sub_toNat (by omega)
    rw [if_pos hlt, if_pos (by omega), hsub]
  next hlt =>
  have hsub := Word.sub_toNat hle
  have hsub' : (remoteWindow fs - fs.txSent - len).toNat =
      (remoteWindow fs - fs.txSent).toNat - len.toNat := Word.sub_toNat (by omega)
  rw [if_neg hlt, if_neg (by omega), hsub]

/-- The credit `c` of a queue covers the flow `fs`, and its chunk is a segment. -/
structure Covers (c : QueueCredit) (fs : FlowSt) : Prop where
  covered : (tcpTxavail fs).toNat ≤ c.avail.toNat
  chunk : c.avail ≠ 0 → c.maxChunk = tcpMss.toUInt16

theorem Covers.chunk_toNat {c : QueueCredit} (h : Covers c fs) :
    c.chunk.toNat = min c.avail.toNat 1448 := by
  by_cases hzero : c.avail = 0
  · have hle : (0 : UInt32) ≤ c.maxChunk.toUInt32 := UInt32.zero_le
    simp [QueueCredit.chunk, hzero, hle]
  have hmax : c.maxChunk.toUInt32.toNat = 1448 := by
    rw [h.chunk hzero]
    decide
  unfold QueueCredit.chunk
  split
  · next hle =>
    rw [UInt32.le_iff_toNat_le, hmax] at hle
    omega
  · next hle =>
    rw [UInt32.le_iff_toNat_le, hmax] at hle
    omega

theorem segLen_toNat (avail : UInt32) : (segLen avail).toNat = min avail.toNat 1448 := by
  have hmss : tcpMss.toNat = 1448 := rfl
  simp only [segLen, lt_iff_toNat_lt, hmss]
  split
  · omega
  · omega

variable {steering : UInt16 → UInt16}

/-- A firing takes at most what was charged, and the credit left covers what is left to send. -/
theorem Covers.serve {c : QueueCredit} (h : Covers c fs) {core : UInt16}
    (hsteer : steering fs.flowGroup = core) (id : UInt32) (txBuf : ℕ → UInt8) (ts : UInt32) :
    let out := fastFlowsQman core steering id fs txBuf ts
    out.qman = none ∧ Covers { c with avail := c.avail - c.chunk } out.fs ∧
      (takenBytes fs out.fs).toNat ≤ c.chunk.toNat ∧ out.fs.flowGroup = fs.flowGroup := by
  have hcov := h.covered
  have hchunk := h.chunk_toNat
  have hleft : (c.avail - c.chunk).toNat = c.avail.toNat - c.chunk.toNat :=
    Word.sub_toNat (by omega)
  have hkeep : c.avail - c.chunk ≠ 0 → c.maxChunk = tcpMss.toUInt16 := by
    intro hne
    apply h.chunk
    intro hzero
    apply hne
    rw [← toNat_inj, hleft, hzero]
    simp
  have hsteer' : ¬steering fs.flowGroup ≠ core := fun hne => hne hsteer
  simp only [fastFlowsQman, if_neg hsteer']
  split
  · next hzero =>
    refine ⟨rfl, ⟨?_, hkeep⟩, by simp [takenBytes], rfl⟩
    simp [hzero]
  have hseg := segLen_toNat (tcpTxavail fs)
  have htake := tcpTxavail_txTake (segLen_le (tcpTxavail fs))
  refine ⟨rfl, ⟨?_, hkeep⟩, ?_, rfl⟩
  · simp only [qmanSend, htake, hseg, hleft, hchunk]
    omega
  · have htaken : takenBytes fs (qmanSend fs txBuf ts).fs = segLen (tcpTxavail fs) := by
      simp [takenBytes, qmanSend, txTake]
    rw [htaken, hseg, hchunk]
    omega

/-- The queue manager works, the queue `f` covers the flow, and no firing sent more than charged. -/
structure CoreWorld.Inv (f : UInt32) (w : CoreWorld) : Prop where
  lists : ∃ ls, QmanActive w.qman ls
  covers : Covers (w.qman.credits f) (w.flows f)
  sent : ∀ e ∈ w.sent, e.1.id = f → e.2.toNat ≤ e.1.bytes.toNat
  running : w.hung = false

section Step

variable {core : UInt16} {f : UInt32} {w : CoreWorld}

theorem qmanIdOk_of_lt {id : UInt32} (h : id.toNat < numQmqueues) : qmanIdOk id = true := by
  apply decide_eq_true
  exact h

theorem CoreWorld.Inv.apply (h : w.Inv f) {id qid : UInt32} {out : FlowOut}
    (hrise : AddsRise qid (w.flows id) out) (hbound : qid.toNat < numQmqueues)
    (hid : id = f → qid = f) (hwrap : w.NoWrap f out) : (w.apply id out).Inv f := by
  obtain ⟨fs', hqman⟩ := hrise
  have hflow : id ≠ f → update w.flows id out.fs f = w.flows f := fun hne =>
    update_of_ne (Ne.symm hne) _ _
  have hcov := h.covers.covered
  unfold qmanCredit at hqman
  split at hqman
  · next hgt =>
    obtain ⟨ls, hlists⟩ := h.lists
    set s : QmanSet := ⟨qid, fs'.txRate, tcpTxavail out.fs - tcpTxavail (w.flows id),
      tcpMss.toUInt16, true⟩ with hs
    obtain ⟨t', ls', hset, hlists', hcredits⟩ := hlists.qmanSet (s := s) (qmanIdOk_of_lt hbound)
    have hout : w.apply id out =
        { w with flows := update w.flows id out.fs, qman := t' } := by
      simp only [CoreWorld.apply, hqman, hset]
    rw [hout]
    refine ⟨⟨ls', hlists'⟩, ?_, h.sent, h.running⟩
    simp only [hcredits, setCredit]
    have hdiff : s.avail.toNat = (tcpTxavail out.fs).toNat - (tcpTxavail (w.flows id)).toNat :=
      Word.sub_toNat (UInt32.le_iff_toNat_le.mp (UInt32.le_of_lt hgt))
    by_cases hq : qid = f
    · have hnowrap := hwrap s hqman hq
      have hsum : ((w.qman.queues f).avail + s.avail).toNat =
          (w.qman.queues f).avail.toNat + s.avail.toNat := Word.add_toNat hnowrap
      have hcov' : (tcpTxavail (w.flows f)).toNat ≤ (w.qman.queues f).avail.toNat := hcov
      subst hq
      rw [show s.id = qid from rfl, update_self]
      refine ⟨?_, fun _ => rfl⟩
      change _ ≤ ((w.qman.queues qid).avail + s.avail).toNat
      by_cases hidf : id = qid
      · subst hidf
        rw [update_self]
        omega
      · rw [hflow hidf]
        omega
    · rw [update_of_ne (Ne.symm hq), hflow fun hcon => hq (hid hcon)]
      exact h.covers
  · next hle =>
    have hout : w.apply id out = { w with flows := update w.flows id out.fs } := by
      simp only [CoreWorld.apply, hqman]
    rw [hout]
    refine ⟨h.lists, ⟨?_, h.covers.chunk⟩, h.sent, h.running⟩
    by_cases hidf : id = f
    · subst hidf
      rw [gt_iff_lt, lt_iff_toNat_lt] at hle
      simp only [update_self]
      omega
    · simp only [hflow hidf]
      exact hcov

/-- Between two calls of `fast_flows_qman`: `c` is the credit as if the queues to come had not been
charged. -/
structure CoreWorld.Serving (core : UInt16) (steering : UInt16 → UInt16) (f : UInt32)
    (c c' : UInt32 → QueueCredit) (w : CoreWorld) : Prop where
  lists : ∃ ls, QmanActive w.qman ls
  credit : w.qman.credits f = c' f
  covers : Covers (c f) (w.flows f)
  steered : steering (w.flows f).flowGroup = core
  bound : ∀ i, (c i).avail ≠ 0 → i.toNat < numQmqueues
  sent : ∀ e ∈ w.sent, e.1.id = f → e.2.toNat ≤ e.1.bytes.toNat
  running : w.hung = false

theorem CoreWorld.serve_other (hlists : ∃ ls, QmanActive w.qman ls) {i : UInt32} (hi : i ≠ f)
    (hbound : i.toNat < numQmqueues) (core : UInt16) (steering : UInt16 → UInt16)
    (txBuf : ℕ → UInt8) (ts : UInt32) :
    let w' := w.apply i (fastFlowsQman core steering i (w.flows i) txBuf ts)
    (∃ ls, QmanActive w'.qman ls) ∧ w'.qman.credits f = w.qman.credits f ∧
      w'.flows f = w.flows f ∧ w'.sent = w.sent ∧ w'.hung = w.hung := by
  have hflow : ∀ fs, update w.flows i fs f = w.flows f := fun _ =>
    update_of_ne (Ne.symm hi) _ _
  simp only [fastFlowsQman]
  split
  · obtain ⟨ls, hlists⟩ := hlists
    obtain ⟨t', ls', hset, hlists', hcredits⟩ :=
      hlists.qmanSet (s := ⟨i, 0, 0, 0, false⟩) (qmanIdOk_of_lt hbound)
    simp only [apply, hset]
    refine ⟨⟨ls', hlists'⟩, ?_, hflow _, trivial, trivial⟩
    rw [hcredits]
    exact update_of_ne (Ne.symm hi) _ _
  split
  · exact ⟨hlists, rfl, hflow _, rfl, rfl⟩
  · exact ⟨hlists, rfl, hflow _, rfl, rfl⟩

theorem CoreWorld.Serving.foldl {c c' : UInt32 → QueueCredit} {fs : List Firing}
    (hfired : Fired c fs c') (txBuf : UInt32 → ℕ → UInt8) (ts : UInt32) :
    ∀ {w : CoreWorld}, w.Serving core steering f c c' →
      (fs.foldl (serve core steering txBuf ts) w).Inv f := by
  induction hfired with
  | nil c =>
    intro w h
    exact ⟨h.lists, h.credit ▸ h.covers, h.sent, h.running⟩
  | @cons c c' i fs hpos hrest ih =>
    intro w h
    apply ih
    have hbound : ∀ j, (chargeQueue c i j).avail ≠ 0 → j.toNat < numQmqueues := by
      intro j hj
      by_cases hji : j = i
      · exact hji ▸ h.bound i hpos
      · rw [chargeQueue, update_of_ne hji] at hj
        exact h.bound j hj
    by_cases hi : i = f
    · subst hi
      obtain ⟨hqman, hcovers, htaken, hgroup⟩ := h.covers.serve h.steered i (txBuf i) ts
      have hout : serve core steering txBuf ts w ⟨i, (c i).chunk⟩ =
          { w with
            flows := update w.flows i
              (fastFlowsQman core steering i (w.flows i) (txBuf i) ts).fs
            sent := w.sent ++ [(⟨i, (c i).chunk⟩, takenBytes (w.flows i)
              (fastFlowsQman core steering i (w.flows i) (txBuf i) ts).fs)] } := by
        simp only [serve, apply, hqman]
      rw [hout]
      refine ⟨h.lists, h.credit, ?_, ?_, hbound, ?_, h.running⟩
      · simp only [chargeQueue, update_self]
        exact hcovers
      · simp only [update_self, hgroup]
        exact h.steered
      · intro e he hid
        rcases List.mem_append.mp he with he | he
        · exact h.sent e he hid
        · rw [List.mem_singleton.mp he]
          exact htaken
    obtain ⟨hlists, hcredit, hflow, -, hrunning⟩ :=
      serve_other h.lists hi (h.bound i hpos) core steering (txBuf i) ts
    refine ⟨hlists, hcredit.trans h.credit, ?_, ?_, hbound, ?_, hrunning.trans h.running⟩
    · have hsame : chargeQueue c i f = c f := update_of_ne (Ne.symm hi) _ _
      rw [hsame]
      exact hflow ▸ h.covers
    · exact hflow ▸ h.steered
    · intro e he hid
      rcases List.mem_append.mp he with he | he
      · exact h.sent e he hid
      · rw [List.mem_singleton.mp he] at hid
        exact absurd hid hi

theorem CoreWorld.Inv.poll (h : w.Inv f) (hsteer : steering (w.flows f).flowGroup = core)
    (txBuf : UInt32 → ℕ → UInt8) (ts : UInt32) (num : ℕ) :
    (w.pollQman core steering txBuf ts num).Inv f := by
  obtain ⟨ls, hlists⟩ := h.lists
  obtain ⟨t', fs, ls', hpoll, hlists', -, hfired⟩ := hlists.qmanPoll ts num
  unfold pollQman
  rw [hpoll]
  apply CoreWorld.Serving.foldl hfired txBuf ts
  exact ⟨⟨ls', hlists'⟩, rfl, h.covers, hsteer,
    fun i hi => hlists.listed.bound (hlists.active i hi), h.sent, h.running⟩

theorem packetQueue_toNat (id : UInt32) : id.toUInt16.toUInt32.toNat = id.toNat % 2 ^ 16 := by
  simp

theorem CoreWorld.Inv.step (h : w.Inv f) (hf : f.toNat < 2 ^ 16) {op : CoreOp}
    (hok : CoreOk core f w op) : (w.step core op).Inv f := by
  cases op with
  | connect id a =>
    refine ⟨h.lists, ⟨?_, h.covers.chunk⟩, h.sent, h.running⟩
    simp only [CoreWorld.step]
    by_cases hid : f = id
    · subst hid
      rw [update_self]
      have hzero : (tcpTxavail (nicifConnectionAdd (w.flows f) a)).toNat ≤ 0 := tcpTxavailOf_le _ 0
      omega
    · rw [update_of_ne hid]
      exact h.covers.covered
  | packet id p ts =>
    have hqueue := packetQueue_toNat id
    refine h.apply (fastFlowsPacket_addsRise id (w.flows id) p ts) ?_ ?_ hok.2
    · simp only [numQmqueues]
      omega
    · rintro rfl
      rw [← toNat_inj]
      omega
  | bump id b ts =>
    exact h.apply (fastFlowsBump_addsRise id (w.flows id) b ts) hok.1 (fun hid => hid) hok.2
  | retransmit id =>
    exact h.apply (fastFlowsRetransmit_addsRise id (w.flows id)) hok.1 (fun hid => hid) hok.2
  | poll steering txBuf ts num => exact h.poll hok txBuf ts num

end Step

/-- The credit covers the bytes to send, a queue with such bytes is linked, and no segment exceeds
its charge. -/
structure CoreWorld.Credited (f : UInt32) (w : CoreWorld) : Prop where
  covered : tcpTxavail (w.flows f) ≤ (w.qman.queues f).avail
  queued : tcpTxavail (w.flows f) ≠ 0 → ∃ nl sk, QmanLists w.qman nl sk ∧ (f ∈ nl ∨ f ∈ sk 0)
  charged : ∀ e ∈ w.sent, e.1.id = f → e.2 ≤ e.1.bytes
  running : w.hung = false

theorem CoreWorld.Inv.credited {f : UInt32} {w : CoreWorld} (h : w.Inv f) : w.Credited f := by
  have hcov := h.covers.covered
  refine ⟨UInt32.le_iff_toNat_le.mpr hcov, ?_, ?_, h.running⟩
  · intro hne
    obtain ⟨ls, ⟨nl, sk, hlists, hperm⟩, hactive⟩ := h.lists
    refine ⟨nl, sk, hlists, ?_⟩
    rw [← List.mem_append, ← hperm.mem_iff]
    apply hactive
    intro hzero
    apply hne
    rw [← toNat_inj]
    have hzero' : (w.qman.credits f).avail.toNat = 0 := by
      rw [show (w.qman.credits f).avail = 0 from hzero]
      rfl
    rw [UInt32.toNat_zero]
    omega
  · intro e he hid
    exact UInt32.le_iff_toNat_le.mpr (h.sent e he hid)

theorem CoreWorld.inv_init (rng : ℕ → UInt32) (ts : UInt32) (flows : UInt32 → FlowSt) {f : UInt32}
    (hflow : (flows f).txAvail = 0) : (init rng ts flows).Inv f := by
  refine ⟨⟨[], qmanThreadInit_active rng ts⟩, ⟨?_, fun hne => absurd rfl hne⟩, by simp [init], rfl⟩
  have hle : (tcpTxavail (flows f)).toNat ≤ (flows f).txAvail.toNat := tcpTxavailOf_le _ _
  rw [hflow] at hle
  exact hle.trans (Nat.zero_le _)

/-- In every run the credit of a flow steered to the core covers what `tcp_txavail` lets it send. -/
theorem credit_covers_txavail (core : UInt16) (f : UInt32) (hf : f.toNat < 2 ^ 16)
    (rng : ℕ → UInt32) (ts : UInt32) (flows : UInt32 → FlowSt) (hflow : (flows f).txAvail = 0)
    (ops : List CoreOp) (hrun : Run.Admissible (step core) (CoreOk core f)
      (init rng ts flows) ops) :
    (ops.foldl (step core) (init rng ts flows)).Credited f := by
  have hinv := hrun.invariant (CoreWorld.inv_init rng ts flows hflow) fun _ _ h hok => h.step hf hok
  exact hinv.credited

def sendThenCommit : List CoreOp :=
  [.connect 0 (fourByteConn 0), .bump 0 ⟨0, 0, 3, false⟩ 0, .poll (fun _ => 0) (fun _ _ => 0) 0 8,
    .bump 0 ⟨1, 0, 1, false⟩ 0]

def idleCore : CoreWorld := init (fun _ => 0) 0 fun _ => default

theorem credit_covers_txavail_sendThenCommit :
    (sendThenCommit.foldl (step 0) idleCore).Credited 0 ∧
      tcpTxavail ((sendThenCommit.foldl (step 0) idleCore).flows 0) = 1 ∧
      (sendThenCommit.foldl (step 0) idleCore).sent = [(⟨0, 3⟩, 3)] := by
  have hrun : Run.Admissible (step 0) (CoreOk 0 0) idleCore sendThenCommit := by decide
  refine ⟨?_, by decide, by decide⟩
  exact credit_covers_txavail 0 0 (by decide) (fun _ => 0) 0 (fun _ => default) rfl
    sendThenCommit hrun

theorem queueActivate_credits {t t' : QmanThread} {idx : UInt32}
    (h : queueActivate t idx = some t') : t'.credits = t.credits := by
  funext j
  unfold queueActivate at h
  split at h
  · unfold queueActivateNolimit at h
    dsimp only at h
    split at h
    · cases h
    have hlisted : ∀ next, ((t.setQueue idx { t.queues idx with
        inNolimit := true, nextIdxs := next }).queues j).credit = (t.queues j).credit := fun next =>
      QmanThread.setQueue_same Queue.credit (by rfl) j
    split at h
    · cases h
      exact hlisted _
    · cases h
      exact (setNext_queue _ _ _ _ j).1.trans (hlisted _)
  unfold queueActivateSkiplist at h
  dsimp only at h
  split at h
  · cases h
  split at h
  · cases h
  next preds _ =>
  cases h
  have hflag : ∀ t₃ : QmanThread, ((t₃.setQueue idx { t₃.queues idx with
      inSkiplist := true }).queues j).credit = (t₃.queues j).credit := fun t₃ =>
    QmanThread.setQueue_same Queue.credit (by rfl) j
  have hts : ∀ ts, ((t.setQueue idx { t.queues idx with nextTs := ts }).queues j).credit =
      (t.queues j).credit := fun ts => QmanThread.setQueue_same Queue.credit (by rfl) j
  exact ((hflag _).trans ((linkLevels_spec _ idx preds _).1.credit j)).trans (hts _)

theorem qmanSet_credits {t t' : QmanThread} {s : QmanSet} (h : qmanSet t s = some t') :
    t'.credits = setCredit t.credits s := by
  unfold qmanSet at h
  dsimp only at h
  split at h
  · cases h
  generalize havail : (if s.add = true then _ else s.avail) = avail at h
  split at h
  · rw [queueActivate_credits h, credits_setQueue, ← havail]
    rfl
  · cases h
    rw [credits_setQueue, ← havail]
    rfl

theorem packetQueue_eq_iff (id : UInt32) : id.toUInt16.toUInt32 = id ↔ id.toNat < 2 ^ 16 := by
  rw [← toNat_inj, packetQueue_toNat, Nat.mod_eq_iff_lt (by decide)]

theorem packetQueue_id {id : UInt32} {out : FlowOut} {s : QmanSet}
    (hout : (∃ p ts, out = fastFlowsPacket id fs p ts) ∨ out = fastFlowsQmanFwd id fs)
    (hs : out.qman = some s) : s.id = id.toUInt16.toUInt32 := by
  rcases hout with ⟨p, ts, rfl⟩ | rfl
  · obtain ⟨fs', hqman⟩ := fastFlowsPacket_addsRise id fs p ts
    rw [hs, qmanCredit] at hqman
    split at hqman
    · cases hqman
      rfl
    · cases hqman
  · cases hs
    rfl

/-- A packet and the re-arming of a flow give credit to one queue only, which is the flow's own
exactly if its id has 16 bits. -/
theorem own_queue_only (t : QmanThread) (id : UInt32) (fs : FlowSt) (out : FlowOut) (s : QmanSet)
    (hout : (∃ p ts, out = fastFlowsPacket id fs p ts) ∨ out = fastFlowsQmanFwd id fs)
    (hs : out.qman = some s) :
    (s.id = id ↔ id.toNat < 2 ^ 16) ∧
      (∀ t', qmanSet t s = some t' →
        (∀ j ≠ s.id, (t'.queues j).credit = (t.queues j).credit) ∧
        (t'.queues s.id).credit = ⟨s.rate, if s.add then (t.queues s.id).avail + s.avail
          else s.avail, s.maxChunk⟩) ∧
      ∀ ls, QmanActive t ls → (qmanSet t s).isSome = true := by
  have hqueue := packetQueue_id hout hs
  refine ⟨by rw [hqueue, packetQueue_eq_iff], fun t' hset => ?_, fun ls hactive => ?_⟩
  · have hcredits := qmanSet_credits hset
    refine ⟨fun j hj => ?_, ?_⟩
    · have hother : (t'.queues j).credit = setCredit t.credits s j := congrFun hcredits j
      rw [hother, setCredit, update_of_ne hj]
      rfl
    · have hself : (t'.queues s.id).credit = setCredit t.credits s s.id := congrFun hcredits s.id
      rw [hself, setCredit, update_self]
      rfl
  · have hok : qmanIdOk s.id = true := by
      rw [hqueue, qmanIdOk, decide_eq_true_eq, lt_iff_toNat_lt, packetQueue_toNat]
      exact (Nat.mod_lt _ (by decide)).trans (by decide)
    obtain ⟨t', -, hset, -⟩ := hactive.qmanSet hok
    rw [hset]
    rfl

def fourWaiting : FlowSt :=
  { nicifConnectionAdd default (fourByteConn 0) with txAvail := 4 }

/-- Flow 7 is re-armed, and its queue has the four bytes. -/
theorem own_queue_only_seven :
    ∃ s t', (fastFlowsQmanFwd 7 fourWaiting).qman = some s ∧ qmanSet idleCore.qman s = some t' ∧
      (t'.queues 7).avail = 4 ∧
      ∀ j ≠ 7, (t'.queues j).credit = (idleCore.qman.queues j).credit := by
  have hown := own_queue_only idleCore.qman 7 fourWaiting (fastFlowsQmanFwd 7 fourWaiting) _
    (Or.inr rfl) rfl
  obtain ⟨t', hset⟩ := Option.isSome_iff_exists.mp (hown.2.2 [] (qmanThreadInit_active _ _))
  obtain ⟨hothers, hself⟩ := hown.2.1 t' hset
  exact ⟨_, t', rfl, hset, congrArg QueueCredit.avail hself, hothers⟩

/-- Flow 65536 has the queue 0 in 16 bits: re-armed, or acknowledged, it gives its four bytes to
flow 0. -/
theorem other_queue_credited :
    (65536 : UInt32).toNat < numQmqueues ∧
      (∃ s t', (fastFlowsQmanFwd 65536 fourWaiting).qman = some s ∧
        qmanSet idleCore.qman s = some t' ∧ (t'.queues 0).avail = 4 ∧
        (t'.queues 65536).avail = 0) ∧
      ∃ s, (fastFlowsPacket 65536 { fourWaiting with rxRemoteAvail := 0 } (ackPkt 0 4) 0).qman =
        some s ∧ s.id = 0 ∧ s.avail = 4 :=
  ⟨by decide, ⟨_, _, rfl, rfl, by decide, by decide⟩, _, rfl, by decide, by decide⟩

end StackBench.Tas

import StackBench.Lib.Total
import StackBench.Tas.Credit

/-!
# Flow migration between TAS cores

All cores with their queue managers and forwarding rings, the steering table
and the flow states. A core that finds a flow steered elsewhere clears its
queue and hands the flow to the ring of the other core, which sets the credit
anew. The credit of all cores covers what a flow may send, unless it waits in a
ring.

`poll_qman` and `poll_qman_fwd` work in batches, so a core also keeps what it
charged or dequeued until it serves it.
-/

namespace StackBench.Tas

open Function List

/-- What one core owns: queue manager, forwarding ring, and what it took out and has not served. -/
structure FastCore where
  qman : QmanThread
  ring : List UInt32
  fired : List Firing
  taken : List UInt32

/-- The fast path. `hung` is set when a call into a queue manager fails or does
not return. -/
structure FastPath where
  cores : UInt16 → FastCore
  steering : UInt16 → UInt16
  flows : UInt32 → FlowSt
  hung : Bool

namespace FastPath

/-- The cores after `qman_thread_init`, with empty rings. -/
def init (rng : UInt16 → ℕ → UInt32) (ts : UInt32) (steering : UInt16 → UInt16)
    (flows : UInt32 → FlowSt) : FastPath where
  cores := fun k => { qman := qmanThreadInit (rng k) ts, ring := [], fired := [], taken := [] }
  steering := steering
  flows := flows
  hung := false

variable (w : FastPath)

def setCore (k : UInt16) (c : FastCore) : FastPath :=
  { w with cores := update w.cores k c }

/-- `rte_ring_enqueue` on the ring of the core that a flow was steered to. -/
def enqueue (id : UInt32) : Option UInt16 → FastPath
  | none => w
  | some j => w.setCore j { w.cores j with ring := (w.cores j).ring ++ [id] }

def setQueue (k : UInt16) : Option QmanSet → FastPath
  | none => w
  | some s =>
    match qmanSet (w.cores k).qman s with
    | none => { w with hung := true }
    | some t => w.setCore k { w.cores k with qman := t }

/-- Store what an operation of core `k` did to the flow `id`, forward the flow
and set its queue. -/
def apply (k : UInt16) (id : UInt32) (out : FlowOut) : FastPath :=
  ({ w with flows := update w.flows id out.fs }.enqueue id out.fwd).setQueue k out.qman

def poll (k : UInt16) (ts : UInt32) (num : ℕ) : FastPath :=
  match qmanPoll (w.cores k).qman ts num with
  | none => { w with hung := true }
  | some (t, fs) => w.setCore k { w.cores k with qman := t, fired := (w.cores k).fired ++ fs }

/-- `fast_flows_qman` on core `k` for the next queue that the poll returned. -/
def serve (k : UInt16) (txBuf : ℕ → UInt8) (ts : UInt32) : FastPath :=
  match (w.cores k).fired with
  | [] => w
  | x :: fired =>
    (w.setCore k { w.cores k with fired := fired }).apply k x.id
      (fastFlowsQman k w.steering x.id (w.flows x.id) txBuf ts)

/-- `rte_ring_dequeue_burst` on core `k`. -/
def dequeue (k : UInt16) (num : ℕ) : FastPath :=
  let c := w.cores k
  w.setCore k { c with ring := c.ring.drop num, taken := c.taken ++ c.ring.take num }

/-- `fast_flows_qman_fwd` on core `k` for the next flow that it dequeued. -/
def rearm (k : UInt16) : FastPath :=
  match (w.cores k).taken with
  | [] => w
  | id :: taken =>
    (w.setCore k { w.cores k with taken := taken }).apply k id (fastFlowsQmanFwd id (w.flows id))

end FastPath

/-- The steps of the fast path. `connect` and `steer` are the slow path's. -/
inductive FastOp where
  | connect (id : UInt32) (a : ConnArgs)
  | steer (group core : UInt16)
  | packet (core : UInt16) (id : UInt32) (p : Pkt) (ts : UInt32)
  | bump (core : UInt16) (id : UInt32) (b : Bump) (ts : UInt32)
  | retransmit (core : UInt16) (id : UInt32)
  | poll (core : UInt16) (ts : UInt32) (num : ℕ)
  | serve (core : UInt16) (txBuf : ℕ → UInt8) (ts : UInt32)
  | dequeue (core : UInt16) (num : ℕ)
  | rearm (core : UInt16)

namespace FastPath

def step (w : FastPath) : FastOp → FastPath
  | .connect id a =>
    { w with flows := update w.flows id (nicifConnectionAdd (w.flows id) a) }
  | .steer group core => { w with steering := update w.steering group core }
  | .packet k id p ts => w.apply k id (fastFlowsPacket id (w.flows id) p ts)
  | .bump k id b ts => w.apply k id (fastFlowsBump id (w.flows id) b ts)
  | .retransmit k id => w.apply k id (fastFlowsRetransmit id (w.flows id))
  | .poll k ts num => w.poll k ts num
  | .serve k txBuf ts => w.serve k txBuf ts
  | .dequeue k num => w.dequeue k num
  | .rearm k => w.rearm k

/-- The call of `qman_set` on core `k` does not wrap the credit of the queue `f`. -/
def NoWrap (f : UInt32) (w : FastPath) (k : UInt16) (out : FlowOut) : Prop :=
  ∀ s ∈ out.qman, s.id = f → ((w.cores k).qman.queues f).avail.toNat + s.avail.toNat < 2 ^ 32
deriving Decidable

/-- The steps and groups are on `cores`, flow ids lie in the table, and the credit of `f` does not
wrap. -/
def Ok (cores : Finset UInt16) (f : UInt32) (w : FastPath) : FastOp → Prop
  | .connect _ _ => True
  | .steer _ k => k ∈ cores
  | .packet k id p ts =>
    k ∈ cores ∧ id.toNat < numQmqueues ∧ w.NoWrap f k (fastFlowsPacket id (w.flows id) p ts)
  | .bump k id b ts =>
    k ∈ cores ∧ id.toNat < numQmqueues ∧ w.NoWrap f k (fastFlowsBump id (w.flows id) b ts)
  | .retransmit k id =>
    k ∈ cores ∧ id.toNat < numQmqueues ∧ w.NoWrap f k (fastFlowsRetransmit id (w.flows id))
  | .poll k _ _ => k ∈ cores
  | .serve k _ _ => k ∈ cores
  | .dequeue k _ => k ∈ cores
  | .rearm k => k ∈ cores

/-- No other flow whose id has the low half `f` is re-armed. -/
def Unaliased (f : UInt32) (w : FastPath) : FastOp → Prop
  | .rearm k => ∀ id ∈ (w.cores k).taken.head?, id.toUInt16.toUInt32 = f → id = f
  | _ => True

instance (cores : Finset UInt16) (f : UInt32) (w : FastPath) : DecidablePred (w.Ok cores f) :=
  fun op => by cases op <;> dsimp only [Ok] <;> infer_instance

instance (f : UInt32) (w : FastPath) : DecidablePred (w.Unaliased f)
  | .rearm _ => by dsimp only [Unaliased]; infer_instance
  | .connect .. | .steer .. | .packet .. | .bump .. | .retransmit .. | .poll .. | .serve ..
  | .dequeue .. => instDecidableTrue

end FastPath

section

variable (id : UInt32) (fs : FlowSt)
include id fs

theorem fastFlowsPacket_fwd (p : Pkt) (ts : UInt32) : (fastFlowsPacket id fs p ts).fwd = none := by
  rcases fastFlowsPacket_cases id fs p ts with ⟨slow, -, hout⟩ | ⟨-, hout⟩
  · rw [hout]
  · rw [hout]
    rfl

theorem fastFlowsBump_fwd (b : Bump) (ts : UInt32) : (fastFlowsBump id fs b ts).fwd = none := by
  rcases fastFlowsBump_cases id fs b ts with ⟨s, hout⟩ | ⟨-, -, hout⟩
  · rw [hout]
  · rw [hout]
    rfl

theorem fastFlowsRetransmit_fwd : (fastFlowsRetransmit id fs).fwd = none := by
  unfold fastFlowsRetransmit
  split
  · rfl
  · rfl

end

variable {steering : UInt16 → UInt16}

open FastPath (init step)

theorem fastFlowsQman_here {k : UInt16} {fs : FlowSt} (hsteer : steering fs.flowGroup = k)
    (id : UInt32) (txBuf : ℕ → UInt8) (ts : UInt32) :
    let out := fastFlowsQman k steering id fs txBuf ts
    out.qman = none ∧ out.fwd = none ∧
      (tcpTxavail out.fs).toNat = (tcpTxavail fs).toNat - 1448 := by
  have hsteer' : ¬steering fs.flowGroup ≠ k := fun hne => hne hsteer
  simp only [fastFlowsQman, if_neg hsteer']
  split
  · next hzero => simp [hzero]
  have hseg := segLen_toNat (tcpTxavail fs)
  have htake := tcpTxavail_txTake (segLen_le (tcpTxavail fs))
  refine ⟨rfl, rfl, ?_⟩
  simp only [qmanSend, htake, hseg]
  omega

theorem fastFlowsQman_moved {k : UInt16} {fs : FlowSt} (hsteer : steering fs.flowGroup ≠ k)
    (id : UInt32) (txBuf : ℕ → UInt8) (ts : UInt32) :
    let out := fastFlowsQman k steering id fs txBuf ts
    out.fs = fs ∧ out.fwd = some (steering fs.flowGroup) ∧
      out.qman = some { id := id, rate := 0, avail := 0, maxChunk := 0, add := false } := by
  simp only [fastFlowsQman, if_pos hsteer]
  exact ⟨trivial, trivial, trivial⟩

/-- The bytes of the queue `f` that a poll charged and that are not served yet. -/
def charged (f : UInt32) (fired : List Firing) : ℕ :=
  ((fired.filter (·.id = f)).map (·.bytes.toNat)).sum

@[simp] theorem charged_nil (f : UInt32) : charged f [] = 0 := rfl

@[simp] theorem charged_append (f : UInt32) (xs ys : List Firing) :
    charged f (xs ++ ys) = charged f xs + charged f ys := by
  simp [charged]

theorem charged_cons (f : UInt32) (x : Firing) (xs : List Firing) :
    charged f (x :: xs) = (if x.id = f then x.bytes.toNat else 0) + charged f xs := by
  by_cases h : x.id = f
  · simp [charged, h]
  · simp [charged, h]

theorem charged_eq_zero {f : UInt32} {xs : List Firing} (h : ∀ x ∈ xs, x.id ≠ f) :
    charged f xs = 0 := by
  have hnil : xs.filter (·.id = f) = [] := by
    rw [filter_eq_nil_iff]
    intro x hx
    simpa using h x hx
  rw [charged, hnil]
  rfl

/-- The credit that a core holds for the flow `f`. -/
def FastCore.credit (f : UInt32) (c : FastCore) : ℕ :=
  (c.qman.queues f).avail.toNat + charged f c.fired

/-- The queue manager works, its chunks for `f` are segments, and so is what it charged. -/
structure FastCore.Inv (f : UInt32) (c : FastCore) : Prop where
  lists : ∃ ls, QmanActive c.qman ls
  chunk : (c.qman.queues f).avail ≠ 0 → (c.qman.queues f).maxChunk = tcpMss.toUInt16
  bound : ∀ x ∈ c.fired, x.id.toNat < numQmqueues
  fired : ∀ x ∈ c.fired, x.id = f → x.bytes.toNat ≤ 1448

variable {fs : List Firing}

theorem Fired.charged {f : UInt32} {c c' : UInt32 → QueueCredit} (h : Fired c fs c') :
    (c f).avail.toNat = (c' f).avail.toNat + charged f fs := by
  induction h with
  | nil c => simp
  | @cons c c' i fs hpos hrest ih =>
    rw [charged_cons]
    by_cases hi : i = f
    · subst hi
      have hle : (c i).chunk.toNat ≤ (c i).avail.toNat := by
        unfold QueueCredit.chunk
        split
        · exact le_rfl
        · next hgt =>
          rw [UInt32.le_iff_toNat_le] at hgt
          omega
      have hsub := Word.sub_toNat hle
      simp only [chargeQueue, update_self, hsub] at ih
      simp only [if_true]
      omega
    have hsame : chargeQueue c i f = c f := update_of_ne (Ne.symm hi) _ _
    rw [hsame] at ih
    simp only [if_neg hi]
    omega

theorem Fired.segments {f : UInt32} {c c' : UInt32 → QueueCredit} (h : Fired c fs c')
    (hchunk : (c f).avail ≠ 0 → (c f).maxChunk = tcpMss.toUInt16) :
    (∀ x ∈ fs, x.id = f → x.bytes.toNat ≤ 1448) ∧
      ((c' f).avail ≠ 0 → (c' f).maxChunk = tcpMss.toUInt16) := by
  induction h with
  | nil c => exact ⟨by simp, hchunk⟩
  | @cons c c' i fs hpos hrest ih =>
    by_cases hi : i = f
    · subst hi
      have hmax : (c i).maxChunk.toUInt32.toNat = 1448 := by
        rw [hchunk hpos]
        decide
      have hchunk' : (c i).chunk.toNat ≤ 1448 := by
        unfold QueueCredit.chunk
        split
        · next hle => rwa [UInt32.le_iff_toNat_le, hmax] at hle
        · exact hmax.le
      obtain ⟨hrest', hlast⟩ := ih (by
        intro _
        simp only [chargeQueue, update_self]
        exact hchunk hpos)
      refine ⟨?_, hlast⟩
      intro x hx hid
      rcases mem_cons.mp hx with rfl | hx
      · exact hchunk'
      · exact hrest' x hx hid
    have hsame : chargeQueue c i f = c f := update_of_ne (Ne.symm hi) _ _
    obtain ⟨hrest', hlast⟩ := ih (by rwa [hsame])
    refine ⟨?_, hlast⟩
    intro x hx hid
    rcases mem_cons.mp hx with rfl | hx
    · exact absurd hid hi
    · exact hrest' x hx hid

theorem Fired.bound {c c' : UInt32 → QueueCredit} (h : Fired c fs c')
    (hbound : ∀ i, (c i).avail ≠ 0 → i.toNat < numQmqueues) :
    ∀ x ∈ fs, x.id.toNat < numQmqueues := by
  induction h with
  | nil c => simp
  | @cons c c' i fs hpos hrest ih =>
    intro x hx
    rcases mem_cons.mp hx with rfl | hx
    · exact hbound i hpos
    refine ih ?_ x hx
    intro j hj
    by_cases hji : j = i
    · exact hji ▸ hbound i hpos
    · rw [chargeQueue, update_of_ne hji] at hj
      exact hbound j hj

section Core

variable {f : UInt32} {c : FastCore}

theorem FastCore.Inv.poll (h : c.Inv f) (ts : UInt32) (num : ℕ) :
    ∃ t fs, qmanPoll c.qman ts num = some (t, fs) ∧
      FastCore.Inv f { c with qman := t, fired := c.fired ++ fs } ∧
      credit f { c with qman := t, fired := c.fired ++ fs } = c.credit f := by
  obtain ⟨ls, hlists⟩ := h.lists
  obtain ⟨t, fs, ls', hpoll, hlists', -, hfired⟩ := hlists.qmanPoll ts num
  have hcharged : (c.qman.queues f).avail.toNat = (t.queues f).avail.toNat + charged f fs :=
    hfired.charged
  obtain ⟨hseg, hchunk⟩ := hfired.segments h.chunk
  have hbound := hfired.bound fun i hi => hlists.listed.bound (hlists.active i hi)
  refine ⟨t, fs, hpoll, ⟨⟨ls', hlists'⟩, hchunk, ?_, ?_⟩, ?_⟩
  · intro x hx
    rcases mem_append.mp hx with hx | hx
    · exact h.bound x hx
    · exact hbound x hx
  · intro x hx
    rcases mem_append.mp hx with hx | hx
    · exact h.fired x hx
    · exact hseg x hx
  · simp only [credit, charged_append]
    omega

/-- The credit of the queue `f` after a `qman_set`. -/
def availAfter (f : UInt32) (avail : UInt32) (s : QmanSet) : UInt32 :=
  if s.id = f then (if s.add then avail + s.avail else s.avail) else avail

theorem FastCore.Inv.qmanSet (h : c.Inv f) {s : QmanSet} (hbound : s.id.toNat < numQmqueues)
    (hchunk : s.id = f → s.maxChunk = tcpMss.toUInt16 ∨ (s.add = false ∧ s.avail = 0)) :
    ∃ t, qmanSet c.qman s = some t ∧ FastCore.Inv f { c with qman := t } ∧
      (t.queues f).avail = availAfter f (c.qman.queues f).avail s := by
  obtain ⟨ls, hlists⟩ := h.lists
  obtain ⟨t, ls', hset, hlists', hcredits⟩ := hlists.qmanSet (qmanIdOk_of_lt hbound)
  have hcredit : (t.queues f).credit = setCredit c.qman.credits s f := congrFun hcredits f
  refine ⟨t, hset, ⟨⟨ls', hlists'⟩, ?_, h.bound, h.fired⟩, ?_⟩
  · by_cases hid : s.id = f
    · intro hne
      subst hid
      have hmax : (t.queues s.id).maxChunk = s.maxChunk := by
        rw [show (t.queues s.id).maxChunk = (t.queues s.id).credit.maxChunk from rfl, hcredit]
        simp [setCredit]
      have havail : (t.queues s.id).avail = (setCredit c.qman.credits s s.id).avail :=
        congrArg QueueCredit.avail hcredit
      rcases hchunk rfl with hmss | ⟨hadd, hzero⟩
      · exact hmax.trans hmss
      refine absurd ?_ hne
      rw [havail]
      simp [setCredit, hadd, hzero]
    · have hsame : (t.queues f).credit = (c.qman.queues f).credit := by
        rw [hcredit, setCredit, update_of_ne (Ne.symm hid)]
        rfl
      intro hne
      have havail : (t.queues f).avail = (c.qman.queues f).avail := congrArg QueueCredit.avail hsame
      exact (congrArg QueueCredit.maxChunk hsame).trans (h.chunk (havail ▸ hne))
  · have havail : (t.queues f).avail = (setCredit c.qman.credits s f).avail :=
      congrArg QueueCredit.avail hcredit
    rw [havail, availAfter, setCredit]
    by_cases hid : s.id = f
    · subst hid
      simp only [update_self, if_true]
      rfl
    · rw [update_of_ne (Ne.symm hid), if_neg hid]
      rfl

theorem FastCore.Inv.frame {c' : FastCore} (h : c.Inv f) (hqman : c'.qman = c.qman)
    (hfired : ∀ x ∈ c'.fired, x ∈ c.fired) : c'.Inv f :=
  ⟨hqman ▸ h.lists, hqman ▸ h.chunk, fun x hx => h.bound x (hfired x hx),
    fun x hx => h.fired x (hfired x hx)⟩

end Core

namespace FastPath

def credit (cores : Finset UInt16) (f : UInt32) (w : FastPath) : ℕ :=
  Total.total cores (FastCore.credit f) w.cores

/-- The flow `f` waits in a forwarding ring, or was taken out of it to be re-armed. -/
def Waiting (cores : Finset UInt16) (f : UInt32) (w : FastPath) : Prop :=
  ∃ k ∈ cores, f ∈ (w.cores k).ring ∨ f ∈ (w.cores k).taken

/-- Every core works, and the credit covers the flow `f` unless it waits. -/
structure Inv (cores : Finset UInt16) (f : UInt32) (w : FastPath) : Prop where
  core : ∀ k, (w.cores k).Inv f
  steered : ∀ g, w.steering g ∈ cores
  covered : w.Waiting cores f ∨ (tcpTxavail (w.flows f)).toNat ≤ w.credit cores f
  running : w.hung = false

section Step

variable {cores : Finset UInt16} {f : UInt32} {w : FastPath} {k : UInt16}

@[simp] theorem setCore_self (w : FastPath) (k : UInt16) (c : FastCore) :
    (w.setCore k c).cores k = c := update_self _ _ _

theorem setCore_of_ne {j : UInt16} (hj : j ≠ k) (c : FastCore) :
    (w.setCore k c).cores j = w.cores j := update_of_ne hj _ _

theorem credit_setCore (hk : k ∈ cores) (c : FastCore) :
    (w.setCore k c).credit cores f + (w.cores k).credit f = w.credit cores f + c.credit f :=
  Total.total_update hk (FastCore.credit f) w.cores c

theorem core_setCore (h : ∀ j, (w.cores j).Inv f) {c : FastCore} (hc : c.Inv f) (j : UInt16) :
    ((w.setCore k c).cores j).Inv f := by
  by_cases hj : j = k
  · subst hj
    rw [setCore_self]
    exact hc
  · rw [setCore_of_ne hj]
    exact h j

theorem Waiting.setCore (h : w.Waiting cores f) {c : FastCore}
    (hring : f ∈ (w.cores k).ring ∨ f ∈ (w.cores k).taken → f ∈ c.ring ∨ f ∈ c.taken) :
    (w.setCore k c).Waiting cores f := by
  obtain ⟨j, hj, hmem⟩ := h
  refine ⟨j, hj, ?_⟩
  by_cases hjk : j = k
  · subst hjk
    rw [setCore_self]
    exact hring hmem
  · rw [setCore_of_ne hjk]
    exact hmem

theorem Waiting.setQueue (h : w.Waiting cores f) (s : Option QmanSet) :
    (w.setQueue k s).Waiting cores f := by
  unfold FastPath.setQueue
  split
  · exact h
  · split
    · exact h
    · exact h.setCore fun hmem => hmem

theorem setQueue_spec (hcore : ∀ j, (w.cores j).Inv f) (hk : k ∈ cores) {s : QmanSet}
    (hbound : s.id.toNat < numQmqueues)
    (hchunk : s.id = f → s.maxChunk = tcpMss.toUInt16 ∨ (s.add = false ∧ s.avail = 0)) :
    let w' := w.setQueue k (some s)
    (∀ j, (w'.cores j).Inv f) ∧ w'.hung = w.hung ∧ w'.flows = w.flows ∧
      w'.steering = w.steering ∧
      w'.credit cores f + ((w.cores k).qman.queues f).avail.toNat =
        w.credit cores f + (availAfter f ((w.cores k).qman.queues f).avail s).toNat := by
  obtain ⟨t, hset, hinv, havail⟩ := (hcore k).qmanSet hbound hchunk
  simp only [setQueue, hset]
  refine ⟨core_setCore hcore hinv, rfl, rfl, rfl, ?_⟩
  have hsum := credit_setCore (w := w) (f := f) hk { w.cores k with qman := t }
  simp only [FastCore.credit, havail] at hsum
  omega

theorem Inv.apply_rise (h : w.Inv cores f) (hk : k ∈ cores) {id qid : UInt32} {out : FlowOut}
    (hfwd : out.fwd = none) (hrise : AddsRise qid (w.flows id) out)
    (hbound : qid.toNat < numQmqueues) (hid : id = f → qid = f) (hwrap : w.NoWrap f k out) :
    (w.apply k id out).Inv cores f := by
  obtain ⟨fs', hqman⟩ := hrise
  set w₁ : FastPath := { w with flows := update w.flows id out.fs } with hw₁
  have happly : w.apply k id out = w₁.setQueue k out.qman := by
    rw [apply, hfwd]
    rfl
  have hflow : id ≠ f → w₁.flows f = w.flows f := fun hne =>
    update_of_ne (Ne.symm hne) _ _
  have hself : id = f → tcpTxavail (w₁.flows f) = tcpTxavail out.fs := by
    rintro rfl
    simp [hw₁]
  rw [happly]
  unfold qmanCredit at hqman
  split at hqman
  · next hgt =>
    set s : QmanSet := ⟨qid, fs'.txRate, tcpTxavail out.fs - tcpTxavail (w.flows id),
      tcpMss.toUInt16, true⟩
    obtain ⟨hcore, hrun, hflows, hsteer, hsum⟩ :=
      setQueue_spec (w := w₁) (s := s) h.core hk hbound fun _ => Or.inl rfl
    rw [hqman]
    refine ⟨hcore, fun g => hsteer ▸ h.steered g, ?_, hrun.trans h.running⟩
    rcases h.covered with hwait | hcov
    · exact Or.inl (Waiting.setQueue (w := w₁) hwait _)
    right
    have hdiff : s.avail.toNat = (tcpTxavail out.fs).toNat - (tcpTxavail (w.flows id)).toNat :=
      Word.sub_toNat (UInt32.le_iff_toNat_le.mp (UInt32.le_of_lt hgt))
    have hcred : w₁.credit cores f = w.credit cores f := rfl
    have hkeep : (w₁.cores k).qman = (w.cores k).qman := rfl
    rw [hflows]
    rw [hcred, hkeep, availAfter] at hsum
    by_cases hq : qid = f
    · have hnowrap := hwrap s hqman hq
      rw [if_pos (show s.id = f from hq), if_pos rfl, Word.add_toNat hnowrap] at hsum
      by_cases hidf : id = f
      · rw [hself hidf]
        subst hidf
        omega
      · rw [hflow hidf]
        omega
    · rw [if_neg (show s.id ≠ f from hq)] at hsum
      rw [hflow fun hcon => hq (hid hcon)]
      omega
  · next hle =>
    rw [hqman]
    refine ⟨h.core, h.steered, ?_, h.running⟩
    rcases h.covered with hwait | hcov
    · exact Or.inl hwait
    right
    change (tcpTxavail (w₁.flows f)).toNat ≤ w.credit cores f
    by_cases hidf : id = f
    · rw [hself hidf]
      subst hidf
      rw [gt_iff_lt, UInt32.lt_iff_toNat_lt] at hle
      omega
    · rw [hflow hidf]
      exact hcov

theorem Inv.poll (h : w.Inv cores f) (hk : k ∈ cores) (ts : UInt32) (num : ℕ) :
    (w.poll k ts num).Inv cores f := by
  obtain ⟨t, fs, hpoll, hinv, hcredit⟩ := (h.core k).poll ts num
  simp only [FastPath.poll, hpoll]
  refine ⟨core_setCore h.core hinv, h.steered, ?_, h.running⟩
  rcases h.covered with hwait | hcov
  · exact Or.inl (hwait.setCore fun hmem => hmem)
  right
  set c : FastCore := { w.cores k with qman := t, fired := (w.cores k).fired ++ fs }
  have hsum := credit_setCore (w := w) (f := f) hk c
  change (tcpTxavail (w.flows f)).toNat ≤ (w.setCore k c).credit cores f
  omega

theorem Inv.dequeue (h : w.Inv cores f) (num : ℕ) : (w.dequeue k num).Inv cores f := by
  have hcredit : (w.dequeue k num).credit cores f = w.credit cores f :=
    Total.total_update_same cores k rfl
  have hcore : FastCore.Inv f { w.cores k with
      ring := (w.cores k).ring.drop num
      taken := (w.cores k).taken ++ (w.cores k).ring.take num } :=
    ⟨(h.core k).lists, (h.core k).chunk, (h.core k).bound, (h.core k).fired⟩
  refine ⟨core_setCore h.core hcore, h.steered, ?_, h.running⟩
  rcases h.covered with hwait | hcov
  · refine Or.inl (hwait.setCore ?_)
    rintro (hmem | hmem)
    · rw [← take_append_drop num (w.cores k).ring, mem_append] at hmem
      rcases hmem with hmem | hmem
      · exact Or.inr (mem_append_right _ hmem)
      · exact Or.inl hmem
    · exact Or.inr (mem_append_left _ hmem)
  · right
    rw [hcredit]
    exact hcov

theorem credit_enqueue (id : UInt32) (j : Option UInt16) :
    (w.enqueue id j).credit cores f = w.credit cores f := by
  cases j with
  | none => rfl
  | some j => exact Total.total_update_same cores j rfl

theorem core_enqueue (h : ∀ j, (w.cores j).Inv f) (id : UInt32) (j : Option UInt16) (i : UInt16) :
    ((w.enqueue id j).cores i).Inv f := by
  cases j with
  | none => exact h i
  | some j =>
    have hc : FastCore.Inv f { w.cores j with ring := (w.cores j).ring ++ [id] } :=
      (h j).frame rfl fun _ hx => hx
    exact core_setCore h hc i

theorem Waiting.enqueue (h : w.Waiting cores f) (id : UInt32) (j : Option UInt16) :
    (w.enqueue id j).Waiting cores f := by
  cases j with
  | none => exact h
  | some j => exact h.setCore fun hmem => hmem.imp_left (mem_append_left _)

theorem waiting_enqueue {j : UInt16} (hj : j ∈ cores) : (w.enqueue f (some j)).Waiting cores f := by
  refine ⟨j, hj, Or.inl ?_⟩
  rw [FastPath.enqueue, setCore_self]
  exact mem_append_right _ mem_cons_self

/-- Handing a flow on: it waits afterwards, and the queues of other flows keep
their credit. -/
theorem inv_handOn (hcore : ∀ j, (w.cores j).Inv f) (hsteer : ∀ g, w.steering g ∈ cores)
    (hrun : w.hung = false) (hk : k ∈ cores) {id : UInt32} (hbound : id.toNat < numQmqueues)
    (hcov : id ≠ f → w.Waiting cores f ∨ (tcpTxavail (w.flows f)).toNat ≤ w.credit cores f)
    {j : UInt16} (hj : j ∈ cores) {out : FlowOut} (hfs : out.fs = w.flows id)
    (hfwd : out.fwd = some j) (hqman : out.qman = some ⟨id, 0, 0, 0, false⟩) :
    (w.apply k id out).Inv cores f := by
  have hstore : { w with flows := update w.flows id out.fs } = w := by
    rw [hfs, update_eq_self]
  have happly : w.apply k id out =
      (w.enqueue id (some j)).setQueue k (some ⟨id, 0, 0, 0, false⟩) := by
    rw [FastPath.apply, hstore, hfwd, hqman]
  obtain ⟨hcore', hrun', hflows, hsteer', hset⟩ :=
    setQueue_spec (w := w.enqueue id (some j)) (s := ⟨id, 0, 0, 0, false⟩)
      (core_enqueue hcore id (some j)) hk hbound fun _ => Or.inr ⟨rfl, rfl⟩
  rw [happly]
  refine ⟨hcore', fun g => hsteer' ▸ hsteer g, ?_, hrun'.trans hrun⟩
  by_cases hid : id = f
  · subst hid
    exact Or.inl ((waiting_enqueue hj).setQueue _)
  rw [credit_enqueue, availAfter, if_neg hid] at hset
  refine (hcov hid).imp (fun hwait => (hwait.enqueue _ _).setQueue _) fun hle => ?_
  rw [hflows]
  change (tcpTxavail (w.flows f)).toNat ≤ _
  omega

variable (h : w.Inv cores f)
include h

theorem Inv.serve (hk : k ∈ cores) (txBuf : ℕ → UInt8) (ts : UInt32) :
    (w.serve k txBuf ts).Inv cores f := by
  unfold FastPath.serve
  split
  · exact h
  next x fired hfired =>
  have hmem : x ∈ (w.cores k).fired := hfired ▸ mem_cons_self
  set c : FastCore := { w.cores k with fired := fired } with hc
  have hcore : ∀ j, ((w.setCore k c).cores j).Inv f := by
    refine core_setCore h.core ((h.core k).frame rfl fun y hy => ?_)
    rw [hfired]
    exact mem_cons_of_mem _ hy
  have hcredit : (w.cores k).credit f = (if x.id = f then x.bytes.toNat else 0) + c.credit f := by
    simp only [FastCore.credit, hc, hfired, charged_cons]
    omega
  have hsum := credit_setCore (w := w) (f := f) hk c
  have hcov : (w.setCore k c).Waiting cores f ∨ (tcpTxavail (w.flows f)).toNat ≤
      (w.setCore k c).credit cores f + (if x.id = f then x.bytes.toNat else 0) :=
    h.covered.imp (fun hwait => hwait.setCore fun hm => hm) fun hcov => by omega
  by_cases hsteer : w.steering (w.flows x.id).flowGroup = k
  · obtain ⟨hqman, hfwd, havail⟩ := fastFlowsQman_here hsteer x.id txBuf ts
    simp only [FastPath.apply, hqman, hfwd]
    refine ⟨hcore, h.steered, hcov.imp (fun hwait => hwait) fun hcov => ?_, h.running⟩
    change (tcpTxavail (update w.flows x.id _ f)).toNat ≤ (w.setCore k c).credit cores f
    by_cases hid : x.id = f
    · have hbytes := (h.core k).fired x hmem hid
      rw [if_pos hid] at hcov
      rw [← hid, update_self, havail, hid]
      omega
    · rw [if_neg hid] at hcov
      rw [update_of_ne (Ne.symm hid)]
      exact hcov
  obtain ⟨hfs, hfwd, hqman⟩ := fastFlowsQman_moved hsteer x.id txBuf ts
  refine inv_handOn hcore h.steered h.running hk ((h.core k).bound x hmem) ?_
    (h.steered (w.flows x.id).flowGroup) hfs hfwd hqman
  intro hid
  rwa [if_neg hid] at hcov

theorem Inv.rearm (hk : k ∈ cores) (hf : f.toNat < 2 ^ 16)
    (halias : w.Unaliased f (.rearm k)) : (w.rearm k).Inv cores f := by
  unfold FastPath.rearm
  split
  · exact h
  next id taken htaken =>
  have halias' : id.toUInt16.toUInt32 = f → id = f := halias id (by rw [htaken]; rfl)
  have hqueue := packetQueue_toNat id
  set c : FastCore := { w.cores k with taken := taken }
  have hcore : ∀ j, ((w.setCore k c).cores j).Inv f :=
    core_setCore h.core ((h.core k).frame rfl fun _ hy => hy)
  have hsum := credit_setCore (w := w) (f := f) hk c
  have hcredit : c.credit f = (w.cores k).credit f := rfl
  have hstore : { w.setCore k c with flows := update w.flows id (w.flows id) } =
      w.setCore k c := by
    rw [update_eq_self]
    rfl
  set s : QmanSet := ⟨id.toUInt16.toUInt32, (w.flows id).txRate, tcpTxavail (w.flows id),
    tcpMss.toUInt16, false⟩ with hs
  have happly : (w.setCore k c).apply k id (fastFlowsQmanFwd id (w.flows id)) =
      (w.setCore k c).setQueue k (some s) := by
    change FastPath.setQueue { w.setCore k c with flows := update w.flows id (w.flows id) }
      k (some s) = _
    rw [hstore]
  obtain ⟨hcore', hrun, hflows, hsteer, hset⟩ :=
    setQueue_spec (w := w.setCore k c) (f := f) (k := k) (s := s) hcore hk
      (by simp only [numQmqueues, hs]; omega) fun _ => Or.inl rfl
  rw [happly]
  refine ⟨hcore', fun g => hsteer ▸ h.steered g, ?_, hrun.trans h.running⟩
  rw [hflows]
  change _ ∨ (tcpTxavail (w.flows f)).toNat ≤ _
  by_cases hid : id.toUInt16.toUInt32 = f
  · right
    have hsingle : ((w.setCore k c).cores k).credit f ≤ (w.setCore k c).credit cores f :=
      Total.le_total hk (FastCore.credit f) _
    have hpart : (((w.setCore k c).cores k).qman.queues f).avail.toNat ≤
        ((w.setCore k c).cores k).credit f := Nat.le_add_right _ _
    rw [availAfter, if_pos (show s.id = f from hid)] at hset
    have havail : s.avail = tcpTxavail (w.flows f) := by
      rw [hs, halias' hid]
    rw [if_neg (show ¬s.add = true from Bool.false_ne_true), havail] at hset
    omega
  have hne : f ≠ id := by
    rintro rfl
    apply hid
    rw [← UInt32.toNat_inj]
    omega
  rw [availAfter, if_neg (show s.id ≠ f from hid)] at hset
  refine h.covered.imp ?_ fun hcov => by omega
  intro hwait
  apply Waiting.setQueue
  refine hwait.setCore (Or.imp_right fun hmem => ?_)
  rw [htaken] at hmem
  exact (mem_cons.mp hmem).resolve_left hne

theorem Inv.step (hf : f.toNat < 2 ^ 16) {op : FastOp}
    (hok : w.Ok cores f op) (halias : w.Unaliased f op) : (w.step op).Inv cores f := by
  cases op with
  | connect id a =>
    refine ⟨h.core, h.steered, h.covered.imp (fun hwait => hwait) fun hcov => ?_, h.running⟩
    simp only [FastPath.step]
    by_cases hid : f = id
    · subst hid
      rw [update_self]
      have hzero : (tcpTxavail (nicifConnectionAdd (w.flows f) a)).toNat ≤ 0 := tcpTxavailOf_le _ 0
      omega
    · rw [update_of_ne hid]
      exact hcov
  | steer group core =>
    refine ⟨h.core, ?_, h.covered, h.running⟩
    intro g
    simp only [FastPath.step]
    by_cases hg : g = group
    · subst hg
      rw [update_self]
      exact hok
    · rw [update_of_ne hg]
      exact h.steered g
  | packet k id p ts =>
    obtain ⟨hk, hid, hwrap⟩ := hok
    have hqueue := packetQueue_toNat id
    refine h.apply_rise hk (fastFlowsPacket_fwd id (w.flows id) p ts)
      (fastFlowsPacket_addsRise id (w.flows id) p ts) ?_ ?_ hwrap
    · omega
    · rintro rfl
      rw [← UInt32.toNat_inj]
      omega
  | bump k id b ts =>
    obtain ⟨hk, hid, hwrap⟩ := hok
    exact h.apply_rise hk (fastFlowsBump_fwd id (w.flows id) b ts)
      (fastFlowsBump_addsRise id (w.flows id) b ts) hid (fun hid => hid) hwrap
  | retransmit k id =>
    obtain ⟨hk, hid, hwrap⟩ := hok
    exact h.apply_rise hk (fastFlowsRetransmit_fwd id (w.flows id))
      (fastFlowsRetransmit_addsRise id (w.flows id)) hid (fun hid => hid) hwrap
  | poll k ts num => exact h.poll hok ts num
  | serve k txBuf ts => exact h.serve hok txBuf ts
  | dequeue k num => exact h.dequeue num
  | rearm k => exact h.rearm hok hf halias

end Step

/-- The credit and charges of all cores cover what the flow may send, or it waits to be re-armed. -/
structure Awake (cores : Finset UInt16) (f : UInt32) (w : FastPath) : Prop where
  covered : w.Waiting cores f ∨ (tcpTxavail (w.flows f)).toNat ≤ w.credit cores f
  settled : (∀ k ∈ cores, f ∉ (w.cores k).taken ∧ ∀ x ∈ (w.cores k).fired, x.id ≠ f) →
    (∃ k ∈ cores, f ∈ (w.cores k).ring) ∨
      (tcpTxavail (w.flows f)).toNat ≤ ∑ k ∈ cores, ((w.cores k).qman.queues f).avail.toNat
  running : w.hung = false

theorem Inv.awake {cores : Finset UInt16} {f : UInt32} {w : FastPath} (h : w.Inv cores f) :
    w.Awake cores f := by
  refine ⟨h.covered, ?_, h.running⟩
  intro hidle
  refine h.covered.imp ?_ ?_
  · rintro ⟨k, hk, hmem⟩
    exact ⟨k, hk, hmem.resolve_right (hidle k hk).1⟩
  · intro hcov
    refine hcov.trans (le_of_eq (Finset.sum_congr rfl fun k hk => ?_))
    rw [FastCore.credit, charged_eq_zero (hidle k hk).2, Nat.add_zero]

theorem inv_init (rng : UInt16 → ℕ → UInt32) (ts : UInt32) {flows : UInt32 → FlowSt}
    {cores : Finset UInt16} {f : UInt32} (hsteer : ∀ g, steering g ∈ cores)
    (hflow : (flows f).txAvail = 0) :
    (init rng ts steering flows).Inv cores f := by
  refine ⟨?_, hsteer, Or.inr ?_, rfl⟩
  · intro k
    exact ⟨⟨[], qmanThreadInit_active (rng k) ts⟩, fun hne => absurd rfl hne,
      by simp [init], by simp [init]⟩
  · have hle : (tcpTxavail (flows f)).toNat ≤ (flows f).txAvail.toNat := tcpTxavailOf_le _ _
    rw [hflow] at hle
    exact hle.trans (Nat.zero_le _)

end FastPath

/-- No interleaving loses the wakeup of a flow with a 16-bit id, if no flow with the same low half
is re-armed in its place. -/
theorem migration_keeps_wakeups (cores : Finset UInt16) (f : UInt32) (hf : f.toNat < 2 ^ 16)
    (rng : UInt16 → ℕ → UInt32) (ts : UInt32) (steering : UInt16 → UInt16)
    (hsteer : ∀ g, steering g ∈ cores) (flows : UInt32 → FlowSt) (hflow : (flows f).txAvail = 0)
    (ops : List FastOp)
    (hrun : Run.Admissible step (fun w op => w.Ok cores f op ∧ w.Unaliased f op)
      (init rng ts steering flows) ops) :
    (ops.foldl step (init rng ts steering flows)).Awake cores f := by
  have hinv := hrun.invariant (FastPath.inv_init rng ts hsteer hflow) fun _ _ h hok =>
    h.step hf hok.1 hok.2
  exact hinv.awake

def idleFastPath : FastPath := init (fun _ _ => 0) 0 (fun _ => 0) fun _ => default

def handOver (id : UInt32) : List FastOp :=
  [.connect id { fourByteConn 0 with flowGroup := 1 }, .steer 1 1, .bump 1 id ⟨0, 0, 1, false⟩ 0,
    .steer 1 0, .poll 1 0 8, .serve 1 (fun _ => 0) 0]

theorem migration_keeps_wakeups_handOver :
    (((handOver 5).foldl step idleFastPath).Awake {0, 1} 5) ∧
      (((handOver 5).foldl step idleFastPath).cores 0).ring = [5] := by
  refine ⟨?_, by decide +kernel⟩
  exact migration_keeps_wakeups {0, 1} 5 (by decide) (fun _ _ => 0) 0 (fun _ => 0) (by simp)
    (fun _ => default) rfl (handOver 5) (by decide +kernel)

def aliasedHandOver : List FastOp :=
  [.connect 0 (fourByteConn 0), .bump 0 0 ⟨0, 0, 3, false⟩ 0] ++ handOver 65536 ++
    [.dequeue 0 64, .rearm 0]

/-- Re-arming the flow 65536 takes credit away from the flow 0. -/
theorem aliased_flow_loses_credit :
    let w := aliasedHandOver.foldl step idleFastPath
    Run.Admissible step (fun w op => w.Ok {0, 1} 0 op) idleFastPath aliasedHandOver ∧
      tcpTxavail (w.flows 0) = 3 ∧
      ((w.cores 0).qman.queues 0).avail = 1 ∧ ((w.cores 1).qman.queues 0).avail = 0 ∧
      ∀ k ∈ ({0, 1} : Finset UInt16),
        (w.cores k).ring = [] ∧ (w.cores k).taken = [] ∧ (w.cores k).fired = [] := by
  refine ⟨by decide +kernel, by decide +kernel, by decide +kernel, by decide +kernel,
    fun k hk => ?_⟩
  rcases Finset.mem_insert.mp hk with rfl | hk
  · decide +kernel
  · obtain rfl := Finset.mem_singleton.mp hk
    decide +kernel

end StackBench.Tas

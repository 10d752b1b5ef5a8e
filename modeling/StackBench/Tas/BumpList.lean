import StackBench.Lib.Linked
import StackBench.Lib.Run
import StackBench.Tas.Libtas

/-!
# The pending-bump list of a libtas context

A connection with bytes to report is linked into the list from
`bump_pending_first` on, and `conns_bump` posts an update for each. Closing a
connection unlinks it in code of its own.
-/

namespace StackBench.Tas

open Function List

/-- The connections `1, …, size`, the pending list, the room of the queues, and the updates posted.
-/
structure Context where
  size : ℕ
  conns : ℕ → Conn
  bumpPendingFirst : ℕ
  bumpPendingLast : ℕ
  txqAvail : UInt16 → UInt32
  posted : List (UInt16 × ℕ × Bump)
  stuck : Bool

/-- A connection without its place in the list. -/
def Conn.data (c : Conn) : Conn := { c with bumpNext := 0, bumpPrev := 0, bumpPending := false }

namespace Context

variable (ctx : Context)

/-- The links of the pending list. -/
def next : ℕ → ℕ := fun a => (ctx.conns a).bumpNext

def setConn (a : ℕ) (c : Conn) : Context :=
  { ctx with conns := update ctx.conns a c }

def setNext (a n : ℕ) : Context := ctx.setConn a { ctx.conns a with bumpNext := n }

def markBump (a : ℕ) : Context :=
  if (ctx.conns a).bumpPending then ctx
  else
    let prev := ctx.bumpPendingLast
    let ctx := ctx.setConn a { ctx.conns a with bumpNext := 0, bumpPrev := prev }
    let ctx := if prev ≠ 0 then ctx.setNext prev a else { ctx with bumpPendingFirst := a }
    let ctx := { ctx with bumpPendingLast := a }
    ctx.setConn a { ctx.conns a with bumpPending := true }

/-- Store a connection, and call `conn_mark_bump` if `mark` is set. -/
def store (a : ℕ) (c : Conn) (mark : Bool) : Context :=
  if mark then (ctx.setConn a c).markBump a else ctx.setConn a c

/-- `flextcp_connection_close` up to the check for queue space: take the
connection off the pending list. -/
def unlink (a : ℕ) : Context :=
  let c := ctx.conns a
  if c.bumpPending then
    let ctx' :=
      if a = ctx.bumpPendingFirst then { ctx with bumpPendingFirst := c.bumpNext }
      else
        match Linked.seek (fun x => decide (ctx.next x ≠ a)) ctx.next 0 (ctx.size + 1)
            ctx.bumpPendingFirst with
        | none | some 0 => { ctx with stuck := true }
        | some p =>
          let ctx := ctx.setNext p c.bumpNext
          if c.bumpNext = 0 then { ctx with bumpPendingLast := p } else ctx
    ctx'.setConn a { ctx'.conns a with bumpPending := false }
  else ctx

/-- `flextcp_connection_close`; `space` tells whether the queue to the kernel
has a free entry. -/
def close (a : ℕ) (space : Bool) : Context :=
  let ctx := ctx.unlink a
  if space then ctx.setConn a { ctx.conns a with status := .closeRequested } else ctx

/-- `conns_bump`, at most `fuel` rounds of its loop. -/
def connsBump : ℕ → Context → Context
  | 0, ctx => { ctx with stuck := true }
  | fuel + 1, ctx =>
    let a := ctx.bumpPendingFirst
    let c := ctx.conns a
    if a = 0 then ctx
    else if c.status ≠ .opened then { ctx with stuck := true }
    else if ctx.txqAvail c.fnCore = 0 then ctx
    else
      connsBump fuel
        { ctx.setConn a c.postBump.2 with
          txqAvail := update ctx.txqAvail c.fnCore (ctx.txqAvail c.fnCore - 16)
          posted := ctx.posted ++ [(c.fnCore, a, c.postBump.1)]
          bumpPendingLast := if c.bumpNext = 0 then 0 else ctx.bumpPendingLast
          bumpPendingFirst := c.bumpNext }

end Context

/-- Calls of the application, and the fast path freeing entries, which `txq_probe` finds. -/
inductive CtxOp where
  | txAlloc2 (a len : ℕ)
  | txSend (a len : ℕ)
  | txClose (a : ℕ)
  | rxDone (a len : ℕ)
  | connupdate (a : ℕ) (inev : Arx) (outn : ℕ) (core : UInt16)
  | close (a : ℕ) (space : Bool)
  | connsBump
  | probe (core : UInt16) (avail : UInt32)

namespace Context

variable (ctx : Context)

def step : CtxOp → Context
  | .txAlloc2 a len =>
    match (ctx.conns a).txAlloc2 len with
    | none => ctx
    | some (c, _) => ctx.store a c false
  | .txSend a len =>
    match (ctx.conns a).txSend len with
    | none => ctx
    | some c => ctx.store a c true
  | .txClose a =>
    match (ctx.conns a).txClose with
    | none => ctx
    | some (c, mark) => ctx.store a c mark
  | .rxDone a len =>
    match (ctx.conns a).rxDone len with
    | none => ctx
    | some (c, mark) => ctx.store a c mark
  | .connupdate a inev outn core =>
    let out := (ctx.conns a).arxConnupdate inev outn core
    ctx.store a out.conn out.mark
  | .close a space => ctx.close a space
  | .connsBump => connsBump (ctx.size + 1) ctx
  | .probe core avail => { ctx with txqAvail := update ctx.txqAvail core avail }

/-- Calls name open connections of the application. -/
def Uses (a : ℕ) : Prop := 0 < a ∧ a ≤ ctx.size ∧ (ctx.conns a).status = .opened
deriving Decidable

/-- The application calls with its open connections. -/
def Ok : CtxOp → Prop
  | .txAlloc2 a _ => ctx.Uses a
  | .txSend a _ => ctx.Uses a
  | .txClose a => ctx.Uses a
  | .rxDone a _ => ctx.Uses a
  | .connupdate a _ _ _ => ctx.Uses a
  | .close a _ => ctx.Uses a
  | .connsBump => True
  | .probe _ _ => True

/-- A pending connection that is closed is not the only one, and its close does not fail. -/
def SafeClose : CtxOp → Prop
  | .close a space => (ctx.conns a).bumpPending = true →
      space = true ∧ ¬(a = ctx.bumpPendingFirst ∧ (ctx.conns a).bumpNext = 0)
  | _ => True

instance (ctx : Context) : DecidablePred ctx.Ok := fun op => by
  cases op <;> dsimp only [Ok] <;> infer_instance

instance (ctx : Context) : DecidablePred ctx.SafeClose := fun op => by
  cases op <;> dsimp only [SafeClose] <;> infer_instance

/-- The pending list runs through `l`. -/
structure Pending (ctx : Context) (l : List ℕ) : Prop where
  chain : Linked.Chain ctx.next 0 ctx.bumpPendingFirst l
  nodup : l.Nodup
  last : ctx.bumpPendingLast = l.getLastD 0
  mem_iff : ∀ a, (ctx.conns a).bumpPending = true ↔ a ∈ l
  opened : ∀ a ∈ l, (ctx.conns a).status = .opened
  bound : ∀ a ∈ l, a ≤ ctx.size

/-- `ctx'` differs from `ctx` at most in the list. -/
structure SameData (ctx ctx' : Context) : Prop where
  conns : ∀ a, (ctx'.conns a).data = (ctx.conns a).data
  size : ctx'.size = ctx.size
  stuck : ctx'.stuck = ctx.stuck

theorem SameData.refl : ctx.SameData ctx := ⟨fun _ => rfl, rfl, rfl⟩

theorem SameData.trans {ctx ctx' ctx'' : Context} (h : ctx.SameData ctx')
    (h' : ctx'.SameData ctx'') : ctx.SameData ctx'' :=
  ⟨fun a => (h'.conns a).trans (h.conns a), h'.size.trans h.size, h'.stuck.trans h.stuck⟩

theorem SameData.status {ctx ctx' : Context} (h : ctx.SameData ctx') (a : ℕ) :
    (ctx'.conns a).status = (ctx.conns a).status := by
  have hdata := congrArg Conn.status (h.conns a)
  exact hdata

theorem SameData.txbBump {ctx ctx' : Context} (h : ctx.SameData ctx') (a : ℕ) :
    (ctx'.conns a).txbBump = (ctx.conns a).txbBump := by
  have hdata := congrArg Conn.txbBump (h.conns a)
  exact hdata

section Links

variable {ctx ctx' : Context} {l l' : List ℕ} {a : ℕ} {c : Conn}

@[simp] theorem setConn_self (ctx : Context) (a : ℕ) (c : Conn) : (ctx.setConn a c).conns a = c :=
  update_self _ _ _

theorem setConn_of_ne {b : ℕ} (hb : b ≠ a) (ctx : Context) (c : Conn) :
    (ctx.setConn a c).conns b = ctx.conns b :=
  update_of_ne hb _ _

theorem setConn_same {β : Type} (f : Conn → β) (h : f c = f (ctx.conns a)) (b : ℕ) :
    f ((ctx.setConn a c).conns b) = f (ctx.conns b) :=
  Linked.apply_update_same f h b

theorem next_setConn (ctx : Context) (a : ℕ) (c : Conn) :
    (ctx.setConn a c).next = update ctx.next a c.bumpNext :=
  comp_update Conn.bumpNext ctx.conns a c

theorem setConn_sameData (h : c.data = (ctx.conns a).data) : ctx.SameData (ctx.setConn a c) :=
  ⟨setConn_same Conn.data h, rfl, rfl⟩

theorem Pending.setConn (h : ctx.Pending l) (hnext : c.bumpNext = (ctx.conns a).bumpNext)
    (hpending : c.bumpPending = (ctx.conns a).bumpPending)
    (hstatus : a ∈ l → c.status = .opened) : (ctx.setConn a c).Pending l := by
  have hlinks : (ctx.setConn a c).next = ctx.next := funext (setConn_same Conn.bumpNext hnext)
  refine { h with chain := ?_, mem_iff := fun b => ?_, opened := fun b hb => ?_ }
  · rw [hlinks]
    exact h.chain
  · rw [setConn_same Conn.bumpPending hpending]
    exact h.mem_iff b
  · by_cases hba : b = a
    · subst hba
      rw [setConn_self]
      exact hstatus hb
    · rw [setConn_of_ne hba]
      exact h.opened b hb

theorem Pending.of_list (h : ctx.Pending l) (hdata : ctx.SameData ctx')
    (hchain : Linked.Chain ctx'.next 0 ctx'.bumpPendingFirst l') (hnodup : l'.Nodup)
    (hlast : ctx'.bumpPendingLast = l'.getLastD 0)
    (hmem : ∀ b, (ctx'.conns b).bumpPending = true ↔ b ∈ l')
    (hnew : ∀ b ∈ l', b ∈ l ∨ (ctx.conns b).status = .opened ∧ b ≤ ctx.size) : ctx'.Pending l' := by
  refine ⟨hchain, hnodup, hlast, hmem, fun b hb => ?_, fun b hb => ?_⟩
  · rw [hdata.status]
    exact (hnew b hb).elim (h.opened b) And.left
  · rw [hdata.size]
    exact (hnew b hb).elim (h.bound b) And.right

theorem Pending.length_le (h : ctx.Pending l) : l.length ≤ ctx.size := by
  have hsub : l ⊆ List.range' 1 ctx.size := by
    intro x hx
    have hpos := Nat.pos_of_ne_zero (h.chain.ne_nil hx)
    have hle := h.bound x hx
    rw [mem_range'_1]
    omega
  have hle := (h.nodup.subperm hsub).length_le
  rwa [length_range'] at hle

theorem markBump_sameData (ctx : Context) (a : ℕ) : ctx.SameData (ctx.markBump a) := by
  unfold markBump
  split
  · exact SameData.refl ctx
  set ctx₁ := ctx.setConn a { ctx.conns a with bumpNext := 0, bumpPrev := ctx.bumpPendingLast }
  have h₁ : ctx.SameData ctx₁ := setConn_sameData rfl
  refine SameData.trans ?_ (setConn_sameData rfl)
  split
  · have h₂ : ctx₁.SameData (ctx₁.setNext ctx.bumpPendingLast a) := setConn_sameData rfl
    exact h₁.trans (h₂.trans ⟨fun _ => rfl, rfl, rfl⟩)
  · exact h₁.trans ⟨fun _ => rfl, rfl, rfl⟩

theorem markBump_links (hnew : (ctx.conns a).bumpPending = false) : (ctx.markBump a).next =
        (if ctx.bumpPendingLast = 0 then update ctx.next a 0
          else update (update ctx.next a 0) ctx.bumpPendingLast a) ∧
      (ctx.markBump a).bumpPendingFirst =
        (if ctx.bumpPendingLast = 0 then a else ctx.bumpPendingFirst) ∧
      (ctx.markBump a).bumpPendingLast = a ∧
      ∀ b, ((ctx.markBump a).conns b).bumpPending = true ↔
        (ctx.conns b).bumpPending = true ∨ b = a := by
  set ctx₁ := ctx.setConn a { ctx.conns a with bumpNext := 0, bumpPrev := ctx.bumpPendingLast }
    with hctx₁
  set ctx₂ := if ctx.bumpPendingLast = 0 then { ctx₁ with bumpPendingFirst := a }
    else ctx₁.setNext ctx.bumpPendingLast a with hctx₂
  have hout : ctx.markBump a = { ctx₂ with bumpPendingLast := a }.setConn a
      { ctx₂.conns a with bumpPending := true } := by
    rw [markBump, if_neg (by simp [hnew]), hctx₂, ← ite_not]
  have hflag : ∀ b, (ctx₂.conns b).bumpPending = (ctx.conns b).bumpPending := by
    intro b
    have h₁ : (ctx₁.conns b).bumpPending = (ctx.conns b).bumpPending :=
      setConn_same Conn.bumpPending (by rfl) b
    rw [hctx₂]
    split
    · exact h₁
    · exact (setConn_same Conn.bumpPending (by rfl) b).trans h₁
  have hnext : (ctx.markBump a).next = ctx₂.next := by
    rw [hout]
    exact funext (setConn_same Conn.bumpNext (by rfl))
  refine ⟨?_, ?_, by rw [hout]; rfl, fun b => ?_⟩
  · rw [hnext, hctx₂, apply_ite next]
    congr 1
    · exact next_setConn ctx a _
    · rw [setNext, next_setConn, hctx₁, next_setConn]
  · rw [hout]
    rw [hctx₂, apply_ite bumpPendingFirst]
    rfl
  · rw [hout]
    by_cases hb : b = a
    · subst hb
      simp
    · rw [setConn_of_ne hb]
      rw [← hflag b, or_iff_left hb]

theorem Pending.markBump (h : ctx.Pending l) (ha : a ≠ 0) (hbound : a ≤ ctx.size)
    (hopened : (ctx.conns a).status = .opened) (hnew : (ctx.conns a).bumpPending = false) :
    (ctx.markBump a).Pending (l ++ [a]) := by
  have hmem : a ∉ l := by
    rw [← h.mem_iff, hnew]
    exact Bool.false_ne_true
  obtain ⟨hnext, hfirst, hlast, hflag⟩ := markBump_links hnew
  have hchain := h.chain.pushBack h.nodup ha hmem
  refine h.of_list (markBump_sameData ctx a) ?_ ?_ ?_ (fun b => ?_) (fun b hb => ?_)
  · rwa [hnext, hfirst, h.last]
  · simpa using h.nodup.concat hmem
  · rw [hlast, getLastD_concat]
  · rw [hflag, h.mem_iff, mem_append, mem_singleton]
  · refine (mem_append.mp hb).imp_right fun hb => ?_
    rw [mem_singleton.mp hb]
    exact ⟨hopened, hbound⟩

theorem Pending.unlink_first {b : ℕ} (h : ctx.Pending (a :: b :: l)) :
    (ctx.unlink a).Pending (b :: l) ∧ ctx.SameData (ctx.unlink a) := by
  obtain ⟨hfirst, ha, htail⟩ := h.chain
  obtain ⟨hmem, hnodup⟩ := nodup_cons.mp h.nodup
  have hpending : (ctx.conns a).bumpPending = true := (h.mem_iff a).mpr (by simp)
  have hout : ctx.unlink a = { ctx.setConn a { ctx.conns a with bumpPending := false } with
      bumpPendingFirst := ctx.next a } := by
    simp only [Context.unlink, hpending, if_true, hfirst]
    rfl
  have hset : ctx.SameData (ctx.setConn a { ctx.conns a with bumpPending := false }) :=
    setConn_sameData rfl
  have hdata : ctx.SameData (ctx.unlink a) := hout ▸ { hset with }
  refine ⟨h.of_list hdata ?_ hnodup ?_ (fun x => ?_) fun x hx =>
    Or.inl (mem_cons_of_mem _ hx), hdata⟩
  · have hlinks : (ctx.unlink a).next = ctx.next := by
      rw [hout]
      exact funext (setConn_same Conn.bumpNext (by rfl))
    rw [hlinks, hout]
    exact htail
  · rw [hout]
    exact h.last
  · rw [hout]
    by_cases hxa : x = a
    · subst hxa
      simpa using hmem
    · rw [setConn_of_ne hxa, h.mem_iff, mem_cons, or_iff_right hxa]

theorem Pending.unlink_behind {p : ℕ} {xs ys : List ℕ} (h : ctx.Pending (xs ++ p :: a :: ys)) :
    (ctx.unlink a).Pending (xs ++ p :: ys) ∧ ctx.SameData (ctx.unlink a) := by
  have hpending : (ctx.conns a).bumpPending = true := (h.mem_iff a).mpr (by simp)
  have hp : p ≠ 0 := h.chain.ne_nil (by simp)
  have hmem : ∀ x, x ∈ xs ++ p :: ys ↔ x ∈ xs ++ p :: a :: ys ∧ x ≠ a := fun x =>
    Linked.mem_unlinked h.nodup
  have hfirst : a ≠ ctx.bumpPendingFirst := by
    intro heq
    have hhead : ctx.bumpPendingFirst ∈ xs ++ p :: ys := by
      cases xs with
      | nil => exact h.chain.1 ▸ mem_cons_self
      | cons x xs => exact h.chain.1 ▸ mem_cons_self
    exact ((hmem _).mp hhead).2 heq.symm
  have hlength := h.length_le
  have hseek : Linked.seek (fun x => decide (ctx.next x ≠ a)) ctx.next 0 (ctx.size + 1)
      ctx.bumpPendingFirst = some p := h.chain.seek_pred h.nodup (by
    rw [length_append] at hlength
    omega)
  set ctx₁ : Context := { ctx.setNext p (ctx.next a) with
    bumpPendingLast := if ctx.next a = 0 then p else ctx.bumpPendingLast } with hctx₁
  have hout : ctx.unlink a = ctx₁.setConn a { ctx₁.conns a with bumpPending := false } := by
    simp only [Context.unlink, hpending, if_true, if_neg hfirst, hseek]
    by_cases hzero : (ctx.conns a).bumpNext = 0
    · rw [hctx₁, if_pos hzero, if_pos (show ctx.next a = 0 from hzero)]
      rfl
    · rw [hctx₁, if_neg hzero, if_neg (show ctx.next a ≠ 0 from hzero)]
      rfl
  have hset : ctx.SameData (ctx.setNext p (ctx.next a)) := setConn_sameData rfl
  have hset₁ : ctx.SameData ctx₁ := { hset with }
  have hdata : ctx.SameData (ctx.unlink a) := hout ▸ hset₁.trans (setConn_sameData rfl)
  refine ⟨h.of_list hdata ?_ ?_ ?_ (fun x => ?_) fun x hx => Or.inl ((hmem x).mp hx).1, hdata⟩
  · have hlinks : (ctx.unlink a).next = update ctx.next p (ctx.next a) := by
      have hkeep : (ctx.unlink a).next = ctx₁.next :=
        hout ▸ funext (setConn_same Conn.bumpNext (by rfl))
      exact hkeep.trans (next_setConn ctx p _)
    rw [hlinks, hout]
    exact h.chain.unlink h.nodup
  · have hsub : (xs ++ p :: ys).Sublist (xs ++ p :: a :: ys) :=
      List.Sublist.append_left ((sublist_cons_self a ys).cons_cons p) xs
    exact hsub.nodup h.nodup
  · obtain ⟨-, -, htail⟩ := h.chain.drop.2.2
    rw [hout]
    show (if ctx.next a = 0 then p else ctx.bumpPendingLast) = _
    rw [h.last]
    cases ys with
    | nil => rw [if_pos (show ctx.next a = 0 from htail), getLastD_concat]
    | cons y ys =>
      rw [if_neg (htail.1.trans_ne htail.2.1)]
      simp [getLastD_eq_getLast?, getLast?_append, getLast?_cons]
  · rw [hmem, hout]
    by_cases hxa : x = a
    · subst hxa
      simp
    · have hflag : (ctx₁.conns x).bumpPending = (ctx.conns x).bumpPending :=
        setConn_same Conn.bumpPending (by rfl) x
      rw [setConn_of_ne hxa, hflag, h.mem_iff, and_iff_left hxa]

theorem Pending.unlink (h : ctx.Pending l) (hsafe : (ctx.conns a).bumpPending = true →
      ¬(a = ctx.bumpPendingFirst ∧ (ctx.conns a).bumpNext = 0)) :
    ∃ l', (ctx.unlink a).Pending l' ∧ a ∉ l' ∧ (∀ b ∈ l, b ≠ a → b ∈ l') ∧
      ctx.SameData (ctx.unlink a) := by
  by_cases hpending : (ctx.conns a).bumpPending = true
  · have hmem := (h.mem_iff a).mp hpending
    obtain ⟨xs, ys, rfl⟩ := append_of_mem hmem
    rcases eq_nil_or_concat xs with rfl | ⟨xs, p, rfl⟩
    · cases ys with
      | nil => exact absurd ⟨h.chain.1.symm, h.chain.2.2⟩ (hsafe hpending)
      | cons b ys =>
        obtain ⟨h', hdata⟩ := h.unlink_first
        refine ⟨_, h', (nodup_cons.mp h.nodup).1, ?_, hdata⟩
        intro x hx hne
        exact (mem_cons.mp hx).resolve_left hne
    rw [concat_eq_append, append_assoc] at h
    obtain ⟨h', hdata⟩ := h.unlink_behind
    refine ⟨_, h', ?_, ?_, hdata⟩
    · rw [← h'.mem_iff]
      simp [Context.unlink, hpending]
    · intro x hx hne
      rw [concat_eq_append, append_assoc] at hx
      exact (Linked.mem_unlinked h.nodup).mpr ⟨hx, hne⟩
  have hout : ctx.unlink a = ctx := by
    simp [Context.unlink, hpending]
  rw [hout]
  exact ⟨l, h, fun hmem => hpending ((h.mem_iff a).mpr hmem), fun _ hx _ => hx, SameData.refl ctx⟩

/-- One round of `conns_bump`: the first connection is posted and taken off the list. -/
def postFirst (ctx : Context) (a : ℕ) : Context :=
  { ctx.setConn a (ctx.conns a).postBump.2 with
    txqAvail := update ctx.txqAvail (ctx.conns a).fnCore
      (ctx.txqAvail (ctx.conns a).fnCore - 16)
    posted := ctx.posted ++ [((ctx.conns a).fnCore, a, (ctx.conns a).postBump.1)]
    bumpPendingLast := if (ctx.conns a).bumpNext = 0 then 0 else ctx.bumpPendingLast
    bumpPendingFirst := (ctx.conns a).bumpNext }

theorem Pending.postFirst (h : ctx.Pending (a :: l)) : (ctx.postFirst a).Pending l := by
  obtain ⟨-, ha, htail⟩ := h.chain
  obtain ⟨hmem, hnodup⟩ := nodup_cons.mp h.nodup
  have hother : ∀ b, b ≠ a → (ctx.postFirst a).conns b = ctx.conns b := fun b hb =>
    setConn_of_ne hb ctx _
  have hne : ∀ b ∈ l, b ≠ a := by
    rintro b hb rfl
    exact hmem hb
  refine ⟨htail.congr fun b hb => ?_, hnodup, ?_, fun b => ?_, fun b hb => ?_, fun b hb => ?_⟩
  · rw [next, hother b (hne b hb)]
    rfl
  · show (if (ctx.conns a).bumpNext = 0 then 0 else ctx.bumpPendingLast) = _
    rw [h.last]
    cases l with
    | nil => exact if_pos htail
    | cons b l => exact if_neg (htail.1.trans_ne htail.2.1)
  · by_cases hb : b = a
    · subst hb
      simpa [Context.postFirst, Conn.postBump] using hmem
    · rw [hother b hb, h.mem_iff, mem_cons, or_iff_right hb]
  · rw [hother b (hne b hb)]
    exact h.opened b (mem_cons_of_mem _ hb)
  · exact h.bound b (mem_cons_of_mem _ hb)

theorem Pending.connsBump {fuel : ℕ} (h : ctx.Pending l) (hfuel : l.length < fuel)
    (hstuck : ctx.stuck = false) :
    ∃ done rest, l = done ++ rest ∧ (connsBump fuel ctx).Pending rest ∧
      (connsBump fuel ctx).posted = ctx.posted ++
        done.map (fun a => ((ctx.conns a).fnCore, a, (ctx.conns a).postBump.1)) ∧
      (∀ a ∈ done, (connsBump fuel ctx).conns a = (ctx.conns a).postBump.2) ∧
      (∀ a, a ∉ done → (connsBump fuel ctx).conns a = ctx.conns a) ∧
      (∀ a ∈ rest.head?, (connsBump fuel ctx).txqAvail (ctx.conns a).fnCore = 0) ∧
      (connsBump fuel ctx).stuck = false ∧ (connsBump fuel ctx).size = ctx.size := by
  induction l generalizing ctx fuel with
  | nil =>
    obtain _ | fuel := fuel
    · omega
    have hout : Context.connsBump (fuel + 1) ctx = ctx := by
      exact if_pos h.chain
    rw [hout]
    exact ⟨[], [], rfl, h, by simp, by simp, fun _ _ => rfl, by simp, hstuck, rfl⟩
  | cons a l ih =>
    obtain _ | fuel := fuel
    · omega
    obtain ⟨hfirst, ha, -⟩ := h.chain
    have hopened := h.opened a (by simp)
    have hmem := (nodup_cons.mp h.nodup).1
    by_cases havail : ctx.txqAvail (ctx.conns a).fnCore = 0
    · have hout : Context.connsBump (fuel + 1) ctx = ctx := by
        rw [Context.connsBump]
        simp only [hfirst, if_neg ha, hopened, havail, ne_eq, not_true_eq_false, if_false, if_true]
      rw [hout]
      refine ⟨[], a :: l, rfl, h, by simp, by simp, fun _ _ => rfl, ?_, hstuck, rfl⟩
      rintro b hb
      cases hb
      exact havail
    have hout : Context.connsBump (fuel + 1) ctx =
        Context.connsBump fuel (ctx.postFirst a) := by
      rw [Context.connsBump]
      simp only [hfirst, if_neg ha, hopened, if_neg havail, ne_eq, not_true_eq_false, if_false]
      rfl
    have hother : ∀ b, b ≠ a → (ctx.postFirst a).conns b = ctx.conns b := fun b hb =>
      setConn_of_ne hb ctx _
    simp only [length_cons] at hfuel
    obtain ⟨done, rest, rfl, hrest, hposted, hdone, hkept, hfull, hrun, hsize⟩ :=
      ih h.postFirst (by omega : l.length < fuel) hstuck
    have hne : ∀ b ∈ done ++ rest, b ≠ a := by
      rintro b hb rfl
      exact hmem hb
    have hdne : ∀ b ∈ done, b ≠ a := fun b hb => hne b (mem_append_left _ hb)
    rw [hout]
    refine ⟨a :: done, rest, rfl, hrest, ?_, ?_, ?_, ?_, hrun, hsize⟩
    · have hmap : done.map (fun b => (((ctx.postFirst a).conns b).fnCore, b,
          ((ctx.postFirst a).conns b).postBump.1)) =
          done.map (fun b => ((ctx.conns b).fnCore, b, (ctx.conns b).postBump.1)) := by
        apply map_congr_left
        intro b hb
        rw [hother b (hdne b hb)]
      rw [hposted, hmap, map_cons, ← singleton_append, ← append_assoc]
      rfl
    · intro b hb
      rcases mem_cons.mp hb with rfl | hb
      · rw [hkept b fun hcon => hdne b hcon rfl]
        exact setConn_self ..
      · rw [hdone b hb, hother b (hdne b hb)]
    · intro b hb
      rw [mem_cons, not_or] at hb
      rw [hkept b hb.2, hother b hb.1]
    · intro b hb
      have hcond := hfull b hb
      rwa [hother b (hne b (mem_append_right _ (mem_of_mem_head? hb)))] at hcond

end Links

/-- The invariant: a pending list, on which every open connection with bytes to
report is. -/
structure Inv (ctx : Context) : Prop where
  list : ∃ l, ctx.Pending l
  reported : ∀ a, (ctx.conns a).status = .opened → (ctx.conns a).txbBump ≠ 0 →
    (ctx.conns a).bumpPending = true
  running : ctx.stuck = false

end Context

/-- `c'` has the place in the list and the status of `c`. -/
structure Conn.SameLinks (c c' : Conn) : Prop where
  next : c'.bumpNext = c.bumpNext
  pending : c'.bumpPending = c.bumpPending
  status : c'.status = c.status

theorem Conn.pushtxeos_links {c c' : Conn} (h : c.pushtxeos = some c') : c.SameLinks c' := by
  unfold pushtxeos at h
  split at h
  · cases h
  · cases h
    exact ⟨rfl, rfl, rfl⟩

theorem Conn.txAlloc2_links {c c' : Conn} {len : ℕ} {r : Conn.TxAlloc}
    (h : c.txAlloc2 len = some (c', r)) : c.SameLinks c' ∧ c'.txbBump = c.txbBump := by
  unfold txAlloc2 at h
  split at h
  · cases h
  · cases h
    exact ⟨⟨rfl, rfl, rfl⟩, rfl⟩

theorem Conn.txSend_links {c c' : Conn} {len : ℕ} (h : c.txSend len = some c') :
    c.SameLinks c' := by
  unfold txSend at h
  split at h
  · cases h
  · cases h
    exact ⟨rfl, rfl, rfl⟩

theorem Conn.rxDone_links {c c' : Conn} {len : ℕ} {mark : Bool}
    (h : c.rxDone len = some (c', mark)) : c.SameLinks c' ∧ c'.txbBump = c.txbBump := by
  unfold rxDone at h
  split at h
  · cases h
  · cases h
    exact ⟨⟨rfl, rfl, rfl⟩, rfl⟩

theorem Conn.txClose_links {c c' : Conn} {mark : Bool} (h : c.txClose = some (c', mark)) :
    c.SameLinks c' ∧ (mark = false → c'.txbBump = c.txbBump) := by
  unfold txClose at h
  split at h
  · cases h
  split at h
  · cases h
  dsimp only at h
  split at h
  · cases h
    exact ⟨⟨rfl, rfl, rfl⟩, fun _ => rfl⟩
  next c'' hpush =>
  cases h
  have hlinks := pushtxeos_links hpush
  exact ⟨⟨hlinks.next, hlinks.pending, hlinks.status⟩, fun hmark => by cases hmark⟩

theorem Conn.updateRx_links (c : Conn) (rxBump : UInt32) :
    c.SameLinks (c.updateRx rxBump).1 ∧ (c.updateRx rxBump).1.txbBump = c.txbBump := by
  unfold updateRx
  split
  · exact ⟨⟨rfl, rfl, rfl⟩, rfl⟩
  · exact ⟨⟨rfl, rfl, rfl⟩, rfl⟩

theorem Conn.updateTx_links (c : Conn) (txBump : UInt32) (availEv : Bool) :
    c.SameLinks (c.updateTx txBump availEv).conn ∧
      ((c.updateTx txBump availEv).mark = false →
        (c.updateTx txBump availEv).conn.txbBump = c.txbBump) := by
  unfold updateTx
  split
  · dsimp only
    split
    · split
      · exact ⟨⟨rfl, rfl, rfl⟩, fun _ => rfl⟩
      · next c' hpush =>
        have hlinks := pushtxeos_links hpush
        exact ⟨⟨hlinks.next, hlinks.pending, hlinks.status⟩, fun hmark => by cases hmark⟩
    split
    · exact ⟨⟨rfl, rfl, rfl⟩, fun _ => rfl⟩
    · exact ⟨⟨rfl, rfl, rfl⟩, fun _ => rfl⟩
  · exact ⟨⟨rfl, rfl, rfl⟩, fun _ => rfl⟩

theorem Conn.arxConnupdate_links (c : Conn) (inev : Arx) (outn : ℕ) (core : UInt16) :
    c.SameLinks (c.arxConnupdate inev outn core).conn ∧
      ((c.arxConnupdate inev outn core).mark = false →
        (c.arxConnupdate inev outn core).conn.txbBump = c.txbBump) := by
  unfold arxConnupdate
  dsimp only
  split
  · exact ⟨⟨rfl, rfl, rfl⟩, fun _ => rfl⟩
  · exact ⟨⟨rfl, rfl, rfl⟩, fun _ => rfl⟩
  · exact ⟨⟨rfl, rfl, rfl⟩, fun _ => rfl⟩
  · exact ⟨⟨rfl, rfl, rfl⟩, fun _ => rfl⟩
  split
  · exact ⟨⟨rfl, rfl, rfl⟩, fun _ => rfl⟩
  set c₀ := { c with fnCore := core }
  obtain ⟨hrx, hrxBump⟩ := c₀.updateRx_links inev.rxBump
  obtain ⟨htx, htxBump⟩ := (c₀.updateRx inev.rxBump).1.updateTx_links inev.txBump
    (c₀.txAvailEv inev.txBump)
  have hlinks : c.SameLinks ((c₀.updateRx inev.rxBump).1.updateTx inev.txBump
      (c₀.txAvailEv inev.txBump)).conn :=
    ⟨htx.next.trans hrx.next, htx.pending.trans hrx.pending, htx.status.trans hrx.status⟩
  split
  · exact ⟨⟨hlinks.next, hlinks.pending, hlinks.status⟩, fun hmark => (htxBump hmark).trans hrxBump⟩
  · exact ⟨hlinks, fun hmark => (htxBump hmark).trans hrxBump⟩

namespace Context

section Step

variable {ctx : Context} {a : ℕ}

variable (h : ctx.Inv)
include h

theorem Inv.store (huse : ctx.Uses a) {c : Conn} (hlinks : (ctx.conns a).SameLinks c)
    {mark : Bool} (hbump : mark = false → c.txbBump = (ctx.conns a).txbBump) :
    (ctx.store a c mark).Inv := by
  obtain ⟨l, hl⟩ := h.list
  obtain ⟨hpos, hbound, hopened⟩ := huse
  have hl' : (ctx.setConn a c).Pending l :=
    hl.setConn hlinks.next hlinks.pending fun _ => hlinks.status.trans hopened
  have hother : ∀ b, b ≠ a → (ctx.setConn a c).conns b = ctx.conns b := fun b hb =>
    setConn_of_ne hb ctx c
  unfold Context.store
  cases mark with
  | false =>
    refine ⟨⟨l, hl'⟩, ?_, h.running⟩
    intro b hb hne
    by_cases hba : b = a
    · subst hba
      simp only [Bool.false_eq_true, if_false, setConn_self] at hb hne ⊢
      rw [hlinks.pending]
      exact h.reported b hopened (by rwa [← hbump rfl])
    · simp only [Bool.false_eq_true, if_false, hother b hba] at hb hne ⊢
      exact h.reported b hb hne
  | true =>
    simp only [if_true]
    have hdata := markBump_sameData (ctx.setConn a c) a
    by_cases hnew : ((ctx.setConn a c).conns a).bumpPending = true
    · have hout : (ctx.setConn a c).markBump a = ctx.setConn a c := by
        rw [Context.markBump, if_pos hnew]
      rw [hout]
      refine ⟨⟨l, hl'⟩, ?_, h.running⟩
      intro b hb hne
      by_cases hba : b = a
      · exact hba ▸ hnew
      · rw [hother b hba] at hb hne ⊢
        exact h.reported b hb hne
    have hmark := hl'.markBump (a := a) (by omega) hbound
      (by rw [setConn_self, hlinks.status, hopened]) (by simpa using hnew)
    refine ⟨⟨_, hmark⟩, ?_, hdata.stuck.trans h.running⟩
    intro b hb hne
    rw [hdata.status] at hb
    rw [hdata.txbBump] at hne
    rw [hmark.mem_iff]
    by_cases hba : b = a
    · simp [hba]
    · rw [hother b hba] at hb hne
      have hmem := (hl.mem_iff b).mp (h.reported b hb hne)
      exact mem_append_left _ hmem

theorem Inv.close (huse : ctx.Uses a) {space : Bool}
    (hsafe : ctx.SafeClose (.close a space)) : (ctx.close a space).Inv := by
  obtain ⟨l, hl⟩ := h.list
  obtain ⟨l', hl', hmem, hkeep, hdata⟩ := hl.unlink (a := a) fun hp => (hsafe hp).2
  have hreported : ∀ b, b ≠ a → (ctx.conns b).status = .opened → (ctx.conns b).txbBump ≠ 0 →
      ((ctx.unlink a).conns b).bumpPending = true := by
    intro b hb hopened hne
    rw [hl'.mem_iff]
    exact hkeep b ((hl.mem_iff b).mp (h.reported b hopened hne)) hb
  unfold Context.close
  cases space with
  | true =>
    simp only [if_true]
    have hclosed := hl'.setConn (a := a)
      (c := { (ctx.unlink a).conns a with status := .closeRequested }) rfl rfl
      fun hcon => absurd hcon hmem
    refine ⟨⟨l', hclosed⟩, ?_, hdata.stuck.trans h.running⟩
    intro b hb hne
    by_cases hba : b = a
    · subst hba
      simp at hb
    rw [setConn_of_ne hba] at hb hne ⊢
    rw [hdata.status] at hb
    rw [hdata.txbBump] at hne
    exact hreported b hba hb hne
  | false =>
    -- a close that fails was not pending, so nothing changed
    have hnot : ¬(ctx.conns a).bumpPending = true := fun hp => by
      have hspace := (hsafe hp).1
      cases hspace
    have hout : ctx.unlink a = ctx := by
      simp [Context.unlink, hnot]
    simpa [hout] using h

theorem Inv.connsBump : (connsBump (ctx.size + 1) ctx).Inv := by
  obtain ⟨l, hl⟩ := h.list
  obtain ⟨done, rest, hsplit, hrest, -, hdone, hkept, -, hrun, -⟩ :=
    hl.connsBump (Nat.lt_succ_of_le hl.length_le) h.running
  refine ⟨⟨rest, hrest⟩, ?_, hrun⟩
  intro a ha hne
  by_cases hmem : a ∈ done
  · rw [hdone a hmem] at hne
    exact absurd rfl hne
  rw [hkept a hmem] at ha hne
  have hpend := (hl.mem_iff a).mp (h.reported a ha hne)
  rw [hsplit, mem_append] at hpend
  exact (hrest.mem_iff a).mpr (hpend.resolve_left hmem)

theorem Inv.step {op : CtxOp} (hok : ctx.Ok op) (hsafe : ctx.SafeClose op) : (ctx.step op).Inv := by
  cases op with
  | txAlloc2 a len =>
    simp only [Context.step]
    split
    · exact h
    · next c r hcall =>
      obtain ⟨hlinks, hbump⟩ := Conn.txAlloc2_links hcall
      exact h.store hok hlinks fun _ => hbump
  | txSend a len =>
    simp only [Context.step]
    split
    · exact h
    · next c hcall => exact h.store hok (Conn.txSend_links hcall) fun hmark => by cases hmark
  | txClose a =>
    simp only [Context.step]
    split
    · exact h
    · next c mark hcall =>
      obtain ⟨hlinks, hbump⟩ := Conn.txClose_links hcall
      exact h.store hok hlinks hbump
  | rxDone a len =>
    simp only [Context.step]
    split
    · exact h
    · next c mark hcall =>
      obtain ⟨hlinks, hbump⟩ := Conn.rxDone_links hcall
      exact h.store hok hlinks fun _ => hbump
  | connupdate a inev outn core =>
    obtain ⟨hlinks, hbump⟩ := (ctx.conns a).arxConnupdate_links inev outn core
    exact h.store hok hlinks hbump
  | close a space => exact h.close hok hsafe
  | connsBump => exact h.connsBump
  | probe core avail =>
    obtain ⟨l, hl⟩ := h.list
    exact ⟨⟨l, hl.chain, hl.nodup, hl.last, hl.mem_iff, hl.opened, hl.bound⟩, h.reported, h.running⟩

end Step

/-- The next `conns_bump` posts the updates of a first part of the list and stops only at a full
queue. -/
structure Flushes (ctx : Context) (l : List ℕ) : Prop where
  pending : ctx.Pending l
  posts : ∃ done rest, l = done ++ rest ∧
    (connsBump (ctx.size + 1) ctx).Pending rest ∧
    (connsBump (ctx.size + 1) ctx).posted = ctx.posted ++
      done.map (fun a => ((ctx.conns a).fnCore, a, (ctx.conns a).postBump.1)) ∧
    (∀ a ∈ done, ((connsBump (ctx.size + 1) ctx).conns a).txbBump = 0) ∧
    ∀ a ∈ rest.head?, (connsBump (ctx.size + 1) ctx).txqAvail (ctx.conns a).fnCore = 0

/-- The list holds exactly the pending connections, and all with bytes to report are on it. -/
structure Sound (ctx : Context) : Prop where
  list : ∃ l, ctx.Flushes l ∧
    ∀ a, (ctx.conns a).status = .opened → (ctx.conns a).txbBump ≠ 0 → a ∈ l
  running : ctx.stuck = false

theorem Inv.sound {ctx : Context} (h : ctx.Inv) : ctx.Sound := by
  obtain ⟨l, hl⟩ := h.list
  obtain ⟨done, rest, hsplit, hrest, hposted, hdone, -, hfull, -, -⟩ :=
    hl.connsBump (Nat.lt_succ_of_le hl.length_le) h.running
  refine ⟨⟨l, ⟨hl, done, rest, hsplit, hrest, hposted, ?_, hfull⟩, ?_⟩, h.running⟩
  · intro a ha
    rw [hdone a ha]
    rfl
  · intro a ha hne
    exact (hl.mem_iff a).mp (h.reported a ha hne)

/-- A context whose connections have just been opened. -/
def start (size : ℕ) (flowId : ℕ → UInt32) (rxLen txLen : ℕ → UInt32) (core : ℕ → UInt16)
    (avail : UInt16 → UInt32) : Context where
  size := size
  conns := fun a => Conn.opening (flowId a) (rxLen a) (txLen a) 0 (core a)
  bumpPendingFirst := 0
  bumpPendingLast := 0
  txqAvail := avail
  posted := []
  stuck := false

theorem inv_start (size : ℕ) (flowId : ℕ → UInt32) (rxLen txLen : ℕ → UInt32) (core : ℕ → UInt16)
    (avail : UInt16 → UInt32) : (start size flowId rxLen txLen core avail).Inv := by
  refine ⟨⟨[], rfl, nodup_nil, rfl, ?_, by simp, by simp⟩, ?_, rfl⟩
  · intro a
    simp [start, Conn.opening]
  · intro a _ hne
    exact absurd rfl hne

end Context

/-- In every run in which no only pending connection is closed, and no close of a pending one fails,
the list is sound. -/
theorem bump_list_sound (size : ℕ) (flowId : ℕ → UInt32) (rxLen txLen : ℕ → UInt32)
    (core : ℕ → UInt16) (avail : UInt16 → UInt32) (ops : List CtxOp)
    (hrun : Run.Admissible Context.step (fun ctx op => ctx.Ok op ∧ ctx.SafeClose op)
      (Context.start size flowId rxLen txLen core avail) ops) :
    (ops.foldl Context.step (Context.start size flowId rxLen txLen core avail)).Sound := by
  have hinv := hrun.invariant (Context.inv_start size flowId rxLen txLen core avail)
    fun _ _ h hok => h.step hok.1 hok.2
  exact hinv.sound

def twoConns : Context :=
  Context.start 2 (fun a => UInt32.ofNat a) (fun _ => 8) (fun _ => 8) (fun _ => 0) fun _ => 64

def closeFirst : List CtxOp :=
  [.txAlloc2 1 3, .txSend 1 3, .txAlloc2 2 4, .txSend 2 4, .close 1 true]

theorem bump_list_sound_closeFirst :
    (closeFirst.foldl Context.step twoConns).Sound ∧
      ((closeFirst.foldl Context.step twoConns).step .connsBump).posted =
        [(0, 2, ⟨0, 0, 4, false⟩)] := by
  refine ⟨?_, by decide +kernel⟩
  exact bump_list_sound 2 (fun a => UInt32.ofNat a) (fun _ => 8) (fun _ => 8) (fun _ => 0)
    (fun _ => 64) closeFirst (by decide +kernel)

def closeOnly : List CtxOp :=
  [.txAlloc2 1 3, .txSend 1 3, .close 1 true, .txAlloc2 2 4, .txSend 2 4]

def closeFails : List CtxOp := [.txAlloc2 1 3, .txSend 1 3, .close 1 false]

/-- Closing the only pending connection leaves `bump_pending_last` behind. -/
theorem closed_tail_loses_bump :
    let ctx := closeOnly.foldl Context.step twoConns
    let ctx' := closeFails.foldl Context.step twoConns
    (Run.Admissible Context.step Context.Ok twoConns closeOnly ∧
      ctx.bumpPendingFirst = 0 ∧ ctx.bumpPendingLast = 2 ∧ (ctx.conns 2).bumpPending = true ∧
      (ctx.conns 2).status = .opened ∧ (ctx.conns 2).txbBump = 4 ∧
      (ctx.step .connsBump).posted = [] ∧ ((ctx.step .connsBump).conns 2).txbBump = 4) ∧
    Run.Admissible Context.step Context.Ok twoConns closeFails ∧
      ctx'.bumpPendingFirst = 0 ∧ (ctx'.conns 1).bumpPending = false ∧
      (ctx'.conns 1).status = .opened ∧ (ctx'.conns 1).txbBump = 3 ∧
      (ctx'.step .connsBump).posted = [] := by
  decide +kernel

end StackBench.Tas

import StackBench.Tas.Libtas

/-!
# Byte counts of a libtas connection

Bytes move between what the application holds, what it has to report and what
it waits for, and none appears or is lost.
-/

namespace StackBench.Tas

open UInt32 (toNat_inj toNat_ofNat_of_lt' toNat_one toNat_zero)
open Word (add_toNat sub_toNat)

/-- What holds of a connection alone. -/
structure Conn.Inv (rxLen txLen : UInt32) (c : Conn) : Prop where
  room : c.txbSent.toNat + c.txbAllocated.toNat ≤ c.txbLen.toNat
  reported : c.txbBump.toNat ≤ c.txbSent.toNat
  opened : c.status = .opened → c.rxbLen = rxLen ∧ c.txbLen = txLen
  fresh : c.status ≠ .opened → (c.status = .openRequested ∨ c.status = .acceptRequested) ∧
    c.txbLen = 0 ∧ c.rxbBump = 0 ∧ c.bumpPending = false ∧ c.txeos = false
  alloc : c.txeosAlloc = true → c.txeos = true
  closed : c.txeos = true → c.txbAllocated = 0
  acked : c.txeosAck = true → c.txeosAlloc = true ∧ c.txbSent = 0

/-- `c'` has received `rx` bytes more than `c`, and `tx` more of its bytes were acknowledged. -/
structure Conn.Moves (c : Conn) (rx tx : ℕ) (c' : Conn) : Prop where
  received : c'.rxbUsed.toNat + c'.rxbBump.toNat = c.rxbUsed.toNat + c.rxbBump.toNat + rx
  sent : c'.txbSent.toNat + c.txbBump.toNat + tx = c.txbSent.toNat + c'.txbBump.toNat
  seq : c'.bumpSeq = c.bumpSeq
  eos : c.txeosAlloc = true → c'.txeosAlloc = true ∧ c'.txbBump = c.txbBump
  push : c.txeosAlloc = false → c'.txeosAlloc = true → c'.txbBump ≠ 0

/-- A call of the application leaves these alone. -/
structure Conn.Keeps (c c' : Conn) : Prop where
  status : c'.status = c.status
  core : c'.fnCore = c.fnCore

/-- `conn_mark_bump` on a context of one connection, if it is called. -/
def Conn.mark (c : Conn) (mark : Bool) : Conn := { c with bumpPending := c.bumpPending || mark }

namespace Conn

variable {rxLen txLen : UInt32} {c c' : Conn}

theorem Moves.refl (c : Conn) : c.Moves 0 0 c :=
  ⟨rfl, rfl, rfl, fun h => ⟨h, rfl⟩, fun h h' => absurd (h.symm.trans h') Bool.false_ne_true⟩

theorem Moves.congr {c'' : Conn} {rx tx : ℕ} (h : c.Moves rx tx c')
    (h₁ : c''.rxbUsed = c'.rxbUsed) (h₂ : c''.rxbBump = c'.rxbBump) (h₃ : c''.txbSent = c'.txbSent)
    (h₄ : c''.txbBump = c'.txbBump) (h₅ : c''.bumpSeq = c'.bumpSeq)
    (h₆ : c''.txeosAlloc = c'.txeosAlloc) : c.Moves rx tx c'' := by
  constructor
  · rw [h₁, h₂]; exact h.received
  · rw [h₃, h₄]; exact h.sent
  · rw [h₅]; exact h.seq
  · rw [h₄, h₆]; exact h.eos
  · rw [h₄, h₆]; exact h.push

theorem txAllocbytes_toNat (hroom : c.txbSent.toNat + c.txbAllocated.toNat ≤ c.txbLen.toNat) :
    c.txAllocbytes.toNat = c.txbLen.toNat - c.txbSent.toNat - c.txbAllocated.toNat := by
  have h₁ : (c.txbLen - c.txbSent).toNat = c.txbLen.toNat - c.txbSent.toNat :=
    sub_toNat (by omega)
  rw [txAllocbytes, sub_toNat (by omega), h₁]

theorem pushtxeos_ne_none (hroom : c.txbSent.toNat + c.txbAllocated.toNat < c.txbLen.toNat) :
    c.pushtxeos ≠ none := by
  intro hpush
  unfold pushtxeos at hpush
  split at hpush
  · next hfull =>
    have hfree := txAllocbytes_toNat hroom.le
    rw [hfull, toNat_zero] at hfree
    omega
  · cases hpush

section

variable (h : c.Inv rxLen txLen)
include h

theorem Inv.opened_of_pending (hpending : c.bumpPending = true) : c.status = .opened := by
  by_contra hne
  have hfresh := (h.fresh hne).2.2.2.1
  exact absurd (hfresh.symm.trans hpending) Bool.false_ne_true

theorem Inv.txAlloc2 {len : ℕ} {r : Conn.TxAlloc} (hcall : c.txAlloc2 len = some (c', r)) :
    c'.Inv rxLen txLen ∧ c.Moves 0 0 c' ∧ c.Keeps c' := by
  have hroom := h.room
  have havail := txAllocbytes_toNat h.room
  have hlen := c.txbLen.toNat_lt
  unfold Conn.txAlloc2 at hcall
  split at hcall
  · cases hcall
  next heos =>
  dsimp only at hcall
  set n := if c.txAllocbytes.toNat < len then c.txAllocbytes.toNat else len with hn
  have hle : n ≤ c.txAllocbytes.toNat := by
    rw [hn]
    split
    · exact le_rfl
    · omega
  have hword : (UInt32.ofNat n).toNat = n := toNat_ofNat_of_lt' (by
    rw [UInt32.size]
    omega)
  have hadd : (c.txbAllocated + UInt32.ofNat n).toNat = c.txbAllocated.toNat + n := by
    rw [add_toNat (by omega), hword]
  cases hcall
  refine ⟨{ h with room := ?_, closed := fun hcon => absurd hcon heos }, ?_⟩
  · dsimp only
    omega
  · exact ⟨(Conn.Moves.refl c).congr rfl rfl rfl rfl rfl rfl, rfl, rfl⟩

theorem Inv.txSend {len : ℕ} (hcall : c.txSend len = some c') :
    c'.Inv rxLen txLen ∧ c.Moves 0 0 c' ∧ c.Keeps c' := by
  have hroom := h.room
  have hreported := h.reported
  have hlen := c.txbLen.toNat_lt
  unfold Conn.txSend at hcall
  split at hcall
  · cases hcall
  next hle =>
  rw [not_lt, txSendbytes] at hle
  have hword : (UInt32.ofNat len).toNat = len := toNat_ofNat_of_lt' (by
    rw [UInt32.size]
    omega)
  have hsub : (c.txbAllocated - UInt32.ofNat len).toNat = c.txbAllocated.toNat - len := by
    rw [sub_toNat (by omega), hword]
  have hsent : (c.txbSent + UInt32.ofNat len).toNat = c.txbSent.toNat + len := by
    rw [add_toNat (by omega), hword]
  have hbump : (c.txbBump + UInt32.ofNat len).toNat = c.txbBump.toNat + len := by
    rw [add_toNat (by omega), hword]
  -- a closed connection has nothing allocated, so it sends nothing
  have hzero : c.txeos = true → UInt32.ofNat len = 0 := by
    intro heos
    have hnone := h.closed heos
    rw [← toNat_inj, hword]
    rw [hnone, toNat_zero] at hle
    simpa using hle
  cases hcall
  refine ⟨⟨?_, ?_, h.opened, h.fresh, h.alloc, ?_, ?_⟩, ⟨rfl, ?_, rfl, ?_, ?_⟩, rfl, rfl⟩
  · dsimp only
    omega
  · dsimp only
    omega
  · intro heos
    simp only [hzero heos, h.closed heos, sub_zero]
  · intro hack
    obtain ⟨halloc, hsent'⟩ := h.acked hack
    refine ⟨halloc, ?_⟩
    simp only [hzero (h.alloc halloc), hsent', add_zero]
  · dsimp only
    omega
  · intro halloc
    refine ⟨halloc, ?_⟩
    simp only [hzero (h.alloc halloc), add_zero]
  · intro hno hyes
    exact absurd (hno.symm.trans hyes) Bool.false_ne_true

theorem Inv.rxDone
    (hrx : c.rxbUsed.toNat + c.rxbBump.toNat < 2 ^ 32) (hopened : c.status = .opened) {len : ℕ}
    {mark : Bool} (hcall : c.rxDone len = some (c', mark)) :
    c'.Inv rxLen txLen ∧ c.Moves 0 0 c' ∧ c.Keeps c' := by
  unfold Conn.rxDone at hcall
  split at hcall
  · cases hcall
  next hle =>
  have hword : (UInt32.ofNat len).toNat = len := toNat_ofNat_of_lt' (by
    rw [UInt32.size]
    omega)
  have hused : (c.rxbUsed - UInt32.ofNat len).toNat = c.rxbUsed.toNat - len := by
    rw [sub_toNat (by omega), hword]
  have hbump : (c.rxbBump + UInt32.ofNat len).toNat = c.rxbBump.toNat + len := by
    rw [add_toNat (by omega), hword]
  cases hcall
  refine ⟨{ h with fresh := fun hne => absurd hopened hne }, ⟨?_, rfl, rfl, fun ha => ⟨ha, rfl⟩,
      fun hno hyes => ?_⟩, rfl, rfl⟩
  · dsimp only
    omega
  · exact absurd (hno.symm.trans hyes) Bool.false_ne_true

theorem Inv.pushtxeos (heos : c.txeos = true)
    (halloc : c.txeosAlloc = false) (hcall : c.pushtxeos = some c') :
    c'.Inv rxLen txLen ∧ c.Moves 0 0 c' ∧ c.Keeps c' := by
  have hreported := h.reported
  have hnone := h.closed heos
  have havail := txAllocbytes_toNat h.room
  have hlen := c.txbLen.toNat_lt
  unfold Conn.pushtxeos at hcall
  split at hcall
  · cases hcall
  next hfree =>
  rw [← toNat_inj, toNat_zero, havail, hnone, toNat_zero] at hfree
  have hsent : (c.txbSent + 1).toNat = c.txbSent.toNat + 1 :=
    add_toNat (by rw [toNat_one]; omega)
  have hbump : (c.txbBump + 1).toNat = c.txbBump.toNat + 1 :=
    add_toNat (by rw [toNat_one]; omega)
  cases hcall
  refine ⟨⟨?_, ?_, h.opened, h.fresh, fun _ => heos, h.closed, ?_⟩, ⟨rfl, ?_, rfl, ?_, ?_⟩,
    rfl, rfl⟩
  · dsimp only
    rw [hnone, toNat_zero]
    omega
  · dsimp only
    omega
  · intro hack
    exact absurd (halloc.symm.trans (h.acked hack).1) Bool.false_ne_true
  · dsimp only
    omega
  · intro hyes
    exact absurd (halloc.symm.trans hyes) Bool.false_ne_true
  · intro _ _ hzero
    have htoNat := congrArg UInt32.toNat hzero
    rw [hbump, toNat_zero] at htoNat
    omega

theorem Inv.txClose (hopened : c.status = .opened) {mark : Bool}
    (hcall : c.txClose = some (c', mark)) : c'.Inv rxLen txLen ∧ c.Moves 0 0 c' ∧ c.Keeps c' := by
  unfold Conn.txClose at hcall
  split at hcall
  · cases hcall
  next hsend =>
  split at hcall
  · cases hcall
  next heos =>
  have hnone : c.txbAllocated = 0 := by
    exact not_not.mp (mt UInt32.pos_iff_ne_zero.mpr hsend)
  have halloc : c.txeosAlloc = false := by
    cases ha : c.txeosAlloc with
    | false => rfl
    | true => exact absurd (h.alloc ha) heos
  have h₁ : Conn.Inv rxLen txLen { c with txeos := true } :=
    ⟨h.room, h.reported, h.opened, fun hne => absurd hopened hne, fun _ => rfl, fun _ => hnone,
      h.acked⟩
  dsimp only at hcall
  split at hcall
  · cases hcall
    exact ⟨h₁, (Conn.Moves.refl c).congr rfl rfl rfl rfl rfl rfl, rfl, rfl⟩
  next c₂ hpush =>
  cases hcall
  obtain ⟨h₂, hmoves, hkeeps⟩ := h₁.pushtxeos rfl halloc hpush
  exact ⟨h₂, { hmoves with }, hkeeps.status, hkeeps.core⟩

end

theorem Moves.trans {c'' : Conn} {rx tx rx' tx' : ℕ} (h : c.Moves rx tx c')
    (h' : c'.Moves rx' tx' c'') : c.Moves (rx + rx') (tx + tx') c'' := by
  have h₁ := h.received
  have h₂ := h.sent
  have h₁' := h'.received
  have h₂' := h'.sent
  refine ⟨by omega, by omega, h'.seq.trans h.seq, ?_, ?_⟩
  · intro ha
    obtain ⟨ha', hb⟩ := h.eos ha
    obtain ⟨ha'', hb'⟩ := h'.eos ha'
    exact ⟨ha'', hb'.trans hb⟩
  · intro hno hyes
    cases ha : c'.txeosAlloc with
    | false => exact h'.push ha hyes
    | true =>
      rw [(h'.eos ha).2]
      exact h.push hno ha

theorem Inv.updateRx (h : c.Inv rxLen txLen) {n : UInt32}
    (hn : c.rxbUsed.toNat + n.toNat < 2 ^ 32) :
    (c.updateRx n).1.Inv rxLen txLen ∧ c.Moves n.toNat 0 (c.updateRx n).1 ∧
      c.Keeps (c.updateRx n).1 ∧ (c.updateRx n).1.txbSent = c.txbSent ∧
      (c.updateRx n).1.txbBump = c.txbBump := by
  have hadd := add_toNat hn
  unfold Conn.updateRx
  split
  · refine ⟨{ h with },
      ⟨?_, rfl, rfl, fun ha => ⟨ha, rfl⟩, fun hno hyes => ?_⟩, ⟨rfl, rfl⟩, rfl, rfl⟩
    · dsimp only
      omega
    · exact absurd (hno.symm.trans hyes) Bool.false_ne_true
  next hzero =>
  have hn0 : n = 0 := not_not.mp (mt UInt32.pos_iff_ne_zero.mpr hzero)
  subst hn0
  exact ⟨h, Conn.Moves.refl c, ⟨rfl, rfl⟩, rfl, rfl⟩

theorem Inv.updateTx (h : c.Inv rxLen txLen) {n : UInt32}
    (hn : c.txbBump.toNat + n.toNat ≤ c.txbSent.toNat) (availEv : Bool) :
    (c.updateTx n availEv).conn.Inv rxLen txLen ∧
      c.Moves 0 n.toNat (c.updateTx n availEv).conn ∧ c.Keeps (c.updateTx n availEv).conn ∧
      (c.updateTx n availEv).aborted = false := by
  have hroom := h.room
  have hsub : (c.txbSent - n).toNat = c.txbSent.toNat - n.toNat := sub_toNat (by omega)
  have hsame : ∀ ha : c.txeosAlloc = false, c.txeosAlloc = true → c.txbBump ≠ 0 := fun ha ha' =>
    absurd (ha.symm.trans ha') Bool.false_ne_true
  unfold Conn.updateTx
  split
  · next hpos =>
    have hpos' : 0 < n.toNat := UInt32.lt_iff_toNat_lt.mp hpos
    have hack : c.txeosAck = false := by
      cases hack : c.txeosAck with
      | false => rfl
      | true =>
        have hzero := (h.acked hack).2
        rw [hzero, toNat_zero] at hn
        omega
    have h₁ : Conn.Inv rxLen txLen { c with txbSent := c.txbSent - n } := by
      refine ⟨?_, ?_, h.opened, h.fresh, h.alloc, h.closed, fun hcon => ?_⟩
      · dsimp only
        omega
      · dsimp only
        omega
      · exact absurd (hack.symm.trans hcon) Bool.false_ne_true
    have hm₁ : c.Moves 0 n.toNat { c with txbSent := c.txbSent - n } := by
      refine ⟨rfl, ?_, rfl, fun ha => ⟨ha, rfl⟩, hsame⟩
      dsimp only
      omega
    dsimp only
    split
    · next heos =>
      rw [Bool.and_eq_true, Bool.not_eq_true'] at heos
      obtain ⟨heos, halloc⟩ := heos
      have hnone : c.txbAllocated = 0 := h.closed heos
      split
      · next hpush =>
        refine absurd hpush (pushtxeos_ne_none ?_)
        dsimp only
        omega
      next c₂ hpush =>
      obtain ⟨h₂, hm₂, hk₂⟩ := h₁.pushtxeos heos halloc hpush
      refine ⟨h₂, by simpa using hm₁.trans hm₂, ⟨hk₂.status, hk₂.core⟩, ?_⟩
      simp [txSendbytes, hnone]
    split
    · next hlast =>
      rw [Bool.and_eq_true, beq_iff_eq] at hlast
      exact ⟨{ h₁ with acked := fun _ => ⟨hlast.1, hlast.2⟩ },
          hm₁.congr rfl rfl rfl rfl rfl rfl, ⟨rfl, rfl⟩, hack⟩
    · exact ⟨h₁, hm₁, ⟨rfl, rfl⟩, by simp [hack]⟩
  · next hzero =>
    have hn0 : n = 0 := not_not.mp (mt UInt32.pos_iff_ne_zero.mpr hzero)
    subst hn0
    exact ⟨h, Conn.Moves.refl c, ⟨rfl, rfl⟩, rfl⟩

theorem updateTx_events (c : Conn) (n : UInt32) (availEv : Bool) :
    (c.updateTx n availEv).events = some (if n > 0 then (if availEv then [.sendbuf] else []) ++
      (if c.txeosAlloc && c.txbSent - n == 0 then [.txclosed] else []) else []) := by
  unfold updateTx
  split
  · dsimp only
    split
    · next heos =>
      rw [Bool.and_eq_true, Bool.not_eq_true'] at heos
      rw [heos.2, Bool.false_and, if_neg Bool.false_ne_true, List.append_nil]
      split
      · rfl
      · rfl
    split
    · rfl
    · rw [List.append_nil]
  · rfl

theorem arxConnupdate_opened (hopened : c.status = .opened) (inev : Arx) (outn : ℕ)
    (core : UInt16) :
    let c₀ := { c with fnCore := core }
    let out := (c₀.updateRx inev.rxBump).1.updateTx inev.txBump (c₀.txAvailEv inev.txBump)
    c.arxConnupdate inev outn core =
      if c₀.evsNeeded inev > outn then { conn := c₀, events := none }
      else
        { out with
          conn := if inev.rxDone then { out.conn with rxClosed := true } else out.conn
          events := out.events.map fun txEvents => (c₀.updateRx inev.rxBump).2 ++ txEvents ++
            if inev.rxDone then [.rxclosed] else [] } := by
  simp only [arxConnupdate, hopened]

theorem arxConnupdate_mark {inev : Arx} {outn : ℕ} {core : UInt16}
    (h : (c.arxConnupdate inev outn core).mark = true) : c.status = .opened := by
  unfold arxConnupdate at h
  cases hs : c.status with
  | opened => rfl
  | closed => simp [hs] at h
  | openRequested => simp [hs] at h
  | acceptRequested => simp [hs] at h
  | closeRequested => simp [hs] at h

theorem Inv.arxConnupdate (h : c.Inv rxLen txLen) {inev : Arx}
    (hrx : c.rxbUsed.toNat + inev.rxBump.toNat < 2 ^ 32)
    (htx : c.txbBump.toNat + inev.txBump.toNat ≤ c.txbSent.toNat) (outn : ℕ) (core : UInt16) :
    (c.arxConnupdate inev outn core).conn.Inv rxLen txLen ∧
      (c.arxConnupdate inev outn core).aborted = false ∧
      Conn.Keeps { c with fnCore := core } (c.arxConnupdate inev outn core).conn ∧
      (((c.arxConnupdate inev outn core).events = none ∧
          c.Moves 0 0 (c.arxConnupdate inev outn core).conn) ∨
        ((c.arxConnupdate inev outn core).events.isSome ∧
          c.Moves inev.rxBump.toNat inev.txBump.toNat (c.arxConnupdate inev outn core).conn)) := by
  set c₀ : Conn := { c with fnCore := core } with hc₀
  have h₀ : c₀.Inv rxLen txLen :=
    { h with }
  have hm₀ : c.Moves 0 0 c₀ := (Conn.Moves.refl c).congr rfl rfl rfl rfl rfl rfl
  have hearly : c.status ≠ .opened → inev.txBump = 0 := by
    intro hne
    have hroom := h.room
    rw [(h.fresh hne).2.1, toNat_zero] at hroom
    rw [← toNat_inj, toNat_zero]
    omega
  by_cases hopened : c.status = .opened
  · rw [arxConnupdate_opened hopened]
    split
    · exact ⟨h₀, rfl, ⟨rfl, rfl⟩, Or.inl ⟨rfl, hm₀⟩⟩
    obtain ⟨h₁, hm₁, hk₁, hsent, hbump⟩ := h₀.updateRx (n := inev.rxBump) hrx
    obtain ⟨h₂, hm₂, hk₂, habort⟩ := h₁.updateTx (n := inev.txBump)
      (by rw [hsent, hbump]; exact htx) (c₀.txAvailEv inev.txBump)
    have hm : c.Moves inev.rxBump.toNat inev.txBump.toNat
        ((c₀.updateRx inev.rxBump).1.updateTx inev.txBump (c₀.txAvailEv inev.txBump)).conn := by
      simpa using hm₀.trans (hm₁.trans hm₂)
    have hevents : ((c₀.updateRx inev.rxBump).1.updateTx inev.txBump
        (c₀.txAvailEv inev.txBump)).events.isSome := by
      rw [updateTx_events]
      rfl
    have hstatus := hk₂.status.trans hk₁.status
    have hcore := hk₂.core.trans hk₁.core
    rw [Option.isSome_map]
    split
    · exact ⟨{ h₂ with }, habort,
        ⟨hstatus, hcore⟩, Or.inr ⟨hevents, hm.congr rfl rfl rfl rfl rfl rfl⟩⟩
    · exact ⟨h₂, habort, ⟨hstatus, hcore⟩, Or.inr ⟨hevents, hm⟩⟩
  · have hzero := hearly hopened
    have hadd := add_toNat hrx
    obtain ⟨hstatus, -⟩ := h.fresh hopened
    have hout : c.arxConnupdate inev outn core =
        { conn :=
            { c₀ with
              rxClosed := inev.rxDone
              rxbHead := c.rxbHead + inev.rxBump
              rxbUsed := c.rxbUsed + inev.rxBump }
          events := some []
          aborted := inev.txBump != 0 } := by
      rcases hstatus with hstatus | hstatus
      · simp only [Conn.arxConnupdate, hstatus, hc₀]
      · simp only [Conn.arxConnupdate, hstatus, hc₀]
    rw [hout, hzero]
    refine ⟨{ h with }, rfl, ⟨rfl, rfl⟩,
      Or.inr ⟨rfl, ?_, rfl, rfl, fun ha => ⟨ha, rfl⟩, fun hno hyes => ?_⟩⟩
    · change (c.rxbUsed + inev.rxBump).toNat + c.rxbBump.toNat = _
      omega
    · exact absurd (hno.symm.trans hyes) Bool.false_ne_true

theorem Inv.mark (h : c.Inv rxLen txLen) (hopened : c.status = .opened) (mark : Bool) :
    (c.mark mark).Inv rxLen txLen :=
  { h with fresh := fun hne => absurd hopened hne }

theorem Moves.mark {rx tx : ℕ} (h : c.Moves rx tx c') (mark : Bool) :
    c.Moves rx tx (c'.mark mark) :=
  h.congr rfl rfl rfl rfl rfl rfl

end Conn

end StackBench.Tas

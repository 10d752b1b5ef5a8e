import StackBench.Lib.Run
import StackBench.Tas.Libtas

/-!
# Receiving on a TAS socket

`ev_conn_received` and `ev_conn_rxclosed` of `context.c`, `recv_simple` and
`tas_recvmsg` of `transfer.c`. A socket keeps the unread bytes as at most two
ranges of addresses, and tells from the address of new bytes which range they
extend.
-/

open List

namespace StackBench.Tas

inductive SocStatus where
  | connecting
  | connected
  | failed
  | closed
deriving DecidableEq

/-- The receive part of a `SOCK_CONNECTION` socket; `0` is the null pointer. -/
structure RecvSock where
  status : SocStatus
  rxBuf1 : ℕ
  rxBuf2 : ℕ
  rxLen1 : ℕ
  rxLen2 : ℕ
  rxClosed : Bool
  aborted : Bool
deriving DecidableEq

inductive RecvErr where
  | enotconn
  | eagain
deriving DecidableEq

variable {data : List UInt8} {n : ℕ}

namespace RecvSock

variable (s : RecvSock)

/-- `ev_conn_received` for `len` bytes at the address `buf`. -/
def evConnReceived (buf len : ℕ) : RecvSock :=
  if s.status = .closed then
    -- ignore data on socket we have already closed
    s
  else if s.status ≠ .connected then { s with aborted := true }
  else if s.rxLen1 = 0 then
    -- no data currently ready on socket
    { s with rxLen1 := len, rxBuf1 := buf, rxLen2 := 0 }
  else if s.rxLen2 = 0 ∧ buf = s.rxBuf1 + s.rxLen1 then
    -- append to previous location 1
    { s with rxLen1 := s.rxLen1 + len }
  else if buf = s.rxBuf2 + s.rxLen2 then
    -- append to previous location 2
    { s with rxLen2 := s.rxLen2 + len }
  else if s.rxLen2 ≠ 0 then { s with aborted := true }
  else { s with rxLen2 := len, rxBuf2 := buf }

/-- `ev_conn_rxclosed` on a socket that is not being closed. -/
def evConnRxclosed : RecvSock :=
  if s.status = .connected ∨ s.status = .closed then { s with rxClosed := true }
  else { s with aborted := true }

/-- The second range takes the place of the first one. -/
def promote : RecvSock :=
  { s with rxBuf1 := s.rxBuf2, rxLen1 := s.rxLen2, rxBuf2 := 0, rxLen2 := 0 }

/-- The first `n` bytes of the first range are done. -/
def advance (n : ℕ) : RecvSock :=
  { s with rxBuf1 := s.rxBuf1 + n, rxLen1 := s.rxLen1 - n }

/-- The source of a `memcpy` of `n` bytes, `load` being the memory. -/
def bytes (load : ℕ → UInt8) (buf n : ℕ) : List UInt8 := (List.range n).map fun k => load (buf + k)

/-- The copy to `len` bytes: the whole first range if it fits, and then of what is first then. -/
def copy (load : ℕ → UInt8) (len : ℕ) : RecvSock × List UInt8 :=
  let off := if s.rxLen1 ≤ len then s.rxLen1 else 0
  let out := bytes load s.rxBuf1 off
  let s := if s.rxLen1 ≤ len then s.promote else s
  let len₂ := min s.rxLen1 (len - off)
  (s.advance len₂, out ++ bytes load s.rxBuf1 len₂)

/-- The copy loop of `tas_recvmsg`, with the bytes that each entry got. -/
def copyVec (load : ℕ → UInt8) : RecvSock → List UInt64 → RecvSock × List (List UInt8)
  | s, [] => (s, [])
  | s, len :: iov =>
    if 0 < s.rxLen1 then
      let r := s.copy load len.toNat
      let rest := copyVec load r.1 iov
      (rest.1, r.2 :: rest.2)
    else (s, [])

/-- `recv_simple`. Its polls are events of their own; the call here is its last look at the socket.
-/
def recvSimple (load : ℕ → UInt8) (len : UInt64) : Except RecvErr (RecvSock × List UInt8) :=
  if s.status ≠ .connected then .error .enotconn
  else if len = 0 then .ok (s, [])
  else if s.rxLen1 = 0 ∧ s.rxClosed = false then .error .eagain
  else .ok (s.copy load len.toNat)

/-- `tas_recvmsg` for an array of entries of the given lengths. -/
def recvmsg (load : ℕ → UInt8) (iov : List UInt64) :
    Except RecvErr (RecvSock × List (List UInt8)) :=
  if s.status ≠ .connected then .error .enotconn
  else if iov.foldl (fun len v => len + v) 0 = 0 then .ok (s, [])
  else if s.rxLen1 = 0 ∧ s.rxClosed = false then .error .eagain
  else .ok (copyVec load s iov)

/-- The socket without the addresses of its empty ranges. -/
def live : RecvSock :=
  { s with
    rxBuf1 := if s.rxLen1 = 0 then 0 else s.rxBuf1
    rxBuf2 := if s.rxLen2 = 0 then 0 else s.rxBuf2 }

/-- The two ranges are the stream `S` from `c` on, in a buffer of `L` bytes at `base`. -/
structure Layout (S : List UInt8) (L : ℕ) (mem : ℕ → UInt8) (base c : ℕ) (s : RecvSock) : Prop where
  total : c + s.rxLen1 + s.rxLen2 = S.length
  fits : s.rxLen1 + s.rxLen2 ≤ L
  holds : Circular.Holds S L mem c S.length
  second : s.rxLen1 = 0 → s.rxLen2 = 0
  buf1 : 0 < s.rxLen1 → s.rxBuf1 = base + c % L ∧ c % L + s.rxLen1 ≤ L
  buf2 : 0 < s.rxLen2 → s.rxBuf2 = base ∧ c % L + s.rxLen1 = L

variable {S : List UInt8} {L base c : ℕ} {mem : ℕ → UInt8} {s}

/-- The bytes at an address of the receive buffer. -/
def bufferAt (base : ℕ) (mem : ℕ → UInt8) (addr : ℕ) : UInt8 := mem (addr - base)

section

variable (h : Layout S L mem base c s)
include h

theorem Layout.bytes_eq (hn : n ≤ s.rxLen1) :
    bytes (bufferAt base mem) s.rxBuf1 n = (S.drop c).take n := by
  rcases Nat.eq_zero_or_pos n with rfl | hpos
  · simp [bytes]
  obtain ⟨hbuf, hend⟩ := h.buf1 (by omega)
  have htotal := h.total
  calc
    bytes (bufferAt base mem) s.rxBuf1 n = (List.range n).map fun k => mem (c % L + k) := by
      simp [bytes, bufferAt, hbuf, Nat.add_assoc]
    _ = Circular.read L mem (c % L) n := Circular.read_of_le mem (by omega)
    _ = (S.drop c).take n := (h.holds.mono le_rfl (by omega)).read_eq

theorem Layout.promote : Layout S L mem base (c + s.rxLen1) s.promote where
  total := by simpa [RecvSock.promote] using h.total
  fits := (Nat.le_add_left _ _).trans h.fits
  holds := h.holds.mono (Nat.le_add_right _ _) le_rfl
  second _ := rfl
  buf1 := by
    intro hpos
    obtain ⟨hbuf, hend⟩ := h.buf2 hpos
    have hzero : (c + s.rxLen1) % L = 0 := by rw [← Nat.mod_add_mod, hend, Nat.mod_self]
    have hfits := h.fits
    simp only [RecvSock.promote, hzero, Nat.add_zero, Nat.zero_add]
    exact ⟨hbuf, by omega⟩
  buf2 := by simp [RecvSock.promote]

theorem Layout.advance (hn : n < s.rxLen1 ∨ n = s.rxLen1 ∧ s.rxLen2 = 0) :
    Layout S L mem base (c + n) (s.advance n) := by
  have htotal := h.total
  have hfits := h.fits
  refine ⟨?_, ?_, h.holds.mono (Nat.le_add_right _ _) le_rfl, ?_, ?_, ?_⟩
  · simp only [RecvSock.advance]
    omega
  · simp only [RecvSock.advance]
    omega
  · simp only [RecvSock.advance]
    omega
  · intro hpos
    simp only [RecvSock.advance] at hpos ⊢
    obtain ⟨hbuf, hend⟩ := h.buf1 (by omega)
    rw [Circular.mod_add_low (by omega)]
    omega
  · intro hpos
    simp only [RecvSock.advance] at hpos ⊢
    obtain ⟨hbuf, hend⟩ := h.buf2 hpos
    rw [Circular.mod_add_low (by omega)]
    omega

theorem Layout.copy (len : ℕ) : (s.copy (bufferAt base mem) len).2 = (S.drop c).take len ∧
      Layout S L mem base (c + min len (S.length - c)) (s.copy (bufferAt base mem) len).1 := by
  have htotal := h.total
  by_cases hle : s.rxLen1 ≤ len
  · -- the first range is handed out whole, the second one as far as it goes
    have hn : min s.promote.rxLen1 (len - s.rxLen1) ≤ s.promote.rxLen1 := Nat.min_le_left _ _
    have hcount : s.rxLen1 + min s.promote.rxLen1 (len - s.rxLen1) = min len (S.length - c) := by
      simp only [RecvSock.promote]
      omega
    simp only [RecvSock.copy, hle, reduceIte]
    constructor
    · rw [h.bytes_eq le_rfl, h.promote.bytes_eq hn, ← drop_drop, ← take_add, hcount,
        take_eq_take_iff, length_drop]
      omega
    · rw [← hcount, ← Nat.add_assoc]
      apply h.promote.advance
      have : s.promote.rxLen2 = 0 := rfl
      omega
  have hmin : min s.rxLen1 len = len := by omega
  simp only [RecvSock.copy, hle, reduceIte, Nat.sub_zero, hmin]
  constructor
  · rw [h.bytes_eq (Nat.zero_le _), h.bytes_eq (by omega), take_zero, nil_append]
  · rw [show min len (S.length - c) = len by omega]
    exact h.advance (.inl (by omega))

end

/-- Each entry takes as much of `data` as it can hold; entries after the last byte are not touched.
-/
def scatter : List UInt8 → List ℕ → List (List UInt8)
  | _, [] => []
  | [], _ :: _ => []
  | b :: data, len :: lens => (b :: data).take len :: scatter ((b :: data).drop len) lens

theorem scatter_flatten (data : List UInt8) (lens : List ℕ) :
    (scatter data lens).flatten = data.take lens.sum := by
  fun_induction scatter data lens with
  | case1 data => simp
  | case2 len lens => simp
  | case3 b data len lens ih => rw [flatten_cons, ih, sum_cons, ← take_add]

section

variable (h : Layout S L mem base c s)
include h

theorem Layout.copyVec (iov : List UInt64) :
    (RecvSock.copyVec (bufferAt base mem) s iov).2 = scatter (S.drop c) (iov.map UInt64.toNat) ∧
      Layout S L mem base (c + min (iov.map UInt64.toNat).sum (S.length - c))
        (RecvSock.copyVec (bufferAt base mem) s iov).1 := by
  have htotal := h.total
  induction iov generalizing s c with
  | nil => exact ⟨by simp [RecvSock.copyVec, scatter], by simpa [RecvSock.copyVec] using h⟩
  | cons len iov ih =>
    have hsecond := h.second
    rw [RecvSock.copyVec]
    split
    · next hpos =>
      obtain ⟨hout, hcopy⟩ := h.copy len.toNat
      obtain ⟨hrest, hlayout⟩ := ih hcopy hcopy.total
      constructor
      · obtain ⟨b, data, hdata⟩ : ∃ b data, S.drop c = b :: data :=
          exists_cons_of_length_pos (by rw [length_drop]; omega)
        have hdrop :
            S.drop (c + min len.toNat (S.length - c)) = (b :: data).drop len.toNat := by
          rw [← drop_drop, hdata, ← length_drop, hdata, drop_eq_drop_iff]
          omega
        simp only [hout, hrest, hdrop, map_cons, hdata, scatter]
      · simp only [map_cons, sum_cons]
        convert hlayout using 1
        omega
    next hzero =>
    have hnil : S.drop c = [] := drop_eq_nil_of_le (by omega)
    rw [hnil]
    refine ⟨rfl, ?_⟩
    rw [show S.length - c = 0 by omega]
    simpa using h

/-- The first range goes on until the end of the buffer, and the second one starts at its start. -/
theorem Layout.next_addr (hpos : 0 < s.rxLen1) :
    s.rxLen2 = 0 ∧ c % L + s.rxLen1 < L ∧ S.length % L = c % L + s.rxLen1 ∨
      c % L + s.rxLen1 = L ∧ S.length % L = s.rxLen2 := by
  obtain ⟨-, hend⟩ := h.buf1 hpos
  have htotal := h.total
  have hfits := h.fits
  rcases Nat.lt_or_ge (c % L + s.rxLen1) L with hlt | hge
  · have hzero : s.rxLen2 = 0 := by
      by_contra hne
      have := (h.buf2 (Nat.pos_of_ne_zero hne)).2
      omega
    refine .inl ⟨hzero, hlt, ?_⟩
    rw [← htotal, hzero, Nat.add_zero, Circular.mod_add_low hlt]
  refine .inr ⟨by omega, ?_⟩
  have hmod : (c + s.rxLen1) % L = 0 := by
    rw [← Nat.mod_add_mod, show c % L + s.rxLen1 = L by omega, Nat.mod_self]
  rw [← htotal, ← Nat.mod_add_mod, hmod, Nat.zero_add, Nat.mod_eq_of_lt (by omega)]

theorem Layout.grow (hpos : S.length % L + data.length ≤ L)
    (hfits : s.rxLen1 + s.rxLen2 + data.length ≤ L) {s' : RecvSock}
    (htotal : s'.rxLen1 + s'.rxLen2 = s.rxLen1 + s.rxLen2 + data.length)
    (hsecond : s'.rxLen1 = 0 → s'.rxLen2 = 0)
    (hbuf1 : 0 < s'.rxLen1 → s'.rxBuf1 = base + c % L ∧ c % L + s'.rxLen1 ≤ L)
    (hbuf2 : 0 < s'.rxLen2 → s'.rxBuf2 = base ∧ c % L + s'.rxLen1 = L) :
    Layout (S ++ data) L (Circular.store mem (S.length % L) data) base c s' := by
  have hold := h.total
  have hholds := h.holds.append_written (Circular.written_store mem hpos) (by omega) (by omega)
  refine ⟨?_, by omega, hholds, hsecond, hbuf1, hbuf2⟩
  rw [length_append]
  omega

theorem Layout.evConnReceived (hstatus : s.status = .connected)
    (hpos : S.length % L + data.length ≤ L) (hfits : s.rxLen1 + s.rxLen2 + data.length ≤ L) :
    (s.evConnReceived (base + S.length % L) data.length).aborted = s.aborted ∧
      Layout (S ++ data) L (Circular.store mem (S.length % L) data) base c
        (s.evConnReceived (base + S.length % L) data.length) := by
  have hsecond := h.second
  have htotal := h.total
  simp only [RecvSock.evConnReceived, hstatus, reduceCtorEq, ne_eq, not_true_eq_false, reduceIte]
  by_cases h₁ : s.rxLen1 = 0
  · -- the stream was read to its end
    simp only [h₁, reduceIte]
    refine ⟨trivial, h.grow hpos hfits ?_ ?_ ?_ ?_⟩ <;> dsimp only <;> grind
  obtain ⟨hbuf, -⟩ := h.buf1 (by omega)
  simp only [h₁, reduceIte]
  rcases h.next_addr (by omega) with ⟨hzero, hlt, haddr⟩ | ⟨hfull, haddr⟩
  · -- the first range has not reached the end of the buffer
    have happend : s.rxLen2 = 0 ∧ base + S.length % L = s.rxBuf1 + s.rxLen1 := by omega
    rw [if_pos happend]
    refine ⟨rfl, h.grow hpos hfits ?_ ?_ ?_ ?_⟩ <;> dsimp only <;> omega
  -- the first range ends with the buffer: an old address of the second one is harmless
  have hother : ¬(s.rxLen2 = 0 ∧ base + S.length % L = s.rxBuf1 + s.rxLen1) := by omega
  split_ifs with hbuf₂ h₂
  · refine ⟨rfl, h.grow hpos hfits ?_ ?_ ?_ ?_⟩ <;> dsimp only <;> omega
  · refine ⟨rfl, h.grow hpos hfits ?_ ?_ ?_ ?_⟩ <;> dsimp only <;> omega
  · have := (h.buf2 (by omega)).1
    omega

end

theorem copy_flags (s : RecvSock) (load : ℕ → UInt8) (len : ℕ) :
    (s.copy load len).1.status = s.status ∧ (s.copy load len).1.rxClosed = s.rxClosed ∧
      (s.copy load len).1.aborted = s.aborted := by
  simp only [copy]
  split <;> exact ⟨rfl, rfl, rfl⟩

theorem copyVec_flags (s : RecvSock) (load : ℕ → UInt8) (iov : List UInt64) :
    (copyVec load s iov).1.status = s.status ∧ (copyVec load s iov).1.rxClosed = s.rxClosed ∧
      (copyVec load s iov).1.aborted = s.aborted := by
  induction iov generalizing s with
  | nil => exact ⟨rfl, rfl, rfl⟩
  | cons len iov ih =>
    rw [copyVec]
    split
    · obtain ⟨hstatus, hclosed, haborted⟩ := copy_flags s load len.toNat
      obtain ⟨hstatus', hclosed', haborted'⟩ := ih (s.copy load len.toNat).1
      exact ⟨hstatus'.trans hstatus, hclosed'.trans hclosed, haborted'.trans haborted⟩
    · exact ⟨rfl, rfl, rfl⟩

end RecvSock

open RecvSock (bufferAt copyVec scatter scatter_flatten)

/-- A socket, its connection and buffer, all bytes announced and all bytes returned. -/
structure RecvWorld where
  conn : Conn
  base : ℕ
  mem : ℕ → UInt8
  sock : RecvSock
  received : List UInt8
  returned : List UInt8

/-- An event, whose bytes are then in the receive buffer, or a call of the application. -/
inductive RecvOp where
  | received (data : List UInt8)
  | rxclosed
  | recvSimple (len : UInt64)
  | recvmsg (iov : List UInt64)

namespace RecvWorld

/-- A connected socket on an empty receive buffer. Its two ranges are empty and
their addresses not set. -/
def start (conn : Conn) (base : ℕ) (mem : ℕ → UInt8) (buf₁ buf₂ : ℕ) : RecvWorld where
  conn := conn
  base := base
  mem := mem
  sock := ⟨.connected, buf₁, buf₂, 0, 0, false, false⟩
  received := []
  returned := []

variable (w : RecvWorld)

/-- The place of the next byte of the stream in the receive buffer. -/
def pos : ℕ := w.received.length % w.conn.rxbLen.toNat

/-- The bytes of the stream that no call has returned. -/
def unread : List UInt8 := w.received.drop w.returned.length

def recvSimple (w : RecvWorld) (len : UInt64) : Except RecvErr (RecvSock × List UInt8) :=
  w.sock.recvSimple (bufferAt w.base w.mem) len

def recvmsg (w : RecvWorld) (iov : List UInt64) : Except RecvErr (RecvSock × List (List UInt8)) :=
  w.sock.recvmsg (bufferAt w.base w.mem) iov

/-- What was copied goes back by `flextcp_connection_rx_done`, whose return value is ignored. -/
def finish (sock : RecvSock) (out : List UInt8) : RecvWorld :=
  { w with
    sock := sock
    conn :=
      if 0 < out.length then
        match w.conn.rxDone out.length with
        | none => w.conn
        | some (conn, _) => conn
      else w.conn
    returned := w.returned ++ out }

def step : RecvOp → RecvWorld
  | .received data =>
    { w with
      conn := { w.conn with rxbUsed := w.conn.rxbUsed + UInt32.ofNat data.length }
      mem := Circular.store w.mem w.pos data
      sock := w.sock.evConnReceived (w.base + w.pos) data.length
      received := w.received ++ data }
  | .rxclosed => { w with sock := w.sock.evConnRxclosed }
  | .recvSimple len =>
    match w.recvSimple len with
    | .error _ => w
    | .ok (sock, out) => w.finish sock out
  | .recvmsg iov =>
    match w.recvmsg iov with
    | .error _ => w
    | .ok (sock, outs) => w.finish sock outs.flatten

/-- Events announce consecutive pieces of the receive buffer, and never more
than it holds. -/
def Piece : RecvOp → Prop
  | .received data =>
    w.pos + data.length ≤ w.conn.rxbLen.toNat ∧
      w.conn.rxbUsed.toNat + data.length ≤ w.conn.rxbLen.toNat
  | .rxclosed | .recvSimple _ | .recvmsg _ => True

instance (w : RecvWorld) : DecidablePred w.Piece := fun op => by
  cases op <;> dsimp only [Piece] <;> infer_instance

/-- The number of bytes that the entries have room for. -/
def room (iov : List UInt64) : ℕ := (iov.map UInt64.toNat).sum

/-- The room of the entries does not overflow to `0`. -/
def Countable (iov : List UInt64) : Prop := room iov % 2 ^ 64 = 0 → room iov = 0

/-- What a call for `total` bytes is to return. -/
def due (total : ℕ) : Except RecvErr (List UInt8) :=
  if total = 0 then .ok []
  else if w.unread = [] ∧ w.sock.rxClosed = false then .error .eagain
  else .ok (w.unread.take total)

/-- The receive path works, for arrays of entries of the kind `P`. -/
structure Delivers (w : RecvWorld) (P : List UInt64 → Prop) : Prop where
  noAbort : w.sock.aborted = false
  inOrder : w.returned ++ w.unread = w.received
  simple : ∀ len, (w.recvSimple len).map (·.2) = w.due len.toNat
  msg : ∀ iov, P iov → (w.recvmsg iov).map (·.2.flatten) = w.due (room iov)
  entries : ∀ iov sock outs, P iov → 0 < room iov → w.recvmsg iov = .ok (sock, outs) →
    outs = scatter w.unread (iov.map UInt64.toNat)
  single : ∀ len, (w.recvmsg [len]).map (fun r => (r.1.live, r.2.flatten)) =
    (w.recvSimple len).map fun r => (r.1.live, r.2)
  eofSimple : ∀ len sock, len ≠ 0 → w.recvSimple len = .ok (sock, []) →
    w.sock.rxClosed = true ∧ w.unread = []
  eofMsg : ∀ iov sock outs, P iov → 0 < room iov → w.recvmsg iov = .ok (sock, outs) →
    outs.flatten = [] → w.sock.rxClosed = true ∧ w.unread = []

/-- The socket, the connection and the buffer agree on what is unread. -/
structure Inv (w : RecvWorld) : Prop where
  status : w.sock.status = .connected
  noAbort : w.sock.aborted = false
  inOrder : w.returned <+: w.received
  layout : w.sock.Layout w.received w.conn.rxbLen.toNat w.mem w.base w.returned.length
  used : w.conn.rxbUsed.toNat = w.sock.rxLen1 + w.sock.rxLen2

variable {w}

theorem foldl_len (iov : List UInt64) (len : UInt64) :
    (iov.foldl (fun len v => len + v) len).toNat = (len.toNat + room iov) % 2 ^ 64 := by
  induction iov generalizing len with
  | nil => simp [room]
  | cons v iov ih =>
    rw [foldl_cons, ih, UInt64.toNat_add]
    simp [room, Nat.add_assoc]

theorem foldl_len_eq_zero {iov : List UInt64} (hiov : Countable iov) :
    iov.foldl (fun len v => len + v) 0 = 0 ↔ room iov = 0 := by
  rw [← UInt64.toNat_inj, foldl_len]
  simp only [UInt64.toNat_zero, Nat.zero_add]
  exact ⟨hiov, fun h => by rw [h, Nat.zero_mod]⟩

namespace Inv

theorem inOrder_eq (h : Inv w) : w.returned ++ w.unread = w.received := by
  obtain ⟨rest, hrest⟩ := h.inOrder
  rw [unread, ← hrest, drop_left]

theorem length_unread (h : Inv w) : w.unread.length = w.sock.rxLen1 + w.sock.rxLen2 := by
  have := h.layout.total
  rw [unread, length_drop]
  omega

theorem unread_eq_nil (h : Inv w) : w.unread = [] ↔ w.sock.rxLen1 = 0 := by
  have hsecond := h.layout.second
  rw [← length_eq_zero_iff, h.length_unread]
  omega

theorem start {conn : Conn} (hused : conn.rxbUsed = 0) (base : ℕ) (mem : ℕ → UInt8)
    (buf₁ buf₂ : ℕ) : Inv (start conn base mem buf₁ buf₂) where
  status := rfl
  noAbort := rfl
  inOrder := prefix_rfl
  layout := ⟨rfl, Nat.zero_le _, Circular.Holds.empty _ _ _ _, fun _ => rfl, nofun, nofun⟩
  used := by simp [RecvWorld.start, hused]

section

variable (h : Inv w)
include h

theorem finish {sock : RecvSock} (hlayout : sock.Layout w.received w.conn.rxbLen.toNat w.mem w.base
      (w.returned.length + min n (w.received.length - w.returned.length)))
    (hflags : sock.status = w.sock.status ∧ sock.rxClosed = w.sock.rxClosed ∧
      sock.aborted = w.sock.aborted) : Inv (w.finish sock (w.unread.take n)) := by
  have hlen : (w.unread.take n).length = min n (w.received.length - w.returned.length) := by
    rw [length_take, unread, length_drop]
  have htotal := h.layout.total
  have htotal' := hlayout.total
  have hused := h.used
  have hword := w.conn.rxbUsed.toNat_lt
  have hprefix : w.returned ++ w.unread.take n <+: w.received := by
    rw [← h.inOrder_eq, prefix_append_right_inj]
    exact take_prefix n w.unread
  by_cases hpos : 0 < (w.unread.take n).length
  · have hdone : ¬ w.conn.rxbUsed.toNat < (w.unread.take n).length := by omega
    simp only [RecvWorld.finish, hpos, reduceIte, Conn.rxDone, hdone]
    refine ⟨hflags.1.trans h.status, hflags.2.2.trans h.noAbort, hprefix, ?_, ?_⟩
    · rw [length_append, hlen]
      exact hlayout
    · have hofNat := UInt32.toNat_ofNat_of_lt' (show (w.unread.take n).length < 2 ^ 32 by omega)
      dsimp only
      rw [Word.sub_toNat] <;> omega
  simp only [RecvWorld.finish, hpos, reduceIte]
  refine ⟨hflags.1.trans h.status, hflags.2.2.trans h.noAbort, hprefix, ?_, ?_⟩
  · rw [length_append, hlen]
    exact hlayout
  · dsimp only
    omega

theorem received (hok : w.Piece (.received data)) : Inv (w.step (.received data)) := by
  obtain ⟨hpos, hroom⟩ := hok
  have hused := h.used
  have hword := w.conn.rxbLen.toNat_lt
  obtain ⟨habort, hlayout⟩ := h.layout.evConnReceived h.status hpos (by omega)
  have htotal := h.layout.total
  have htotal' := hlayout.total
  refine ⟨?_, habort.trans h.noAbort, h.inOrder.trans (prefix_append _ _), hlayout, ?_⟩
  · simp only [RecvWorld.step, RecvSock.evConnReceived, h.status]
    split_ifs <;> simp_all
  · rw [length_append] at htotal'
    have hofNat := UInt32.toNat_ofNat_of_lt' (show data.length < 2 ^ 32 by omega)
    simp only [RecvWorld.step, pos]
    rw [Word.add_toNat] <;> omega

theorem rxclosed : Inv (w.step .rxclosed) := by
  have hsock : w.sock.evConnRxclosed = { w.sock with rxClosed := true } := by
    simp [RecvSock.evConnRxclosed, h.status]
  simp only [RecvWorld.step, hsock]
  exact ⟨h.status, h.noAbort, h.inOrder, { h.layout with }, h.used⟩

theorem recvSimple_eq (len : UInt64) :
    w.recvSimple len =
      if len = 0 then .ok (w.sock, [])
      else if w.unread = [] ∧ w.sock.rxClosed = false then .error .eagain
      else
        .ok ((w.sock.copy (bufferAt w.base w.mem) len.toNat).1,
          w.unread.take len.toNat) := by
  have hcopy := (h.layout.copy len.toNat).1
  simp only [recvSimple, RecvSock.recvSimple, h.status, ne_eq, not_true_eq_false, reduceIte,
    h.unread_eq_nil]
  split_ifs
  · rfl
  · rfl
  · rw [unread, ← hcopy]

theorem recvmsg_eq (iov : List UInt64) :
    w.recvmsg iov =
      if iov.foldl (fun len v => len + v) 0 = 0 then .ok (w.sock, [])
      else if w.unread = [] ∧ w.sock.rxClosed = false then .error .eagain
      else
        .ok ((copyVec (bufferAt w.base w.mem) w.sock iov).1,
          scatter w.unread (iov.map UInt64.toNat)) := by
  have hcopy := (h.layout.copyVec iov).1
  simp only [recvmsg, RecvSock.recvmsg, h.status, ne_eq, not_true_eq_false, reduceIte,
    h.unread_eq_nil]
  split_ifs
  · rfl
  · rfl
  · rw [unread, ← hcopy]

theorem finish_nil : Inv (w.finish w.sock []) := by
  have hfinish := h.finish h.layout (n := 0) ⟨rfl, rfl, rfl⟩
  simpa using hfinish

theorem recvSimple (len : UInt64) : Inv (w.step (.recvSimple len)) := by
  simp only [RecvWorld.step, h.recvSimple_eq]
  split_ifs
  · exact h.finish_nil
  · exact h
  · exact h.finish (h.layout.copy len.toNat).2 (RecvSock.copy_flags _ _ _)

theorem recvmsg (iov : List UInt64) : Inv (w.step (.recvmsg iov)) := by
  simp only [RecvWorld.step, h.recvmsg_eq]
  split_ifs
  · exact h.finish_nil
  · exact h
  · dsimp only
    rw [scatter_flatten]
    exact h.finish (h.layout.copyVec iov).2 (RecvSock.copyVec_flags _ _ _)

theorem step {op : RecvOp} (hok : w.Piece op) : Inv (w.step op) := by
  cases op with
  | received data => exact h.received hok
  | rxclosed => exact h.rxclosed
  | recvSimple len => exact h.recvSimple len
  | recvmsg iov => exact h.recvmsg iov

theorem single (len : UInt64) : (w.recvmsg [len]).map (fun r => (r.1.live, r.2.flatten)) =
      (w.recvSimple len).map fun r => (r.1.live, r.2) := by
  have hsecond := h.layout.second
  have hsum : [len].foldl (fun len v => len + v) 0 = len := by simp
  rw [h.recvmsg_eq, h.recvSimple_eq, hsum]
  split_ifs
  · rfl
  · rfl
  · simp only [Except.map, scatter_flatten, map_cons, map_nil, sum_cons,
      sum_nil, Nat.add_zero, copyVec]
    congr 2
    split
    · rfl
    -- nothing is left to read, and only `recv_simple` moves its empty ranges
    next hzero =>
      have h₁ : w.sock.rxLen1 = 0 := by omega
      simp [RecvSock.live, RecvSock.copy, RecvSock.promote, RecvSock.advance, h₁, hsecond h₁]

end

/-- A call gets as far as copying nothing only at the end of the stream. -/
theorem eof_of_take_eq_nil (hwait : ¬(w.unread = [] ∧ w.sock.rxClosed = false)) (hn : 0 < n)
    (hout : w.unread.take n = []) : w.sock.rxClosed = true ∧ w.unread = [] := by
  have hnil : w.unread = [] := (take_eq_nil_iff.mp hout).resolve_left hn.ne'
  refine ⟨?_, hnil⟩
  by_contra hopen
  exact hwait ⟨hnil, Bool.eq_false_of_not_eq_true hopen⟩

theorem delivers (h : Inv w) : w.Delivers Countable where
  noAbort := h.noAbort
  inOrder := h.inOrder_eq
  simple len := by
    have hzero : len = 0 ↔ len.toNat = 0 := by rw [← UInt64.toNat_inj, UInt64.toNat_zero]
    rw [h.recvSimple_eq, due]
    simp only [hzero]
    split_ifs <;> rfl
  msg iov hiov := by
    rw [h.recvmsg_eq, due]
    simp only [foldl_len_eq_zero hiov]
    split_ifs
    · rfl
    · rfl
    · simp [Except.map, scatter_flatten, room]
  entries iov sock outs hiov hroom hcall := by
    rw [h.recvmsg_eq, if_neg (by rw [foldl_len_eq_zero hiov]; omega)] at hcall
    split_ifs at hcall
    cases hcall
    rfl
  single := h.single
  eofSimple len sock hlen hcall := by
    rw [h.recvSimple_eq, if_neg hlen] at hcall
    split_ifs at hcall with hwait
    simp only [Except.ok.injEq, Prod.mk.injEq] at hcall
    refine eof_of_take_eq_nil hwait (Nat.pos_of_ne_zero fun hzero => hlen ?_) hcall.2
    rwa [← UInt64.toNat_inj]
  eofMsg iov sock outs hiov hroom hcall hout := by
    rw [h.recvmsg_eq, if_neg (by rw [foldl_len_eq_zero hiov]; omega)] at hcall
    split_ifs at hcall with hwait
    simp only [Except.ok.injEq, Prod.mk.injEq] at hcall
    rw [← hcall.2, scatter_flatten] at hout
    exact eof_of_take_eq_nil hwait hroom hout

end Inv

/-- The `abort` is out of reach and the calls return the stream in order; the room of the entries
must not overflow to `0` for this. -/
theorem socket_receives (conn : Conn) (hused : conn.rxbUsed = 0) (base : ℕ) (mem : ℕ → UInt8)
    (buf₁ buf₂ : ℕ) (ops : List RecvOp)
    (hrun : Run.Admissible step Piece (start conn base mem buf₁ buf₂) ops) :
    (ops.foldl step (start conn base mem buf₁ buf₂)).Delivers Countable :=
  (hrun.invariant (Inv.start hused base mem buf₁ buf₂) fun _ _ h hok => h.step hok).delivers

def eightBytes : RecvWorld := start (Conn.opening 1 8 8 0 0) 4096 (fun _ => 0) 0 0

def wrappingRun : List RecvOp :=
  [.received [1, 2, 3, 4, 5, 6], .recvSimple 4, .received [7, 8], .received [9, 10, 11],
    .received [], .recvmsg [2, 0, 3], .rxclosed, .recvSimple 9, .recvmsg [1]]

theorem socket_receives_wrappingRun :
    Run.Admissible step Piece eightBytes wrappingRun ∧
      (wrappingRun.foldl step eightBytes).Delivers Countable :=
  have hrun : Run.Admissible step Piece eightBytes wrappingRun := by decide +kernel
  ⟨hrun, socket_receives (Conn.opening 1 8 8 0 0) rfl 4096 (fun _ => 0) 0 0 wrappingRun hrun⟩

example : (wrappingRun.foldl step eightBytes).returned = [1, 2, 3, 4, 5, 6, 7, 8, 9, 10, 11] := by
  decide +kernel

def hugeEntries : List UInt64 := [0x8000000000000000, 0x8000000000000000]

/-- With two entries of `2 ^ 63` bytes `tas_recvmsg` returns `0`, with a byte to read and the stream
open. -/
theorem recvmsg_room_overflows :
    Run.Admissible step Piece eightBytes [.received [7]] ∧
      ((eightBytes.step (.received [7])).recvmsg hugeEntries).map (·.2.flatten) = .ok [] ∧
      (eightBytes.step (.received [7])).unread = [7] ∧
      (eightBytes.step (.received [7])).sock.rxClosed = false ∧
      ¬ ([RecvOp.received [7]].foldl step eightBytes).Delivers fun _ => True := by
  have hcall : ((eightBytes.step (.received [7])).recvmsg hugeEntries).map (·.2.flatten) =
      .ok [] := by decide +kernel
  have hunread : (eightBytes.step (.received [7])).unread = [7] := rfl
  refine ⟨by decide +kernel, hcall, hunread, rfl, fun hall => ?_⟩
  have hmsg := hall.msg hugeEntries trivial
  revert hmsg
  decide +kernel

end RecvWorld

end StackBench.Tas

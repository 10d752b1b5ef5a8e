import StackBench.Lib.CString

/-!
# Requests of phttpd

`httptype`, `parse_post` and `phttpd_req` without a database, on the bytes of
the buffer. A read fills its start and leaves the bytes behind.
-/

namespace StackBench.Phttpd

open CString (ascii)

/-- `MAXQUERYLEN`, the size of the buffer. -/
def maxQueryLen : ℕ := 2099200

def skipPost : ℕ := 48

inductive Http where
  | none
  | post
  | get
deriving DecidableEq

def httptype : MemScan UInt8 Http := do
  if ← CString.startsWith (ascii "POST ") 0 then pure .post
  else if ← CString.startsWith (ascii "GET ") 0 then pure .get
  else pure .none

/-- What `parse_post` stores: where the content starts, how long it is, and how much of
it the read has. -/
structure Post where
  coff : ℕ
  clen : ℕ
  thisclen : ℕ
deriving DecidableEq

/-- `parse_post`, with 64-bit lengths. The outer `none`: the fuel ran out; the inner one: `-1`. -/
def parsePost (len fuel : ℕ) : MemScan UInt8 (Option (Option Post)) := do
  match ← CString.strstr (ascii "Content-Length: ") fuel skipPost with
  | none => pure none
  | some none => pure (some none)
  | some (some p) => do
      match ← CString.strtol fuel (p + 16) with
      | none => pure none
      | some none => pure (some none)
      | some (some clen) => do
          match ← CString.strstr (ascii "\r\n\r\n") fuel (p + 16) with
          | none => pure none
          | some none => pure (some none)
          | some (some q) =>
            pure (some (some ⟨q + 4, (clen % 2 ^ 64).toNat, (len + 2 ^ 64 - (q + 4)) % 2 ^ 64⟩))

/-- What a read is to `phttpd_req`. -/
inductive Request where
  | data
  | post (p : Post)
  | badPost
  | get
deriving DecidableEq

/-- The request in the buffer, of which the read has filled `len` bytes. -/
def request (len fuel : ℕ) : MemScan UInt8 (Option Request) := do
  match ← httptype with
  | .none => pure (some .data)
  | .get => pure (some .get)
  | .post => do
      match ← parsePost len fuel with
      | none => pure none
      | some none => pure (some .badPost)
      | some (some p) => pure (some (.post p))

/-- What `phttpd_req` does with `no_ok` and with the leftover counter `fde` of the
descriptor, an `int`. -/
def leftover (req : Request) (len : ℕ) (fde : Int) : Bool × Int :=
  match req with
  | .data =>
    if fde ≤ 0 then (true, 0)
    else if fde - len < 0 then (false, 0)
    else (decide (fde - len > 0), fde - len)
  | .badPost => (false, fde)
  | .post p =>
    if p.clen > p.thisclen then (true, Int.bmod (p.clen - p.thisclen) (2 ^ 32)) else (false, fde)
  | .get => (false, fde)

/-- The memory from the buffer on. Behind the buffer there is a zero byte, at `stop` at
the latest. -/
structure Buffer (stop : ℕ) where
  bytes : ℕ → UInt8
  ends : ∃ z, maxQueryLen ≤ z ∧ z ≤ stop ∧ bytes z = 0

def blank : Buffer maxQueryLen := ⟨fun _ => 0, maxQueryLen, Nat.le_refl _, Nat.le_refl _, rfl⟩

/-- Bytes that fit into the buffer. -/
structure Chunk where
  bytes : List UInt8
  fits : bytes.length ≤ maxQueryLen

/-- Memory after a write at the start of the buffer. -/
def overlay (data : List UInt8) (mem : ℕ → UInt8) : ℕ → UInt8 := fun i => data.getD i (mem i)

theorem overlay_of_lt {data : List UInt8} {mem mem' : ℕ → UInt8} {i : ℕ} (hi : i < data.length) :
    overlay data mem i = overlay data mem' i := by
  simp [overlay, hi]

theorem overlay_of_le {data : List UInt8} {mem : ℕ → UInt8} {i : ℕ} (hi : data.length ≤ i) :
    overlay data mem i = mem i := by
  simp [overlay, hi]

def Buffer.write {stop : ℕ} (b : Buffer stop) (c : Chunk) : Buffer stop where
  bytes := overlay c.bytes b.bytes
  ends := by
    obtain ⟨z, hle, hstop, hz⟩ := b.ends
    exact ⟨z, hle, hstop, (overlay_of_le (Nat.le_trans c.fits hle)).trans hz⟩

section Ends

variable {stop : ℕ} {mem : ℕ → UInt8}

section

variable (len : ℕ) (h : ∃ z, maxQueryLen ≤ z ∧ z ≤ stop ∧ mem z = 0)
include len h

theorem parsePost_ends : ∃ r, (parsePost len (stop + 1)).run mem = some r := by
  obtain ⟨z, hle, hstop, hz⟩ := h
  have hstart : skipPost ≤ z := Nat.le_trans (by decide) hle
  have hfield : 0 ∉ ascii "Content-Length: " := by decide
  have hblank : 0 ∉ ascii "\r\n\r\n" := by decide
  obtain ⟨r, hr, hrle⟩ :=
    CString.strstr_ends hfield hz hstart (by omega : z < skipPost + (stop + 1))
  unfold parsePost
  cases r with
  | none => exact ⟨none, by simp [hr]⟩
  | some p =>
    have hp : p + 16 ≤ z := hrle p rfl
    obtain ⟨v, hv⟩ := CString.strtol_ends hz hp (by omega : z < p + 16 + (stop + 1))
    cases v with
    | none => exact ⟨none, by simp [hr, hv]⟩
    | some clen =>
      obtain ⟨e, he, -⟩ := CString.strstr_ends hblank hz hp (by omega : z < p + 16 + (stop + 1))
      cases e with
      | none => exact ⟨none, by simp [hr, hv, he]⟩
      | some q => exact ⟨_, by simp [hr, hv, he]; rfl⟩

theorem request_ends : ∃ r, (request len (stop + 1)).run mem = some r := by
  cases htype : httptype.run mem with
  | none => exact ⟨.data, by simp [request, htype]⟩
  | get => exact ⟨.get, by simp [request, htype]⟩
  | post =>
    obtain ⟨r, hr⟩ := parsePost_ends len h
    cases r with
    | none => exact ⟨.badPost, by simp [request, htype, hr]⟩
    | some p => exact ⟨.post p, by simp [request, htype, hr]⟩

end

theorem Buffer.request_isSome (b : Buffer stop) (len : ℕ) :
    ((request len (stop + 1)).run b.bytes).isSome = true := by
  obtain ⟨r, hr⟩ := request_ends len b.ends
  rw [hr]
  rfl

/-- The request that the buffer holds after a read of `len` bytes. -/
def Buffer.request (b : Buffer stop) (len : ℕ) : Request :=
  ((Phttpd.request len (stop + 1)).run b.bytes).get (b.request_isSome len)

end Ends

end StackBench.Phttpd

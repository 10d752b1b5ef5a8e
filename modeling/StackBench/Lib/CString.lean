import Mathlib.Algebra.Order.Ring.Int
import StackBench.Lib.MemScan

/-!
# String functions of C

`strncmp`, `strstr` and `strtol` as programs that read a memory of bytes. They
end where a zero byte follows the start of the string. Running out of fuel is
`none`.
-/

namespace CString

open MemScan (cell)

/-- The bytes of a literal. -/
def ascii (s : String) : List UInt8 := s.toList.map fun c => c.toNat.toUInt8

/-- Compare the bytes from `p` on with a literal up to its length, as `strncmp` does. -/
def startsWith : List UInt8 → ℕ → MemScan UInt8 Bool
  | [], _ => pure true
  | c :: cs, p => do
      let b ← cell p
      if b = c then startsWith cs (p + 1) else pure false

/-- `strstr`: the first place from `p` on where the literal stands. -/
def strstr (lit : List UInt8) : ℕ → ℕ → MemScan UInt8 (Option (Option ℕ))
  | 0, _ => pure none
  | fuel + 1, p => do
      if ← startsWith lit p then pure (some (some p))
      else
        let b ← cell p
        if b = 0 then pure (some none) else strstr lit fuel (p + 1)

/-- The first place from `p` on where the test fails. -/
def skipWhile (test : UInt8 → Bool) : ℕ → ℕ → MemScan UInt8 (Option ℕ)
  | 0, _ => pure none
  | fuel + 1, p => do
      let b ← cell p
      if test b then skipWhile test fuel (p + 1) else pure (some p)

def isspace (c : UInt8) : Bool := c == 32 || (9 ≤ c && c ≤ 13)

def isdigit (c : UInt8) : Bool := 48 ≤ c && c ≤ 57

/-- Decimal digits from `p` on: their value behind `acc`, and where they end. -/
def number : ℕ → ℕ → ℕ → MemScan UInt8 (Option (ℕ × ℕ))
  | 0, _, _ => pure none
  | fuel + 1, p, acc => do
      let b ← cell p
      if isdigit b then number fuel (p + 1) (acc * 10 + (b.toNat - 48)) else pure (some (acc, p))

/-- Where the digits behind an optional sign start. -/
def digitsAt (sign : UInt8) (q : ℕ) : ℕ := if sign = 45 ∨ sign = 43 then q + 1 else q

/-- The value of a `long` of 64 bits from its sign and digits; `none` without digits. -/
def longValue (sign : UInt8) (start : ℕ) (digits : ℕ × ℕ) : Option Int :=
  if digits.2 = start then none
  else if sign = 45 then some (max (-(digits.1 : Int)) (-2 ^ 63))
  else some (min (digits.1 : Int) (2 ^ 63 - 1))

/-- `strtol` with base 10; the inner `none` means that no number was found. -/
def strtol (fuel p : ℕ) : MemScan UInt8 (Option (Option Int)) := do
  match ← skipWhile isspace fuel p with
  | none => pure none
  | some q => do
      let sign ← cell q
      let digits ← number fuel (digitsAt sign q) 0
      pure (digits.map (longValue sign (digitsAt sign q)))

section Ends

variable {mem : ℕ → UInt8} {lit : List UInt8} {test : UInt8 → Bool} {fuel p z acc : ℕ}

theorem run_startsWith_cons (c : UInt8) : (startsWith (c :: lit) p).run mem =
      if mem p = c then (startsWith lit (p + 1)).run mem else false := by
  by_cases hc : mem p = c <;> simp [startsWith, hc]

theorem run_strstr_succ : (strstr lit (fuel + 1) p).run mem =
      if (startsWith lit p).run mem then some (some p)
      else if mem p = 0 then some none else (strstr lit fuel (p + 1)).run mem := by
  by_cases hlit : (startsWith lit p).run mem = true
  · simp [strstr, hlit]
  · by_cases hb : mem p = 0 <;> simp [strstr, hlit, hb]

theorem run_skipWhile_succ : (skipWhile test (fuel + 1) p).run mem =
      if test (mem p) then (skipWhile test fuel (p + 1)).run mem else some p := by
  by_cases hb : test (mem p) = true <;> simp [skipWhile, hb]

theorem run_number_succ : (number (fuel + 1) p acc).run mem =
      if isdigit (mem p) then (number fuel (p + 1) (acc * 10 + ((mem p).toNat - 48))).run mem
      else some (acc, p) := by
  by_cases hb : isdigit (mem p) = true <;> simp [number, hb]

/-- A literal without zero bytes that stands at `p` ends before the next zero byte. -/
theorem startsWith_le (hlit : 0 ∉ lit) (hz : mem z = 0) (hp : p ≤ z)
    (h : (startsWith lit p).run mem = true) : p + lit.length ≤ z := by
  induction lit generalizing p with
  | nil => exact hp
  | cons c cs ih =>
    rw [List.mem_cons, not_or] at hlit
    rw [run_startsWith_cons] at h
    split at h
    · next hc =>
      have hne : p ≠ z := by
        rintro rfl
        exact hlit.1 (hz.symm.trans hc)
      have hrest := ih hlit.2 (by omega) h
      rw [List.length_cons]
      omega
    · cases h

theorem strstr_ends (hlit : 0 ∉ lit) (hz : mem z = 0) (hp : p ≤ z) (hfuel : z < p + fuel) :
    ∃ r, (strstr lit fuel p).run mem = some r ∧ ∀ q ∈ r, q + lit.length ≤ z := by
  induction fuel generalizing p with
  | zero => omega
  | succ fuel ih =>
    rw [run_strstr_succ]
    split
    · next h =>
      refine ⟨some p, rfl, ?_⟩
      rintro q ⟨⟩
      exact startsWith_le hlit hz hp h
    split
    · exact ⟨none, rfl, by simp⟩
    next hb =>
    have hne : p ≠ z := by
      rintro rfl
      exact hb hz
    exact ih (by omega) (by omega)

theorem skipWhile_ends (htest : test 0 = false) (hz : mem z = 0) (hp : p ≤ z)
    (hfuel : z < p + fuel) : ∃ q, (skipWhile test fuel p).run mem = some q ∧ p ≤ q ∧ q ≤ z := by
  induction fuel generalizing p with
  | zero => omega
  | succ fuel ih =>
    rw [run_skipWhile_succ]
    split
    · next hb =>
      have hne : p ≠ z := by
        rintro rfl
        rw [hz, htest] at hb
        cases hb
      obtain ⟨q, hrun, hle, hqz⟩ := ih (p := p + 1) (by omega) (by omega)
      exact ⟨q, hrun, by omega, hqz⟩
    · exact ⟨p, rfl, Nat.le_refl _, hp⟩

theorem number_ends (acc : ℕ) (hz : mem z = 0) (hp : p ≤ z) (hfuel : z < p + fuel) :
    ∃ r, (number fuel p acc).run mem = some r := by
  induction fuel generalizing p acc with
  | zero => omega
  | succ fuel ih =>
    rw [run_number_succ]
    split
    · next hb =>
      have hne : p ≠ z := by
        rintro rfl
        rw [hz] at hb
        cases hb
      exact ih _ (by omega) (by omega)
    · exact ⟨_, rfl⟩

theorem strtol_ends (hz : mem z = 0) (hp : p ≤ z) (hfuel : z < p + fuel) :
    ∃ r, (strtol fuel p).run mem = some r := by
  have hspace : isspace 0 = false := rfl
  obtain ⟨q, hskip, hpq, hqz⟩ := skipWhile_ends hspace hz hp hfuel
  have hstart : q ≤ digitsAt (mem q) q ∧ digitsAt (mem q) q ≤ z := by
    unfold digitsAt
    split
    · next hsign =>
      have hne : q ≠ z := by
        rintro rfl
        rw [hz] at hsign
        revert hsign
        decide
      omega
    · omega
  obtain ⟨r, hnum⟩ := number_ends 0 hz hstart.2 (by omega : z < digitsAt (mem q) q + fuel)
  exact ⟨_, by simp [strtol, hskip, hnum]; rfl⟩

end Ends

end CString

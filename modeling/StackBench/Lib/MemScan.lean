import Mathlib.Tactic.Common

/-!
# Programs that read a memory

A program is done with a result, or reads a cell and goes on with what it finds
there. Its trace is the list of the addresses it reads, and memories that agree
on the trace are the same to it.
-/

/-- A program with results in `α` on memories with cells in `β`. -/
inductive MemScan (β α : Type) where
  | done (a : α) : MemScan β α
  | read (i : ℕ) (k : β → MemScan β α) : MemScan β α

namespace MemScan

variable {β α γ : Type}

def bind (m : MemScan β α) (f : α → MemScan β γ) : MemScan β γ :=
  match m with
  | done a => f a
  | read i k => read i fun b => (k b).bind f

instance : Monad (MemScan β) where
  pure := done
  bind := bind

def cell (i : ℕ) : MemScan β β := read i done

def run (mem : ℕ → β) : MemScan β α → α
  | done a => a
  | read i k => (k (mem i)).run mem

/-- The addresses read on the memory `mem`, in order. -/
def trace (mem : ℕ → β) : MemScan β α → List ℕ
  | done _ => []
  | read i k => i :: (k (mem i)).trace mem

section Rules

variable (mem : ℕ → β)

@[simp]
theorem run_pure (a : α) : (pure a : MemScan β α).run mem = a := rfl

@[simp]
theorem run_cell (i : ℕ) : (cell i).run mem = mem i := rfl

variable (m : MemScan β α) (f : α → MemScan β γ)

@[simp]
theorem run_bind : (m >>= f).run mem = (f (m.run mem)).run mem := by
  induction m with
  | done a => rfl
  | read i k ih => exact ih (mem i)

@[simp]
theorem trace_pure (a : α) : (pure a : MemScan β α).trace mem = [] := rfl

@[simp]
theorem trace_cell (i : ℕ) : (cell i).trace mem = [i] := rfl

@[simp]
theorem trace_bind : (m >>= f).trace mem = m.trace mem ++ (f (m.run mem)).trace mem := by
  induction m with
  | done a => rfl
  | read i k ih => exact congrArg (i :: ·) (ih (mem i))

end Rules

/-- A memory with the same contents at the addresses read gives the same run. -/
theorem replay {mem mem' : ℕ → β} {m : MemScan β α} (h : ∀ i ∈ m.trace mem, mem' i = mem i) :
    m.run mem' = m.run mem ∧ m.trace mem' = m.trace mem := by
  induction m with
  | done a => exact ⟨rfl, rfl⟩
  | read i k ih =>
    have hi : mem' i = mem i := h i List.mem_cons_self
    obtain ⟨hrun, htrace⟩ := ih (mem i) fun j hj => h j (List.mem_cons_of_mem _ hj)
    refine ⟨?_, ?_⟩
    · rw [run, run, hi]
      exact hrun
    · rw [trace, trace, hi, htrace]

end MemScan

import Mathlib.Tactic.Common

/-!
# Runs of a system driven by inputs

A run is the fold of `step` over a list of inputs. The predicate `ok` tells
which inputs may arrive in a state.
-/

namespace Run

variable {σ ι ω : Type*} {step : σ → ι → σ} {ok : σ → ι → Prop}

/-- Every input of the list may arrive in the state that it meets. -/
def Admissible (step : σ → ι → σ) (ok : σ → ι → Prop) : σ → List ι → Prop
  | _, [] => True
  | s, i :: is => ok s i ∧ Admissible step ok (step s i) is

-- ahead of a search through the whole type, where that is finite
instance (priority := high) decidableForallMem {p : ι → Prop} [DecidablePred p] (o : Option ι) :
    Decidable (∀ i ∈ o, p i) :=
  Option.decidableForallMem o

instance Admissible.decidable [∀ s i, Decidable (ok s i)] :
    ∀ (s : σ) (is : List ι), Decidable (Admissible step ok s is)
  | _, [] => isTrue trivial
  | s, i :: is =>
    have := Admissible.decidable (step s i) is
    inferInstanceAs (Decidable (ok s i ∧ Admissible step ok (step s i) is))

/-- A property of the first state that every admissible input keeps holds at
the end of every admissible run. -/
theorem Admissible.invariant {Inv : σ → Prop} {s : σ} {is : List ι} (hrun : Admissible step ok s is)
    (hstart : Inv s) (hstep : ∀ t i, Inv t → ok t i → Inv (step t i)) : Inv (is.foldl step s) := by
  induction is generalizing s with
  | nil => exact hstart
  | cons i is ih => exact ih hrun.2 (hstep s i hstart hrun.1)

/-- The same where every input may arrive in every state. -/
theorem foldl_invariant {Inv : σ → Prop} {s : σ} {is : List ι} (hstart : Inv s)
    (hstep : ∀ t i, Inv t → Inv (step t i)) : Inv (is.foldl step s) := by
  induction is generalizing s with
  | nil => exact hstart
  | cons i is ih => exact ih (hstep s i hstart)

/-- A property that counts how often one input has arrived. -/
theorem foldl_replicate_invariant {Inv : ℕ → σ → Prop} {i : ι}
    (hstep : ∀ j t, Inv j t → Inv (j + 1) (step t i)) {s : σ} {j : ℕ} (hstart : Inv j s) (k : ℕ) :
    Inv (j + k) ((List.replicate k i).foldl step s) := by
  induction k generalizing s j with
  | zero => exact hstart
  | succ k ih =>
    rw [List.replicate_succ, List.foldl_cons, ← Nat.add_assoc, Nat.add_right_comm]
    exact ih (hstep j s hstart)

/-- The outputs of a system that answers every input, in order. -/
def outputs (answer : σ → ι → σ × ω) : σ → List ι → List ω
  | _, [] => []
  | s, i :: is => (answer s i).2 :: outputs answer (answer s i).1 is

/-- States in a relation that every input keeps, with equal answers, have equal
outputs on every list of inputs. -/
theorem outputs_eq_of_simulation {answer : σ → ι → σ × ω} {R : σ → σ → Prop}
    (hstep : ∀ s t i, R s t →
      R (answer s i).1 (answer t i).1 ∧ (answer s i).2 = (answer t i).2)
    {s t : σ} (hst : R s t) (is : List ι) : outputs answer s is = outputs answer t is := by
  induction is generalizing s t with
  | nil => rfl
  | cons i is ih =>
    obtain ⟨hnext, hout⟩ := hstep s t i hst
    rw [outputs, outputs, hout, ih hnext]

end Run

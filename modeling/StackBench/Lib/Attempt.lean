import Mathlib.Tactic.Common

/-!
# Postconditions of computations that may fail

`Ends Q E x` says that the computation `x` ends in a value with `Q` or in an
error with `E`.
-/

namespace Attempt

universe u v

variable {ε : Type u} {α β : Type v} {Q : α → Prop} {E : ε → Prop} {x : Except ε α}

def Ends (Q : α → Prop) (E : ε → Prop) : Except ε α → Prop
  | .ok a => Q a
  | .error e => E e

@[simp]
theorem ends_ok (a : α) : Ends Q E (.ok a : Except ε α) ↔ Q a := Iff.rfl

section

variable (hx : Ends Q E x)
include hx

/-- What follows may use the postcondition of what was before. -/
theorem Ends.bind {R : β → Prop} {f : α → Except ε β}
    (hf : ∀ a, Q a → Ends R E (f a)) : Ends R E (x >>= f) := by
  cases x with
  | ok a => exact hf a hx
  | error e => exact hx

theorem Ends.map {R : β → Prop} {f : α → β} (hf : ∀ a, Q a → R (f a)) : Ends R E (x.map f) := by
  cases x with
  | ok a => exact hf a hx
  | error e => exact hx

theorem Ends.mono {Q' : α → Prop} (hQ : ∀ a, Q a → Q' a) : Ends Q' E x := by
  cases x with
  | ok a => exact hQ a hx
  | error e => exact hx

theorem Ends.weaken {E' : ε → Prop} (hE : ∀ e, E e → E' e) : Ends Q E' x := by
  cases x with
  | ok a => exact hx
  | error e => exact hE e hx

end

theorem Ends.returns (h : Ends Q (fun _ => False) x) : ∃ a, x = .ok a ∧ Q a := by
  cases x with
  | ok a => exact ⟨a, rfl, h⟩
  | error e => exact h.elim

/-- A loop over a list, with an invariant that may speak of what is left of it. -/
theorem Ends.foldlM {α β : Type*} {f : β → α → Except ε β} {I : List α → β → Prop}
    (hstep : ∀ a as b, I (a :: as) b → Ends (I as) E (f b a)) (as : List α) {b : β}
    (hstart : I as b) : Ends (I []) E (as.foldlM f b) := by
  induction as generalizing b with
  | nil => exact hstart
  | cons a as ih =>
    rw [List.foldlM_cons]
    exact (hstep a as b hstart).bind fun b' hb' => ih hb'

end Attempt

import Aicl.Foundation.Outcome

/-!
# When a computation returns

A checked computation returns exactly when some condition on its arguments holds, and
reports an error of one kind otherwise.  This file states how such conditions are put
together along straight-line code.

Main results:

- Theorem {lit}`Outcome.ReturnsIff.bind`: a sequence whose second part needs a
  condition that does not depend on the value of the first.
- Theorem {lit}`Outcome.ReturnsIff.bind_exists`: the same when it does.
-/

namespace Outcome

variable {ε α β : Type} {E : ε → Prop} {x : Outcome ε α} {C D : Prop}

/-- A computation returns exactly when a condition holds, and otherwise reports an
error of a kind. -/
structure ReturnsIff (E : ε → Prop) (x : Outcome ε α) (C : Prop) : Prop where
  sat : x.Sat (fun _ => C) fun e => E e ∧ ¬ C

/-- A value. -/
theorem ReturnsIff.ok {a : α} (h : C) : ReturnsIff E (ok a) C := ⟨h⟩

/-- An error. -/
theorem ReturnsIff.err {e : ε} (he : E e) (h : ¬ C) : ReturnsIff E (err e : Outcome ε α) C :=
  ⟨he, h⟩

/-- When such a computation returns. -/
theorem ReturnsIff.exists_ok_iff (h : ReturnsIff E x C) : (∃ a, x = .ok a) ↔ C := by
  cases x with
  | ok a => exact iff_of_true ⟨a, rfl⟩ h.sat
  | err e => exact iff_of_false (by simp) h.sat.2
  | panic => exact h.sat.elim

/-- The condition may be stated in another way. -/
theorem ReturnsIff.congr (h : ReturnsIff E x C) (hCD : C ↔ D) : ReturnsIff E x D :=
  ⟨Sat.mono h.sat (fun _ => hCD.mp) fun _ he => ⟨he.1, fun hD => he.2 (hCD.mpr hD)⟩⟩

/-- A computation that returns. -/
theorem ReturnsIff.pure (a : α) : ReturnsIff E (Pure.pure a : Outcome ε α) True := .ok trivial

/-- A sequence, when the condition of the second part is about what the first part
returns. -/
theorem ReturnsIff.bind_exists {f : α → Outcome ε β} {D : α → Prop} (hx : ReturnsIff E x C)
    (hf : ∀ a, x = .ok a → ReturnsIff E (f a) (D a)) :
    ReturnsIff E (x >>= f) (∃ a, x = .ok a ∧ D a) := by
  cases x with
  | ok a => exact (hf a rfl).congr (by simp)
  | err e => exact .err hx.sat.1 (by simp)
  | panic => exact hx.sat.elim

/-- A sequence, when the condition of the second part does not depend on what the
first part returns. -/
theorem ReturnsIff.bind {f : α → Outcome ε β} (hx : ReturnsIff E x C)
    (hf : ∀ a, x = .ok a → ReturnsIff E (f a) D) : ReturnsIff E (x >>= f) (C ∧ D) := by
  refine (hx.bind_exists hf).congr ?_
  rw [← hx.exists_ok_iff]
  simp

/-- Changing the value that is returned. -/
theorem ReturnsIff.map {f : α → β} (hx : ReturnsIff E x C) :
    ReturnsIff E (x >>= fun a => .ok (f a)) C :=
  (hx.bind fun a _ => ReturnsIff.pure (f a)).congr (and_iff_left trivial)

/-- A check that reports an error. -/
theorem ReturnsIff.guard {c : Prop} [Decidable c] {e : ε} (he : E e)
    (hx : ¬ c → ReturnsIff E x C) : ReturnsIff E (if c then .err e else x) (¬ c ∧ C) := by
  by_cases h : c
  · rw [if_pos h]
    exact .err he fun hc => hc.1 h
  · rw [if_neg h]
    exact (hx h).congr (and_iff_right h).symm

/-- A check that returns. -/
theorem ReturnsIff.unless {c : Prop} [Decidable c] {a : α} (hx : ¬ c → ReturnsIff E x C) :
    ReturnsIff E (if c then Pure.pure a else x) (¬ c → C) := by
  by_cases h : c
  · rw [if_pos h]
    exact (ReturnsIff.pure a).congr (iff_of_true trivial fun hc => absurd h hc)
  · rw [if_neg h]
    exact (hx h).congr ⟨fun hc _ => hc, fun hc => hc h⟩

end Outcome

import Aicl.Foundation.Outcome

/-!
# Services that may stop

A service answers calls one after the other until one of them has no answer.  One
service stands for another one when related states answer alike: a call is answered
by both, with the same answer and in related states, or by neither.

Main results:

- Theorem {lit}`PartialService.run_agrees`: services that agree on every call agree on
  every run.
-/

namespace PartialService

variable {ε σ τ ι ο : Type}

/-- The answers to a list of calls and the state after them, unless a call stops the
service. -/
def run {m : Type → Type} [Monad m] (call : σ → ι → m (ο × σ)) : σ → List ι → m (List ο × σ)
  | s, [] => pure ([], s)
  | s, i :: is => do
      let (answer, s) ← call s i
      let (answers, s) ← run call s is
      pure (answer :: answers, s)

/-- Code and its specification agree: both give the same answer and related states, or
the specification allows no call and the code fails. -/
inductive Agrees (R : σ → τ → Prop) : Outcome ε (ο × σ) → Option (ο × τ) → Prop
  | answered (answer : ο) {s : σ} {t : τ} (h : R s t) :
      Agrees R (.ok (answer, s)) (some (answer, t))
  | stopped (e : ε) : Agrees R (.err e) none

/-- States that are related otherwise as well. -/
theorem Agrees.imp {R S : σ → τ → Prop} {x : Outcome ε (ο × σ)} {y : Option (ο × τ)}
    (h : Agrees R x y) (hRS : ∀ s t, R s t → S s t) : Agrees S x y := by
  cases h with
  | answered answer hrel => exact .answered answer (hRS _ _ hrel)
  | stopped e => exact .stopped e

variable {call : σ → ι → Outcome ε (ο × σ)} {spec : τ → ι → Option (ο × τ)} {R : Nat → σ → τ → Prop}

/-- Services that agree on every call agree on every run; the relation may say for how
many calls it is still good. -/
theorem run_agrees (hcall : ∀ n s t i, R (n + 1) s t → Agrees (R n) (call s i) (spec t i))
    {n : Nat} {s : σ} {t : τ} {is : List ι} (h : R (is.length + n) s t) :
    Agrees (R n) (run call s is) (run spec t is) := by
  induction is generalizing s t with
  | nil =>
      rw [List.length_nil, Nat.zero_add] at h
      exact .answered [] h
  | cons i is ih =>
      rw [List.length_cons, Nat.add_right_comm] at h
      have hfirst := hcall _ s t i h
      rw [run, run]
      generalize call s i = outcome at hfirst
      generalize spec t i = expected at hfirst
      cases hfirst with
      | stopped e => exact .stopped e
      | answered answer hnext =>
          have hrest := ih hnext
          simp only [Outcome.ok_bind, Option.bind_eq_bind, Option.bind_some]
          generalize run call _ is = outcome at hrest
          generalize run spec _ is = expected at hrest
          cases hrest with
          | stopped e => exact .stopped e
          | answered answers hend => exact .answered (answer :: answers) hend

end PartialService

import Aicl.Foundation.PrefixFree

/-!
# Computations with additional checks

A build with additional checks stops the program where the build without them goes on.
This file says under which condition the two do the same, and how the condition of a
program follows from those of its parts.

Main results:

- Theorem {lit}`Outcome.PanicsUnless.bind`: sequences.
- Theorem {lit}`Outcome.PanicsUnless.loop`: counted loops that move forward.
- Theorem {lit}`Outcome.PanicsUnless.eq_iff`: the condition is exact when the build
  without the checks does not panic.
-/

namespace Outcome

variable {β ε α γ σ : Type}

/-- The checked computation {lit}`x'` does what {lit}`x` does when {lit}`P` holds, and
stops the program when it does not. -/
structure PanicsUnless (P : Prop) (x' x : Outcome ε α) : Prop where
  same : P → x' = x
  stops : ¬ P → x' = panic

section Rules

variable {P Q : Prop} {x x' : Outcome ε α}

/-- A computation without additional checks. -/
theorem PanicsUnless.refl (x : Outcome ε α) : PanicsUnless True x x where
  same _ := rfl
  stops h := absurd trivial h

/-- The condition may be stated in another way. -/
theorem PanicsUnless.congr (h : PanicsUnless P x' x) (hPQ : P ↔ Q) : PanicsUnless Q x' x where
  same hQ := h.same (hPQ.mpr hQ)
  stops hQ := h.stops fun hP => hQ (hPQ.mp hP)

/-- More checks of a checked computation. -/
theorem PanicsUnless.trans {x'' : Outcome ε α} (h' : PanicsUnless Q x'' x')
    (h : PanicsUnless P x' x) : PanicsUnless (Q ∧ P) x'' x := by
  constructor
  · intro hQP
    rw [h'.same hQP.1, h.same hQP.2]
  · intro hQP
    by_cases hQ : Q
    · rw [h'.same hQ]
      exact h.stops fun hP => hQP ⟨hQ, hP⟩
    · exact h'.stops hQ

/-- A check in front of a checked computation. -/
theorem PanicsUnless.guard [Decidable P] (h : P → PanicsUnless Q x' x) :
    PanicsUnless (P ∧ Q) (if P then x' else panic) x := by
  constructor
  · intro hPQ
    rw [if_pos hPQ.1]
    exact (h hPQ.1).same hPQ.2
  · intro hPQ
    by_cases hP : P
    · rw [if_pos hP]
      exact (h hP).stops fun hQ => hPQ ⟨hP, hQ⟩
    · rw [if_neg hP]

/-- A checked computation followed by another one: the condition of the second part
counts when the first part returns. -/
theorem PanicsUnless.bind {F : α → Prop} {f f' : α → Outcome ε γ} (h : PanicsUnless P x' x)
    (hf : ∀ a, x = ok a → PanicsUnless (F a) (f' a) (f a)) :
    PanicsUnless (P ∧ ∀ a, x = ok a → F a) (x' >>= f') (x >>= f) := by
  by_cases hP : P
  · rw [h.same hP]
    cases hx : x with
    | ok a => exact (hf a hx).congr (by simp [hP])
    | err e => exact (PanicsUnless.refl _).congr (by simp [hP])
    | panic => exact (PanicsUnless.refl _).congr (by simp [hP])
  · rw [h.stops hP]
    exact ⟨fun hall => absurd hall.1 hP, fun _ => rfl⟩

/-- An unchecked computation followed by a checked one. -/
theorem PanicsUnless.bind_right {F : α → Prop} {f f' : α → Outcome ε γ}
    (hf : ∀ a, x = ok a → PanicsUnless (F a) (f' a) (f a)) :
    PanicsUnless (∀ a, x = ok a → F a) (x >>= f') (x >>= f) :=
  ((PanicsUnless.refl x).bind hf).congr (by simp)

/-- A checked computation followed by an unchecked one. -/
theorem PanicsUnless.bind_left (f : α → Outcome ε γ) (h : PanicsUnless P x' x) :
    PanicsUnless P (x' >>= f) (x >>= f) :=
  (h.bind fun a _ => PanicsUnless.refl (f a)).congr (by simp)

/-- The condition is exact: without it the two builds differ. -/
theorem PanicsUnless.eq_iff (h : PanicsUnless P x' x) (hx : x ≠ panic) : x' = x ↔ P := by
  constructor
  · intro heq
    by_contra hP
    exact hx (heq.symm.trans (h.stops hP))
  · exact h.same

end Rules

/-! ## Loops -/

/-- A loop whose rounds move forward: the condition is that of every round that is
reached. -/
theorem PanicsUnless.loop {F : Nat → Nat → Prop} {data : List β} {lo : Nat}
    {step step' : Nat → σ → List β → Nat → Outcome ε (σ × Nat)}
    (hstep : ∀ i s pos, lo ≤ pos → PanicsUnless (F i pos) (step' i s data pos) (step i s data pos))
    (hforward : ∀ i s, Forward (step i s)) (n : Nat) :
    ∀ i s pos, lo ≤ pos →
      PanicsUnless (∀ k < n, ∀ r, loop step k i s data pos = ok r → F (i + k) r.2)
        (loop step' n i s data pos) (loop step n i s data pos) := by
  induction n with
  | zero =>
      intro i s pos _
      exact (PanicsUnless.refl _).congr (by simp)
  | succ n ih =>
      intro i s pos hpos
      have hround := (hstep i s pos hpos).bind fun r hr =>
        ih (i + 1) r.1 r.2 (hpos.trans (hforward i s data pos r hr))
      refine hround.congr ⟨?_, ?_⟩
      · intro h k hk r hr
        cases k with
        | zero =>
            cases hr
            exact h.1
        | succ k =>
            obtain ⟨r', hfirst, hrest⟩ := bind_eq_ok_iff.mp hr
            have hF := h.2 r' hfirst k (by omega) r hrest
            rwa [Nat.add_assoc, Nat.add_comm 1 k] at hF
      · intro h
        refine ⟨h 0 (Nat.succ_pos n) (s, pos) rfl, ?_⟩
        intro r' hfirst k hk r hrest
        have hF := h (k + 1) (by omega) r (bind_eq_ok_iff.mpr ⟨r', hfirst, hrest⟩)
        rwa [Nat.add_comm k 1, ← Nat.add_assoc] at hF

end Outcome

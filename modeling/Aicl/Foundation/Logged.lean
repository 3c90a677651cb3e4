import Aicl.Foundation.Checked

/-!
# Computations with a log

A computation may report what it does on its way to the end, also when it ends in an error.
Judging the entries of the log turns it into a checked computation, which stops the program
when an entry is out of bounds.  Judging goes through the parts of a program, so that the
rules for checked computations say when all entries are within bounds.

Main results:

- Theorem {lit}`Logged.judged_bind`: judging a sequence.
- Theorem {lit}`Logged.judged_loop`: judging a counted loop.
- Theorem {lit}`Logged.forall_log_iff`: the condition under which a judged computation
  goes on is that of its log.
-/

/-- A computation and the entries that it logs up to its end. -/
structure Logged (ω ε α : Type) where
  log : List ω
  result : Outcome ε α

namespace Logged

variable {ω ε α β γ σ : Type}

/-! ## The monad of logging code -/

/-- A computation that logs nothing. -/
def lift (x : Outcome ε α) : Logged ω ε α := ⟨[], x⟩

/-- Log an entry. -/
def tell (w : ω) : Logged ω ε Unit := ⟨[w], .ok ()⟩

/-- Sequencing: what was logged before an error stays. -/
def bind (x : Logged ω ε α) (f : α → Logged ω ε γ) : Logged ω ε γ :=
  match x.result with
  | .ok a => ⟨x.log ++ (f a).log, (f a).result⟩
  | .err e => ⟨x.log, .err e⟩
  | .panic => ⟨x.log, .panic⟩

instance : Monad (Logged ω ε) where
  pure a := lift (.ok a)
  bind := Logged.bind

/-- A returned value together with the proof of a property. -/
def attach {P : α → Prop} (x : Logged ω ε α) (h : ∀ a, x.result = .ok a → P a) :
    Logged ω ε { a : α // P a } :=
  ⟨x.log, x.result.attach h⟩

/-- Run a step with each index from {lit}`i` to {lit}`i + n - 1`. -/
def loop (step : Nat → σ → List β → Nat → Logged ω ε (σ × Nat)) :
    (n i : Nat) → σ → List β → Nat → Logged ω ε (σ × Nat)
  | 0, _, s, _, pos => pure (s, pos)
  | n + 1, i, s, data, pos => step i s data pos >>= fun r => loop step n (i + 1) r.1 data r.2

/-! ## The log of a sequence -/

/-- A value logs nothing. -/
@[simp] theorem log_pure (a : α) : (pure a : Logged ω ε α).log = [] := rfl

/-- A sequence logs what its first part logs and, when that returns, what the second
part does. -/
theorem forall_log_bind {P : ω → Prop} {x : Logged ω ε α} {f : α → Logged ω ε γ} :
    (∀ w ∈ (x >>= f).log, P w) ↔
      (∀ w ∈ x.log, P w) ∧ ∀ a, x.result = .ok a → ∀ w ∈ (f a).log, P w := by
  obtain ⟨log, result⟩ := x
  cases result with
  | ok a =>
      simp only [Outcome.ok.injEq, forall_eq']
      exact List.forall_mem_append
  | err e =>
      simp only [reduceCtorEq, false_implies, implies_true, and_true]
      exact Iff.rfl
  | panic =>
      simp only [reduceCtorEq, false_implies, implies_true, and_true]
      exact Iff.rfl

/-- A sequence returns what the sequence of the results returns. -/
@[simp] theorem result_bind (x : Logged ω ε α) (f : α → Logged ω ε γ) :
    (x >>= f).result = x.result >>= fun a => (f a).result := by
  obtain ⟨log, result⟩ := x
  cases result <;> rfl

/-- A computation that logs nothing in front of another one. -/
theorem forall_log_lift_bind {P : ω → Prop} {x : Outcome ε α} {f : α → Logged ω ε γ} :
    (∀ w ∈ (lift x >>= f).log, P w) ↔ ∀ a, x = .ok a → ∀ w ∈ (f a).log, P w :=
  forall_log_bind.trans (and_iff_right fun _ hw => absurd hw List.not_mem_nil)

/-! ## Judging the log -/

variable (ok : ω → Prop) [DecidablePred ok]

/-- Stop the program when an entry is out of bounds. -/
def judged (x : Logged ω ε α) : Outcome ε α :=
  if ∀ w ∈ x.log, ok w then x.result else .panic

variable {ok}

/-- All entries are within bounds. -/
theorem judged_of_forall {x : Logged ω ε α} (h : ∀ w ∈ x.log, ok w) : x.judged ok = x.result :=
  if_pos h

/-- Some entry is not. -/
theorem judged_of_not_forall {x : Logged ω ε α} (h : ¬ ∀ w ∈ x.log, ok w) :
    x.judged ok = .panic :=
  if_neg h

variable (ok)

/-- A computation that logs nothing is as it was. -/
@[simp] theorem judged_lift (x : Outcome ε α) : (lift x : Logged ω ε α).judged ok = x :=
  judged_of_forall fun _ hw => absurd hw List.not_mem_nil

/-- So is a value. -/
@[simp] theorem judged_pure (a : α) : (pure a : Logged ω ε α).judged ok = .ok a :=
  judged_lift ok (.ok a)

/-- An entry is judged by itself. -/
@[simp] theorem judged_tell (w : ω) :
    (tell w : Logged ω ε Unit).judged ok = if ok w then .ok () else .panic :=
  if_congr List.forall_mem_singleton rfl rfl

/-- A sequence is judged part by part. -/
@[simp] theorem judged_bind (x : Logged ω ε α) (f : α → Logged ω ε γ) :
    (x >>= f).judged ok = x.judged ok >>= fun a => (f a).judged ok := by
  obtain ⟨log, result⟩ := x
  by_cases hlog : ∀ w ∈ log, ok w
  · rw [@judged_of_forall _ _ _ ok _ ⟨log, result⟩ hlog]
    cases result with
    | ok a => exact if_congr (List.forall_mem_append.trans (and_iff_right hlog)) rfl rfl
    | err e => exact judged_of_forall hlog
    | panic => exact judged_of_forall hlog
  · rw [@judged_of_not_forall _ _ _ ok _ ⟨log, result⟩ hlog]
    cases result with
    | ok a => exact judged_of_not_forall fun hall => hlog (List.forall_mem_append.mp hall).1
    | err e => exact judged_of_not_forall hlog
    | panic => exact judged_of_not_forall hlog

/-- A loop is judged round by round. -/
@[simp] theorem judged_loop (step : Nat → σ → List β → Nat → Logged ω ε (σ × Nat)) (n i : Nat)
    (s : σ) (data : List β) (pos : Nat) :
    (loop step n i s data pos).judged ok =
      Outcome.loop (fun i s data pos => (step i s data pos).judged ok) n i s data pos := by
  induction n generalizing i s pos with
  | zero => exact judged_pure ok (s, pos)
  | succ n ih =>
      rw [loop, judged_bind, Outcome.loop]
      congr 1
      funext r
      exact ih (i + 1) r.1 r.2

/-- Judging by nothing leaves the result. -/
theorem result_eq_judged (x : Logged ω ε α) : x.result = x.judged fun _ => True :=
  (judged_of_forall fun _ _ => trivial).symm

/-- For a logging computation that returns what another one returns, which does not panic,
the condition under which it is judged to go on is that of its log. -/
theorem forall_log_iff {P : Prop} {x' : Logged ω ε α} {x : Outcome ε α} (hresult : x'.result = x)
    (h : Outcome.PanicsUnless P (x'.judged ok) x) (hx : x ≠ .panic) :
    (∀ w ∈ x'.log, ok w) ↔ P := by
  rw [← h.eq_iff hx]
  constructor
  · intro hlog
    rw [judged_of_forall hlog, hresult]
  · intro heq
    by_contra hlog
    rw [judged_of_not_forall hlog] at heq
    exact hx heq.symm

end Logged

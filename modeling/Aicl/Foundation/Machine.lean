import Mathlib

/-!
# Runs of machines

A machine takes actions one at a time; an action that is not enabled in a state
gives no next state.  A schedule is a list of actions, so a statement about all
schedules is a statement about all interleavings of the parties whose steps the
actions are.

Main results:

- Theorem {lit}`Machine.invariant`: what holds at the start and is kept by every
  step that meets a condition holds after every run whose steps meet it.
- Theorem {lit}`Machine.exists_beside`: the same for a value beside the state that stays
  good exactly when the condition is met.
- Theorem {lit}`Machine.Along.of_invariant`: what an invariant gives at one step
  it gives at every step of a run.
- Theorem {lit}`Machine.along_congr_of_invariant`: two conditions that agree in
  the states of an invariant agree along every run.
-/

namespace Machine

variable {σ ι : Type} {step : σ → ι → Option σ}

/-- The state after a schedule; none when one of its actions is not enabled. -/
def run (step : σ → ι → Option σ) : σ → List ι → Option σ
  | s, [] => some s
  | s, i :: is => (step s i).bind fun t => run step t is

/-- Every step of the run meets a condition on the state it starts from. -/
def Along (step : σ → ι → Option σ) (p : σ → ι → Prop) : σ → List ι → Prop
  | _, [] => True
  | s, i :: is => p s i ∧ ∀ t, step s i = some t → Along step p t is

/-- The empty schedule leaves the state. -/
@[simp] theorem run_nil (s : σ) : run step s [] = some s := rfl

/-- A schedule is its first action and the rest. -/
theorem run_cons_eq_some_iff {s u : σ} {i : ι} {is : List ι} :
    run step s (i :: is) = some u ↔ ∃ t, step s i = some t ∧ run step t is = some u :=
  Option.bind_eq_some_iff

/-- A schedule in two parts is one part after the other. -/
theorem run_append (s : σ) (is js : List ι) :
    run step s (is ++ js) = (run step s is).bind fun t => run step t js := by
  induction is generalizing s with
  | nil => rfl
  | cons i is ih =>
      simp only [List.cons_append, run]
      cases step s i with
      | none => rfl
      | some t => exact ih t

variable {p q : σ → ι → Prop} {inv : σ → Prop}

/-- A condition along a schedule in two parts holds along each of them. -/
theorem along_append {s : σ} {is js : List ι} :
    Along step p s (is ++ js) ↔
      Along step p s is ∧ ∀ t, run step s is = some t → Along step p t js := by
  induction is generalizing s with
  | nil => simp [Along]
  | cons i is ih =>
      simp only [List.cons_append, Along, run_cons_eq_some_iff, ih]
      constructor
      · intro ⟨hp, hrest⟩
        refine ⟨⟨hp, fun t hstep => (hrest t hstep).1⟩, ?_⟩
        intro u ⟨t, hstep, hrun⟩
        exact (hrest t hstep).2 u hrun
      · intro ⟨⟨hp, hrest⟩, htail⟩
        exact ⟨hp, fun t hstep => ⟨hrest t hstep, fun u hrun => htail u ⟨t, hstep, hrun⟩⟩⟩

/-- What every step that meets the condition keeps, every run whose steps meet
it keeps. -/
theorem invariant (hkeep : ∀ s i t, inv s → p s i → step s i = some t → inv t)
    {s t : σ} {is : List ι} (hs : inv s) (hp : Along step p s is) (hrun : run step s is = some t) :
    inv t := by
  induction is generalizing s with
  | nil =>
      cases hrun
      exact hs
  | cons i is ih =>
      obtain ⟨u, hstep, hrest⟩ := run_cons_eq_some_iff.mp hrun
      exact ih (hkeep s i u hs hp.1 hstep) (hp.2 u hstep) hrest

/-- Whether a decidable condition holds along a schedule is decidable. -/
instance decidableAlong (step : σ → ι → Option σ) (p : σ → ι → Prop) [∀ s i, Decidable (p s i)] :
    (s : σ) → (is : List ι) → Decidable (Along step p s is)
  | _, [] => .isTrue trivial
  | s, i :: is =>
      match hstep : step s i with
      | none => decidable_of_iff (p s i) (by simp [Along, hstep])
      | some t =>
          have := decidableAlong step p t is
          decidable_of_iff (p s i ∧ Along step p t is) (by simp [Along, hstep])

/-- The condition that always holds. -/
theorem along_true (s : σ) (is : List ι) : Along step (fun _ _ => True) s is := by
  induction is generalizing s with
  | nil => trivial
  | cons i is ih => exact ⟨trivial, fun t _ => ih t⟩

/-- Two conditions along a schedule are both met along it. -/
theorem Along.and {s : σ} {is : List ι} (hp : Along step p s is) (hq : Along step q s is) :
    Along step (fun s i => p s i ∧ q s i) s is := by
  induction is generalizing s with
  | nil => trivial
  | cons i is ih => exact ⟨⟨hp.1, hq.1⟩, fun t hstep => ih (hp.2 t hstep) (hq.2 t hstep)⟩

/-- A condition on the actions alone holds along a schedule of actions that meet it. -/
theorem along_of_forall {cond : ι → Prop} {is : List ι} (h : ∀ i ∈ is, cond i) (s : σ) :
    Along step (fun _ i => cond i) s is := by
  induction is generalizing s with
  | nil => trivial
  | cons i is ih =>
      refine ⟨h i List.mem_cons_self, fun t _ => ?_⟩
      exact ih (fun j hj => h j (List.mem_cons_of_mem i hj)) t

/-- What every step keeps, every run keeps. -/
theorem invariant_of_steps (hkeep : ∀ s i t, inv s → step s i = some t → inv t)
    {s t : σ} {is : List ι} (hs : inv s) (hrun : run step s is = some t) : inv t :=
  invariant (fun s i t hs _ => hkeep s i t hs) hs (along_true s is) hrun

/-- When every step changes a value that is kept beside the state so that it stays good
exactly under the condition of the step, a run leaves it good exactly when all its steps
meet the condition. -/
theorem exists_beside {γ : Type} {beside : σ → γ → Prop} (good : σ → γ → Prop)
    (hkeep : ∀ s i t g, beside s g → step s i = some t →
      ∃ g', beside t g' ∧ (good t g' ↔ good s g ∧ p s i))
    {s t : σ} {g : γ} {is : List ι} (hs : beside s g) (hrun : run step s is = some t) :
    ∃ g', beside t g' ∧ (good t g' ↔ good s g ∧ Along step p s is) := by
  induction is generalizing s g with
  | nil =>
      cases hrun
      exact ⟨g, hs, (and_iff_left trivial).symm⟩
  | cons i is ih =>
      obtain ⟨u, hstep, hrest⟩ := run_cons_eq_some_iff.mp hrun
      obtain ⟨g', hbeside, hfirst⟩ := hkeep s i u g hs hstep
      obtain ⟨g'', hbeside', hlast⟩ := ih hbeside hrest
      refine ⟨g'', hbeside', ?_⟩
      rw [hlast, hfirst]
      simp only [Along, hstep, Option.some.injEq, forall_eq', and_assoc]

/-- What the invariant gives at one step it gives at every step of the run. -/
theorem Along.of_invariant (hkeep : ∀ s i t, inv s → p s i → step s i = some t → inv t)
    (hq : ∀ s i, inv s → p s i → q s i) {s : σ} {is : List ι} (hs : inv s)
    (hp : Along step p s is) : Along step q s is := by
  induction is generalizing s with
  | nil => trivial
  | cons i is ih =>
      refine ⟨hq s i hs hp.1, fun t hstep => ?_⟩
      exact ih (hkeep s i t hs hp.1 hstep) (hp.2 t hstep)

/-- Two conditions that agree in every state agree along every run. -/
theorem along_congr (hpq : ∀ s i, p s i ↔ q s i) (s : σ) (is : List ι) :
    Along step p s is ↔ Along step q s is := by
  induction is generalizing s with
  | nil => rfl
  | cons i is ih =>
      apply and_congr (hpq s i)
      apply forall_congr'
      intro t
      exact imp_congr_right fun _ => ih t

/-- Two conditions that agree wherever the invariant holds agree along every
run, when steps that meet them keep it. -/
theorem along_congr_of_invariant (hkeep : ∀ s i t, inv s → p s i → step s i = some t → inv t)
    (hpq : ∀ s i, inv s → (p s i ↔ q s i)) {s : σ} {is : List ι} (hs : inv s) :
    Along step p s is ↔ Along step q s is := by
  induction is generalizing s with
  | nil => rfl
  | cons i is ih =>
      simp only [Along, ← hpq s i hs]
      apply and_congr_right
      intro hp
      apply forall_congr'
      intro t
      exact imp_congr_right fun hstep => ih (hkeep s i t hs hp hstep)

end Machine

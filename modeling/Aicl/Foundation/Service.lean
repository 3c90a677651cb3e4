import Mathlib

/-!
# Services and bounded queues

A service answers one call after the other, from a state that its callers see only
through the answers.  One service does what another one does when a relation of
their states is kept by every call and gives equal answers.  The relation may say
how many calls are still allowed, for services that keep a promise for a while only.

Main results:

- Theorem {lit}`Service.run_simulates`: related states give equal answers to all
  calls.
- Theorem {lit}`Service.run_simulates_priced`: the same when calls use something up.
- Theorem {lit}`Service.run_simulates_of_forall`: the same when only some calls are made.
- Theorem {lit}`Service.forall_entries`: what every answer has, all answers of a run
  have.
- Definition {lit}`BoundedQueue.call`: a first-in first-out queue of limited size.
-/

namespace Service

variable {σ τ ι ο : Type}

/-- The answers to a list of calls, and the state after them. -/
def run (call : σ → ι → ο × σ) : σ → List ι → List ο × σ
  | s, [] => ([], s)
  | s, i :: is => ((call s i).1 :: (run call (call s i).2 is).1, (run call (call s i).2 is).2)

variable {call : σ → ι → ο × σ} {spec : τ → ι → ο × τ}

/-- Every call is answered. -/
theorem length_answers (s : σ) (is : List ι) : (run call s is).1.length = is.length := by
  induction is generalizing s with
  | nil => rfl
  | cons i is ih => rw [run, List.length_cons, ih, List.length_cons]

/-- Calls in two parts are one part after the other. -/
theorem run_append (s : σ) (is js : List ι) :
    run call s (is ++ js) =
      ((run call s is).1 ++ (run call (run call s is).2 js).1,
        (run call (run call s is).2 js).2) := by
  induction is generalizing s with
  | nil => rfl
  | cons i is ih => rw [List.cons_append, run, ih, run, List.cons_append]

/-- States that are related for as many calls give equal answers to them, and stay
related for the calls that are left. -/
theorem run_simulates {R : Nat → σ → τ → Prop}
    (hcall : ∀ n s t i, R (n + 1) s t →
      (call s i).1 = (spec t i).1 ∧ R n (call s i).2 (spec t i).2)
    {n : Nat} {s : σ} {t : τ} {is : List ι} (h : R (is.length + n) s t) :
    (run call s is).1 = (run spec t is).1 ∧ R n (run call s is).2 (run spec t is).2 := by
  induction is generalizing s t with
  | nil =>
      rw [List.length_nil, Nat.zero_add] at h
      exact ⟨rfl, h⟩
  | cons i is ih =>
      rw [List.length_cons, Nat.add_right_comm] at h
      have ⟨hanswer, hnext⟩ := hcall _ s t i h
      have ⟨hanswers, hend⟩ := ih hnext
      refine ⟨?_, hend⟩
      rw [run, run, hanswer, hanswers]

/-- The same where every call has a price: states that are related for what the calls cost
together give equal answers to them, and stay related for what is left. -/
theorem run_simulates_priced {ω : Type} [AddMonoid ω] {price : ι → ω} {R : ω → σ → τ → Prop}
    (hcall : ∀ n s t i, R (price i + n) s t →
      (call s i).1 = (spec t i).1 ∧ R n (call s i).2 (spec t i).2)
    {n : ω} {s : σ} {t : τ} {is : List ι} (h : R ((is.map price).sum + n) s t) :
    (run call s is).1 = (run spec t is).1 ∧ R n (run call s is).2 (run spec t is).2 := by
  induction is generalizing s t with
  | nil =>
      rw [List.map_nil, List.sum_nil, zero_add] at h
      exact ⟨rfl, h⟩
  | cons i is ih =>
      rw [List.map_cons, List.sum_cons, add_assoc] at h
      have ⟨hanswer, hnext⟩ := hcall _ s t i h
      have ⟨hanswers, hend⟩ := ih hnext
      refine ⟨?_, hend⟩
      rw [run, run, hanswer, hanswers]

/-- The same for calls of one kind, which keep the relation for ever. -/
theorem run_simulates_of_forall {P : ι → Prop} {R : σ → τ → Prop}
    (hcall : ∀ s t i, P i → R s t →
      (call s i).1 = (spec t i).1 ∧ R (call s i).2 (spec t i).2)
    {s : σ} {t : τ} {is : List ι} (his : ∀ i ∈ is, P i) (h : R s t) :
    (run call s is).1 = (run spec t is).1 ∧ R (run call s is).2 (run spec t is).2 := by
  induction is generalizing s t with
  | nil => exact ⟨rfl, h⟩
  | cons i is ih =>
      have ⟨hi, hrest⟩ := List.forall_mem_cons.mp his
      have ⟨hanswer, hnext⟩ := hcall s t i hi h
      have ⟨hanswers, hend⟩ := ih hrest hnext
      refine ⟨?_, hend⟩
      rw [run, run, hanswer, hanswers]

/-- What the answer to a call has from every state, the answers of a run have. -/
theorem forall_entries {P : ι → ο → Prop} {is : List ι} (h : ∀ i ∈ is, ∀ s, P i (call s i).1)
    (s : σ) : ∀ e ∈ is.zip (run call s is).1, P e.1 e.2 := by
  induction is generalizing s with
  | nil =>
      intro e he
      cases he
  | cons i is ih =>
      rw [run, List.zip_cons_cons, List.forall_mem_cons]
      refine ⟨h i List.mem_cons_self s, ?_⟩
      exact ih (fun j hj => h j (List.mem_cons_of_mem i hj)) (call s i).2

/-- What the answer to a call has from every state of an invariant, the answers of a run
have, and the invariant is kept. -/
theorem forall_entries_of_invariant {I : σ → Prop} {P : ι → ο → Prop}
    (hcall : ∀ s i, I s → P i (call s i).1 ∧ I (call s i).2) {s : σ} (hs : I s) (is : List ι) :
    (∀ e ∈ is.zip (run call s is).1, P e.1 e.2) ∧ I (run call s is).2 := by
  induction is generalizing s with
  | nil =>
      refine ⟨?_, hs⟩
      intro e he
      cases he
  | cons i is ih =>
      have ⟨hanswer, hnext⟩ := hcall s i hs
      have ⟨hanswers, hend⟩ := ih hnext
      refine ⟨?_, hend⟩
      rw [run, List.zip_cons_cons, List.forall_mem_cons]
      exact ⟨hanswer, hanswers⟩

end Service

/-! ## Bounded queues -/

/-- A call of a queue. -/
inductive QueueCall (α : Type) where
  | push (a : α)
  | pop
deriving DecidableEq, Repr

/-- What a queue answers. -/
inductive QueueAnswer (α ε : Type) where
  | pushed (result : Except ε Unit)
  | popped (oldest : Option α)

/-- The limits of a queue: how many messages it takes, which ones, and what it
answers otherwise. -/
structure QueueLimits (α ε : Type) where
  capacity : Nat
  fits : α → Bool
  full : ε
  tooLarge : α → ε

namespace BoundedQueue

variable {α ε : Type} (limits : QueueLimits α ε)

/-- A push appends a message that fits while there is room; a pop takes the oldest
message. -/
def call (queue : List α) : QueueCall α → QueueAnswer α ε × List α
  | .push a =>
      if limits.capacity ≤ queue.length then (.pushed (.error limits.full), queue)
      else if limits.fits a then (.pushed (.ok ()), queue ++ [a])
      else (.pushed (.error (limits.tooLarge a)), queue)
  | .pop => (.popped queue.head?, queue.tail)

variable {limits} {queue : List α} {a : α}

/-- A push to a full queue. -/
theorem call_push_full (hfull : limits.capacity ≤ queue.length) :
    call limits queue (.push a) = (.pushed (.error limits.full), queue) :=
  if_pos hfull

/-- A push of a message that does not fit. -/
theorem call_push_tooLarge (hroom : queue.length < limits.capacity) (hfits : limits.fits a = false) :
    call limits queue (.push a) = (.pushed (.error (limits.tooLarge a)), queue) := by
  rw [call, if_neg (Nat.not_le_of_lt hroom), if_neg (ne_true_of_eq_false hfits)]

/-- A push that succeeds. -/
theorem call_push_ok (hroom : queue.length < limits.capacity) (hfits : limits.fits a = true) :
    call limits queue (.push a) = (.pushed (.ok ()), queue ++ [a]) := by
  rw [call, if_neg (Nat.not_le_of_lt hroom), if_pos hfits]

end BoundedQueue

import Aicl.Foundation.Service

/-!
# Services that take turns

The inputs of a run go to the services of a list in turn, and every service keeps the
state that its own calls left.  A service that takes turns with others does what it
would do alone with its share of the inputs.

Main results:

- Theorem {lit}`RoundRobin.run_share`: the share of the answers is what the service
  answers to its share of the inputs.
- Theorem {lit}`RoundRobin.length_share`: how large a share is.
-/

namespace RoundRobin

variable {σ ι ο α : Type}

/-! ## Shares -/

/-- The items on whose turn place j of n comes up, when the first item is on a given
turn. -/
def share (n j : Nat) : Nat → List α → List α
  | _, [] => []
  | turn, a :: as =>
      if turn % n = j then a :: share n j (turn + 1) as else share n j (turn + 1) as

/-- An item on a turn of the place belongs to its share. -/
theorem share_cons_of_eq {n j turn : Nat} (h : turn % n = j) (a : α) (as : List α) :
    share n j turn (a :: as) = a :: share n j (turn + 1) as :=
  if_pos h

/-- An item on the turn of another place does not. -/
theorem share_cons_of_ne {n j turn : Nat} (h : turn % n ≠ j) (a : α) (as : List α) :
    share n j turn (a :: as) = share n j (turn + 1) as :=
  if_neg h

/-- A share has the items on the turns of the place. -/
theorem length_share_eq_count (n j turn : Nat) (as : List α) :
    (share n j turn as).length = Nat.count (fun i => (turn + i) % n = j) as.length := by
  induction as generalizing turn with
  | nil => simp [share]
  | cons a as ih =>
      have hturns : (fun i => (turn + (i + 1)) % n = j) = fun i => (turn + 1 + i) % n = j := by
        ext i
        rw [Nat.add_assoc turn 1 i, Nat.add_comm 1 i]
      simp only [List.length_cons, Nat.count_succ', hturns, ← ih, Nat.add_zero]
      by_cases hturn : turn % n = j
      · simp [share, hturn]
      · simp [share, hturn]

/-- Shares of all the turns from the first one on differ by one item at most, and the
places that come first have the larger ones. -/
theorem length_share {n j : Nat} (hj : j < n) (as : List α) :
    (share n j 0 as).length = as.length / n + if j < as.length % n then 1 else 0 := by
  have hcount : (fun i => (0 + i) % n = j) = fun i => i ≡ j [MOD n] := by
    ext i
    rw [Nat.zero_add, Nat.ModEq, Nat.mod_eq_of_lt hj]
  have hcard := Nat.count_modEq_card as.length (Nat.zero_lt_of_lt hj) j
  rw [Nat.mod_eq_of_lt hj] at hcard
  rw [length_share_eq_count]
  simp only [hcount]
  convert hcard

/-- A share has as many items as there are full rounds, rounded down or up. -/
theorem length_share_floor_or_ceil {n j : Nat} (hj : j < n) (as : List α) :
    (share n j 0 as).length = as.length / n ∨
      (share n j 0 as).length = (as.length + n - 1) / n := by
  have hpos : 0 < n := Nat.zero_lt_of_lt hj
  rw [length_share hj]
  by_cases hlast : j < as.length % n
  · right
    have hdiv := Nat.div_add_mod as.length n
    have hmod := Nat.mod_lt as.length hpos
    rw [if_pos hlast]
    symm
    apply Nat.div_eq_of_lt_le
    · rw [Nat.add_mul, Nat.mul_comm]
      omega
    · rw [Nat.add_mul, Nat.add_mul, Nat.mul_comm]
      omega
  · left
    rw [if_neg hlast, Nat.add_zero]

/-! ## Calls in turn -/

variable (serve : σ → ι → ο × σ) (idle : ι → ο)

/-- The service whose turn it is takes the input; without services, all inputs get the
same kind of answer. -/
def call (s : Nat × List σ) (input : ι) : ο × Nat × List σ :=
  match s.2[s.1 % s.2.length]? with
  | none => (idle input, s)
  | some service =>
      ((serve service input).1, s.1 + 1, s.2.set (s.1 % s.2.length) (serve service input).2)

variable {serve idle} {turn : Nat} {services : List σ} {service : σ}

/-- A call of the service whose turn it is. -/
theorem call_eq (h : services[turn % services.length]? = some service) (input : ι) :
    call serve idle (turn, services) input =
      ((serve service input).1, turn + 1,
        services.set (turn % services.length) (serve service input).2) := by
  simp only [call, h]

/-- A call keeps the number of services. -/
@[simp] theorem length_call (s : Nat × List σ) (input : ι) :
    (call serve idle s input).2.2.length = s.2.length := by
  unfold call
  split
  · rfl
  · exact List.length_set

/-- A run keeps the number of services. -/
theorem length_run (s : Nat × List σ) (inputs : List ι) :
    (Service.run (call serve idle) s inputs).2.2.length = s.2.length := by
  induction inputs generalizing s with
  | nil => rfl
  | cons input inputs ih => rw [Service.run, ih, length_call]

/-- A run with services takes a turn for every input. -/
theorem turn_run (hpos : 0 < services.length) (inputs : List ι) :
    (Service.run (call serve idle) (turn, services) inputs).2.1 = turn + inputs.length := by
  induction inputs generalizing turn services with
  | nil => rfl
  | cons input inputs ih =>
      have hplace : turn % services.length < services.length := Nat.mod_lt turn hpos
      rw [Service.run, call_eq (List.getElem?_eq_getElem hplace), ih, List.length_cons]
      · omega
      · rwa [List.length_set]

/-- A service that takes turns answers its share of the inputs, and ends, as it would
alone. -/
theorem run_share {j : Nat} (h : services[j]? = some service) (inputs : List ι) :
    share services.length j turn (Service.run (call serve idle) (turn, services) inputs).1 =
        (Service.run serve service (share services.length j turn inputs)).1 ∧
      (Service.run (call serve idle) (turn, services) inputs).2.2[j]? =
        some (Service.run serve service (share services.length j turn inputs)).2 := by
  induction inputs generalizing turn services service with
  | nil => exact ⟨rfl, h⟩
  | cons input inputs ih =>
      have hj : j < services.length := (List.getElem?_eq_some_iff.mp h).1
      have hplace : turn % services.length < services.length :=
        Nat.mod_lt turn (Nat.zero_lt_of_lt hj)
      have hothers : ∀ next, (services.set (turn % services.length) next).length = services.length :=
        fun next => List.length_set
      have hcall : call serve idle (turn, services) input = _ :=
        call_eq (List.getElem?_eq_getElem hplace) input
      by_cases hturn : turn % services.length = j
      · have hnext : services[turn % services.length] = service := by
          rw [← Option.some_inj, ← List.getElem?_eq_getElem hplace, hturn, h]
        rw [hnext] at hcall
        have hset : (services.set (turn % services.length) (serve service input).2)[j]? =
            some (serve service input).2 := by
          rw [hturn]
          exact List.getElem?_set_self hj
        have hrest := @ih (turn + 1) _ _ hset
        rw [hothers] at hrest
        rw [share_cons_of_eq hturn, Service.run, Service.run, hcall, share_cons_of_eq hturn, hrest.1]
        exact ⟨rfl, hrest.2⟩
      · have hset : (services.set (turn % services.length)
            (serve services[turn % services.length] input).2)[j]? = some service := by
          rw [List.getElem?_set_ne hturn]
          exact h
        have hrest := @ih (turn + 1) _ _ hset
        rw [hothers] at hrest
        rw [share_cons_of_ne hturn, Service.run, hcall, share_cons_of_ne hturn]
        exact hrest

end RoundRobin

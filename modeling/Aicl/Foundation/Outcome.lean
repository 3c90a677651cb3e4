import Mathlib

/-!
# Checked computations

A computation that reads a buffer by position can end in three ways: it returns
a value, it reports an error, or it leaves the buffer and the program stops.
This file keeps the three apart, gives them the monad in which straight-line
checked code is written, and states the rules by which a postcondition for the
whole follows from postconditions for the steps.

Main results:

- Theorem {lit}`Outcome.Sat.bind`: the sequencing rule for postconditions.
- Theorem {lit}`Outcome.slice_sat`: a checked slice inside the buffer cannot stop
  the program.
- Theorem {lit}`Outcome.bind_eq_ok_iff`: a sequence returns exactly when both
  of its parts do.
-/

/-- The three ways checked code can end. -/
inductive Outcome (ε α : Type) where
  | ok (a : α)
  | err (e : ε)
  | panic
deriving DecidableEq, Repr

namespace Outcome

variable {ε α β : Type}

/-! ## The monad of checked code -/

/-- Sequencing: an error or a panic of the first part is the end of the whole. -/
def bind (x : Outcome ε α) (f : α → Outcome ε β) : Outcome ε β :=
  match x with
  | ok a => f a
  | err e => err e
  | panic => panic

instance : Monad (Outcome ε) where
  pure := ok
  bind := Outcome.bind

@[simp] theorem pure_eq (a : α) : (pure a : Outcome ε α) = ok a := rfl

@[simp] theorem ok_bind (a : α) (f : α → Outcome ε β) : (ok a >>= f) = f a := rfl

@[simp] theorem err_bind (e : ε) (f : α → Outcome ε β) : (err e >>= f) = err e := rfl

@[simp] theorem panic_bind (f : α → Outcome ε β) : ((panic : Outcome ε α) >>= f) = panic := rfl

/-- A sequence returns a value exactly when both of its parts do. -/
theorem bind_eq_ok_iff {x : Outcome ε α} {f : α → Outcome ε β} {b : β} :
    (x >>= f) = ok b ↔ ∃ a, x = ok a ∧ f a = ok b := by
  cases x <;> simp

/-- What holds of everything that a sequence returns. -/
theorem forall_bind_eq_ok_iff {x : Outcome ε α} {f : α → Outcome ε β} {P : β → Prop} :
    (∀ b, (x >>= f) = ok b → P b) ↔ ∀ a, x = ok a → ∀ b, f a = ok b → P b := by
  cases x <;> simp

/-- Sequencing is associative. -/
theorem bind_assoc {γ : Type} (x : Outcome ε α) (f : α → Outcome ε β) (g : β → Outcome ε γ) :
    (x >>= f) >>= g = x >>= fun a => f a >>= g := by
  cases x <;> rfl

/-- A sequence panics exactly when one of its parts does. -/
theorem bind_eq_panic_iff {x : Outcome ε α} {f : α → Outcome ε β} :
    (x >>= f) = panic ↔ x = panic ∨ ∃ a, x = ok a ∧ f a = panic := by
  cases x <;> simp

/-- Whether a value was returned. -/
def isOk : Outcome ε α → Bool
  | ok _ => true
  | _ => false

/-- A value was returned exactly when the outcome is {lit}`ok` of something. -/
theorem isOk_iff {x : Outcome ε α} : x.isOk = true ↔ ∃ a, x = ok a := by
  cases x <;> simp [isOk]

/-- {lit}`x.ok()`. -/
def toOption : Outcome ε α → Option α
  | ok a => some a
  | _ => none

/-- A value was returned. -/
@[simp] theorem toOption_eq_some_iff {x : Outcome ε α} {a : α} : x.toOption = some a ↔ x = ok a := by
  cases x <;> simp [toOption]

/-- No value was returned. -/
theorem toOption_eq_none_iff {x : Outcome ε α} : x.toOption = none ↔ ∀ a, x ≠ ok a := by
  cases x <;> simp [toOption]

/-! ## Guards -/

/-- {lit}`if c return Err(e)`. -/
def failIf (c : Prop) [Decidable c] (e : ε) : Outcome ε Unit :=
  if c then err e else ok ()

/-- A guard passes exactly when its condition is false. -/
@[simp] theorem failIf_eq_ok_iff {c : Prop} [Decidable c] {e : ε} {u : Unit} :
    failIf c e = ok u ↔ ¬ c := by
  unfold failIf
  split <;> simp [*]

/-- {lit}`x.ok_or(e)`. -/
def okOr (x : Option α) (e : ε) : Outcome ε α :=
  match x with
  | some a => ok a
  | none => err e

/-- A value was there. -/
@[simp] theorem okOr_eq_ok_iff {x : Option α} {e : ε} {a : α} : okOr x e = ok a ↔ x = some a := by
  cases x <;> simp [okOr]

/-- A guard does not panic. -/
@[simp] theorem failIf_ne_panic {c : Prop} [Decidable c] {e : ε} : failIf c e ≠ panic := by
  unfold failIf
  split <;> simp

/-- A guard whose condition is false does nothing. -/
theorem failIf_of_not {c : Prop} [Decidable c] {e : ε} (h : ¬ c) : failIf c e = ok () :=
  if_neg h

/-! ## Checks that stop at the first error -/

/-- The first of the errors, if there is one. -/
def first : List ε → Outcome ε Unit
  | [] => ok ()
  | e :: _ => err e

/-- Errors of one part come before those of the next. -/
theorem first_append (es fs : List ε) : first (es ++ fs) = first es >>= fun _ => first fs := by
  cases es <;> rfl

/-- A guard has one error or none. -/
theorem failIf_eq_first (c : Prop) [Decidable c] (e : ε) :
    failIf c e = first (if c then [e] else []) := by
  unfold failIf
  split <;> rfl

/-! ## Certificates -/

/-- A returned value together with the proof of a property that all returned
values have. -/
def attach {P : α → Prop} (x : Outcome ε α) (h : ∀ a, x = ok a → P a) :
    Outcome ε { a : α // P a } :=
  match x, h with
  | ok a, h => ok ⟨a, h a rfl⟩
  | err e, _ => err e
  | panic, _ => panic

/-- A certified value is returned exactly when the value is. -/
theorem attach_eq_ok_iff {P : α → Prop} {x : Outcome ε α} {h : ∀ a, x = ok a → P a}
    {s : { a : α // P a }} : x.attach h = ok s ↔ x = ok s.val := by
  cases x with
  | ok a =>
      simp only [attach, ok.injEq]
      exact Subtype.ext_iff
  | err e => simp [attach]
  | panic => simp [attach]

/-- A certificate changes no error. -/
theorem attach_eq_err_iff {P : α → Prop} {x : Outcome ε α} {h : ∀ a, x = ok a → P a} {e : ε} :
    x.attach h = err e ↔ x = err e := by
  cases x <;> simp [attach]

/-- A certificate changes no panic. -/
theorem attach_eq_panic_iff {P : α → Prop} {x : Outcome ε α} {h : ∀ a, x = ok a → P a} :
    x.attach h = panic ↔ x = panic := by
  cases x <;> simp [attach]

/-! ## Postconditions -/

/-- The postcondition of a computation that must not stop the program: {lit}`Q`
holds of a returned value and {lit}`E` of a reported error. -/
def Sat (x : Outcome ε α) (Q : α → Prop) (E : ε → Prop) : Prop :=
  match x with
  | ok a => Q a
  | err e => E e
  | panic => False

@[simp] theorem sat_ok {a : α} {Q : α → Prop} {E : ε → Prop} :
    Sat (ok a : Outcome ε α) Q E ↔ Q a := Iff.rfl

@[simp] theorem sat_err {e : ε} {Q : α → Prop} {E : ε → Prop} :
    Sat (err e : Outcome ε α) Q E ↔ E e := Iff.rfl

/-- Sequencing rule: the first part establishes what the second needs. -/
theorem Sat.bind {x : Outcome ε α} {f : α → Outcome ε β} {R : α → Prop} {Q : β → Prop}
    {E : ε → Prop} (hx : Sat x R E) (hf : ∀ a, R a → Sat (f a) Q E) :
    Sat (x >>= f) Q E := by
  cases x with
  | ok a => exact hf a hx
  | err e => exact hx
  | panic => exact hx.elim

/-- Consequence rule. -/
theorem Sat.mono {x : Outcome ε α} {Q Q' : α → Prop} {E E' : ε → Prop} (hx : Sat x Q E)
    (hQ : ∀ a, Q a → Q' a) (hE : ∀ e, E e → E' e) : Sat x Q' E' := by
  cases x with
  | ok a => exact hQ a hx
  | err e => exact hE e hx
  | panic => exact hx.elim

/-- A computation with a postcondition does not stop the program. -/
theorem Sat.ne_panic {x : Outcome ε α} {Q : α → Prop} {E : ε → Prop} (hx : Sat x Q E) :
    x ≠ panic := by
  rintro rfl
  exact hx

/-- What the postcondition says of a returned value. -/
theorem Sat.of_eq_ok {x : Outcome ε α} {Q : α → Prop} {E : ε → Prop} (hx : Sat x Q E)
    {a : α} (h : x = ok a) : Q a := by
  subst h
  exact hx

/-- What the postcondition says of a reported error. -/
theorem Sat.of_eq_err {x : Outcome ε α} {Q : α → Prop} {E : ε → Prop} (hx : Sat x Q E)
    {e : ε} (h : x = err e) : E e := by
  subst h
  exact hx

/-! ## Checks -/

/-- A check that passes exactly when a condition holds, and otherwise reports an
error. -/
def Decides (x : Outcome ε Unit) (P : Prop) : Prop :=
  x.Sat (fun _ => P) fun _ => ¬ P

/-- When the check passes. -/
theorem Decides.eq_ok_iff {x : Outcome ε Unit} {P : Prop} (h : x.Decides P) :
    x = ok () ↔ P := by
  unfold Decides at h
  cases x with
  | ok u => simpa using h
  | err e => simpa using h
  | panic => exact h.elim

/-- The condition may be stated in another way. -/
theorem Decides.congr {x : Outcome ε Unit} {P Q : Prop} (h : x.Decides P) (hPQ : P ↔ Q) :
    x.Decides Q :=
  Sat.mono h (fun _ => hPQ.mp) fun _ he hQ => he (hPQ.mpr hQ)

/-- A guard checks that its condition is false. -/
theorem failIf_decides (c : Prop) [Decidable c] (e : ε) : (failIf c e).Decides (¬ c) := by
  unfold failIf
  split <;> simpa [Decides]

/-- A check that always passes. -/
theorem decides_true : (ok () : Outcome ε Unit).Decides True := trivial

/-- A check followed by another one that may rely on it. -/
theorem Decides.bind {x : Outcome ε Unit} {f : Unit → Outcome ε Unit} {P Q : Prop}
    (hx : x.Decides P) (hf : P → (f ()).Decides Q) : (x >>= f).Decides (P ∧ Q) := by
  cases x with
  | ok u =>
      exact Sat.mono (hf hx) (fun _ hQ => ⟨hx, hQ⟩) fun _ hQ h => hQ h.2
  | err e => exact fun h => hx h.1
  | panic => exact hx.elim

/-! ## Checked access to a buffer -/

/-- {lit}`data[i]`. -/
def index (data : List β) (i : Nat) : Outcome ε β :=
  match data[i]? with
  | some b => ok b
  | none => panic

/-- {lit}`&data[a..b]`. -/
def slice (data : List β) (a b : Nat) : Outcome ε (List β) :=
  if a ≤ b ∧ b ≤ data.length then ok ((data.drop a).take (b - a)) else panic

/-- {lit}`&data[a..]`. -/
def sliceFrom (data : List β) (a : Nat) : Outcome ε (List β) :=
  if a ≤ data.length then ok (data.drop a) else panic

@[simp] theorem index_cons_zero (b : β) (bs : List β) :
    (index (b :: bs) 0 : Outcome ε β) = ok b := rfl

/-- Reading past the end stops the program. -/
theorem index_eq_panic_iff {data : List β} {i : Nat} :
    (index data i : Outcome ε β) = panic ↔ data.length ≤ i := by
  unfold index
  cases h : data[i]? with
  | none => simpa using h
  | some b =>
      have hlt := (List.getElem?_eq_some_iff.mp h).1
      simp only [reduceCtorEq, false_iff]
      omega

/-- Reading inside the buffer returns the byte that is there. -/
theorem index_of_lt {data : List β} {i : Nat} (h : i < data.length) :
    (index data i : Outcome ε β) = ok data[i] := by
  simp [index, h]

/-- Reading at the end of a prefix returns the first byte of what follows it. -/
theorem index_append_cons {pre post : List β} {b : β} {i : Nat} (h : pre.length = i) :
    (index (pre ++ b :: post) i : Outcome ε β) = ok b := by
  subst h
  simp [index]

/-- A slice that starts and ends inside the buffer. -/
theorem slice_of_le {data : List β} {a b : Nat} (hab : a ≤ b) (hb : b ≤ data.length) :
    (slice data a b : Outcome ε (List β)) = ok ((data.drop a).take (b - a)) := by
  simp [slice, hab, hb]

/-- Slicing out the middle of a concatenation. -/
theorem slice_append {pre mid post : List β} {a b : Nat} (ha : pre.length = a)
    (hb : a + mid.length = b) :
    (slice (pre ++ (mid ++ post)) a b : Outcome ε (List β)) = ok mid := by
  subst ha hb
  rw [slice_of_le (by omega) (by simp)]
  simp

/-- The open slice from a position inside the buffer. -/
theorem sliceFrom_of_le {data : List β} {a : Nat} (h : a ≤ data.length) :
    (sliceFrom data a : Outcome ε (List β)) = ok (data.drop a) := by
  simp [sliceFrom, h]

/-- The open slice from the end of a prefix. -/
theorem sliceFrom_append {pre post : List β} {a : Nat} (h : pre.length = a) :
    (sliceFrom (pre ++ post) a : Outcome ε (List β)) = ok post := by
  subst h
  rw [sliceFrom_of_le (by simp)]
  simp

/-- A slice inside the buffer does not stop the program. -/
theorem slice_sat {data : List β} {a b : Nat} {E : ε → Prop} (hab : a ≤ b)
    (hb : b ≤ data.length) :
    Sat (slice data a b : Outcome ε (List β))
      (fun s => data = data.take a ++ (s ++ data.drop b) ∧ s.length = b - a) E := by
  rw [slice_of_le hab hb]
  have hdrop : data.drop b = (data.drop a).drop (b - a) := by
    rw [List.drop_drop]
    congr 1
    omega
  refine ⟨?_, by simp; omega⟩
  rw [hdrop, List.take_append_drop, List.take_append_drop]

end Outcome

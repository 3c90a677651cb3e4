import Mathlib

/-!
# Values that hold values of their own type

Lists and maps of values, themselves values, to any depth.  A type of such
values says which values stand directly inside one, and that one cannot go on
inwards for ever; the rest is about what stands inside at any depth.

Main results:

- Theorem {lit}`Nested.all_iff`: a property holds throughout a value exactly when
  it holds of the value and throughout what it directly holds.
- Theorem {lit}`Nested.forall_atDepth_iff`: the same for properties that look at
  the depth.
- Theorem {lit}`Nested.induct`: induction from the inside out.
-/

/-- A type whose values directly hold values of the same type. -/
class Nested (α : Type) where
  children : α → List α
  wf : WellFounded fun c a => c ∈ children a

namespace Nested

/-- It is enough that values get smaller on the way in. -/
theorem wf_of_sizeOf {α : Type} [SizeOf α] {children : α → List α}
    (h : ∀ {c a : α}, c ∈ children a → sizeOf c < sizeOf a) :
    WellFounded fun c a => c ∈ children a :=
  Subrelation.wf h (measure sizeOf).wf

variable {α : Type} [Nested α] {P : α → Prop}

/-- The first value is the second one or nested in it, at any depth. -/
inductive Within : α → α → Prop
  | refl (a : α) : Within a a
  | child {x c a : α} : c ∈ children a → Within x c → Within x a

/-- A property holds of a value and of everything nested in it. -/
def All (P : α → Prop) (a : α) : Prop :=
  ∀ x, Within x a → P x

/-- The property holds of the value itself. -/
theorem All.self {a : α} (h : All P a) : P a :=
  h a (.refl a)

/-- The property holds of the value and throughout what it directly holds. -/
theorem all_iff {a : α} : All P a ↔ P a ∧ ∀ c ∈ children a, All P c := by
  constructor
  · exact fun h => ⟨h.self, fun c hc x hx => h x (.child hc hx)⟩
  · rintro ⟨hself, hchildren⟩ x (_ | ⟨hc, hx⟩)
    · exact hself
    · exact hchildren _ hc _ hx

/-- A stronger property holds throughout. -/
theorem All.mono {Q : α → Prop} {a : α} (h : All P a) (hPQ : ∀ x, P x → Q x) : All Q a :=
  fun x hx => hPQ x (h x hx)

/-- What is nested in something nested in a value is nested in the value. -/
theorem Within.trans {x y z : α} (hxy : Within x y) (hyz : Within y z) : Within x z := by
  induction hyz with
  | refl => exact hxy
  | child hc _ ih => exact .child hc ih

/-- A property that holds throughout holds throughout every nested value. -/
theorem All.within {x a : α} (h : All P a) (hx : Within x a) : All P x :=
  fun _ hy => h _ (hy.trans hx)

/-- The first value stands a number of levels inside the second one. -/
inductive AtDepth : Nat → α → α → Prop
  | here (a : α) : AtDepth 0 a a
  | child {d : Nat} {x c a : α} : c ∈ children a → AtDepth d x c → AtDepth (d + 1) x a

/-- Above a value at some depth there is one at every smaller depth. -/
theorem AtDepth.exists_of_le {d : Nat} {x a : α} (h : AtDepth d x a) {k : Nat} (hk : k ≤ d) :
    ∃ y, AtDepth k y a := by
  induction h generalizing k with
  | here a =>
      rw [Nat.le_zero.mp hk]
      exact ⟨a, .here a⟩
  | @child d x c a hc _ ih =>
      cases k with
      | zero => exact ⟨a, .here a⟩
      | succ k =>
          have ⟨y, hy⟩ := ih (Nat.le_of_succ_le_succ hk)
          exact ⟨y, .child hc hy⟩

/-- What stands inside a value stands there at some depth. -/
theorem within_iff {x a : α} : Within x a ↔ ∃ d, AtDepth d x a := by
  constructor
  · intro h
    induction h with
    | refl => exact ⟨0, .here x⟩
    | child hc _ ih =>
        have ⟨d, hd⟩ := ih
        exact ⟨d + 1, .child hc hd⟩
  · intro ⟨d, h⟩
    induction h with
    | here a => exact .refl a
    | child hc _ ih => exact .child hc ih

/-- A property of depths and values holds throughout a value exactly when it
holds of the value at depth 0 and, one level deeper, throughout what it directly
holds. -/
theorem forall_atDepth_iff {P : Nat → α → Prop} {a : α} :
    (∀ d x, AtDepth d x a → P d x) ↔
      P 0 a ∧ ∀ c ∈ children a, ∀ d x, AtDepth d x c → P (d + 1) x := by
  constructor
  · exact fun h => ⟨h 0 a (.here a), fun c hc d x hx => h (d + 1) x (.child hc hx)⟩
  · rintro ⟨hself, hchildren⟩ d x (_ | ⟨hc, hx⟩)
    · exact hself
    · exact hchildren _ hc _ _ hx

/-- Induction from the inside out. -/
theorem induct (step : ∀ a : α, (∀ c ∈ children a, P c) → P a) (a : α) : P a :=
  wf.induction a step

end Nested

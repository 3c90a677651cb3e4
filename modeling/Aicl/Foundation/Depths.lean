import Aicl.Foundation.Nested

/-!
# Depths of nested values

How deep values stand in each other: no deeper than a measure that gets smaller on the
way in, and equally deep in a value and in its image, when the function goes along with
what stands directly inside.

Main results:

- Theorem {lit}`Nested.AtDepth.add_le`: a measure bounds the depth.
- Theorem {lit}`Nested.forall_atDepth_map_iff`: what stands in an image, depth by depth.
-/

namespace Nested

variable {α β : Type} [Nested α] [Nested β] {d : Nat} {x a : α} {y : β}

/-- A measure that gets smaller on the way in bounds the depth. -/
theorem AtDepth.add_le {m : α → Nat} (hm : ∀ a : α, ∀ c ∈ children a, m c < m a)
    (h : AtDepth d x a) : d + m x ≤ m a := by
  induction h with
  | here a => exact (Nat.zero_add _).le
  | @child d x c a hc _ ih =>
      have hlt := hm a c hc
      omega

variable {f : α → β}

/-- What stands in a value has its image in the image of the value, equally deep. -/
theorem AtDepth.map (hf : ∀ a, children (f a) = (children a).map f) (h : AtDepth d x a) :
    AtDepth d (f x) (f a) := by
  induction h with
  | here a => exact .here _
  | @child d x c a hc _ ih =>
      refine .child ?_ ih
      rw [hf]
      exact List.mem_map_of_mem hc

/-- What stands in the image of a value is the image of something equally deep. -/
theorem AtDepth.exists_of_map (hf : ∀ a, children (f a) = (children a).map f)
    (h : AtDepth d y (f a)) : ∃ x, AtDepth d x a ∧ f x = y := by
  induction d generalizing a with
  | zero =>
      cases h with
      | here => exact ⟨a, .here a, rfl⟩
  | succ d ih =>
      cases h with
      | child hc hy =>
          rw [hf] at hc
          rcases List.mem_map.mp hc with ⟨c, hmem, rfl⟩
          rcases ih hy with ⟨x, hx, heq⟩
          exact ⟨x, .child hmem hx, heq⟩

/-- A property of depths and values holds throughout the image of a value exactly when it
holds of the images of what stands in the value. -/
theorem forall_atDepth_map_iff (hf : ∀ a, children (f a) = (children a).map f)
    {P : Nat → β → Prop} :
    (∀ d y, AtDepth d y (f a) → P d y) ↔ ∀ d x, AtDepth d x a → P d (f x) := by
  constructor
  · intro h d x hx
    exact h d (f x) (.map hf hx)
  · intro h d y hy
    rcases AtDepth.exists_of_map hf hy with ⟨x, hx, rfl⟩
    exact h d x hx

end Nested

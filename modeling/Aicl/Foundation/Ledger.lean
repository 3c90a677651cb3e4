import Mathlib

/-!
# Ledgers of resources

Resources are issued under consecutive numbers.  A ledger says where each of them
is: held by somebody, released, or lost, which is nobody's any more without having
been released.

Main results:

- Theorems {lit}`Ledger.hold`, {lit}`Ledger.lose`, {lit}`Ledger.release` and
  {lit}`Ledger.abandon`: what issuing, releasing and giving up do to a ledger.
- Theorem {lit}`Ledger.settled_iff`: everything that is not held was released
  exactly once if and only if nothing was lost.
-/

/-- Of the resources issued so far each is in exactly one of three places. -/
def Ledger (issued : Nat) (held released lost : List Nat) : Prop :=
  (held ++ (released ++ lost)).Perm (List.range issued)

namespace Ledger

variable {issued : Nat} {held released lost : List Nat}

/-- Nothing was issued yet. -/
theorem empty : Ledger 0 [] [] [] := List.Perm.refl []

/-- The next resource goes to whoever asked for it. -/
theorem hold (h : Ledger issued held released lost) :
    Ledger (issued + 1) (held ++ [issued]) released lost := by
  unfold Ledger at h ⊢
  rw [List.range_succ, List.append_assoc]
  exact (List.perm_append_comm.append_left held).trans
    ((List.append_assoc held _ _).symm ▸ h.append_right [issued])

/-- The next resource gets lost. -/
theorem lose (h : Ledger issued held released lost) :
    Ledger (issued + 1) held released (lost ++ [issued]) := by
  unfold Ledger at h ⊢
  rw [List.range_succ, ← List.append_assoc, ← List.append_assoc, List.append_assoc held]
  exact h.append_right [issued]

/-- A held resource is released. -/
theorem release {before after : List Nat} {a : Nat}
    (h : Ledger issued (before ++ a :: after) released lost) :
    Ledger issued (before ++ after) (released ++ [a]) lost := by
  unfold Ledger at h ⊢
  refine List.Perm.trans ?_ h
  simp only [List.append_assoc]
  refine List.Perm.append_left before ?_
  have hmove : (released ++ a :: lost).Perm (a :: (released ++ lost)) := List.perm_middle
  exact (hmove.append_left after).trans List.perm_middle

/-- Held resources are given up. -/
theorem abandon {rest : List Nat} (h : Ledger issued (held ++ rest) released lost) :
    Ledger issued held released (lost ++ rest) := by
  unfold Ledger at h ⊢
  rw [List.append_assoc] at h
  refine List.Perm.trans (List.Perm.append_left held ?_) h
  rw [← List.append_assoc]
  exact List.perm_append_comm

/-- A resource is in one place. -/
theorem nodup (h : Ledger issued held released lost) : (held ++ (released ++ lost)).Nodup :=
  (List.Perm.nodup_iff h).mpr List.nodup_range

/-- A resource that was issued is somewhere. -/
theorem lt_issued_iff (h : Ledger issued held released lost) (a : Nat) :
    a < issued ↔ a ∈ held ∨ a ∈ released ∨ a ∈ lost := by
  rw [← List.mem_range, ← List.Perm.mem_iff h, List.mem_append, List.mem_append]

/-- Nothing is released twice. -/
theorem count_le_one (h : Ledger issued held released lost) (a : Nat) : released.count a ≤ 1 :=
  List.nodup_iff_count_le_one.mp (List.Nodup.of_append_left (List.Nodup.of_append_right h.nodup)) a

/-- Everything that is not held was released exactly once if and only if nothing was
lost. -/
theorem settled_iff (h : Ledger issued held released lost) :
    (∀ a < issued, a ∉ held → released.count a = 1) ↔ lost = [] := by
  constructor
  · intro honce
    by_contra hlost
    obtain ⟨a, ha⟩ := List.exists_mem_of_ne_nil lost hlost
    have hdisjoint := List.nodup_append.mp h.nodup
    have hheld : a ∉ held := by
      intro hmem
      exact hdisjoint.2.2 a hmem a (List.mem_append_right released ha) rfl
    have hreleased : a ∉ released := by
      intro hmem
      exact (List.nodup_append.mp hdisjoint.2.1).2.2 a hmem a ha rfl
    have hcount := honce a ((h.lt_issued_iff a).mpr (.inr (.inr ha))) hheld
    rw [List.count_eq_zero_of_not_mem hreleased] at hcount
    exact absurd hcount (by decide)
  · intro hlost a ha hheld
    subst hlost
    have hreleased : a ∈ released := by simpa [hheld] using (h.lt_issued_iff a).mp ha
    exact Nat.le_antisymm (h.count_le_one a) (List.one_le_count_iff.mpr hreleased)

end Ledger

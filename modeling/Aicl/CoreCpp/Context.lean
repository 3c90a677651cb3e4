import Aicl.Foundation.Machine

/-!
# The model context of the C++ core

The registry of {lit}`core-cpp/include/aicl/aicl_context.hpp`: models under
16-bit references that a counter gives out.  The counter wraps and steps over 0,
and {lit}`emplace` does nothing on a reference that is in use.

Main results:

- Theorem {lit}`ModelContext.registersFaithfully_iff`: one registration is
  faithful exactly when the counter stands at a free reference.
- Theorem {lit}`ModelContext.registers_free_caps_iff`: the same for every run.
- Theorem {lit}`ModelContext.register_reuses`: the counter comes back to a
  reference that is in use.
-/

namespace Aicl.CoreCpp

variable {M : Type}

/-- A {lit}`std::unordered_map`. -/
abbrev UnorderedMap (κ : Type) [DecidableEq κ] (α : Type) := AList fun _ : κ => α

/-- {lit}`emplace`: an entry that is there stays. -/
def UnorderedMap.emplace {κ : Type} [DecidableEq κ] (map : UnorderedMap κ M) (key : κ) (m : M) :
    UnorderedMap κ M :=
  if key ∈ map then map else map.insert key m

/-- The registry of models.  The counter never stands at 0, and nothing is
registered there. -/
structure ModelContext (M : Type) where
  models : UnorderedMap UInt16 M
  nextCap : UInt16
  nextCap_ne_zero : nextCap ≠ 0
  zero_not_mem : 0 ∉ models

namespace ModelContext

/-- An empty registry. -/
def new : ModelContext M where
  models := ∅
  nextCap := 1
  nextCap_ne_zero := by decide
  zero_not_mem := AList.notMem_empty 0

/-- {lit}`lookup`. -/
def lookup (ctx : ModelContext M) (cap : UInt16) : Option M := ctx.models.lookup cap

/-- {lit}`next_cap_++`, then the step over 0. -/
def bump (cap : UInt16) : UInt16 := if cap + 1 = 0 then 1 else cap + 1

/-- The counter steps over 0. -/
theorem bump_ne_zero (cap : UInt16) : bump cap ≠ 0 := by
  unfold bump
  split
  · decide
  · assumption

/-- The registry after a reference was given out for a model. -/
def give (ctx : ModelContext M) (model : M) : ModelContext M where
  models := ctx.models.emplace ctx.nextCap model
  nextCap := bump ctx.nextCap
  nextCap_ne_zero := bump_ne_zero ctx.nextCap
  zero_not_mem := by
    unfold UnorderedMap.emplace
    split
    · exact ctx.zero_not_mem
    · rw [AList.mem_insert, not_or]
      exact ⟨ctx.nextCap_ne_zero.symm, ctx.zero_not_mem⟩

/-- {lit}`register_model`; a null pointer is refused with reference 0. -/
def registerModel (ctx : ModelContext M) (m : Option M) : UInt16 × ModelContext M :=
  match m with
  | none => (0, ctx)
  | some model => (ctx.nextCap, ctx.give model)

/-- {lit}`unregister`. -/
def unregister (ctx : ModelContext M) (cap : UInt16) : Bool × ModelContext M :=
  (decide (cap ∈ ctx.models),
    { ctx with
      models := ctx.models.erase cap
      zero_not_mem := fun h => ctx.zero_not_mem (AList.mem_erase.mp h).2 })

/-- Reference 0 never maps to a model. -/
@[simp] theorem lookup_zero (ctx : ModelContext M) : ctx.lookup 0 = none :=
  AList.lookup_eq_none.mpr ctx.zero_not_mem

variable {ctx : ModelContext M} {model : M} {cap : UInt16}

/-- Giving out a reference leaves the others. -/
theorem lookup_give_ne (h : cap ≠ ctx.nextCap) : (ctx.give model).lookup cap = ctx.lookup cap := by
  simp only [lookup, give, UnorderedMap.emplace]
  split
  · rfl
  · exact AList.lookup_insert_ne h

/-- A free reference that is given out maps to the model. -/
theorem lookup_give (h : ctx.lookup ctx.nextCap = none) :
    (ctx.give model).lookup ctx.nextCap = some model := by
  simp only [lookup, give, UnorderedMap.emplace]
  rw [if_neg (AList.lookup_eq_none.mp h)]
  exact AList.lookup_insert _

/-- Giving a reference back leaves the others. -/
theorem lookup_unregister (ctx : ModelContext M) (cap other : UInt16) :
    (ctx.unregister cap).2.lookup other = if other = cap then none else ctx.lookup other := by
  simp only [lookup, unregister]
  split
  · next h =>
      rw [h]
      exact AList.lookup_erase cap ctx.models
  · next h => exact AList.lookup_erase_ne h

/-! ## One registration -/

/-- The registration gave out a reference that was free and put the model there,
and left every other reference. -/
structure RegistersAt (ctx : ModelContext M) (m : Option M) (cap : UInt16)
    (ctx' : ModelContext M) : Prop where
  lookup_eq : ctx'.lookup cap = m
  was_free : ctx.lookup cap = none
  lookup_ne : ∀ other, other ≠ cap → ctx'.lookup other = ctx.lookup other

/-- A registration that returns a reference gave it out faithfully. -/
def RegistersFaithfully (ctx : ModelContext M) (m : Option M) : Prop :=
  (ctx.registerModel m).1 ≠ 0 →
    RegistersAt ctx m (ctx.registerModel m).1 (ctx.registerModel m).2

/-- One registration is faithful exactly when the counter stands at a free
reference; a null pointer is no registration. -/
theorem registersFaithfully_iff (ctx : ModelContext M) (m : Option M) :
    RegistersFaithfully ctx m ↔ (m.isSome → ctx.lookup ctx.nextCap = none) := by
  cases m with
  | none => simp [RegistersFaithfully, registerModel]
  | some model =>
      constructor
      · intro h _
        exact (h ctx.nextCap_ne_zero).was_free
      · intro hfree _
        exact ⟨lookup_give (hfree rfl), hfree rfl, fun _ => lookup_give_ne⟩

/-! ## Runs -/

/-- What is asked of a context. -/
inductive ContextCall (M : Type) where
  | registerModel (m : Option M)
  | unregister (cap : UInt16)
deriving DecidableEq, Repr

/-- One call. -/
def step (ctx : ModelContext M) : ContextCall M → Option (ModelContext M)
  | .registerModel m => some (ctx.registerModel m).2
  | .unregister cap => some (ctx.unregister cap).2

/-- A registration in this state is faithful. -/
def Faithful (ctx : ModelContext M) : ContextCall M → Prop
  | .registerModel m => RegistersFaithfully ctx m
  | .unregister _ => True

/-- A registration in this state finds the counter at a free reference. -/
def NextFree (ctx : ModelContext M) : ContextCall M → Prop
  | .registerModel m => m.isSome → ctx.lookup ctx.nextCap = none
  | .unregister _ => True

/-- In every run every registration is faithful, and reference 0 maps to nothing,
exactly when every registration finds the counter at a free reference. -/
theorem registers_free_caps_iff (calls : List (ContextCall M)) :
    (Machine.Along step Faithful new calls ∧
      ∀ ctx, Machine.run step new calls = some ctx → ctx.lookup 0 = none) ↔
    Machine.Along step NextFree new calls := by
  have hagree : Machine.Along step Faithful (new : ModelContext M) calls ↔
      Machine.Along step NextFree new calls := by
    apply Machine.along_congr
    intro ctx call
    cases call with
    | registerModel m => exact registersFaithfully_iff ctx m
    | unregister cap => rfl
  constructor
  · intro h
    exact hagree.mp h.1
  · intro hfree
    exact ⟨hagree.mpr hfree, fun ctx _ => ctx.lookup_zero⟩

/-! ## The counter comes around -/

/-- Only reference 1 is in use, for the first model; the counter stands at
{lit}`cap`. -/
structure OneLive (ctx : ModelContext Nat) (cap : UInt16) : Prop where
  nextCap_eq : ctx.nextCap = cap
  lookup_one : ctx.lookup 1 = some 0
  lookup_ne : ∀ other, other ≠ 1 → ctx.lookup other = none

/-- A model is registered and unregistered at once: the counter moves on. -/
theorem OneLive.lap {ctx : ModelContext Nat} {cap : UInt16} (h : OneLive ctx cap) (hcap : cap ≠ 1)
    (model : Nat) : ∃ ctx', Machine.run step ctx [.registerModel (some model), .unregister cap] =
      some ctx' ∧ OneLive ctx' (bump cap) := by
  refine ⟨((ctx.give model).unregister cap).2, rfl, ?_, ?_, ?_⟩
  · exact congrArg bump h.nextCap_eq
  · rw [lookup_unregister, if_neg hcap.symm, lookup_give_ne, h.lookup_one]
    rw [h.nextCap_eq]
    exact hcap.symm
  · intro other hother
    rw [lookup_unregister]
    split
    · rfl
    · next hne =>
        rw [lookup_give_ne, h.lookup_ne other hother]
        rw [h.nextCap_eq]
        exact hne

/-- The first model stays; others come and go. -/
def laps (n : Nat) : List (ContextCall Nat) :=
  .registerModel (some 0) ::
    (List.range n).flatMap fun i =>
      [.registerModel (some (i + 1)), .unregister (UInt16.ofNat (i + 2))]

/-- Below the end of its range the counter counts. -/
theorem bump_ofNat {n : Nat} (h : n + 1 < UInt16.size) :
    bump (UInt16.ofNat n) = UInt16.ofNat (n + 1) := by
  have hne : UInt16.ofNat (n + 1) ≠ 0 := by
    intro hzero
    have htoNat := congrArg UInt16.toNat hzero
    rw [UInt16.toNat_ofNat_of_lt' h] at htoNat
    exact absurd htoNat (by simp)
  rw [UInt16.ofNat_add] at hne ⊢
  exact if_neg hne

/-- One more model comes and goes. -/
theorem run_laps_succ {n : Nat} {ctx ctx' : ModelContext Nat}
    (hrun : Machine.run step new (laps n) = some ctx)
    (hlap : Machine.run step ctx [.registerModel (some (n + 1)), .unregister (UInt16.ofNat (n + 2))]
      = some ctx') : Machine.run step new (laps (n + 1)) = some ctx' := by
  have hlaps : laps (n + 1) = laps n ++
      [.registerModel (some (n + 1)), .unregister (UInt16.ofNat (n + 2))] := by
    simp [laps, List.range_succ]
  rw [hlaps, Machine.run_append, hrun]
  exact hlap

/-- After so many models the counter stands further on. -/
theorem exists_run_laps {n : Nat} (hn : n + 2 < UInt16.size) :
    ∃ ctx, Machine.run step new (laps n) = some ctx ∧ OneLive ctx (UInt16.ofNat (n + 2)) := by
  induction n with
  | zero =>
      refine ⟨new.give 0, rfl, rfl, rfl, fun other hother => ?_⟩
      exact (lookup_give_ne hother).trans rfl
  | succ n ih =>
      obtain ⟨ctx, hrun, hlive⟩ := ih (by omega)
      have hone : UInt16.ofNat (n + 2) ≠ 1 := by
        intro h
        have htoNat := congrArg UInt16.toNat h
        rw [UInt16.toNat_ofNat_of_lt' (by omega)] at htoNat
        exact absurd htoNat (by simp)
      obtain ⟨ctx', hlap, hlive'⟩ := hlive.lap hone (n + 1)
      rw [bump_ofNat hn] at hlive'
      exact ⟨ctx', run_laps_succ hrun hlap, hlive'⟩

/-- The first model of a context stays registered while 65,534 others come and
go; the next one is given the reference of the first and is dropped. -/
theorem register_reuses :
    ¬ ∀ calls : List (ContextCall Nat),
      Machine.Along step Faithful new calls ∧
        ∀ ctx, Machine.run step new calls = some ctx → ctx.lookup 0 = none := by
  intro h
  obtain ⟨ctx, hrun, hlive⟩ := exists_run_laps (n := 65533) (by decide)
  obtain ⟨ctx', hlap, hlive'⟩ := hlive.lap (by decide) 65534
  have hone : bump (UInt16.ofNat (65533 + 2)) = 1 := by decide
  rw [hone] at hlive'
  have hlaps := run_laps_succ hrun hlap
  obtain ⟨halong, _⟩ := h (laps 65534 ++ [.registerModel (some 65535)])
  have hfaithful := ((Machine.along_append.mp halong).2 ctx' hlaps).1
  have hfree := (registersFaithfully_iff ctx' (some 65535)).mp hfaithful rfl
  rw [hlive'.nextCap_eq, hlive'.lookup_one] at hfree
  cases hfree

end ModelContext

end Aicl.CoreCpp

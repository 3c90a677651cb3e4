import Aicl.Sdk.Runtime

/-!
# Connecting by name

{lit}`has_capability` of {lit}`aicl/sdk/runtime.py` against {lit}`connect` and
{lit}`connect_any`.  A capability is there when its name is; it is connected when it
is the first one that mentions the name.

Main results:

- Theorem {lit}`Runtime.connects_iff`: which capability a connection is for.
- Theorem {lit}`Runtime.connects_by_name_iff`: when it is the one that was named.
-/

namespace Aicl.Sdk

namespace Runtime

variable {χ τ : Type} [DecidableEq χ]

/-- {lit}`has_capability`. -/
def hasCapability (self : Runtime χ τ) (name : List χ) : Bool :=
  self.capabilities.any fun c => decide (c.name = name)

/-- A connection returned a model whose capability has this name. -/
def Connects (result : Outcome (RuntimeError χ) (Nat × Runtime χ τ)) (name : List χ) : Prop :=
  ∃ model r object, result = .ok (model, r) ∧ r.objects[model]? = some object ∧
    object.capability.name = name

/-- A capability of this name matches the query, and none before it does. -/
def MatchesFirst (lower : List χ → List χ) (capabilities : List (Capability χ))
    (query name : List χ) : Prop :=
  ∃ before cap after, capabilities = before ++ cap :: after ∧ cap.name = name ∧
    cap.matchesQuery lower query = true ∧ ∀ c ∈ before, c.matchesQuery lower query = false

/-- No capability matches the query. -/
def MatchesNone (lower : List χ → List χ) (capabilities : List (Capability χ))
    (query : List χ) : Prop :=
  ∀ c ∈ capabilities, c.matchesQuery lower query = false

variable {lower : List χ → List χ} {self : Runtime χ τ} {name : List χ}

/-- The capability that a query finds first. -/
theorem resolveQuery_eq_some_iff {capabilities : List (Capability χ)} {query : List χ} :
    resolveQuery lower capabilities query = some name ↔
      MatchesFirst lower capabilities query name := by
  simp only [resolveQuery, Option.map_eq_some_iff, List.find?_eq_some_iff_append, MatchesFirst,
    Bool.not_eq_eq_eq_not, Bool.not_true]
  constructor
  · rintro ⟨cap, ⟨hmatch, before, after, hsplit, hbefore⟩, hname⟩
    exact ⟨before, cap, after, hsplit, hname, hmatch, hbefore⟩
  · rintro ⟨before, cap, after, hsplit, hname, hmatch, hbefore⟩
    exact ⟨cap, ⟨hmatch, before, after, hsplit, hbefore⟩, hname⟩

/-- A query finds nothing. -/
theorem resolveQuery_eq_none_iff {capabilities : List (Capability χ)} {query : List χ} :
    resolveQuery lower capabilities query = none ↔ MatchesNone lower capabilities query := by
  simp [resolveQuery, MatchesNone]

/-- The model that is registered for a capability. -/
theorem connects_register_iff {cap : Capability χ} {label : List χ} :
    Connects (.ok (self.objects.length, self.register cap label)) name ↔ cap.name = name := by
  constructor
  · rintro ⟨model, r, object, hok, hobject, hname⟩
    cases hok
    simp only [register, List.getElem?_concat_length, Option.some.injEq] at hobject
    rwa [← hobject] at hname
  · intro hname
    exact ⟨_, _, .new cap label, rfl, by simp [register], hname⟩

omit [DecidableEq χ] in
/-- An exception is no connection. -/
theorem not_connects_err (e : RuntimeError χ) :
    ¬ Connects (.err e : Outcome (RuntimeError χ) (Nat × Runtime χ τ)) name := by
  rintro ⟨model, r, object, hok, -⟩
  cases hok

/-- The loop of {lit}`connect_any` connects what the first query that finds anything
finds first. -/
theorem connectFirst_connects_iff (hopen : self.closed = false) (requested : List (List χ))
    (label : List χ) (queries : List (List χ)) :
    Connects (self.connectFirst lower requested label queries) name ↔
      queries.findSome? (resolveQuery lower self.capabilities) = some name := by
  induction queries with
  | nil => simp [connectFirst, not_connects_err]
  | cons query queries ih =>
      unfold connectFirst
      rcases connect_cases lower hopen query label with
        ⟨hnone, e, herr, hclass⟩ | ⟨cap, hsome, hconnect⟩
      · simp only [herr, hclass, if_true, List.findSome?_cons, hnone]
        exact ih
      · simp only [hconnect, List.findSome?_cons, hsome, connects_register_iff,
          Option.some.injEq]

/-- A connection is for the capability that its queries resolve to. -/
theorem connects_iff (hopen : self.closed = false) (c : ConnectCall χ) :
    Connects (self.run lower c) name ↔ resolve lower self.capabilities c = some name := by
  cases c with
  | connect query label =>
      rw [run, resolve]
      rcases connect_cases lower hopen query label with
        ⟨hnone, e, herr, hclass⟩ | ⟨cap, hsome, hconnect⟩
      · simp [herr, hnone, not_connects_err]
      · simp only [hconnect, hsome, connects_register_iff, Option.some.injEq]
  | connectAny requested label => exact connectFirst_connects_iff hopen requested label requested

/-- On an open runtime, a name that is there connects its capability exactly when no
capability before it matches the name; and the first of the requested names that is
there is connected exactly when the first request that anything matches is matched
first by it. -/
theorem connects_by_name_iff (lower : List χ → List χ) (self : Runtime χ τ)
    (hopen : self.closed = false) (label : List χ) :
    (∀ name, self.hasCapability name = true →
      (Connects (self.connect lower name label) name ↔
        MatchesFirst lower self.capabilities name name)) ∧
    (∀ requested name, requested.find? self.hasCapability = some name →
      (Connects (self.connectAny lower requested label) name ↔
        ∃ before query after, requested = before ++ query :: after ∧
          MatchesFirst lower self.capabilities query name ∧
          ∀ q ∈ before, MatchesNone lower self.capabilities q)) := by
  constructor
  · intro name _
    exact (connects_iff hopen (.connect name label)).trans resolveQuery_eq_some_iff
  · intro requested name _
    refine (connects_iff hopen (.connectAny requested label)).trans ?_
    simp only [resolve, List.findSome?_eq_some_iff, resolveQuery_eq_some_iff,
      resolveQuery_eq_none_iff]

/-- Two capabilities, the first of which mentions the second. -/
def rankers : List (Capability Char) :=
  [{ name := "search".toList, description := "Find and rank documents".toList },
    { name := "rank".toList }]

/-- A name that is mentioned by itself only is connected. -/
theorem connects_classify : Connects (sample.connect asciiLower "classify".toList []) "classify".toList :=
  ((connects_by_name_iff asciiLower sample rfl []).1 "classify".toList (by decide)).mpr
    ⟨[], { name := "classify".toList, description := "Classify text into categories".toList },
      [{ name := "embed".toList, description := "Compute text embeddings".toList }],
      rfl, rfl, by decide, by simp⟩

/-- A capability that mentions the name is connected in place of the named one. -/
theorem rank_connects_search :
    ¬ ∀ (lower : List Char → List Char) (self : Runtime Char NativeTransport) (label : List Char),
      self.closed = false →
        (∀ name, self.hasCapability name = true →
          Connects (self.connect lower name label) name) ∧
        (∀ requested name, requested.find? self.hasCapability = some name →
          Connects (self.connectAny lower requested label) name) := by
  intro h
  have hconnects := (h asciiLower { capabilities := rankers, transport := {} } [] rfl).1
    "rank".toList (by decide)
  obtain ⟨model, r, object, hok, hobject, hname⟩ := hconnects
  cases hok
  revert hname
  cases hobject
  decide

end Runtime

end Aicl.Sdk

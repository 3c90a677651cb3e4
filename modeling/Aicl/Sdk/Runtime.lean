import Aicl.Foundation.OrderedMap
import Aicl.Sdk.Model

/-!
# The runtime of the SDK

{lit}`AICLRuntime` of {lit}`aicl/sdk/runtime.py` with the capabilities of
{lit}`aicl/sdk/capabilities.py`, over any transport.  Texts are lists of characters;
{lit}`str.lower` is a parameter.  Models are objects, and the runtime remembers them
in a dictionary whose keys are the names of their capabilities.

Main results:

- Theorem {lit}`Runtime.connectAll_spec`: what a sequence of connections leaves.
- Theorem {lit}`Runtime.close_object`: which objects the runtime closes.
- Theorem {lit}`Runtime.close_closesAll_iff`: the runtime closes every model exactly
  when no two of them have the same capability name.
-/

namespace Aicl.Sdk

variable {χ τ : Type} [DecidableEq χ]

/-! ## Capabilities -/

/-- A capability: the fields that a search looks at. -/
structure Capability (χ : Type) where
  name : List χ
  description : List χ := []
  tags : List (List χ) := []

/-- {lit}`matches`: the query occurs in the name, the description or a tag. -/
def Capability.matchesQuery (lower : List χ → List χ) (query : List χ) (self : Capability χ) : Bool :=
  let q := lower query
  decide (q <:+: lower self.name) || decide (q <:+: lower self.description) ||
    self.tags.any fun t => decide (q <:+: lower t)

/-! ## Models and the runtime -/

/-- A model object: what the runtime and a call look at, its transport apart. -/
structure ModelObject (χ : Type) where
  capability : Capability χ
  name : List χ
  messageCounter : Nat := 0
  closed : Bool := false

namespace ModelObject

/-- {lit}`Model(...)`: without a name it is called as its capability is. -/
def new (capability : Capability χ) (name : List χ) : ModelObject χ where
  capability
  name := if name = [] then capability.name else name

/-- {lit}`close`. -/
def close (self : ModelObject χ) : ModelObject χ := { self with closed := true }

/-- {lit}`call`: the check that comes first, and what the call does with the
transport. -/
def call {ρ : Type} (self : ModelObject χ) (transport : τ)
    (exchange : τ → ModelObject χ → SdkResult ρ) : SdkResult ρ :=
  if self.closed then .err (.transportError "Model is closed") else exchange transport self

end ModelObject

/-- The exceptions of {lit}`connect` and {lit}`connect_any`, with what their messages
name. -/
inductive RuntimeError (χ : Type) where
  | aiclError (message : String)
  | notFound (capability : List χ) (available : List (List χ))
  | noneAvailable (requested available : List (List χ))

/-- The exceptions of the class {lit}`CapabilityError`. -/
def RuntimeError.isCapabilityError : RuntimeError χ → Bool
  | .aiclError _ => false
  | _ => true

/-- The runtime, the transport that its models share, and the model objects there
are: an object is known by its number. -/
structure Runtime (χ τ : Type) where
  capabilities : List (Capability χ)
  transport : τ
  models : List (List χ × Nat) := []
  objects : List (ModelObject χ) := []
  closed : Bool := false

/-- What is connected. -/
inductive ConnectCall (χ : Type) where
  | connect (capability name : List χ)
  | connectAny (capabilities : List (List χ)) (name : List χ)

namespace Runtime

variable (lower : List χ → List χ)

/-- {lit}`CapabilitySet.find`. -/
def find (self : Runtime χ τ) (query : List χ) : List (Capability χ) :=
  self.capabilities.filter (Capability.matchesQuery lower query)

/-- The names of the capabilities. -/
def available (self : Runtime χ τ) : List (List χ) := self.capabilities.map Capability.name

/-- A new model of a capability, which the dictionary remembers under the name of the
capability. -/
def register (self : Runtime χ τ) (capability : Capability χ) (name : List χ) : Runtime χ τ :=
  { self with
    objects := self.objects ++ [.new capability name]
    models := Dict.set capability.name self.objects.length self.models }

/-- {lit}`connect`: the number of the new model. -/
def connect (self : Runtime χ τ) (capability name : List χ) :
    Outcome (RuntimeError χ) (Nat × Runtime χ τ) := do
  Outcome.failIf (self.closed = true) (.aiclError "Runtime is closed")
  match self.find lower capability with
  | [] => .err (.notFound capability self.available)
  | cap :: _ => pure (self.objects.length, self.register cap name)

/-- The loop of {lit}`connect_any`. -/
def connectFirst (self : Runtime χ τ) (requested : List (List χ)) (name : List χ) :
    List (List χ) → Outcome (RuntimeError χ) (Nat × Runtime χ τ)
  | [] => .err (.noneAvailable requested self.available)
  | capName :: rest =>
      match self.connect lower capName name with
      | .ok model => .ok model
      | .err e => if e.isCapabilityError then connectFirst self requested name rest else .err e
      | .panic => .panic

/-- {lit}`connect_any`. -/
def connectAny (self : Runtime χ τ) (capabilities : List (List χ)) (name : List χ) :
    Outcome (RuntimeError χ) (Nat × Runtime χ τ) :=
  self.connectFirst lower capabilities name capabilities

/-- One of the two. -/
def run (self : Runtime χ τ) : ConnectCall χ → Outcome (RuntimeError χ) (Nat × Runtime χ τ)
  | .connect capability name => self.connect lower capability name
  | .connectAny capabilities name => self.connectAny lower capabilities name

/-- A sequence of connections: the numbers of the models that were returned. -/
def connectAll (self : Runtime χ τ) :
    List (ConnectCall χ) → Outcome (RuntimeError χ) (List Nat × Runtime χ τ)
  | [] => pure ([], self)
  | c :: calls => do
      let (model, self) ← self.run lower c
      let (models, self) ← self.connectAll calls
      pure (model :: models, self)

/-- {lit}`close`, with what the transport does when it is closed. -/
def close (closeTransport : τ → τ) (self : Runtime χ τ) : Runtime χ τ :=
  { self with
    objects := (self.models.map Prod.snd).foldl
      (fun objects model => objects.modify model ModelObject.close) self.objects
    models := []
    closed := true
    transport := closeTransport self.transport }

/-- A call of a model, by its number. -/
def call {ρ : Type} (self : Runtime χ τ) (exchange : τ → ModelObject χ → SdkResult ρ)
    (model : Nat) : Option (SdkResult ρ) :=
  self.objects[model]?.map fun object => object.call self.transport exchange

/-- A model is closed: its flag is set, and a call returns the error for it, whatever it
would do with the transport. -/
def Shut (self : Runtime χ τ) (model : Nat) : Prop :=
  (∃ object, self.objects[model]? = some object ∧ object.closed = true) ∧
    ∀ (ρ : Type) (exchange : τ → ModelObject χ → SdkResult ρ),
      self.call exchange model = some (.err (.transportError "Model is closed"))

/-! ## Which capability is taken -/

/-- The name of the capability that a query finds first. -/
def resolveQuery (capabilities : List (Capability χ)) (query : List χ) : Option (List χ) :=
  (capabilities.find? (Capability.matchesQuery lower query)).map Capability.name

/-- The name of the capability that is connected. -/
def resolve (capabilities : List (Capability χ)) : ConnectCall χ → Option (List χ)
  | .connect capability _ => resolveQuery lower capabilities capability
  | .connectAny requested _ => requested.findSome? (resolveQuery lower capabilities)

variable {lower : List χ → List χ} {self r : Runtime χ τ} {model : Nat}

/-- A query that nothing matches is reported; any other one connects a model of the
first capability that matches. -/
theorem connect_cases (lower : List χ → List χ) (hopen : self.closed = false)
    (capability name : List χ) :
    (resolveQuery lower self.capabilities capability = none ∧
        ∃ e, self.connect lower capability name = .err e ∧ e.isCapabilityError = true) ∨
      ∃ cap, resolveQuery lower self.capabilities capability = some cap.name ∧
        self.connect lower capability name = .ok (self.objects.length, self.register cap name) := by
  have hhead : (self.find lower capability).head? =
      self.capabilities.find? (Capability.matchesQuery lower capability) := List.head?_filter
  unfold connect resolveQuery
  rw [Outcome.failIf_of_not (Bool.eq_false_iff.mp hopen), Outcome.ok_bind, ← hhead]
  cases self.find lower capability with
  | nil => exact .inl ⟨rfl, _, rfl, rfl⟩
  | cons cap rest => exact .inr ⟨cap, rfl, rfl⟩

/-- What {lit}`connect_any` connects. -/
theorem connectFirst_spec (hopen : self.closed = false) {requested queries : List (List χ)}
    {name : List χ} (hok : self.connectFirst lower requested name queries = .ok (model, r)) :
    ∃ cap, queries.findSome? (resolveQuery lower self.capabilities) = some cap.name ∧
      model = self.objects.length ∧ r = self.register cap name := by
  induction queries with
  | nil => cases hok
  | cons query queries ih =>
      unfold connectFirst at hok
      rcases connect_cases lower hopen query name with
        ⟨hnone, e, herr, hclass⟩ | ⟨cap, hsome, hconnect⟩
      · simp only [herr, hclass, if_true] at hok
        rw [List.findSome?_cons, hnone]
        exact ih hok
      · simp only [hconnect] at hok
        cases hok
        refine ⟨cap, ?_, rfl, rfl⟩
        rw [List.findSome?_cons, hsome]

/-- What a successful connection leaves. -/
theorem run_spec (hopen : self.closed = false) {c : ConnectCall χ}
    (hok : self.run lower c = .ok (model, r)) :
    ∃ cap name, resolve lower self.capabilities c = some cap.name ∧
      model = self.objects.length ∧ r = self.register cap name := by
  cases c with
  | connect capability name =>
      rcases connect_cases lower hopen capability name with
        ⟨_, e, herr, _⟩ | ⟨cap, hsome, hconnect⟩
      · rw [run, herr] at hok
        cases hok
      · rw [run, hconnect] at hok
        cases hok
        exact ⟨cap, name, hsome, rfl, rfl⟩
  | connectAny capabilities name =>
      have ⟨cap, hsome, hmodel, hr⟩ := connectFirst_spec hopen hok
      exact ⟨cap, name, hsome, hmodel, hr⟩

/-! ## What the runtime remembers -/

/-- The runtime is open, has an open model for each of these names, in their order, and
remembers the last model of each name. -/
structure Remembers (runtime : Runtime χ τ) (names : List (List χ)) : Prop where
  opened : runtime.closed = false
  count : runtime.objects.length = names.length
  allOpen : ∀ object ∈ runtime.objects, object.closed = false
  models : runtime.models = Dict.ofEntries names.zipIdx

/-- One more model. -/
theorem Remembers.register {names : List (List χ)} (h : self.Remembers names)
    (cap : Capability χ) (name : List χ) :
    (self.register cap name).Remembers (names ++ [cap.name]) where
  opened := h.opened
  count := by
    simp only [Runtime.register, List.length_append, h.count, List.length_singleton]
  allOpen := by
    intro object hmem
    rcases List.mem_append.mp hmem with hmem | hmem
    · exact h.allOpen object hmem
    · rw [List.mem_singleton.mp hmem]
      rfl
  models := by
    simp only [Runtime.register, h.models, h.count]
    rw [List.zipIdx_append, Nat.zero_add, Dict.ofEntries, Dict.ofEntries, List.foldl_append]
    rfl

/-- What a sequence of connections leaves: each is answered with a new model of the
capability that it finds. -/
theorem connectAll_spec {calls : List (ConnectCall χ)} {models : List Nat}
    {names : List (List χ)} (h : self.Remembers names)
    (hok : self.connectAll lower calls = .ok (models, r)) :
    ∃ keys, calls.map (resolve lower self.capabilities) = keys.map some ∧
      models = List.range' names.length keys.length ∧ r.Remembers (names ++ keys) := by
  induction calls generalizing self models names with
  | nil =>
      cases hok
      exact ⟨[], rfl, rfl, by rwa [List.append_nil]⟩
  | cons c calls ih =>
      have ⟨⟨model, self'⟩, hrun, hrest⟩ := Outcome.bind_eq_ok_iff.mp hok
      have ⟨⟨models', r'⟩, hcalls, hpair⟩ := Outcome.bind_eq_ok_iff.mp hrest
      have ⟨cap, name, hresolve, hmodel, hself⟩ := run_spec h.opened hrun
      cases hpair
      rw [hself] at hcalls
      have ⟨keys, hkeys, hmodels, hremembers⟩ := ih (h.register cap name) hcalls
      refine ⟨cap.name :: keys, ?_, ?_, ?_⟩
      · rw [List.map_cons, List.map_cons, hresolve]
        exact congrArg _ hkeys
      · rw [hmodel, hmodels, h.count, List.length_append, List.length_singleton]
        exact List.range'_succ.symm
      · rwa [List.append_assoc] at hremembers

/-! ## Closing -/

omit [DecidableEq χ] in
/-- Closing models by their numbers. -/
theorem foldl_close_getElem? (models : List Nat) (objects : List (ModelObject χ)) (i : Nat) :
    (models.foldl (fun objects model => objects.modify model ModelObject.close) objects)[i]? =
      objects[i]?.map fun object => if i ∈ models then object.close else object := by
  induction models generalizing objects with
  | nil => simp
  | cons model models ih =>
      rw [List.foldl_cons, ih, List.getElem?_modify]
      cases objects[i]? with
      | none => rfl
      | some object =>
          by_cases hi : model = i
          · simp [hi, ModelObject.close]
          · have hi' : ¬ i = model := fun heq => hi heq.symm
            simp [hi, hi']

omit [DecidableEq χ] in
/-- The runtime closes the models that it remembers. -/
theorem close_object (closeTransport : τ → τ) (self : Runtime χ τ) (i : Nat) :
    (self.close closeTransport).objects[i]? = self.objects[i]?.map fun object =>
      if i ∈ self.models.map Prod.snd then object.close else object :=
  foldl_close_getElem? _ _ i

omit [DecidableEq χ] in
/-- A model is closed when its flag is set. -/
theorem shut_iff : self.Shut model ↔
    ∃ object, self.objects[model]? = some object ∧ object.closed = true := by
  constructor
  · intro h
    exact h.1
  · intro h
    have ⟨object, hobject, hclosed⟩ := h
    refine ⟨h, fun ρ exchange => ?_⟩
    rw [call, hobject, Option.map_some, ModelObject.call, if_pos hclosed]

/-- The runtime closes a model exactly when it remembers it. -/
theorem close_shut_iff {names : List (List χ)} (h : self.Remembers names)
    (closeTransport : τ → τ) (hmodel : model < names.length) :
    (self.close closeTransport).Shut model ↔ model ∈ self.models.map Prod.snd := by
  have hlt : model < self.objects.length := h.count ▸ hmodel
  have hopen := h.allOpen _ (List.getElem_mem hlt)
  rw [shut_iff, close_object, List.getElem?_eq_getElem hlt]
  by_cases hmem : model ∈ self.models.map Prod.snd
  · refine iff_of_true ⟨_, rfl, ?_⟩ hmem
    simp only [if_pos hmem]
    rfl
  · refine iff_of_false ?_ hmem
    intro ⟨object, hobject, hclosed⟩
    rw [Option.map_some, if_neg hmem] at hobject
    rw [← Option.some.inj hobject, hopen] at hclosed
    cases hclosed

/-- After a sequence of connections, the runtime closes every model that was returned
exactly when no two connections found a capability of the same name. -/
theorem close_closesAll_iff (lower : List χ → List χ) (capabilities : List (Capability χ))
    (transport : τ) (closeTransport : τ → τ) (calls : List (ConnectCall χ)) {models : List Nat}
    {r : Runtime χ τ}
    (hok : connectAll lower { capabilities, transport } calls = .ok (models, r)) :
    (∀ model ∈ models, (r.close closeTransport).Shut model) ↔
      (calls.map (resolve lower capabilities)).Nodup := by
  have hstart : Remembers ({ capabilities, transport } : Runtime χ τ) [] :=
    ⟨rfl, rfl, List.forall_mem_nil _, rfl⟩
  have ⟨keys, hkeys, hmodels, hr⟩ := connectAll_spec hstart hok
  rw [List.nil_append] at hr
  have hnodup : (keys.map some).Nodup ↔ keys.Nodup :=
    List.nodup_map_iff (Option.some_injective _)
  rw [hkeys, hnodup, ← Dict.forall_mem_values_zipIdx_iff, ← hr.models, hmodels]
  simp only [List.length_nil, List.mem_range'_1, Nat.zero_le, true_and, Nat.zero_add]
  apply forall_congr'
  intro model
  exact forall_congr' fun hlt => close_shut_iff hr closeTransport hlt

/-! ## Calls over the native transport -/

omit [DecidableEq χ] in
/-- A call of an object over the native transport is the call of the model that it
stands for. -/
theorem call_native {α : Type} (text : α → Utf8String) (crc32 : Bytes → UInt32)
    (instruction : Utf8String) (cancelled : Fin 3 → Bool) (kwargs : List (Utf8String × α))
    (transport : NativeTransport) (object : ModelObject χ) :
    object.call transport (fun transport object =>
        (Model.call text { transport, messageCounter := object.messageCounter } crc32 instruction
          cancelled kwargs).1) =
      (Model.call text
        { transport, messageCounter := object.messageCounter, closed := object.closed } crc32
        instruction cancelled kwargs).1 := by
  unfold ModelObject.call Model.call
  cases object.closed with
  | true => rfl
  | false => rfl

/-! ## Two connections -/

/-- Two of the built-in capabilities. -/
def sampleCapabilities : List (Capability Char) :=
  [{ name := "classify".toList, description := "Classify text into categories".toList },
    { name := "embed".toList, description := "Compute text embeddings".toList }]

/-- A runtime with these capabilities. -/
def sample : Runtime Char NativeTransport :=
  { capabilities := sampleCapabilities, transport := {} }

/-- ASCII letters in lower case. -/
def asciiLower (text : List Char) : List Char := text.map Char.toLower

/-- Models of two capabilities. -/
def distinctCalls : List (ConnectCall Char) :=
  [.connect "classify".toList [], .connectAny ["speak".toList, "embed".toList] []]

/-- A model of the same capability twice, found by its name and by its description. -/
def repeatedCalls : List (ConnectCall Char) :=
  [.connect "classify".toList [], .connect "Categories".toList "second".toList]

/-- Two models of different capabilities are closed. -/
theorem close_closesAll_distinct :
    ∃ models r, connectAll asciiLower sample distinctCalls = .ok (models, r) ∧
      ((∀ model ∈ models, (r.close fun t => { t with closed := true }).Shut model) ↔
        (distinctCalls.map (resolve asciiLower sampleCapabilities)).Nodup) := by
  have hconnected : (connectAll asciiLower sample distinctCalls).isOk = true := by
    decide +kernel
  have ⟨⟨models, r⟩, hok⟩ := Outcome.isOk_iff.mp hconnected
  exact ⟨models, r, hok, close_closesAll_iff _ _ sample.transport _ distinctCalls hok⟩

/-- The first of two models of a capability stays open. -/
theorem close_forgets_first :
    ¬ ∀ (lower : List Char → List Char) (capabilities : List (Capability Char))
      (transport : NativeTransport) (closeTransport : NativeTransport → NativeTransport)
      (calls : List (ConnectCall Char)) (models : List Nat) (r : Runtime Char NativeTransport),
      connectAll lower { capabilities, transport } calls = .ok (models, r) →
        ∀ model ∈ models, (r.close closeTransport).Shut model := by
  intro h
  have hconnected : (connectAll asciiLower sample repeatedCalls).toOption.map
      (fun result => (result.1, (result.2.close id).objects.map ModelObject.closed)) =
        some ([0, 1], [false, true]) := by
    decide +kernel
  have ⟨⟨models, r⟩, hsome, hpair⟩ := Option.map_eq_some_iff.mp hconnected
  have hok := Outcome.toOption_eq_some_iff.mp hsome
  have hmodels : models = [0, 1] := congrArg Prod.fst hpair
  have hflags : (r.close id).objects.map ModelObject.closed = [false, true] :=
    congrArg Prod.snd hpair
  have ⟨object, hobject, hclosed⟩ := (h _ _ _ id _ _ _ hok 0 (by rw [hmodels]; decide)).1
  have hflag : ((r.close id).objects.map ModelObject.closed)[0]? = some true := by
    rw [List.getElem?_map, hobject, Option.map_some, hclosed]
  rw [hflags] at hflag
  cases hflag

end Runtime

end Aicl.Sdk

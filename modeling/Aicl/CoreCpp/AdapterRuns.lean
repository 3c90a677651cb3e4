import Aicl.CoreCpp.BufferRegistry
import Aicl.CoreCpp.Labels
import Aicl.Foundation.NumberedStore
import Aicl.Foundation.Service

/-!
# Runs of the C++ adapter

{lit}`AICLModelAdapter` of {lit}`core-cpp/src/aicl_adapter.cpp` with its context: models
and buffers that come and go, calls and streams in between, and {lit}`shutdown`.  The order
in which an {lit}`unordered_map` lists its keys is left open.

Main results:

- Theorem {lit}`AICLModelAdapter.advertisedCapabilities_eq`: the capabilities of the models
  that are registered, each once.
- Theorem {lit}`AICLModelAdapter.refines_store`: while references and ids last, the adapter
  answers as a store that numbers its models and its buffers and forgets nothing by itself.
-/

namespace Aicl.CoreCpp

open NumberedStore (Numbers addNew mem_addNew_iff nodup_addNew)

/-- {lit}`IModel` with the part of its {lit}`info()` that the adapter reads. -/
structure RegisteredModel extends CallableModel where
  capabilities : List String

/-- The calls on an adapter and on its {lit}`context()`. -/
inductive AdapterCall where
  | registerModel (model : Option RegisteredModel)
  | unregister (cap : UInt16)
  | handleCall (req : ModelRequest)
  | handleStream (req : ModelRequest) (visitor : Option Visitor)
  | advertisedCapabilities
  | shutdown
  | registerBuffer (buf : Option Bytes)
  | getBuffer (id : UInt64)
  | releaseBuffer (id : UInt64)

/-- What the calls return.  References and ids are numbers, and the advertised names are
a vector in some order. -/
inductive AdapterAnswer where
  | number (n : Nat)
  | found (ok : Bool)
  | response (response : ModelResponse)
  | deliveries (log : List Delivery)
  | names (names : Multiset String)
  | buffer (buf : Option RegisteredBuffer)
  | none

/-- The adapter between two calls: no call is in flight and the table of sessions is
empty. -/
structure AICLModelAdapter where
  ctx : ModelContext RegisteredModel
  buffers : BufferRegistry

/-! ## The calls -/

namespace AICLModelAdapter

/-- A new adapter. -/
def new : AICLModelAdapter := ⟨.new, .new⟩

variable (iteration : List UInt16 → List UInt16) (self : AICLModelAdapter)

/-- {lit}`registered_caps`: the keys in the order of the map. -/
def registeredCaps : List UInt16 := iteration self.ctx.models.keys

/-- One round of {lit}`advertised_capabilities`. -/
def advertise (out : List String) (cap : UInt16) : List String :=
  match self.ctx.lookup cap with
  | none => out
  | some m => addNew out m.capabilities

/-- {lit}`advertised_capabilities`. -/
def advertisedCapabilities : List String :=
  (self.registeredCaps iteration).foldl self.advertise []

/-- {lit}`shutdown`; the backend is not looked at. -/
def shutdown : AICLModelAdapter where
  ctx := (self.registeredCaps iteration).foldl (fun ctx cap => (ctx.unregister cap).2) self.ctx
  buffers := self.buffers.clear

/-- One call. -/
def call : AdapterCall → AdapterAnswer × AICLModelAdapter
  | .registerModel model =>
      let (cap, ctx) := self.ctx.registerModel model
      (.number cap.toNat, { self with ctx })
  | .unregister cap =>
      let (ok, ctx) := self.ctx.unregister cap
      (.found ok, { self with ctx })
  | .handleCall req => (.response (handleCall (self.ctx.map RegisteredModel.toCallableModel) req), self)
  | .handleStream req visitor =>
      (.deliveries (handleStreamOf (self.ctx.map RegisteredModel.toCallableModel) req visitor), self)
  | .advertisedCapabilities => (.names (self.advertisedCapabilities iteration), self)
  | .shutdown => (.none, self.shutdown iteration)
  | .registerBuffer buf =>
      let (id, buffers) := self.buffers.registerBuffer buf
      (.number id.toNat, { self with buffers })
  | .getBuffer id => (.buffer (self.buffers.get id), self)
  | .releaseBuffer id =>
      let (ok, buffers) := self.buffers.release id
      (.found ok, { self with buffers })

end AICLModelAdapter

/-! ## What the adapter is for -/

/-- Everything that was ever registered, under its number, with gaps for what was taken
out.  Number 0 is no reference and no id. -/
structure ModelStore where
  models : List (Option RegisteredModel)
  buffers : List (Option RegisteredBuffer)

namespace ModelStore

/-- Nothing was registered. -/
def new : ModelStore := ⟨[none], [none]⟩

variable (s : ModelStore)

/-- The model under a reference. -/
def model (cap : UInt16) : Option RegisteredModel := NumberedStore.get s.models cap.toNat

/-- The response of a model that is called. -/
def respond (model : Option RegisteredModel) (req : ModelRequest) : ModelResponse :=
  match model with
  | none => AICLModelAdapter.noModel req
  | some m =>
      AICLModelAdapter.flagError
        (AICLModelAdapter.afterInvoke (m.invoke req (AICLModelAdapter.stamped req)))

/-- The deliveries of a model that streams. -/
def stream (model : Option RegisteredModel) (req : ModelRequest) (visitor : Option Visitor) :
    List Delivery :=
  match visitor with
  | none => []
  | some visitor =>
      match model with
      | none => AICLModelAdapter.visit visitor [] (AICLModelAdapter.noModel req)
      | some m =>
          match AICLModelAdapter.deliver visitor req (m.invokeStream req) [] with
          | (none, log) => AICLModelAdapter.visit visitor log (AICLModelAdapter.streamEnd req)
          | (some what, log) =>
              AICLModelAdapter.visit visitor
                (AICLModelAdapter.visit visitor log (AICLModelAdapter.internal req what))
                (AICLModelAdapter.streamEnd req)

/-- The capabilities of the models that are there. -/
def capabilities : Finset String :=
  (s.models.reduceOption.flatMap RegisteredModel.capabilities).toFinset

/-- One call. -/
def call : AdapterCall → AdapterAnswer × ModelStore
  | .registerModel none => (.number 0, s)
  | .registerModel (some m) => (.number s.models.length, { s with models := s.models ++ [some m] })
  | .unregister cap =>
      (.found (s.model cap).isSome, { s with models := s.models.set cap.toNat none })
  | .handleCall req => (.response (respond (s.model req.target) req), s)
  | .handleStream req visitor => (.deliveries (stream (s.model req.target) req visitor), s)
  | .advertisedCapabilities => (.names s.capabilities.val, s)
  | .shutdown =>
      (.none,
        ⟨List.replicate s.models.length none, List.replicate s.buffers.length none⟩)
  | .registerBuffer none => (.number 0, s)
  | .registerBuffer (some bytes) =>
      if hempty : bytes = [] then (.number 0, s)
      else (.number s.buffers.length, { s with buffers := s.buffers ++ [some ⟨bytes, hempty⟩] })
  | .getBuffer id => (.buffer (NumberedStore.get s.buffers id.toNat), s)
  | .releaseBuffer id =>
      (.found (NumberedStore.get s.buffers id.toNat).isSome,
        { s with buffers := s.buffers.set id.toNat none })

end ModelStore

/-- The references and the ids that a call may use up. -/
def AdapterCall.price : AdapterCall → Nat × Nat
  | .registerModel _ => (1, 0)
  | .registerBuffer _ => (0, 1)
  | _ => (0, 0)

/-! ## One level and the other -/

namespace AICLModelAdapter

/-- The models and the buffers of the adapter are those of the store, and so many
references and ids are left. -/
structure Represents (left : Nat × Nat) (adapter : AICLModelAdapter) (s : ModelStore) : Prop where
  models : Numbers UInt16.toNat adapter.ctx.models s.models
  buffers : Numbers UInt64.toNat adapter.buffers.map s.buffers
  models_pos : 0 < s.models.length
  buffers_pos : 0 < s.buffers.length
  nextCap : s.models.length < 2 ^ 16 → adapter.ctx.nextCap.toNat = s.models.length
  nextId : s.buffers.length < 2 ^ 64 → adapter.buffers.nextId.toNat = s.buffers.length
  models_left : s.models.length + left.1 ≤ 2 ^ 16
  buffers_left : s.buffers.length + left.2 ≤ 2 ^ 64

variable {left : Nat × Nat} {adapter : AICLModelAdapter} {s : ModelStore}

/-- A new adapter. -/
theorem represents_new (hmodels : left.1 < 2 ^ 16) (hbuffers : left.2 < 2 ^ 64) :
    Represents left new .new where
  models := .empty 1
  buffers := .empty 1
  models_pos := Nat.one_pos
  buffers_pos := Nat.one_pos
  nextCap _ := rfl
  nextId _ := rfl
  models_left := by
    have hlength : ModelStore.new.models.length = 1 := rfl
    omega
  buffers_left := by
    have hlength : ModelStore.new.buffers.length = 1 := rfl
    omega

/-- A model is found under its reference. -/
theorem Represents.lookup (h : Represents left adapter s) (cap : UInt16) :
    adapter.ctx.lookup cap = s.model cap := h.models cap

/-- Giving out the next reference. -/
theorem Represents.give (h : Represents (1 + left.1, left.2) adapter s) (m : RegisteredModel) :
    adapter.ctx.nextCap.toNat = s.models.length ∧
      Represents left { adapter with ctx := adapter.ctx.give m }
        { s with models := s.models ++ [some m] } := by
  have hleft := h.models_left
  have hnext := h.nextCap (by omega)
  have hnew : adapter.ctx.nextCap ∉ adapter.ctx.models :=
    AList.lookup_eq_none.mp (h.models.lookup_next hnext)
  refine ⟨hnext, ?_⟩
  constructor
  · simp only [ModelContext.give, UnorderedMap.emplace, if_neg hnew]
    exact h.models.insert (fun _ _ => UInt16.toNat_inj.mp) hnext
  · exact h.buffers
  · simp
  · exact h.buffers_pos
  · intro hlt
    rw [List.length_append, List.length_singleton] at hlt ⊢
    have hsucc : (adapter.ctx.nextCap + 1).toNat = s.models.length + 1 := by
      rw [UInt16.toNat_add, hnext]
      exact Nat.mod_eq_of_lt hlt
    have hne : adapter.ctx.nextCap + 1 ≠ 0 := by
      intro hzero
      rw [hzero] at hsucc
      cases hsucc
    simp only [ModelContext.give, ModelContext.bump, if_neg hne, hsucc]
  · exact h.nextId
  · rw [List.length_append, List.length_singleton]
    omega
  · exact h.buffers_left

/-- Giving out the next id. -/
theorem Represents.register (h : Represents (left.1, 1 + left.2) adapter s) (buf : RegisteredBuffer) :
    adapter.buffers.nextId.toNat = s.buffers.length ∧
      Represents left
        { adapter with
          buffers := ⟨adapter.buffers.map.emplace adapter.buffers.nextId buf, adapter.buffers.nextId + 1⟩ }
        { s with buffers := s.buffers ++ [some buf] } := by
  have hleft := h.buffers_left
  have hnext := h.nextId (by omega)
  have hnew : adapter.buffers.nextId ∉ adapter.buffers.map :=
    AList.lookup_eq_none.mp (h.buffers.lookup_next hnext)
  refine ⟨hnext, ?_⟩
  constructor
  · exact h.models
  · simp only [UnorderedMap.emplace, if_neg hnew]
    exact h.buffers.insert (fun _ _ => UInt64.toNat_inj.mp) hnext
  · exact h.models_pos
  · simp
  · exact h.nextCap
  · intro hlt
    rw [List.length_append, List.length_singleton] at hlt ⊢
    rw [UInt64.toNat_add, hnext]
    exact Nat.mod_eq_of_lt hlt
  · exact h.models_left
  · rw [List.length_append, List.length_singleton]
    omega

/-- A reference that is given back leaves a gap. -/
theorem Represents.unregister (h : Represents left adapter s) (cap : UInt16) :
    Represents left { adapter with ctx := (adapter.ctx.unregister cap).2 }
      { s with models := s.models.set cap.toNat none } where
  models := h.models.erase fun _ _ => UInt16.toNat_inj.mp
  buffers := h.buffers
  models_pos := by simpa using h.models_pos
  buffers_pos := h.buffers_pos
  nextCap := by simpa [ModelContext.unregister] using h.nextCap
  nextId := h.nextId
  models_left := by simpa using h.models_left
  buffers_left := h.buffers_left

/-- An id that is given back leaves a gap. -/
theorem Represents.release (h : Represents left adapter s) (id : UInt64) :
    Represents left { adapter with buffers := (adapter.buffers.release id).2 }
      { s with buffers := s.buffers.set id.toNat none } where
  models := h.models
  buffers := h.buffers.erase fun _ _ => UInt64.toNat_inj.mp
  models_pos := h.models_pos
  buffers_pos := by simpa using h.buffers_pos
  nextCap := h.nextCap
  nextId := by simpa [BufferRegistry.release] using h.nextId
  models_left := h.models_left
  buffers_left := by simpa using h.buffers_left

/-- References and ids that are not used stay. -/
theorem Represents.mono {left' : Nat × Nat} (h : Represents left' adapter s) (hle : left ≤ left') :
    Represents left adapter s where
  models := h.models
  buffers := h.buffers
  models_pos := h.models_pos
  buffers_pos := h.buffers_pos
  nextCap := h.nextCap
  nextId := h.nextId
  models_left := (Nat.add_le_add_left hle.1 _).trans h.models_left
  buffers_left := (Nat.add_le_add_left hle.2 _).trans h.buffers_left

/-! ### Calls and streams -/

/-- A call goes to the model under its reference. -/
theorem handleCall_map (ctx : ModelContext RegisteredModel) (req : ModelRequest) :
    handleCall (ctx.map RegisteredModel.toCallableModel) req =
      ModelStore.respond (ctx.lookup req.target) req := by
  unfold handleCall ModelStore.respond
  rw [ModelContext.lookup_map]
  cases ctx.lookup req.target <;> rfl

/-- A stream comes from the model under its reference. -/
theorem handleStreamOf_map (ctx : ModelContext RegisteredModel) (req : ModelRequest)
    (visitor : Option Visitor) :
    handleStreamOf (ctx.map RegisteredModel.toCallableModel) req visitor =
      ModelStore.stream (ctx.lookup req.target) req visitor := by
  unfold handleStreamOf handleStream ModelStore.stream
  rw [ModelContext.lookup_map, ModelContext.lookup_map]
  cases visitor with
  | none => rfl
  | some visitor => cases ctx.lookup req.target <;> rfl

/-! ### Capabilities -/

variable {iteration : List UInt16 → List UInt16}

/-- The rounds collect what the models have. -/
theorem mem_foldl_advertise {name : String} (caps : List UInt16) (out : List String) :
    name ∈ caps.foldl adapter.advertise out ↔
      name ∈ out ∨ ∃ cap ∈ caps, ∃ m, adapter.ctx.lookup cap = some m ∧ name ∈ m.capabilities := by
  induction caps generalizing out with
  | nil => simp
  | cons cap caps ih =>
      rw [List.foldl_cons, ih, List.exists_mem_cons_iff, ← or_assoc]
      apply or_congr_left
      unfold advertise
      cases adapter.ctx.lookup cap with
      | none => simp
      | some m => simp [mem_addNew_iff]

/-- The rounds collect nothing twice. -/
theorem nodup_foldl_advertise (caps : List UInt16) {out : List String} (h : out.Nodup) :
    (caps.foldl adapter.advertise out).Nodup := by
  induction caps generalizing out with
  | nil => exact h
  | cons cap caps ih =>
      apply ih
      unfold advertise
      cases adapter.ctx.lookup cap with
      | none => exact h
      | some m => exact nodup_addNew h

/-- Every reference that is in use is one of the keys. -/
theorem mem_registeredCaps (hperm : ∀ caps, (iteration caps).Perm caps) {cap : UInt16} :
    cap ∈ adapter.registeredCaps iteration ↔ cap ∈ adapter.ctx.models :=
  (hperm _).mem_iff.trans AList.mem_keys.symm

/-- What is advertised are the capabilities of the models that are there, each once,
whatever the order of the map. -/
theorem advertisedCapabilities_eq (h : Represents left adapter s)
    (hperm : ∀ caps, (iteration caps).Perm caps) :
    (adapter.advertisedCapabilities iteration : Multiset String) = s.capabilities.val := by
  have hnodup : (adapter.advertisedCapabilities iteration).Nodup :=
    nodup_foldl_advertise _ List.nodup_nil
  have hkeys : ∀ n < s.models.length, ∃ cap : UInt16, cap.toNat = n := by
    intro n hn
    have hleft := h.models_left
    have hlt : n < 2 ^ 16 := by omega
    exact ⟨UInt16.ofNat n, UInt16.toNat_ofNat_of_lt' hlt⟩
  have hmem : ∀ name, name ∈ adapter.advertisedCapabilities iteration ↔ name ∈ s.capabilities := by
    intro name
    rw [advertisedCapabilities, mem_foldl_advertise, or_iff_right List.not_mem_nil,
      ModelStore.capabilities, List.mem_toFinset, List.mem_flatMap]
    constructor
    · rintro ⟨cap, _, m, hm, hname⟩
      refine ⟨m, List.reduceOption_mem_iff.mpr ?_, hname⟩
      exact (h.models.exists_lookup_iff hkeys).mp ⟨cap, hm⟩
    · rintro ⟨m, hm, hname⟩
      rcases (h.models.exists_lookup_iff hkeys).mpr (List.reduceOption_mem_iff.mp hm) with
        ⟨cap, hcap⟩
      refine ⟨cap, (mem_registeredCaps hperm).mpr ?_, m, hcap, hname⟩
      rw [← AList.lookup_isSome, hcap]
      rfl
  have hset : (adapter.advertisedCapabilities iteration).toFinset = s.capabilities := by
    ext name
    rw [List.mem_toFinset, hmem]
  rw [← hset, List.toFinset_val, hnodup.dedup]

/-! ### Shutdown -/

/-- Unregistering one reference after the other. -/
theorem lookup_foldl_unregister (caps : List UInt16) (ctx : ModelContext RegisteredModel)
    (cap : UInt16) :
    (caps.foldl (fun ctx cap => (ctx.unregister cap).2) ctx).lookup cap =
      if cap ∈ caps then none else ctx.lookup cap := by
  induction caps generalizing ctx with
  | nil => rfl
  | cons first caps ih =>
      rw [List.foldl_cons, ih, ModelContext.lookup_unregister]
      by_cases hfirst : cap = first
      · simp [hfirst]
      · simp [hfirst]

/-- Unregistering leaves the counter. -/
theorem nextCap_foldl_unregister (caps : List UInt16) (ctx : ModelContext RegisteredModel) :
    (caps.foldl (fun ctx cap => (ctx.unregister cap).2) ctx).nextCap = ctx.nextCap := by
  induction caps generalizing ctx with
  | nil => rfl
  | cons first caps ih => exact ih _

/-- Nothing is left after {lit}`shutdown`, and nothing is numbered again. -/
theorem Represents.shutdown (h : Represents left adapter s)
    (hperm : ∀ caps, (iteration caps).Perm caps) :
    Represents left (adapter.shutdown iteration)
      ⟨List.replicate s.models.length none, List.replicate s.buffers.length none⟩ where
  models := by
    intro cap
    rw [NumberedStore.get_replicate]
    have hlookup := lookup_foldl_unregister (adapter.registeredCaps iteration) adapter.ctx cap
    refine hlookup.trans ?_
    split
    · rfl
    · next hnot =>
        rw [mem_registeredCaps hperm] at hnot
        exact AList.lookup_eq_none.mpr hnot
  buffers := .empty _
  models_pos := by simpa using h.models_pos
  buffers_pos := by simpa using h.buffers_pos
  nextCap := by
    intro hlt
    rw [List.length_replicate] at hlt ⊢
    rw [AICLModelAdapter.shutdown, nextCap_foldl_unregister]
    exact h.nextCap hlt
  nextId := by simpa [AICLModelAdapter.shutdown, BufferRegistry.clear] using h.nextId
  models_left := by simpa using h.models_left
  buffers_left := by simpa using h.buffers_left

/-! ### All calls -/

/-- Every call answers as the store does and leaves what the store leaves. -/
theorem Represents.call (hperm : ∀ caps, (iteration caps).Perm caps) (c : AdapterCall)
    (h : Represents (c.price + left) adapter s) :
    (adapter.call iteration c).1 = (s.call c).1 ∧
      Represents left (adapter.call iteration c).2 (s.call c).2 := by
  have hrest : Represents left adapter s := h.mono le_add_self
  cases c with
  | registerModel model =>
      cases model with
      | none => exact ⟨rfl, hrest⟩
      | some m =>
          have hprice : Represents (1 + left.1, left.2) adapter s := h.mono (by
            simp [AdapterCall.price, Prod.le_def])
          obtain ⟨hnext, hgive⟩ := hprice.give m
          exact ⟨congrArg AdapterAnswer.number hnext, hgive⟩
  | unregister cap =>
      refine ⟨?_, hrest.unregister cap⟩
      have hfound : decide (cap ∈ adapter.ctx.models) = (s.model cap).isSome := by
        rw [Bool.eq_iff_iff, decide_eq_true_iff]
        exact hrest.models.mem_iff
      exact congrArg AdapterAnswer.found hfound
  | handleCall req =>
      refine ⟨?_, hrest⟩
      have hresponse := handleCall_map adapter.ctx req
      rw [hrest.lookup] at hresponse
      exact congrArg AdapterAnswer.response hresponse
  | handleStream req visitor =>
      refine ⟨?_, hrest⟩
      have hlog := handleStreamOf_map adapter.ctx req visitor
      rw [hrest.lookup] at hlog
      exact congrArg AdapterAnswer.deliveries hlog
  | advertisedCapabilities =>
      exact ⟨congrArg AdapterAnswer.names (advertisedCapabilities_eq hrest hperm), hrest⟩
  | shutdown => exact ⟨rfl, hrest.shutdown hperm⟩
  | registerBuffer buf =>
      cases buf with
      | none => exact ⟨rfl, hrest⟩
      | some bytes =>
          have hprice : Represents (left.1, 1 + left.2) adapter s := h.mono (by
            simp [AdapterCall.price, Prod.le_def])
          simp only [AICLModelAdapter.call, BufferRegistry.registerBuffer, ModelStore.call]
          by_cases hempty : bytes = []
          · rw [dif_pos hempty, dif_pos hempty]
            exact ⟨rfl, hrest⟩
          · rw [dif_neg hempty, dif_neg hempty]
            obtain ⟨hnext, hregister⟩ := hprice.register ⟨bytes, hempty⟩
            exact ⟨congrArg AdapterAnswer.number hnext, hregister⟩
  | getBuffer id => exact ⟨congrArg AdapterAnswer.buffer (hrest.buffers id), hrest⟩
  | releaseBuffer id =>
      refine ⟨?_, hrest.release id⟩
      have hfound : decide (id ∈ adapter.buffers.map) =
          (NumberedStore.get s.buffers id.toNat).isSome := by
        rw [Bool.eq_iff_iff, decide_eq_true_iff]
        exact hrest.buffers.mem_iff
      exact congrArg AdapterAnswer.found hfound

/-- In every run from a new adapter with fewer than 2^16 registrations of models and fewer
than 2^64 of buffers, and whatever the order of its maps, all calls are answered as the
store answers them: calls and streams go to the model that was registered under their
reference, until it is unregistered or the adapter is shut down, and no reference or id
is ever given out again. -/
theorem refines_store (iteration : List UInt16 → List UInt16)
    (hperm : ∀ caps, (iteration caps).Perm caps) (calls : List AdapterCall)
    (hmodels : (calls.map AdapterCall.price).sum.1 < 2 ^ 16)
    (hbuffers : (calls.map AdapterCall.price).sum.2 < 2 ^ 64) :
    (Service.run (call iteration) new calls).1 = (Service.run ModelStore.call .new calls).1 := by
  have hstart : Represents ((calls.map AdapterCall.price).sum + 0) new .new := by
    rw [add_zero]
    exact represents_new hmodels hbuffers
  exact (Service.run_simulates_priced (R := Represents)
    (fun _ _ _ c h => Represents.call hperm c h) hstart).1

/-- A model is registered and called, the adapter is shut down, and the call comes again. -/
def restart : List AdapterCall :=
  [.registerModel (some { fillsIn with capabilities := ["text.generate"] }),
    .handleCall echoRequest, .shutdown, .handleCall echoRequest, .advertisedCapabilities]

/-- An adapter whose map lists its keys backwards answers that as the store does. -/
theorem refines_store_restart :
    (Service.run (call List.reverse) new restart).1 =
      (Service.run ModelStore.call .new restart).1 :=
  refines_store List.reverse List.reverse_perm restart (by decide) (by decide)

end AICLModelAdapter

end Aicl.CoreCpp

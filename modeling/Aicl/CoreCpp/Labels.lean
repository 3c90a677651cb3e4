import Aicl.CoreCpp.Adapter

/-!
# Responses and their requests in the C++ adapter

{lit}`AICLModelAdapter::handle_call` of {lit}`core-cpp/src/aicl_adapter.cpp` beside
{lit}`handle_stream`.  A call stamps the response before the model gets it and not
afterwards; a stream stamps every chunk on its way to the visitor.

Main results:

- Theorem {lit}`AICLModelAdapter.handleStream_labels`: a stream delivers labelled
  responses only, whatever the model does.
- Theorem {lit}`AICLModelAdapter.labels_iff`: a call does exactly when the model
  leaves the stamp of its response alone.
-/

namespace Aicl.CoreCpp

/-- Setting a flag sets it. -/
theorem AiclFlags.has_set_self {flags : AiclFlags} {mask : UInt16} (hmask : mask ≠ 0) :
    (flags.set mask).has mask = true := by
  have hbits : (flags.bits ||| mask) &&& mask = mask := by
    apply UInt16.eq_of_toBitVec_eq
    ext i hi
    simp +contextual
  simpa [has, set, hbits] using hmask

/-- Replacing the models puts nothing at 0. -/
theorem ModelContext.zero_not_mem_map {M N : Type} (f : M → N) (ctx : ModelContext M) :
    (0 : UInt16) ∉ (ctx.models.entries.map (.map id fun _ => f) : List (Σ _ : UInt16, N)).keys := by
  rw [List.map₂_keys]
  exact ctx.zero_not_mem

/-- The registry with every model replaced by what stands for it. -/
def ModelContext.map {M N : Type} (f : M → N) (ctx : ModelContext M) : ModelContext N where
  models := ⟨ctx.models.entries.map (.map id fun _ => f), ctx.models.nodupKeys.map₂ _ _⟩
  nextCap := ctx.nextCap
  nextCap_ne_zero := ctx.nextCap_ne_zero
  zero_not_mem := ctx.zero_not_mem_map f

/-- Looking a replaced model up. -/
theorem ModelContext.lookup_map {M N : Type} (f : M → N) (ctx : ModelContext M) (cap : UInt16) :
    (ctx.map f).lookup cap = (ctx.lookup cap).map f :=
  List.dlookup_map₂ cap

/-- {lit}`IModel` with both of its calls.  {lit}`invoke` is given the response to
fill; it leaves one behind when it returns and when it throws a
{lit}`std::exception`. -/
structure CallableModel extends IModel where
  invoke : ModelRequest → ModelResponse → ModelResponse × Option String

/-- The response is labelled with the request. -/
structure Labels (req : ModelRequest) (response : ModelResponse) : Prop where
  target : response.target = req.target
  correlationId : response.correlationId = req.correlationId
  flag : response.errorCode ≠ 0 → response.isError = true

namespace AICLModelAdapter

/-! ## Calls -/

/-- The response that a call starts from. -/
def stamped (req : ModelRequest) : ModelResponse where
  target := req.target
  correlationId := req.correlationId
  flags := ⟨AiclFlags.RESPONSE⟩

/-- What the call makes of the response when the model is done with it. -/
def afterInvoke : ModelResponse × Option String → ModelResponse
  | (out, none) => out
  | (out, some what) =>
      { out with
        errorCode := AICL_E_INTERNAL
        errorMessage := what
        flags := out.flags.set AiclFlags.ERROR_FLAG }

/-- The last line of {lit}`handle_call`. -/
def flagError (out : ModelResponse) : ModelResponse :=
  if out.errorCode ≠ 0 then { out with flags := out.flags.set AiclFlags.ERROR_FLAG } else out

/-- {lit}`handle_call`: the response; what {lit}`out` held before is thrown away. -/
def handleCall (ctx : ModelContext CallableModel) (req : ModelRequest) : ModelResponse :=
  let out := stamped req
  match ctx.lookup req.target with
  | none =>
      { out with
        errorCode := AICL_E_NO_MODEL
        errorMessage := s!"no model registered for cap_ref {req.target}"
        flags := out.flags.set AiclFlags.ERROR_FLAG }
  | some m => flagError (afterInvoke (m.invoke req out))

/-- {lit}`handle_stream` of the same adapter. -/
def handleStreamOf (ctx : ModelContext CallableModel) (req : ModelRequest)
    (visitor : Option Visitor) : List Delivery :=
  handleStream (ctx.map CallableModel.toIModel) req visitor

variable {req : ModelRequest}

/-- The error flag is not 0. -/
theorem error_flag_ne_zero : AiclFlags.ERROR_FLAG ≠ 0 := by decide

/-- The last line sets the flag when it has to. -/
theorem isError_flagError {out : ModelResponse} (h : (flagError out).errorCode ≠ 0) :
    (flagError out).isError = true := by
  unfold flagError at h ⊢
  by_cases hcode : out.errorCode = 0
  · simp [hcode] at h
  · rw [if_pos hcode]
    exact AiclFlags.has_set_self error_flag_ne_zero

/-- The last line leaves the label. -/
@[simp] theorem flagError_target (out : ModelResponse) :
    (flagError out).target = out.target := by
  unfold flagError
  split <;> rfl

/-- The last line leaves the label. -/
@[simp] theorem flagError_correlationId (out : ModelResponse) :
    (flagError out).correlationId = out.correlationId := by
  unfold flagError
  split <;> rfl

/-- The last line completes the label of a response. -/
theorem labels_flagError {out : ModelResponse} (htarget : out.target = req.target)
    (hcorrelation : out.correlationId = req.correlationId) : Labels req (flagError out) where
  target := by simpa using htarget
  correlationId := by simpa using hcorrelation
  flag := isError_flagError

/-- An exception leaves the label. -/
@[simp] theorem afterInvoke_target (left : ModelResponse × Option String) :
    (afterInvoke left).target = left.1.target := by
  rcases left with ⟨out, _ | what⟩ <;> rfl

/-- An exception leaves the label. -/
@[simp] theorem afterInvoke_correlationId (left : ModelResponse × Option String) :
    (afterInvoke left).correlationId = left.1.correlationId := by
  rcases left with ⟨out, _ | what⟩ <;> rfl

/-- The model leaves the stamp of its response as it was, also when it throws. -/
def KeepsStamp (req : ModelRequest) (m : CallableModel) : Prop :=
  (m.invoke req (stamped req)).1.target = req.target ∧
    (m.invoke req (stamped req)).1.correlationId = req.correlationId

/-- A response without a model is labelled. -/
theorem labels_noModel (req : ModelRequest) : Labels req (noModel req) where
  target := rfl
  correlationId := rfl
  flag _ := @AiclFlags.has_set_self ⟨AiclFlags.RESPONSE⟩ _ error_flag_ne_zero

/-- A call of a registered model answers with a label exactly when the model
leaves the stamp. -/
theorem labels_invoke_iff (m : CallableModel) :
    Labels req (flagError (afterInvoke (m.invoke req (stamped req)))) ↔ KeepsStamp req m := by
  constructor
  · intro h
    have htarget := h.target
    have hcorrelation := h.correlationId
    simp only [flagError_target, afterInvoke_target, flagError_correlationId,
      afterInvoke_correlationId] at htarget hcorrelation
    exact ⟨htarget, hcorrelation⟩
  · intro h
    apply labels_flagError
    · simpa using h.1
    · simpa using h.2

/-! ## Streams -/

/-- The copy of a chunk before the last line of {lit}`wrapped`. -/
def chunkCopy (req : ModelRequest) (chunk : ModelResponse) : ModelResponse :=
  let copy := { chunk with target := req.target, correlationId := req.correlationId }
  if !copy.flags.has AiclFlags.STREAM_END && !copy.flags.has AiclFlags.ERROR_FLAG then
    { copy with flags := (copy.flags.set AiclFlags.STREAM_CHUNK).set AiclFlags.RESPONSE }
  else copy

/-- Every chunk gets its label on the way to the visitor. -/
theorem labels_wrapped (req : ModelRequest) (chunk : ModelResponse) :
    Labels req (wrapped req chunk) := by
  have hwrapped : wrapped req chunk = flagError (chunkCopy req chunk) := rfl
  rw [hwrapped]
  apply labels_flagError
  · simp only [chunkCopy, apply_ite ModelResponse.target, ite_self]
  · simp only [chunkCopy, apply_ite ModelResponse.correlationId, ite_self]

/-- An exception is reported with a label. -/
theorem labels_internal (req : ModelRequest) (what : String) :
    Labels req (internal req what) where
  target := rfl
  correlationId := rfl
  flag _ :=
    @AiclFlags.has_set_self ⟨AiclFlags.RESPONSE ||| AiclFlags.STREAM_END⟩ _ error_flag_ne_zero

/-- The end of a stream has a label. -/
theorem labels_streamEnd (req : ModelRequest) : Labels req (streamEnd req) where
  target := rfl
  correlationId := rfl
  flag h := absurd rfl h

/-- The responses of a log are labelled. -/
def LogLabels (req : ModelRequest) (log : List Delivery) : Prop := ∀ e ∈ log, Labels req e.1

/-- Delivering a labelled response. -/
theorem LogLabels.visit {log : List Delivery} (h : LogLabels req log) (visitor : Visitor)
    {response : ModelResponse} (hresponse : Labels req response) :
    LogLabels req (visit visitor log response) := by
  intro e he
  rcases List.mem_append.mp he with he | he
  · exact h e he
  · rw [List.mem_singleton.mp he]
    exact hresponse

/-- Whatever the model hands out, and wherever it throws, labelled responses are
delivered. -/
theorem LogLabels.deliver (visitor : Visitor) (s : Streaming) {log : List Delivery}
    (h : LogLabels req log) : LogLabels req (deliver visitor req s log).2 := by
  induction s generalizing log with
  | done => exact h
  | throw_ what => exact h
  | visit chunk resume ih =>
      rw [AICLModelAdapter.deliver]
      exact ih _ (h.visit visitor (labels_wrapped req chunk))

/-- A stream delivers labelled responses only. -/
theorem handleStream_labels (ctx : ModelContext IModel) (req : ModelRequest)
    (visitor : Option Visitor) : LogLabels req (handleStream ctx req visitor) := by
  have hnil : LogLabels req [] := by simp [LogLabels]
  unfold handleStream
  cases visitor with
  | none => exact hnil
  | some visitor =>
      cases hlookup : ctx.lookup req.target with
      | none => exact hnil.visit visitor (labels_noModel req)
      | some m =>
          have hlog := hnil.deliver visitor (m.invokeStream req)
          simp only
          cases hdeliver : deliver visitor req (m.invokeStream req) [] with
          | mk thrown log =>
              rw [hdeliver] at hlog
              cases thrown with
              | none => exact hlog.visit visitor (labels_streamEnd req)
              | some what =>
                  exact (hlog.visit visitor (labels_internal req what)).visit visitor
                    (labels_streamEnd req)

/-! ## Both -/

/-- What the adapter answers and delivers is labelled with the request. -/
def AllLabelled (ctx : ModelContext CallableModel) (req : ModelRequest) : Prop :=
  Labels req (handleCall ctx req) ∧
    ∀ visitor, ∀ e ∈ handleStreamOf ctx req visitor, Labels req e.1

/-- Everything is labelled exactly when the model that the request is for, if there
is one, leaves the stamp of the response that {lit}`invoke` is given. -/
theorem labels_iff (ctx : ModelContext CallableModel) (req : ModelRequest) :
    AllLabelled ctx req ↔ ∀ m, ctx.lookup req.target = some m → KeepsStamp req m := by
  have hstream : ∀ visitor, ∀ e ∈ handleStreamOf ctx req visitor, Labels req e.1 :=
    fun visitor => handleStream_labels _ req visitor
  unfold AllLabelled handleCall
  cases hlookup : ctx.lookup req.target with
  | none =>
      constructor
      · intro _ m hm
        cases hm
      · exact fun _ => ⟨labels_noModel req, hstream⟩
  | some m =>
      constructor
      · intro h m' hm'
        rw [← Option.some.inj hm']
        exact (labels_invoke_iff m).mp h.1
      · intro h
        exact ⟨(labels_invoke_iff m).mpr (h m rfl), hstream⟩

/-- A model that puts a text into the response it is given. -/
def fillsIn : CallableModel where
  invokeStream := DummyModel.invokeStream
  invoke _ out := ({ out with outputs := AList.insert "text" (.str []) ∅ }, none)

/-- A model that starts from a response of its own, which is to nobody. -/
def startsOver : CallableModel where
  invokeStream := DummyModel.invokeStream
  invoke _ _ :=
    ({ target := 0
       correlationId := echoRequest.correlationId
       outputs := AList.insert "text" (.str []) ∅
       flags := ⟨AiclFlags.RESPONSE⟩ }, none)

/-- A model that fills in what it is given gets labelled responses. -/
theorem labels_fillsIn : AllLabelled (ModelContext.new.give fillsIn) echoRequest :=
  (labels_iff (ModelContext.new.give fillsIn) echoRequest).mpr fun m hm => by
    cases hm
    exact ⟨rfl, rfl⟩

/-- The response of a model that starts over names another target. -/
theorem startsOver_unlabelled :
    ¬ ∀ (ctx : ModelContext CallableModel) (req : ModelRequest), AllLabelled ctx req := by
  intro h
  have htarget := (h (ModelContext.new.give startsOver) echoRequest).1.target
  revert htarget
  decide

end AICLModelAdapter

end Aicl.CoreCpp

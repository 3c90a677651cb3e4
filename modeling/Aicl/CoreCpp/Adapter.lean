import Aicl.CoreCpp.Model

/-!
# Streaming through the C++ adapter

{lit}`AICLModelAdapter::handle_stream` of {lit}`core-cpp/src/aicl_adapter.cpp`:
what is delivered to the visitor of the caller, and what it answered.  The adapter
passes on the last chunk of the model and delivers one of its own after it, also
after an error and after the visitor has said no.

Main results:

- Theorem {lit}`AICLModelAdapter.deliver_closes`: before the call of the model is
  over the stream was ended, or refused by the visitor, or failed.
- Theorem {lit}`AICLModelAdapter.handleStream_overruns`: every stream of a
  registered model breaks the protocol.
-/

namespace Aicl.CoreCpp

/-- A visitor: its answer to a response depends on what it was given before. -/
abbrev Visitor := List ModelResponse → ModelResponse → Bool

/-- A response and what the visitor answered. -/
abbrev Delivery := ModelResponse × Bool

namespace AICLModelAdapter

def AICL_E_NO_MODEL : UInt32 := 2
def AICL_E_INTERNAL : UInt32 := 6

/-- Call the visitor. -/
def visit (visitor : Visitor) (log : List Delivery) (response : ModelResponse) : List Delivery :=
  log ++ [(response, visitor (log.map Prod.fst) response)]

/-- The response that {lit}`wrapped` makes of a chunk. -/
def wrapped (req : ModelRequest) (chunk : ModelResponse) : ModelResponse :=
  let copy := { chunk with target := req.target, correlationId := req.correlationId }
  let copy :=
    if !copy.flags.has AiclFlags.STREAM_END && !copy.flags.has AiclFlags.ERROR_FLAG then
      { copy with
        flags := (copy.flags.set AiclFlags.STREAM_CHUNK).set AiclFlags.RESPONSE }
    else copy
  if copy.errorCode ≠ 0 then { copy with flags := copy.flags.set AiclFlags.ERROR_FLAG } else copy

/-- {lit}`m->invoke_stream(req, wrapped)`: what it threw, and the deliveries. -/
def deliver (visitor : Visitor) (req : ModelRequest) :
    Streaming → List Delivery → Option String × List Delivery
  | .done, log => (none, log)
  | .throw_ what, log => (some what, log)
  | .visit chunk resume, log =>
      let response := wrapped req chunk
      let answer := visitor (log.map Prod.fst) response
      deliver visitor req (resume answer) (visit visitor log response)

/-- The response to a request for which no model is registered. -/
def noModel (req : ModelRequest) : ModelResponse where
  target := req.target
  correlationId := req.correlationId
  errorCode := AICL_E_NO_MODEL
  errorMessage := s!"no model registered for cap_ref {req.target}"
  flags := ⟨AiclFlags.RESPONSE ||| AiclFlags.ERROR_FLAG⟩

/-- The response to an exception of the model. -/
def internal (req : ModelRequest) (what : String) : ModelResponse where
  target := req.target
  correlationId := req.correlationId
  errorCode := AICL_E_INTERNAL
  errorMessage := what
  flags := ⟨AiclFlags.RESPONSE ||| AiclFlags.STREAM_END ||| AiclFlags.ERROR_FLAG⟩

/-- The response to an exception ends the stream. -/
theorem isEnd_internal (req : ModelRequest) (what : String) : (internal req what).isEnd = true := by
  have hflags : AiclFlags.has
      ⟨AiclFlags.RESPONSE ||| AiclFlags.STREAM_END ||| AiclFlags.ERROR_FLAG⟩
      AiclFlags.STREAM_END = true := by decide
  exact hflags

/-- The response that the adapter ends a stream with. -/
def streamEnd (req : ModelRequest) : ModelResponse where
  target := req.target
  correlationId := req.correlationId
  flags := ⟨AiclFlags.RESPONSE ||| AiclFlags.STREAM_END⟩

/-- {lit}`handle_stream`: the deliveries; there are none without a visitor. -/
def handleStream (ctx : ModelContext IModel) (req : ModelRequest) (visitor : Option Visitor) :
    List Delivery :=
  match visitor with
  | none => []
  | some visitor =>
      match ctx.lookup req.target with
      | none => visit visitor [] (noModel req)
      | some m =>
          match deliver visitor req (m.invokeStream req) [] with
          | (none, log) => visit visitor log (streamEnd req)
          | (some what, log) => visit visitor (visit visitor log (internal req what)) (streamEnd req)

/-! ## The protocol of a stream -/

/-- What the caller of {lit}`handle_stream` relies on. -/
structure StreamProtocol (log : List Delivery) : Prop where
  end_once : (∃ e ∈ log, e.2 = false ∧ e.1.isEnd = false) ∨
    (log.filter fun e => e.1.isEnd).length = 1
  end_last : ∀ before e after, log = before ++ e :: after → e.1.isEnd = true → after = []
  error_once : (log.filter fun e => e.1.isError).length ≤ 1
  quiet : ∀ before e after, log = before ++ e :: after → e.2 = false → after = []

/-- Nothing may follow this delivery. -/
def Closes (e : Delivery) : Prop := e.1.isEnd = true ∨ e.2 = false

/-- A stream that goes on after a closing delivery breaks the protocol. -/
theorem not_protocol_of_closes {log : List Delivery} {e : Delivery} (he : e ∈ log) (hcloses : Closes e)
    (visitor : Visitor) (response : ModelResponse) :
    ¬ StreamProtocol (visit visitor log response) := by
  intro h
  obtain ⟨before, after, rfl⟩ := List.append_of_mem he
  have hsplit : visit visitor (before ++ e :: after) response =
      before ++ e :: (after ++ [(response,
        visitor ((before ++ e :: after).map Prod.fst) response)]) := by
    simp [visit]
  rcases hcloses with hend | hno
  · exact absurd (h.end_last _ _ _ hsplit hend) (by simp)
  · exact absurd (h.quiet _ _ _ hsplit hno) (by simp)

variable {visitor : Visitor} {req : ModelRequest}

/-- The end marker of a chunk is passed on. -/
theorem isEnd_wrapped {chunk : ModelResponse} (h : chunk.isEnd = true) :
    (wrapped req chunk).isEnd = true := by
  unfold wrapped ModelResponse.isEnd at *
  simp only [h, Bool.not_true, Bool.false_and, Bool.false_eq_true, if_false]
  split
  · exact AiclFlags.has_set h
  · exact h

/-- Deliveries are kept. -/
theorem mem_deliver {s : Streaming} {log : List Delivery} {e : Delivery} (he : e ∈ log) :
    e ∈ (deliver visitor req s log).2 := by
  induction s generalizing log with
  | done => exact he
  | throw_ what => exact he
  | visit chunk resume ih =>
      rw [deliver]
      exact ih _ (List.mem_append_left _ he)

/-- When the call of the model is over, it threw or the stream was closed. -/
theorem deliver_closes {s : Streaming} (h : s.FollowsContract) (log : List Delivery) :
    (∃ what, (deliver visitor req s log).1 = some what) ∨
      ∃ e ∈ (deliver visitor req s log).2, Closes e := by
  induction h generalizing log with
  | throws what => exact .inl ⟨what, rfl⟩
  | @chunk chunk resume hend hgo hstop ih =>
      rw [deliver]
      cases hanswer : visitor (log.map Prod.fst) (wrapped req chunk) with
      | true => exact ih _
      | false =>
          right
          refine ⟨(wrapped req chunk, false), mem_deliver ?_, .inr rfl⟩
          rw [visit, hanswer]
          exact List.mem_append_right _ (List.mem_singleton_self _)
  | @last chunk resume hend hstop =>
      right
      rw [deliver]
      exact ⟨_, mem_deliver (List.mem_append_right _ (List.mem_singleton_self _)),
        .inl (isEnd_wrapped hend)⟩

/-- Every stream of a registered model that follows its contract, or throws, goes
on after it was ended, or after the visitor said no. -/
theorem handleStream_overruns (ctx : ModelContext IModel) (req : ModelRequest) (m : IModel)
    (hlookup : ctx.lookup req.target = some m) (hcontract : (m.invokeStream req).FollowsContract)
    (visitor : Visitor) : ¬ StreamProtocol (handleStream ctx req (some visitor)) := by
  rw [handleStream]
  simp only [hlookup]
  have hclosed := @deliver_closes visitor req _ hcontract []
  cases hdeliver : deliver visitor req (m.invokeStream req) [] with
  | mk thrown log =>
      rw [hdeliver] at hclosed
      cases thrown with
      | none =>
          rcases hclosed with ⟨_, hthrown⟩ | ⟨e, he, hcloses⟩
          · cases hthrown
          · exact not_protocol_of_closes he hcloses visitor (streamEnd req)
      | some what =>
          have hmem : (internal req what, visitor (log.map Prod.fst) (internal req what)) ∈
              visit visitor log (internal req what) :=
            List.mem_append_right _ (List.mem_singleton_self _)
          exact not_protocol_of_closes hmem (.inl (isEnd_internal req what)) visitor (streamEnd req)

/-- An echo request to the dummy model. -/
def echoRequest : ModelRequest where
  target := 1
  correlationId := ⟨List.replicate 16 0, rfl⟩
  inputs := AList.insert "prompt" (.str [0x68, 0x69]) ∅

/-- A visitor that cancels at once is called again. -/
theorem handleStream_overruns_dummy : ¬ StreamProtocol
    (handleStream (ModelContext.new.give DummyModel.model) echoRequest (some fun _ _ => false)) :=
  handleStream_overruns _ echoRequest DummyModel.model rfl (DummyModel.followsContract _) _

/-- A visitor that never cancels gets the end of a stream twice. -/
theorem handleStream_ends_twice :
    ¬ ∀ (ctx : ModelContext IModel) (req : ModelRequest) (m : IModel),
      ctx.lookup req.target = some m → (m.invokeStream req).FollowsContract →
        ∀ visitor, StreamProtocol (handleStream ctx req (some visitor)) := by
  intro h
  have hprotocol := h (ModelContext.new.give DummyModel.model) echoRequest DummyModel.model rfl
    (DummyModel.followsContract _) (fun _ _ => true)
  rcases hprotocol.end_once with ⟨e, he, hno, _⟩ | hone
  · revert hno
    revert e
    decide +kernel
  · revert hone
    decide +kernel

end AICLModelAdapter

end Aicl.CoreCpp

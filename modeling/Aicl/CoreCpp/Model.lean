import Aicl.CoreCpp.Context
import Aicl.Isa.Tags

/-!
# Requests, responses and models of the C++ core

The request and the response of {lit}`core-cpp/include/aicl/aicl_value.hpp`, the
streaming call of {lit}`IModel` of {lit}`aicl_model.hpp`, and the dummy model of
{lit}`core-cpp/src/aicl_model.cpp`.  A streaming call is what the model does next:
return, throw, or hand a chunk to its visitor and go on with the answer.

Main results:

- Definition {lit}`Streaming.FollowsContract`: the contract of
  {lit}`IModel::invoke_stream`.
- Theorem {lit}`DummyModel.followsContract`: the dummy model follows it.
-/

namespace Aicl.CoreCpp

/-! ## Flags -/

/-- {lit}`AiclFlags`. -/
structure AiclFlags where
  bits : UInt16
deriving DecidableEq, Repr

namespace AiclFlags

def RESPONSE : UInt16 := 0x0002
def STREAM_CHUNK : UInt16 := 0x0004
def STREAM_END : UInt16 := 0x0008
def ERROR_FLAG : UInt16 := 0x0010

/-- {lit}`has`. -/
def has (flags : AiclFlags) (mask : UInt16) : Bool := flags.bits &&& mask != 0

/-- {lit}`set`. -/
def set (flags : AiclFlags) (mask : UInt16) : AiclFlags := ⟨flags.bits ||| mask⟩

/-- Setting flags clears none. -/
theorem has_set {flags : AiclFlags} {mask other : UInt16} (h : flags.has mask = true) :
    (flags.set other).has mask = true := by
  simp only [has, set, bne_iff_ne, ne_eq] at h ⊢
  intro hzero
  apply h
  have hbits := congrArg (· &&& (flags.bits &&& mask)) hzero
  simp only [UInt16.zero_and] at hbits
  rw [← hbits]
  apply UInt16.eq_of_toBitVec_eq
  simp only [UInt16.toBitVec_and, UInt16.toBitVec_or]
  ext i hi
  simp only [BitVec.getElem_and, BitVec.getElem_or]
  cases flags.bits.toBitVec[i] <;> cases mask.toBitVec[i] <;> simp

end AiclFlags

/-! ## Requests and responses -/

/-- A value.  Kinds that no modelled function makes or looks into are told apart by
their number. -/
inductive Value where
  | bool (b : Bool)
  | str (s : Bytes)
  | other (kind : UInt16)
deriving DecidableEq, Repr

/-- {lit}`std::map<std::string, Value>`. -/
abbrev ValueMap := AList fun _ : String => Value

/-- {lit}`Uuid`: sixteen bytes. -/
structure Uuid where
  bytes : Bytes
  length_eq : bytes.length = 16
deriving Repr

/-- A uuid is determined by its bytes. -/
theorem Uuid.ext_iff (a b : Uuid) : a = b ↔ a.bytes = b.bytes := by
  cases a
  cases b
  rw [Uuid.mk.injEq]

instance : DecidableEq Uuid := fun a b => decidable_of_iff _ (Uuid.ext_iff a b).symm

/-- {lit}`ModelRequest`. -/
structure ModelRequest where
  target : UInt16
  correlationId : Uuid
  inputs : ValueMap
deriving DecidableEq

/-- {lit}`ModelResponse`. -/
structure ModelResponse where
  target : UInt16
  correlationId : Uuid
  errorCode : UInt32 := 0
  errorMessage : String := ""
  outputs : ValueMap := ∅
  flags : AiclFlags
deriving DecidableEq

namespace ModelResponse

/-- The response carries {lit}`STREAM_END`. -/
def isEnd (r : ModelResponse) : Bool := r.flags.has AiclFlags.STREAM_END

/-- The response carries {lit}`ERROR_FLAG`. -/
def isError (r : ModelResponse) : Bool := r.flags.has AiclFlags.ERROR_FLAG

end ModelResponse

/-! ## Streaming calls -/

/-- What a streaming call does next: it returns, it throws a
{lit}`std::exception`, or it calls its visitor and goes on with the answer. -/
inductive Streaming where
  | done
  | throw_ (what : String)
  | visit (chunk : ModelResponse) (resume : Bool → Streaming)

namespace Streaming

/-- Nothing more is handed to the visitor. -/
inductive Stops : Streaming → Prop
  | done : Stops .done
  | throws (what : String) : Stops (.throw_ what)

/-- The contract of {lit}`IModel::invoke_stream`: chunks without
{lit}`STREAM_END`, a last one with it, and an end when the visitor says no; an
exception may come at any point. -/
inductive FollowsContract : Streaming → Prop
  | throws (what : String) : FollowsContract (.throw_ what)
  | chunk {chunk : ModelResponse} {resume : Bool → Streaming} (hend : chunk.isEnd = false)
      (hgo : FollowsContract (resume true)) (hstop : Stops (resume false)) :
      FollowsContract (.visit chunk resume)
  | last {chunk : ModelResponse} {resume : Bool → Streaming} (hend : chunk.isEnd = true)
      (hstop : ∀ answer, Stops (resume answer)) : FollowsContract (.visit chunk resume)

end Streaming

/-- {lit}`IModel`, as far as streaming goes. -/
structure IModel where
  invokeStream : ModelRequest → Streaming

/-! ## The dummy model -/

namespace DummyModel

/-- {lit}`extract_string`: {lit}`as_str` throws {lit}`std::bad_cast` on another
kind of value. -/
def extractString (inputs : ValueMap) (key : String) : Except String Bytes :=
  match inputs.lookup key with
  | none => .ok []
  | some (.str s) => .ok s
  | some _ => .error "std::bad_cast"

/-- A chunk of the dummy model. -/
def chunk (req : ModelRequest) (flag : UInt16) (key : String) (value : Value) : ModelResponse where
  target := req.target
  correlationId := req.correlationId
  outputs := AList.insert key value ∅
  flags := ⟨AiclFlags.RESPONSE ||| flag⟩

/-- Which chunks of the dummy model end the stream. -/
theorem isEnd_chunk (req : ModelRequest) (flag : UInt16) (key : String) (value : Value) :
    (chunk req flag key value).isEnd =
      AiclFlags.has ⟨AiclFlags.RESPONSE ||| flag⟩ AiclFlags.STREAM_END := rfl

/-- The loop over the characters of the prompt, and the final chunk. -/
def tokens (req : ModelRequest) : Bytes → Streaming
  | [] => .visit (chunk req AiclFlags.STREAM_END "eos" (.bool true)) fun _ => .done
  | c :: prompt =>
      .visit (chunk req AiclFlags.STREAM_CHUNK "token" (.str [c])) fun
        | true => tokens req prompt
        | false => .done

/-- {lit}`DummyModel::invoke_stream`. -/
def invokeStream (req : ModelRequest) : Streaming :=
  match extractString req.inputs "prompt" with
  | .ok prompt => tokens req prompt
  | .error what => .throw_ what

/-- {lit}`DummyModel`. -/
def model : IModel := ⟨invokeStream⟩

/-- The dummy model follows the contract. -/
theorem followsContract (req : ModelRequest) : (model.invokeStream req).FollowsContract := by
  have htokens : ∀ prompt, (tokens req prompt).FollowsContract := by
    intro prompt
    induction prompt with
    | nil =>
        apply Streaming.FollowsContract.last
        · rw [isEnd_chunk]
          decide
        · exact fun _ => .done
    | cons c prompt ih =>
        apply Streaming.FollowsContract.chunk
        · rw [isEnd_chunk]
          decide
        · exact ih
        · exact .done
  simp only [model, invokeStream]
  split
  · exact htokens _
  · exact .throws _

end DummyModel

end Aicl.CoreCpp

import Aicl.Bin.Packet

/-!
# Types of the semantic layer

{lit}`ModelIntent`, {lit}`ModelAction`, {lit}`ModelObservation` and
{lit}`ModelResult` of {lit}`aicl/semantic/types.py`, with the values that their
untyped dictionaries hold.  What the layer uses of {lit}`json`, {lit}`uuid` and
{lit}`str` is a parameter; nothing is assumed of it.

Main definitions:

- Definition {lit}`ModelAction.validate`: the errors of an action.
- Definition {lit}`Library`: the functions of the standard library.
-/

namespace Aicl.Semantic

open Bin (PyError)

/-! ## Values -/

/-- A value of any type.  Lists and tuples are one; any other object is what
{lit}`str` and {lit}`bool` make of it. -/
inductive Value where
  | null
  | bool (value : Bool)
  | int (value : Int)
  | float (value : UInt64)
  | str (value : Utf8String)
  | list (items : List Value)
  | dict (entries : List (Value × Value))
  | object (text : Utf8String) (truth : Bool)

/-- {lit}`bool(value)`. -/
def Value.truthy : Value → Bool
  | .null => false
  | .bool value => value
  | .int value => value ≠ 0
  | .float value => value &&& 0x7FFFFFFFFFFFFFFF ≠ 0
  | .str value => value.length ≠ 0
  | .list items => !items.isEmpty
  | .dict entries => !entries.isEmpty
  | .object _ truth => truth

/-- A dictionary with texts for keys, as {lit}`Dict[str, Any]`. -/
abbrev Entries := List (Utf8String × Value)

/-- Such a dictionary as a value. -/
def Value.ofEntries (entries : Entries) : Value := .dict (entries.map fun e => (.str e.1, e.2))

/-- An exception that the layer raises or lets through. -/
inductive Raised where
  | semanticError (message : String)
  | validationError (errors : List String)
  | bin (e : PyError)
  | builtin (cls : String)
deriving DecidableEq

/-- An exception is a {lit}`SemanticError`. -/
def Raised.IsSemantic : Raised → Prop
  | .semanticError _ => True
  | .validationError _ => True
  | _ => False

/-- How a call of the layer ends. -/
abbrev SemResult (α : Type) := Outcome Raised α

/-- A call of the binary layer. -/
def liftBin {α : Type} : Bin.PyResult α → SemResult α
  | .ok a => .ok a
  | .err e => .err (.bin e)
  | .panic => .panic

/-- A call of the binary layer returns what it returned. -/
theorem liftBin_eq_ok_iff {α : Type} {x : Bin.PyResult α} {a : α} : liftBin x = .ok a ↔ x = .ok a := by
  cases x <;> simp [liftBin]

/-- Sixteen bytes. -/
abbrev UuidBytes := { bytes : Bytes // bytes.length = 16 }

/-- The functions of the standard library: {lit}`json.dumps` with the default and
with compact separators, {lit}`json.loads` (nothing for a decoding error),
{lit}`dict.update`, {lit}`str`, the text of a float, and {lit}`uuid.UUID(…).bytes`. -/
structure Library where
  dumps : Value → SemResult Utf8String
  dumpsCompact : Value → SemResult Utf8String
  loads : Utf8String → Option Value
  update : Entries → Value → SemResult Entries
  str : Value → Utf8String
  floatText : UInt64 → String
  uuid : Utf8String → SemResult UuidBytes

/-- {lit}`str(value)`; a text is its own. -/
def Library.text (lib : Library) : Value → Utf8String
  | .str value => value
  | value => lib.str value

/-! ## Intents -/

/-- What the model wants to do. -/
inductive ModelIntent where
  | classify | generate | reason | embed | rank | summarize | synthesize | verify | extract
  | transform | plan | evaluate | callModel | callTool | readMemory | writeMemory | deleteMemory
  | indexQuery | indexUpsert | route | filter | returnResult | streamResult | cancel
deriving DecidableEq

namespace ModelIntent

/-- {lit}`value`. -/
def value : ModelIntent → String
  | classify => "CLASSIFY"
  | generate => "GENERATE"
  | reason => "REASON"
  | embed => "EMBED"
  | rank => "RANK"
  | summarize => "SUMMARIZE"
  | synthesize => "SYNTHESIZE"
  | verify => "VERIFY"
  | extract => "EXTRACT"
  | transform => "TRANSFORM"
  | plan => "PLAN"
  | evaluate => "EVALUATE"
  | callModel => "CALL_MODEL"
  | callTool => "CALL_TOOL"
  | readMemory => "READ_MEMORY"
  | writeMemory => "WRITE_MEMORY"
  | deleteMemory => "DELETE_MEMORY"
  | indexQuery => "INDEX_QUERY"
  | indexUpsert => "INDEX_UPSERT"
  | route => "ROUTE"
  | filter => "FILTER"
  | returnResult => "RETURN_RESULT"
  | streamResult => "STREAM_RESULT"
  | cancel => "CANCEL"

/-- {lit}`value`, as a string of the binary layer. -/
def text (intent : ModelIntent) : Utf8String := .ofAscii intent.value

/-- {lit}`INTENT_TO_OPCODE`; every intent has one, so that the default of
{lit}`get` is not used. -/
def toOpcode : ModelIntent → Int
  | classify => 0x43
  | generate => 0x46
  | reason => 0x44
  | embed => 0x42
  | rank => 0x46
  | summarize => 0x46
  | synthesize => 0x46
  | verify => 0x44
  | extract => 0x46
  | transform => 0x46
  | plan => 0x46
  | evaluate => 0x46
  | callModel => 0x40
  | callTool => 0x41
  | readMemory => 0x20
  | writeMemory => 0x21
  | deleteMemory => 0x22
  | indexQuery => 0x23
  | indexUpsert => 0x24
  | route => 0x03
  | filter => 0x46
  | returnResult => 0x11
  | streamResult => 0x12
  | cancel => 0x09

/-- The intents that need a target. -/
def requiresTarget : ModelIntent → Bool
  | classify => true
  | callModel => true
  | callTool => true
  | readMemory => true
  | writeMemory => true
  | _ => false

end ModelIntent

/-! ## Actions -/

/-- Structured action a model wants to perform.  No dictionary has a key twice. -/
structure ModelAction where
  intent : ModelIntent
  target : Utf8String := .empty
  inputs : Entries := []
  params : Entries := []
  result : Entries := []
  confidence : UInt64 := 0x3FF0000000000000
  stream : Bool := false
  cancel : Bool := false
  correlationId : Utf8String := .empty
  deadlineMs : Int := 0
  metadata : Entries := []
  inputs_nodupKeys : Dict.NodupKeys inputs
  params_nodupKeys : Dict.NodupKeys params
  result_nodupKeys : Dict.NodupKeys result
  metadata_nodupKeys : Dict.NodupKeys metadata

/-- An empty dictionary has no key twice. -/
theorem noEntries_nodupKeys : Dict.NodupKeys ([] : Entries) := List.nodup_nil

/-- {lit}`0.0 <= value <= 1.0`: a negative zero passes, a NaN does not. -/
def inUnitInterval (value : UInt64) : Bool :=
  value ≤ 0x3FF0000000000000 || value == 0x8000000000000000

/-- {lit}`"tool_name"`. -/
def toolNameKey : Utf8String := .ofAscii "tool_name"

/-- {lit}`validate`.  An intent that is no {lit}`ModelIntent` does not occur. -/
def ModelAction.validate (lib : Library) (action : ModelAction) : List String :=
  (if inUnitInterval action.confidence then []
    else [s!"Confidence out of range: {lib.floatText action.confidence}"]) ++
  (if action.deadlineMs < 0 then [s!"Negative deadline: {action.deadlineMs}"] else []) ++
  (if action.intent.requiresTarget ∧ action.target.length = 0 then
    [s!"{action.intent.value} requires a target"] else []) ++
  (if action.intent = .callTool ∧ (Dict.get? toolNameKey action.params).isNone then
    ["CALL_TOOL requires params.tool_name"] else [])

/-- The deadline of a valid action is not negative. -/
theorem deadlineMs_nonneg {lib : Library} {action : ModelAction}
    (h : action.validate lib = []) : 0 ≤ action.deadlineMs := by
  by_contra hneg
  unfold ModelAction.validate at h
  rw [if_pos (Int.not_le.mp hneg)] at h
  simp at h

/-! ## Observations and results -/

/-- What a model receives as input context. -/
structure ModelObservation where
  task : Utf8String
  context : Entries
  inputs : Entries
  params : Entries
  schemaId : Utf8String
  traceId : Utf8String
  origin : Utf8String
  confidence : UInt64
  deadlineMs : Nat
  metadata : List (Utf8String × Utf8String)

/-- Result from a model; {lit}`done` is not written. -/
structure ModelResult where
  intent : ModelIntent
  output : Value := .null
  confidence : UInt64 := 0x3FF0000000000000
  tokensUsed : Int := 0
  latencyMs : UInt64 := 0
  error : Option Utf8String := none
  metadata : Entries := []
  metadata_nodupKeys : Dict.NodupKeys metadata

end Aicl.Semantic

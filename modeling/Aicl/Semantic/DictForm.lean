import Aicl.Foundation.SparseDict
import Aicl.Semantic.FastCodec

/-!
# Dictionary forms of the semantic types

{lit}`to_dict` and {lit}`from_dict` of the four types of
{lit}`aicl/semantic/types.py`.  Python does not check what the fields hold, so they
are values of any type here, and a well-typed instance is one whose fields are of
the annotated types.  Instances are compared as tuples of their fields are: a field
is equal to itself, and numbers are compared by what they are.

Main results:

- Theorem {lit}`DictForm.read_iff`: a field is read back when it is left out at its
  default only.
- Theorem {lit}`DictForm.instance_survives_iff`: which instances are read back as they were.
-/

namespace Aicl.Semantic.DictForm

open SparseDict (Field getD build)

/-! ## Numbers -/

/-- The number that a double stands for, unless it is infinite or none. -/
def floatValue (bits : UInt64) : Option ℚ :=
  let sign : ℚ := if bits.toNat / 2 ^ 63 = 0 then 1 else -1
  let exponent : Nat := bits.toNat / 2 ^ 52 % 2 ^ 11
  let mantissa : Nat := bits.toNat % 2 ^ 52
  if exponent = 2047 then none
  else if exponent = 0 then some (sign * mantissa * 2 ^ (-1074 : ℤ))
  else some (sign * (2 ^ 52 + mantissa) * 2 ^ ((exponent : ℤ) - 1075))

/-- Both zeros stand for 0. -/
theorem floatValue_of_falsy {bits : UInt64} (h : bits &&& 0x7FFFFFFFFFFFFFFF = 0) :
    floatValue bits = some 0 := by
  have hmod : bits.toNat % 2 ^ 63 = 0 := by
    have hnat := congrArg UInt64.toNat h
    rw [UInt64.toNat_and] at hnat
    exact (Nat.and_two_pow_sub_one_eq_mod bits.toNat 63).symm.trans hnat
  have hexponent : bits.toNat / 2 ^ 52 % 2 ^ 11 = 0 := by omega
  have hmantissa : bits.toNat % 2 ^ 52 = 0 := by omega
  simp only [floatValue, hexponent, hmantissa]
  simp

/-- The number that a value is; a truth value is one too. -/
def number? : Value → Option ℚ
  | .bool b => some (if b then 1 else 0)
  | .int n => some n
  | .float bits => floatValue bits
  | _ => none

/-- {lit}`==` between a value and a number. -/
def eqNumber (value number : Value) : Bool :=
  match number? value, number? number with
  | some p, some q => decide (p = q)
  | _, _ => false

/-- Two field values are equal: they are the same, or numbers that are. -/
def Equal (a b : Value) : Prop := a = b ∨ eqNumber a b = true

/-- A field is equal to itself. -/
theorem Equal.refl (a : Value) : Equal a a := .inl rfl

/-- Numbers are compared both ways alike. -/
theorem eqNumber_comm (a b : Value) : eqNumber a b = eqNumber b a := by
  unfold eqNumber
  cases number? a <;> cases number? b <;> simp [eq_comm]

/-! ## Annotated types -/

/-- The types that the fields are annotated with. -/
inductive FieldType where
  | str | optionalStr | dict | listOfStr | int | float | bool | any
deriving DecidableEq

/-- A value of an annotated type; a number may be given where a float is expected. -/
def HasType : FieldType → Value → Prop
  | .str, v => ∃ s, v = .str s
  | .optionalStr, v => v = .null ∨ ∃ s, v = .str s
  | .dict, v => ∃ entries : Entries, v = .ofEntries entries
  | .listOfStr, v => ∃ items : List Utf8String, v = .list (items.map .str)
  | .int, v => (∃ n, v = .int n) ∨ ∃ b, v = .bool b
  | .float, v => (∃ n, v = .int n) ∨ (∃ b, v = .bool b) ∨ ∃ bits, v = .float bits
  | .bool, v => ∃ b, v = .bool b
  | .any, _ => True

/-- The type has one false value only, up to equality. -/
def FieldType.hasEmpty : FieldType → Bool
  | .optionalStr => false
  | .any => false
  | _ => true

/-- That value. -/
def emptyOf : FieldType → Value
  | .str => .str .empty
  | .dict => .dict []
  | .listOfStr => .list []
  | .int => .int 0
  | .float => .float 0
  | .bool => .bool false
  | .optionalStr => .null
  | .any => .null

/-- An empty text. -/
theorem str_of_falsy {s : Utf8String} (h : (Value.str s).truthy = false) : s = .empty := by
  apply Utf8String.ext_bytes
  simpa [Value.truthy, Utf8String.length, Utf8String.empty] using h

/-- What is false is the empty value of its type. -/
theorem equal_of_falsy {t : FieldType} {v : Value} (hempty : t.hasEmpty = true)
    (htype : HasType t v) (h : v.truthy = false) : Equal (emptyOf t) v := by
  cases t with
  | str =>
      obtain ⟨s, rfl⟩ := htype
      exact .inl (by rw [str_of_falsy h]; rfl)
  | dict =>
      obtain ⟨entries, rfl⟩ := htype
      have hnil : entries = [] := by simpa [Value.truthy, Value.ofEntries] using h
      exact .inl (by rw [hnil]; rfl)
  | listOfStr =>
      obtain ⟨items, rfl⟩ := htype
      have hnil : items = [] := by simpa [Value.truthy] using h
      exact .inl (by rw [hnil]; rfl)
  | int =>
      rcases htype with ⟨n, rfl⟩ | ⟨b, rfl⟩
      · have hzero : n = 0 := by simpa [Value.truthy] using h
        exact .inl (by rw [hzero]; rfl)
      · have hfalse : b = false := h
        exact .inr (by simp [emptyOf, eqNumber, number?, hfalse])
  | float =>
      have hzero : number? (.float 0) = some 0 := @floatValue_of_falsy 0 (by decide)
      rcases htype with ⟨n, rfl⟩ | ⟨b, rfl⟩ | ⟨bits, rfl⟩
      · have hn : n = 0 := by simpa [Value.truthy] using h
        exact .inr (by simp only [emptyOf, eqNumber, hzero]; simp [number?, hn])
      · have hfalse : b = false := h
        exact .inr (by simp only [emptyOf, eqNumber, hzero]; simp [number?, hfalse])
      · have hbits : number? (.float bits) = some 0 :=
          floatValue_of_falsy (by simpa [Value.truthy] using h)
        exact .inr (by simp [emptyOf, eqNumber, hzero, hbits])
  | bool =>
      obtain ⟨b, rfl⟩ := htype
      have hfalse : b = false := h
      exact .inl (by rw [hfalse]; rfl)
  | optionalStr => cases hempty
  | any => cases hempty

/-! ## Fields -/

/-- A key of a dictionary form. -/
def keyOf (name : String) : Utf8String := .ofAscii name

/-- {lit}`d[name] = value`. -/
def always (name : String) (value : Value) : Field Utf8String Value := ⟨keyOf name, value, true⟩

/-- {lit}`if value: d[name] = value`. -/
def whenTrue (name : String) (value : Value) : Field Utf8String Value :=
  ⟨keyOf name, value, value.truthy⟩

/-- {lit}`if value: d[name] = True`. -/
def flag (name : String) (value : Value) : Field Utf8String Value :=
  ⟨keyOf name, .bool true, value.truthy⟩

/-- {lit}`if value != number: d[name] = value`. -/
def whenNot (number : Value) (name : String) (value : Value) : Field Utf8String Value :=
  ⟨keyOf name, value, !eqNumber value number⟩

/-- {lit}`if value is not None: d[name] = value`. -/
def whenSome (name : String) (value : Value) : Field Utf8String Value :=
  ⟨keyOf name, value, value matches .null |> not⟩

/-- What is read back for a field is equal to what the record has there. -/
def Kept (f : Field Utf8String Value) (default value : Value) : Prop :=
  Equal (if f.keep then f.value else default) value

/-- A field is read back exactly when it is kept. -/
theorem read_iff {f : Field Utf8String Value} {fields : List (Field Utf8String Value)}
    {default value : Value} (hkeys : (fields.map Field.key).Nodup) (i : ℕ)
    (hf : fields[i]? = some f) :
    Equal (getD (build fields) f.key default) value ↔ Kept f default value := by
  rw [SparseDict.getD_build hkeys (List.mem_of_getElem? hf)]
  rfl

/-- A field that is kept is read back. -/
theorem Kept.read {f : Field Utf8String Value} {fields : List (Field Utf8String Value)}
    {default value : Value} (h : Kept f default value) (hkeys : (fields.map Field.key).Nodup)
    (i : ℕ) (hf : fields[i]? = some f) : Equal (getD (build fields) f.key default) value :=
  (read_iff hkeys i hf).mpr h

/-- A field that is always written is kept. -/
theorem kept_always (name : String) (default value : Value) :
    Kept (always name value) default value := .inl rfl

/-- A field that is left out when it is false is kept. -/
theorem kept_whenTrue (name : String) {t : FieldType} {value : Value} (hempty : t.hasEmpty = true)
    (htype : HasType t value) :
    Kept (whenTrue name value) (emptyOf t) value := by
  unfold Kept whenTrue
  by_cases htruthy : value.truthy = true
  · rw [if_pos htruthy]
    exact .refl value
  · rw [if_neg htruthy]
    exact equal_of_falsy hempty htype (by simpa using htruthy)

/-- A flag is kept. -/
theorem kept_flag (name : String) {value : Value} (htype : HasType .bool value) :
    Kept (flag name value) (.bool false) value := by
  obtain ⟨b, rfl⟩ := htype
  cases b with
  | true => exact .inl rfl
  | false => exact .inl rfl

/-- A field that is left out when it is equal to a number is kept. -/
theorem kept_whenNot (name : String) (number value : Value) :
    Kept (whenNot number name value) number value := by
  unfold Kept whenNot
  by_cases heq : eqNumber value number = true
  · simp only [heq, Bool.not_true, Bool.false_eq_true, if_false]
    exact .inr (by rwa [eqNumber_comm])
  · simp only [heq, Bool.not_false, if_true]
    exact .refl value

/-- A field that is left out when it is {lit}`None` is kept. -/
theorem kept_whenSome (name : String) (value : Value) : Kept (whenSome name value) .null value := by
  cases value <;> exact .inl rfl

/-- An optional text that is left out when it is false is kept unless it is empty. -/
theorem kept_optional_iff (name : String) {value : Value} (htype : HasType .optionalStr value) :
    Kept (whenTrue name value) .null value ↔ value ≠ .str .empty := by
  rcases htype with rfl | ⟨s, rfl⟩
  · simp [Kept, whenTrue, Value.truthy, Equal]
  · by_cases hempty : s = .empty
    · subst hempty
      have hfalsy : (Value.str .empty).truthy = false := rfl
      simp [Kept, whenTrue, hfalsy, Equal, eqNumber, number?]
    · have htruthy : (Value.str s).truthy = true := by
        by_contra hfalsy
        exact hempty (str_of_falsy (by simpa using hfalsy))
      simp [Kept, whenTrue, htruthy, Equal, hempty]

/-! ## Intents -/

/-- {lit}`ModelIntent(value)`; nothing for a {lit}`ValueError`. -/
def intentOf? : Value → Option ModelIntent
  | .str s => ModelIntent.all.find? fun intent => intent.text = s
  | _ => none

/-- An intent is read back from its value. -/
theorem intentOf?_text (intent : ModelIntent) : intentOf? (.str intent.text) = some intent := by
  cases intent <;> decide +kernel

/-! ## Records -/

/-- {lit}`d.get(name, default)`. -/
def get (d : Entries) (name : String) (default : Value) : Value := getD d (keyOf name) default

/-- The floats {lit}`1.0` and {lit}`0.7`. -/
def one : Value := .float 0x3FF0000000000000

@[inherit_doc one]
def sevenTenths : Value := .float 0x3FE6666666666666

/-- The fields of two instances are equal one by one. -/
def TupleEqual : List Value → List Value → Prop := List.Forall₂ Equal

/-- Values of annotated types. -/
def AllTyped (values : List (FieldType × Value)) : Prop := ∀ e ∈ values, HasType e.1 e.2

/-- {lit}`ModelAction`. -/
structure ModelAction where
  intent : ModelIntent
  target : Value := .str .empty
  inputs : Value := .dict []
  params : Value := .dict []
  result : Value := .dict []
  confidence : Value := one
  stream : Value := .bool false
  cancel : Value := .bool false
  correlationId : Value := .str .empty
  deadlineMs : Value := .int 0
  metadata : Value := .dict []

namespace ModelAction

/-- The fields that {lit}`to_dict` may write, in its order. -/
def fields (x : ModelAction) : List (Field Utf8String Value) :=
  [always "intent" (.str x.intent.text), whenTrue "target" x.target, whenTrue "inputs" x.inputs,
    whenTrue "params" x.params, whenTrue "result" x.result,
    whenNot one "confidence" x.confidence, flag "stream" x.stream, flag "cancel" x.cancel,
    whenTrue "correlation_id" x.correlationId, whenTrue "deadline_ms" x.deadlineMs,
    whenTrue "metadata" x.metadata]

/-- {lit}`to_dict`. -/
def toDict (x : ModelAction) : Entries := build x.fields

/-- The instance that {lit}`from_dict` makes for an intent. -/
def ofDict (intent : ModelIntent) (d : Entries) : ModelAction where
  intent := intent
  target := get d "target" (.str .empty)
  inputs := get d "inputs" (.dict [])
  params := get d "params" (.dict [])
  result := get d "result" (.dict [])
  confidence := get d "confidence" one
  stream := get d "stream" (.bool false)
  cancel := get d "cancel" (.bool false)
  correlationId := get d "correlation_id" (.str .empty)
  deadlineMs := get d "deadline_ms" (.int 0)
  metadata := get d "metadata" (.dict [])

/-- {lit}`from_dict`; {lit}`repr` gives the text of a value in the error. -/
def fromDict (repr : Value → String) (d : Entries) : SemResult ModelAction :=
  let intentStr := get d "intent" (.str .empty)
  match intentOf? intentStr with
  | none => .err (.semanticError s!"Unknown intent: {repr intentStr}")
  | some intent => .ok (ofDict intent d)

/-- The fields but for the intent. -/
def tuple (x : ModelAction) : List Value :=
  [x.target, x.inputs, x.params, x.result, x.confidence, x.stream, x.cancel, x.correlationId,
    x.deadlineMs, x.metadata]

/-- {lit}`==`. -/
def Eq (x y : ModelAction) : Prop := x.intent = y.intent ∧ TupleEqual x.tuple y.tuple

/-- The fields are of the annotated types. -/
def WellTyped (x : ModelAction) : Prop :=
  AllTyped [(.str, x.target), (.dict, x.inputs), (.dict, x.params), (.dict, x.result),
    (.float, x.confidence), (.bool, x.stream), (.bool, x.cancel), (.str, x.correlationId),
    (.int, x.deadlineMs), (.dict, x.metadata)]

/-- An action is read back as it was. -/
def Survives (repr : Value → String) (x : ModelAction) : Prop :=
  ∃ y, fromDict repr x.toDict = .ok y ∧ y.Eq x

/-- No key is written twice. -/
theorem keys_nodup (x : ModelAction) : (x.fields.map Field.key).Nodup := by
  change (["intent", "target", "inputs", "params", "result", "confidence", "stream", "cancel",
    "correlation_id", "deadline_ms", "metadata"].map keyOf).Nodup
  decide +kernel

/-- Every action is read back. -/
theorem survives (repr : Value → String) {x : ModelAction} (h : x.WellTyped) :
    x.Survives repr := by
  have hkeys := x.keys_nodup
  simp only [WellTyped, AllTyped, List.forall_mem_cons] at h
  obtain ⟨htarget, hinputs, hparams, hresult, -, hstream, hcancel, hcorrelation, hdeadline,
    hmetadata, -⟩ := h
  have hintent : get x.toDict "intent" (.str .empty) = .str x.intent.text :=
    SparseDict.getD_build hkeys (List.mem_of_getElem? (i := 0) rfl) _
  refine ⟨ofDict x.intent x.toDict, by simp only [fromDict, hintent, intentOf?_text], rfl, ?_⟩
  refine .cons ((kept_whenTrue _ rfl htarget).read hkeys 1 rfl) ?_
  refine .cons ((kept_whenTrue _ rfl hinputs).read hkeys 2 rfl) ?_
  refine .cons ((kept_whenTrue _ rfl hparams).read hkeys 3 rfl) ?_
  refine .cons ((kept_whenTrue _ rfl hresult).read hkeys 4 rfl) ?_
  refine .cons ((kept_whenNot _ _ _).read hkeys 5 rfl) ?_
  refine .cons ((kept_flag _ hstream).read hkeys 6 rfl) ?_
  refine .cons ((kept_flag _ hcancel).read hkeys 7 rfl) ?_
  refine .cons ((kept_whenTrue _ rfl hcorrelation).read hkeys 8 rfl) ?_
  refine .cons ((kept_whenTrue _ rfl hdeadline).read hkeys 9 rfl) ?_
  refine .cons ((kept_whenTrue _ rfl hmetadata).read hkeys 10 rfl) ?_
  exact .nil

/-- An action of the adapter, with its fields as values. -/
def ofTyped (action : Semantic.ModelAction) : ModelAction where
  intent := action.intent
  target := .str action.target
  inputs := .ofEntries action.inputs
  params := .ofEntries action.params
  result := .ofEntries action.result
  confidence := .float action.confidence
  stream := .bool action.stream
  cancel := .bool action.cancel
  correlationId := .str action.correlationId
  deadlineMs := .int action.deadlineMs
  metadata := .ofEntries action.metadata

/-- An action of the adapter is well typed. -/
theorem ofTyped_wellTyped (action : Semantic.ModelAction) : (ofTyped action).WellTyped := by
  simp only [WellTyped, AllTyped, List.forall_mem_cons]
  exact ⟨⟨_, rfl⟩, ⟨_, rfl⟩, ⟨_, rfl⟩, ⟨_, rfl⟩, .inr (.inr ⟨_, rfl⟩), ⟨_, rfl⟩, ⟨_, rfl⟩,
    ⟨_, rfl⟩, .inl ⟨_, rfl⟩, ⟨_, rfl⟩, List.forall_mem_nil _⟩

/-- An action of the adapter is read back. -/
theorem survives_ofTyped (repr : Value → String) (action : Semantic.ModelAction) :
    (ofTyped action).Survives repr :=
  survives repr (ofTyped_wellTyped action)

end ModelAction

/-- {lit}`ModelObservation`. -/
structure ModelObservation where
  task : Value
  context : Value := .dict []
  inputs : Value := .dict []
  params : Value := .dict []
  schemaId : Value := .str .empty
  traceId : Value := .str .empty
  origin : Value := .str .empty
  confidence : Value := one
  deadlineMs : Value := .int 0
  metadata : Value := .dict []

namespace ModelObservation

/-- The fields that {lit}`to_dict` may write, in its order. -/
def fields (x : ModelObservation) : List (Field Utf8String Value) :=
  [always "task" x.task, whenTrue "context" x.context, whenTrue "inputs" x.inputs,
    whenTrue "params" x.params, whenTrue "schema_id" x.schemaId, whenTrue "trace_id" x.traceId,
    whenTrue "origin" x.origin, whenNot one "confidence" x.confidence,
    whenTrue "deadline_ms" x.deadlineMs, whenTrue "metadata" x.metadata]

/-- {lit}`to_dict`. -/
def toDict (x : ModelObservation) : Entries := build x.fields

/-- {lit}`from_dict`. -/
def fromDict (d : Entries) : ModelObservation where
  task := get d "task" (.str .empty)
  context := get d "context" (.dict [])
  inputs := get d "inputs" (.dict [])
  params := get d "params" (.dict [])
  schemaId := get d "schema_id" (.str .empty)
  traceId := get d "trace_id" (.str .empty)
  origin := get d "origin" (.str .empty)
  confidence := get d "confidence" one
  deadlineMs := get d "deadline_ms" (.int 0)
  metadata := get d "metadata" (.dict [])

/-- The fields. -/
def tuple (x : ModelObservation) : List Value :=
  [x.task, x.context, x.inputs, x.params, x.schemaId, x.traceId, x.origin, x.confidence,
    x.deadlineMs, x.metadata]

/-- {lit}`==`. -/
def Eq (x y : ModelObservation) : Prop := TupleEqual x.tuple y.tuple

/-- The fields are of the annotated types. -/
def WellTyped (x : ModelObservation) : Prop :=
  AllTyped [(.str, x.task), (.dict, x.context), (.dict, x.inputs), (.dict, x.params),
    (.str, x.schemaId), (.str, x.traceId), (.str, x.origin), (.float, x.confidence),
    (.int, x.deadlineMs), (.dict, x.metadata)]

/-- An observation is read back as it was. -/
def Survives (x : ModelObservation) : Prop := (fromDict x.toDict).Eq x

/-- No key is written twice. -/
theorem keys_nodup (x : ModelObservation) : (x.fields.map Field.key).Nodup := by
  change (["task", "context", "inputs", "params", "schema_id", "trace_id", "origin", "confidence",
    "deadline_ms", "metadata"].map keyOf).Nodup
  decide +kernel

/-- Every observation is read back. -/
theorem survives {x : ModelObservation} (h : x.WellTyped) : x.Survives := by
  have hkeys := x.keys_nodup
  simp only [WellTyped, AllTyped, List.forall_mem_cons] at h
  obtain ⟨-, hcontext, hinputs, hparams, hschema, htrace, horigin, -, hdeadline, hmetadata, -⟩ := h
  refine .cons ((kept_always _ _ _).read hkeys 0 rfl) ?_
  refine .cons ((kept_whenTrue _ rfl hcontext).read hkeys 1 rfl) ?_
  refine .cons ((kept_whenTrue _ rfl hinputs).read hkeys 2 rfl) ?_
  refine .cons ((kept_whenTrue _ rfl hparams).read hkeys 3 rfl) ?_
  refine .cons ((kept_whenTrue _ rfl hschema).read hkeys 4 rfl) ?_
  refine .cons ((kept_whenTrue _ rfl htrace).read hkeys 5 rfl) ?_
  refine .cons ((kept_whenTrue _ rfl horigin).read hkeys 6 rfl) ?_
  refine .cons ((kept_whenNot _ _ _).read hkeys 7 rfl) ?_
  refine .cons ((kept_whenTrue _ rfl hdeadline).read hkeys 8 rfl) ?_
  refine .cons ((kept_whenTrue _ rfl hmetadata).read hkeys 9 rfl) ?_
  exact .nil

end ModelObservation

/-- {lit}`ModelRequest`. -/
structure ModelRequest where
  targetModel : Value
  task : Value
  prompt : Value := .str .empty
  inputs : Value := .dict []
  params : Value := .dict []
  maxTokens : Value := .int 512
  temperature : Value := sevenTenths
  stop : Value := .list []
  stream : Value := .bool false
  grammar : Value := .null
  correlationId : Value := .str .empty
  deadlineMs : Value := .int 0
  metadata : Value := .dict []

namespace ModelRequest

/-- The fields that {lit}`to_dict` may write, in its order. -/
def fields (x : ModelRequest) : List (Field Utf8String Value) :=
  [always "target_model" x.targetModel, always "task" x.task, whenTrue "prompt" x.prompt,
    whenTrue "inputs" x.inputs, whenTrue "params" x.params,
    whenNot (.int 512) "max_tokens" x.maxTokens,
    whenNot sevenTenths "temperature" x.temperature, whenTrue "stop" x.stop,
    flag "stream" x.stream, whenTrue "grammar" x.grammar,
    whenTrue "correlation_id" x.correlationId, whenTrue "deadline_ms" x.deadlineMs,
    whenTrue "metadata" x.metadata]

/-- {lit}`to_dict`. -/
def toDict (x : ModelRequest) : Entries := build x.fields

/-- {lit}`from_dict`. -/
def fromDict (d : Entries) : ModelRequest where
  targetModel := get d "target_model" (.str .empty)
  task := get d "task" (.str .empty)
  prompt := get d "prompt" (.str .empty)
  inputs := get d "inputs" (.dict [])
  params := get d "params" (.dict [])
  maxTokens := get d "max_tokens" (.int 512)
  temperature := get d "temperature" sevenTenths
  stop := get d "stop" (.list [])
  stream := get d "stream" (.bool false)
  grammar := get d "grammar" .null
  correlationId := get d "correlation_id" (.str .empty)
  deadlineMs := get d "deadline_ms" (.int 0)
  metadata := get d "metadata" (.dict [])

/-- The fields. -/
def tuple (x : ModelRequest) : List Value :=
  [x.targetModel, x.task, x.prompt, x.inputs, x.params, x.maxTokens, x.temperature, x.stop,
    x.stream, x.grammar, x.correlationId, x.deadlineMs, x.metadata]

/-- {lit}`==`. -/
def Eq (x y : ModelRequest) : Prop := TupleEqual x.tuple y.tuple

/-- The fields are of the annotated types. -/
def WellTyped (x : ModelRequest) : Prop :=
  AllTyped [(.str, x.targetModel), (.str, x.task), (.str, x.prompt), (.dict, x.inputs),
    (.dict, x.params), (.int, x.maxTokens), (.float, x.temperature), (.listOfStr, x.stop),
    (.bool, x.stream), (.optionalStr, x.grammar), (.str, x.correlationId), (.int, x.deadlineMs),
    (.dict, x.metadata)]

/-- A request is read back as it was. -/
def Survives (x : ModelRequest) : Prop := (fromDict x.toDict).Eq x

/-- No key is written twice. -/
theorem keys_nodup (x : ModelRequest) : (x.fields.map Field.key).Nodup := by
  change (["target_model", "task", "prompt", "inputs", "params", "max_tokens", "temperature",
    "stop", "stream", "grammar", "correlation_id", "deadline_ms", "metadata"].map keyOf).Nodup
  decide +kernel

/-- A request is read back unless its grammar is an empty text. -/
theorem survives_iff {x : ModelRequest} (h : x.WellTyped) :
    x.Survives ↔ x.grammar ≠ .str .empty := by
  have hkeys := x.keys_nodup
  simp only [WellTyped, AllTyped, List.forall_mem_cons] at h
  obtain ⟨-, -, hprompt, hinputs, hparams, -, -, hstop, hstream, hgrammar, hcorrelation, hdeadline,
    hmetadata, -⟩ := h
  rw [← kept_optional_iff "grammar" hgrammar]
  constructor
  · intro hsurvives
    have hfield := (List.forall₂_iff_get.mp hsurvives).2 9 (by simp [tuple]) (by simp [tuple])
    exact (read_iff hkeys 9 rfl).mp hfield
  · intro hkept
    refine .cons ((kept_always _ _ _).read hkeys 0 rfl) ?_
    refine .cons ((kept_always _ _ _).read hkeys 1 rfl) ?_
    refine .cons ((kept_whenTrue _ rfl hprompt).read hkeys 2 rfl) ?_
    refine .cons ((kept_whenTrue _ rfl hinputs).read hkeys 3 rfl) ?_
    refine .cons ((kept_whenTrue _ rfl hparams).read hkeys 4 rfl) ?_
    refine .cons ((kept_whenNot _ _ _).read hkeys 5 rfl) ?_
    refine .cons ((kept_whenNot _ _ _).read hkeys 6 rfl) ?_
    refine .cons ((kept_whenTrue _ rfl hstop).read hkeys 7 rfl) ?_
    refine .cons ((kept_flag _ hstream).read hkeys 8 rfl) ?_
    refine .cons (hkept.read hkeys 9 rfl) ?_
    refine .cons ((kept_whenTrue _ rfl hcorrelation).read hkeys 10 rfl) ?_
    refine .cons ((kept_whenTrue _ rfl hdeadline).read hkeys 11 rfl) ?_
    refine .cons ((kept_whenTrue _ rfl hmetadata).read hkeys 12 rfl) ?_
    exact .nil

end ModelRequest

/-- {lit}`ModelResult`. -/
structure ModelResult where
  intent : ModelIntent
  output : Value := .null
  confidence : Value := one
  tokensUsed : Value := .int 0
  latencyMs : Value := .float 0
  error : Value := .null
  done : Value := .bool true
  metadata : Value := .dict []

namespace ModelResult

/-- {lit}`is_error`. -/
def isError (x : ModelResult) : Bool := x.error matches .null |> not

/-- The fields that {lit}`to_dict` may write, in its order. -/
def fields (x : ModelResult) : List (Field Utf8String Value) :=
  [always "intent" (.str x.intent.text), always "confidence" x.confidence, always "done" x.done,
    whenSome "output" x.output, whenTrue "tokens_used" x.tokensUsed,
    whenTrue "latency_ms" x.latencyMs, whenTrue "error" x.error, whenTrue "metadata" x.metadata]

/-- {lit}`to_dict`. -/
def toDict (x : ModelResult) : Entries := build x.fields

/-- {lit}`from_dict`: what is no intent becomes {lit}`RETURN_RESULT`. -/
def fromDict (d : Entries) : ModelResult where
  intent := (intentOf? (get d "intent" (.str .empty))).getD .returnResult
  output := get d "output" .null
  confidence := get d "confidence" one
  tokensUsed := get d "tokens_used" (.int 0)
  latencyMs := get d "latency_ms" (.float 0)
  error := get d "error" .null
  done := get d "done" (.bool true)
  metadata := get d "metadata" (.dict [])

/-- The fields but for the intent. -/
def tuple (x : ModelResult) : List Value :=
  [x.output, x.confidence, x.tokensUsed, x.latencyMs, x.error, x.done, x.metadata]

/-- {lit}`==`. -/
def Eq (x y : ModelResult) : Prop := x.intent = y.intent ∧ TupleEqual x.tuple y.tuple

/-- The fields are of the annotated types. -/
def WellTyped (x : ModelResult) : Prop :=
  AllTyped [(.any, x.output), (.float, x.confidence), (.int, x.tokensUsed), (.float, x.latencyMs),
    (.optionalStr, x.error), (.bool, x.done), (.dict, x.metadata)]

/-- A result is read back as it was, an error as an error. -/
def Survives (x : ModelResult) : Prop :=
  (fromDict x.toDict).Eq x ∧ (fromDict x.toDict).isError = x.isError

/-- No key is written twice. -/
theorem keys_nodup (x : ModelResult) : (x.fields.map Field.key).Nodup := by
  change (["intent", "confidence", "done", "output", "tokens_used", "latency_ms", "error",
    "metadata"].map keyOf).Nodup
  decide +kernel

/-- What is equal to a text, or to nothing, is that. -/
theorem eq_of_equal {a b : Value} (hb : HasType .optionalStr b) (h : Equal a b) : a = b := by
  rcases h with heq | hnumber
  · exact heq
  · unfold eqNumber at hnumber
    rcases hb with rfl | ⟨s, rfl⟩ <;> simp [number?] at hnumber

/-- A result is read back unless its error is an empty text. -/
theorem survives_iff {x : ModelResult} (h : x.WellTyped) :
    x.Survives ↔ x.error ≠ .str .empty := by
  have hkeys := x.keys_nodup
  simp only [WellTyped, AllTyped, List.forall_mem_cons] at h
  obtain ⟨-, -, htokens, hlatency, herror, -, hmetadata, -⟩ := h
  rw [← kept_optional_iff "error" herror]
  constructor
  · intro hsurvives
    have hfield := (List.forall₂_iff_get.mp hsurvives.1.2).2 4 (by simp [tuple]) (by simp [tuple])
    exact (read_iff hkeys 6 rfl).mp hfield
  · intro hkept
    have hintent : get x.toDict "intent" (.str .empty) = .str x.intent.text :=
      SparseDict.getD_build hkeys (List.mem_of_getElem? (i := 0) rfl) _
    have hread : (fromDict x.toDict).error = x.error :=
      eq_of_equal herror (hkept.read hkeys 6 rfl)
    refine ⟨⟨by simp only [fromDict, hintent, intentOf?_text, Option.getD_some], ?_⟩, ?_⟩
    · refine .cons ((kept_whenSome _ _).read hkeys 3 rfl) ?_
      refine .cons ((kept_always _ _ _).read hkeys 1 rfl) ?_
      refine .cons ((kept_whenTrue _ rfl htokens).read hkeys 4 rfl) ?_
      refine .cons ((kept_whenTrue _ rfl hlatency).read hkeys 5 rfl) ?_
      refine .cons (hkept.read hkeys 6 rfl) ?_
      refine .cons ((kept_always _ _ _).read hkeys 2 rfl) ?_
      refine .cons ((kept_whenTrue _ rfl hmetadata).read hkeys 7 rfl) ?_
      exact .nil
    · simp only [isError, hread]

/-- A result of the adapter, which is done, with its fields as values. -/
def ofTyped (result : Semantic.ModelResult) : ModelResult where
  intent := result.intent
  output := result.output
  confidence := .float result.confidence
  tokensUsed := .int result.tokensUsed
  latencyMs := .float result.latencyMs
  error := (result.error.map Value.str).getD .null
  metadata := .ofEntries result.metadata

/-- A result of the adapter is well typed. -/
theorem ofTyped_wellTyped (result : Semantic.ModelResult) : (ofTyped result).WellTyped := by
  have herror : HasType .optionalStr (ofTyped result).error := by
    simp only [ofTyped]
    cases result.error with
    | none => exact .inl rfl
    | some message => exact .inr ⟨message, rfl⟩
  simp only [WellTyped, AllTyped, List.forall_mem_cons]
  exact ⟨trivial, .inr (.inr ⟨_, rfl⟩), .inl ⟨_, rfl⟩, .inr (.inr ⟨_, rfl⟩), herror, ⟨_, rfl⟩,
    ⟨_, rfl⟩, List.forall_mem_nil _⟩

/-- A result of the adapter is read back unless its error is an empty text. -/
theorem survives_ofTyped_iff (result : Semantic.ModelResult) :
    (ofTyped result).Survives ↔ result.error ≠ some .empty := by
  rw [survives_iff (ofTyped_wellTyped result)]
  simp only [ofTyped]
  cases result.error with
  | none => simp
  | some message => simp

end ModelResult

/-! ## All four -/

/-- An instance of one of the types. -/
inductive Instance where
  | action (x : ModelAction)
  | observation (x : ModelObservation)
  | request (x : ModelRequest)
  | result (x : ModelResult)

namespace Instance

/-- Its fields are of the annotated types. -/
def WellTyped : Instance → Prop
  | action x => x.WellTyped
  | observation x => x.WellTyped
  | request x => x.WellTyped
  | result x => x.WellTyped

/-- It is read back from its dictionary form as it was. -/
def Survives (repr : Value → String) : Instance → Prop
  | action x => x.Survives repr
  | observation x => x.Survives
  | request x => x.Survives
  | result x => x.Survives

/-- Its grammar, or its error, is an empty text. -/
def HoldsEmptyText : Instance → Prop
  | request x => x.grammar = .str .empty
  | result x => x.error = .str .empty
  | _ => False

end Instance

/-- A well-typed instance is read back as it was exactly when it is no request whose
grammar is an empty text and no result whose error is one. -/
theorem instance_survives_iff (repr : Value → String) (x : Instance) (h : x.WellTyped) :
    x.Survives repr ↔ ¬ x.HoldsEmptyText := by
  cases x with
  | action x => exact iff_of_true (x.survives repr h) id
  | observation x => exact iff_of_true (x.survives h) id
  | request x => exact x.survives_iff h
  | result x => exact x.survives_iff h

/-- The result of a failure with a message. -/
def failed (message : Utf8String) : ModelResult :=
  .ofTyped {
    intent := .classify
    error := some message
    metadata_nodupKeys := noEntries_nodupKeys }

/-- A failure with a message stays one. -/
theorem survives_failed : (Instance.result (failed (.ofAscii "timeout"))).Survives fun _ => "" := by
  refine (instance_survives_iff (fun _ => "") (.result (failed (.ofAscii "timeout")))
    (ModelResult.ofTyped_wellTyped _)).mpr ?_
  intro hempty
  have hbytes := congrArg Utf8String.bytes (Value.str.inj hempty)
  revert hbytes
  decide +kernel

/-- A failure without a message becomes a success. -/
theorem failed_empty_lost :
    ¬ ∀ (repr : Value → String) (x : Instance), x.WellTyped → x.Survives repr := by
  intro h
  have hsurvives := h (fun _ => "") (.result (failed .empty)) (ModelResult.ofTyped_wellTyped _)
  have hlost : (ModelResult.fromDict (failed .empty).toDict).isError = false := by
    decide +kernel
  exact Bool.false_ne_true (hlost.symm.trans hsurvives.2)

end Aicl.Semantic.DictForm

import Aicl.Bin.EncodeErrors
import Aicl.Semantic.Mediation

/-!
# Actions and results that cannot be sent

The adapter validates an action before it builds a packet, and a result not at all.
The limits of the fields that the packet is written to are not among the things that
are validated: what does not fit ends in an exception of the interpreter.

Main results:

- Theorem {lit}`encodeItems_returnsIff`: when the symbols of values are written.
- Theorem {lit}`sending_endsCleanly_iff`: which valid actions and which results are
  sent or refused with an exception of the layer.
- Theorem {lit}`sending_raises_structError`: an action and a result that are neither.
-/

namespace Aicl.Semantic

open SemanticAdapter (responseMetadata zeroLibrary generateResult)
open Bin (Symbol Packet InRange MetadataFits StaysInPackage encodeItems encodeSymbol)

/-! ## Exceptions -/

/-- An exception of the layer or of the binary layer below. -/
def Raised.IsClean : Raised → Prop
  | .semanticError _ => True
  | .validationError _ => True
  | .bin e => e.IsPackage
  | .builtin _ => False

/-- A call returns, or raises an exception of the layer. -/
def EndsCleanly {α : Type} (x : SemResult α) : Prop := x.Sat (fun _ => True) Raised.IsClean

/-- A call returns, or raises an exception that is not one of the layer. -/
def OnlyEscapes {α : Type} (x : SemResult α) : Prop := x.Sat (fun _ => True) fun e => ¬ e.IsClean

section Calls

variable {α β : Type} {x : SemResult α}

/-- A call of the binary layer ends cleanly exactly when it stays in its package. -/
theorem endsCleanly_liftBin_iff (x : Bin.PyResult α) :
    EndsCleanly (liftBin x) ↔ StaysInPackage x := by
  cases x with
  | ok a => exact iff_of_true trivial (Bin.staysInPackage_ok a)
  | err e => exact Bin.staysInPackage_err_iff.symm
  | panic => exact iff_of_false id (by simp [StaysInPackage])

/-- {lit}`struct.error` is no exception of the layer. -/
theorem not_endsCleanly_structError : ¬ EndsCleanly (.err (.bin .structError) : SemResult α) := by
  intro h
  have ⟨_, _, heq⟩ := h
  cases heq

/-- Two calls that raise nothing of the layer. -/
theorem OnlyEscapes.bind {f : α → SemResult β} (hx : OnlyEscapes x)
    (hf : ∀ a, x = .ok a → OnlyEscapes (f a)) : OnlyEscapes (x >>= f) := by
  cases x with
  | ok a => exact hf a rfl
  | err e => exact hx
  | panic => exact hx.elim

/-- A certificate changes no exception. -/
theorem OnlyEscapes.attach {P : α → Prop} {hP : ∀ a, x = .ok a → P a} (hx : OnlyEscapes x) :
    OnlyEscapes (x.attach hP) := by
  cases x with
  | ok a => trivial
  | err e => exact hx
  | panic => exact hx.elim

/-- A call that raises nothing of the layer, and one after it. -/
theorem endsCleanly_bind_iff {f : α → SemResult β} (hx : OnlyEscapes x) :
    EndsCleanly (x >>= f) ↔ ∃ a, x = .ok a ∧ EndsCleanly (f a) := by
  cases x with
  | ok a => simp
  | err e => exact iff_of_false hx (by simp)
  | panic => exact hx.elim

end Calls

/-- What the standard library raises is an exception of the interpreter. -/
structure Library.RaisesBuiltins (lib : Library) : Prop where
  dumps : ∀ value, (lib.dumps value).Sat (fun _ => True) fun e => ∃ cls, e = .builtin cls
  dumpsCompact : ∀ value,
    (lib.dumpsCompact value).Sat (fun _ => True) fun e => ∃ cls, e = .builtin cls
  uuid : ∀ text, (lib.uuid text).Sat (fun _ => True) fun e => ∃ cls, e = .builtin cls

/-- A call of the standard library raises nothing of the layer. -/
theorem onlyEscapes_of_builtin {α : Type} {x : SemResult α}
    (h : x.Sat (fun _ => True) fun e => ∃ cls, e = .builtin cls) : OnlyEscapes x := by
  refine Outcome.Sat.mono h (fun _ => id) fun e he => ?_
  have ⟨cls, hcls⟩ := he
  rw [hcls]
  exact id

/-! ## Symbols -/

mutual

/-- A condition on a value, or on those that stand in it when it is a list. -/
def Value.AllLeaves (P : Value → Prop) : Value → Prop
  | .list items => AllLeavesIn P items
  | .null => P .null
  | .bool value => P (.bool value)
  | .int value => P (.int value)
  | .float value => P (.float value)
  | .str value => P (.str value)
  | .dict entries => P (.dict entries)
  | .object text truth => P (.object text truth)

/-- The same of each item of a list. -/
def AllLeavesIn (P : Value → Prop) : List Value → Prop
  | [] => True
  | item :: items => item.AllLeaves P ∧ AllLeavesIn P items

end

/-- An integer fits eight bytes. -/
def Value.IntFits : Value → Prop
  | .int value => InRange true 8 value
  | _ => True

/-- A dictionary has a text. -/
def Value.Dumped (lib : Library) : Value → Prop
  | .dict entries => ∃ text, lib.dumpsCompact (.dict entries) = .ok text
  | _ => True

/-- The values that an action has symbols for. -/
def ModelAction.writtenValues (action : ModelAction) : List Value :=
  ((Dict.get? textKey action.inputs).toList.filter Value.truthy ++
      (action.inputs.filter fun e => e.1 ≠ textKey).map Prod.snd) ++
    ((if action.params.isEmpty then [] else [.ofEntries action.params]) ++
      if action.result.isEmpty then [] else [.ofEntries action.result])

section Symbols

variable {lib : Library}

/-- The symbols of values in two parts. -/
theorem toBinarySymbols_append (values values' : List Value) :
    toBinarySymbols lib (values ++ values') =
      toBinarySymbols lib values >>= fun ss =>
        toBinarySymbols lib values' >>= fun ss' => .ok (ss ++ ss') := by
  induction values with
  | nil =>
      rw [List.nil_append, toBinarySymbols, Outcome.pure_eq, Outcome.ok_bind]
      cases toBinarySymbols lib values' <;> rfl
  | cons value values ih =>
      rw [List.cons_append, toBinarySymbols, ih, toBinarySymbols]
      simp only [Outcome.bind_assoc, Outcome.ok_bind, Outcome.pure_eq, List.cons_append]

/-- The symbol of one value. -/
theorem toBinarySymbols_singleton (value : Value) :
    toBinarySymbols lib [value] = toBinarySymbol lib value >>= fun s => .ok [s] := by
  rw [toBinarySymbols, toBinarySymbols]
  rfl

/-- The symbols of an action are those of its values. -/
theorem buildSymbols_eq (action : ModelAction) :
    buildSymbols lib action = toBinarySymbols lib action.writtenValues := by
  have htext : textSymbols lib action.inputs =
      toBinarySymbols lib ((Dict.get? textKey action.inputs).toList.filter Value.truthy) := by
    unfold textSymbols
    cases Dict.get? textKey action.inputs with
    | none => rw [Option.toList_none, List.filter_nil, toBinarySymbols]
    | some value =>
        rw [Option.toList_some, List.filter_singleton]
        dsimp only
        cases value.truthy with
        | false => rw [if_neg Bool.false_ne_true, cond_false, toBinarySymbols]
        | true =>
            rw [if_pos rfl, cond_true, toBinarySymbols_singleton]
            rfl
  have hdict : ∀ entries : Entries, dictSymbols lib entries =
      toBinarySymbols lib (if entries.isEmpty then [] else [.ofEntries entries]) := by
    intro entries
    unfold dictSymbols
    by_cases hempty : entries.isEmpty = true
    · rw [if_pos hempty, if_pos hempty, toBinarySymbols]
    · rw [if_neg hempty, if_neg hempty, toBinarySymbols_singleton]
      rfl
  unfold buildSymbols ModelAction.writtenValues
  rw [toBinarySymbols_append, toBinarySymbols_append, toBinarySymbols_append, ← htext, ← hdict,
    ← hdict]
  simp only [Outcome.bind_assoc, Outcome.ok_bind, Outcome.pure_eq, List.append_assoc]

mutual

/-- What the symbol of a value raises. -/
theorem toBinarySymbol_onlyEscapes (hlib : lib.RaisesBuiltins) :
    ∀ value : Value, OnlyEscapes (toBinarySymbol lib value)
  | .list items => by
      rw [toBinarySymbol]
      exact (toBinarySymbols_onlyEscapes hlib items).bind fun _ _ => trivial
  | .dict entries => by
      rw [toBinarySymbol]
      exact (onlyEscapes_of_builtin (hlib.dumpsCompact _)).bind fun _ _ => trivial
  | .null => trivial
  | .bool _ => trivial
  | .int _ => trivial
  | .float _ => trivial
  | .str _ => trivial
  | .object _ _ => trivial

/-- What the symbols of values raise. -/
theorem toBinarySymbols_onlyEscapes (hlib : lib.RaisesBuiltins) :
    ∀ values : List Value, OnlyEscapes (toBinarySymbols lib values)
  | [] => trivial
  | value :: values => by
      rw [toBinarySymbols]
      exact (toBinarySymbol_onlyEscapes hlib value).bind fun _ _ =>
        (toBinarySymbols_onlyEscapes hlib values).bind fun _ _ => trivial

end

mutual

/-- A value has a symbol exactly when its dictionaries have texts. -/
theorem exists_toBinarySymbol_iff : ∀ value : Value,
    (∃ s, toBinarySymbol lib value = .ok s) ↔ value.AllLeaves (Value.Dumped lib)
  | .list items => by
      rw [toBinarySymbol, Value.AllLeaves, ← exists_toBinarySymbols_iff items]
      simp [Outcome.bind_eq_ok_iff]
  | .dict entries => by
      rw [toBinarySymbol, Value.AllLeaves, Value.Dumped]
      simp [Outcome.bind_eq_ok_iff]
  | .null => iff_of_true ⟨_, rfl⟩ trivial
  | .bool _ => iff_of_true ⟨_, rfl⟩ trivial
  | .int _ => iff_of_true ⟨_, rfl⟩ trivial
  | .float _ => iff_of_true ⟨_, rfl⟩ trivial
  | .str _ => iff_of_true ⟨_, rfl⟩ trivial
  | .object _ _ => iff_of_true ⟨_, rfl⟩ trivial

/-- Values have symbols exactly when their dictionaries have texts. -/
theorem exists_toBinarySymbols_iff : ∀ values : List Value,
    (∃ ss, toBinarySymbols lib values = .ok ss) ↔ AllLeavesIn (Value.Dumped lib) values
  | [] => iff_of_true ⟨_, rfl⟩ trivial
  | value :: values => by
      rw [toBinarySymbols, AllLeavesIn, ← exists_toBinarySymbol_iff value,
        ← exists_toBinarySymbols_iff values]
      simp [Outcome.bind_eq_ok_iff]

end

mutual

/-- The symbol of a value is written exactly when its integers fit. -/
theorem encodeSymbol_returnsIff : ∀ (value : Value) {s : Symbol},
    toBinarySymbol lib value = .ok s →
      Bin.ReturnsIff (encodeSymbol s) (value.AllLeaves Value.IntFits)
  | .list items, s, h => by
      rw [toBinarySymbol] at h
      have ⟨ss, hss, h⟩ := Outcome.bind_eq_ok_iff.mp h
      cases h
      rw [encodeSymbol, Bin.encodeVarint_length, Outcome.ok_bind, Value.AllLeaves]
      exact (encodeItems_returnsIff items hss).map
  | .dict entries, s, h => by
      rw [toBinarySymbol] at h
      have ⟨text, _, h⟩ := Outcome.bind_eq_ok_iff.mp h
      cases h
      rw [encodeSymbol, Bin.encodeCounted_eq]
      exact .ok trivial
  | .int value, s, h => by
      cases h
      rw [encodeSymbol]
      exact (Bin.packInt_returnsIff _ _ _).map
  | .null, s, h => by
      cases h
      exact .ok trivial
  | .bool _, s, h => by
      cases h
      exact .ok trivial
  | .float _, s, h => by
      cases h
      exact .ok trivial
  | .str _, s, h => by
      cases h
      rw [encodeSymbol, Bin.encodeCounted_eq]
      exact .ok trivial
  | .object _ _, s, h => by
      cases h
      rw [encodeSymbol, Bin.encodeCounted_eq]
      exact .ok trivial

/-- The symbols of values are written exactly when their integers fit. -/
theorem encodeItems_returnsIff : ∀ (values : List Value) {ss : List Symbol},
    toBinarySymbols lib values = .ok ss →
      Bin.ReturnsIff (encodeItems ss) (AllLeavesIn Value.IntFits values)
  | [], ss, h => by
      cases h
      exact .ok trivial
  | value :: values, ss, h => by
      rw [toBinarySymbols] at h
      have ⟨s, hs, h⟩ := Outcome.bind_eq_ok_iff.mp h
      have ⟨ss', hss', h⟩ := Outcome.bind_eq_ok_iff.mp h
      cases h
      rw [encodeItems, AllLeavesIn]
      exact (encodeSymbol_returnsIff value hs).bind fun _ _ =>
        (encodeItems_returnsIff values hss').map

end

end Symbols

/-! ## Fields -/

/-- The number that a field is packed as: a {lit}`bool` is one. -/
def Value.IsNumber (value : Value) (n : Int) : Prop :=
  value = .int n ∨ ∃ b, value = .bool b ∧ n = if b then 1 else 0

/-- The name of the tool that an action calls. -/
def ModelAction.toolName (action : ModelAction) : Value :=
  (Dict.get? toolNameKey action.params).getD .null

/-- The parameters of the tool that an action calls. -/
def ModelAction.toolParameters (action : ModelAction) : Value :=
  (Dict.get? (.ofAscii "parameters") action.params).getD (.dict [])

/-- The task of the model that an action calls. -/
def ModelAction.task (action : ModelAction) : Value :=
  (Dict.get? (.ofAscii "task") action.params).getD (.str action.intent.text)

/-- The {lit}`timeout_ms` of an action. -/
def ModelAction.timeout (action : ModelAction) : Value :=
  (Dict.get? (.ofAscii "timeout_ms") action.params).getD (.int 5000)

/-- A tool call whose fields can be written. -/
structure ModelAction.ToolFits (lib : Library) (action : ModelAction) : Prop where
  name : ∃ name, action.toolName = .str name ∧ name.length ≤ 255
  parameters : ∃ text, lib.dumps action.toolParameters = .ok text ∧ text.length ≤ 255
  timeout : ∃ n, action.timeout.IsNumber n ∧ InRange false 4 n

/-- A model call whose fields can be written. -/
structure ModelAction.ModelFits (lib : Library) (action : ModelAction) : Prop where
  target : action.target.length ≤ 255
  task : ∃ task, action.task = .str task ∧ task.length ≤ 255
  parameters : ∃ text, lib.dumps (.ofEntries action.params) = .ok text ∧ text.length ≤ 255
  timeout : ∃ n, action.timeout.IsNumber n ∧ InRange false 4 n

/-- The metadata of a packet that are written: the keys and the texts of the values
keep their limits. -/
def EntriesFit (lib : Library) (base extra : Entries) : Prop :=
  ∀ e ∈ Dict.ofEntries (base ++ extra), e.1.length ≤ 255 ∧ (lib.text e.2).length ≤ 65535

/-- An action whose packet can be written. -/
structure ModelAction.Fits {σ : Type} (adapter : SemanticAdapter σ) (lib : Library)
    (action : ModelAction) : Prop where
  origin : adapter.origin.length ≤ 255 ∧ 0 ≤ adapter.identityType ∧ adapter.identityType < 256
  ints : AllLeavesIn Value.IntFits action.writtenValues
  dumped : AllLeavesIn (Value.Dumped lib) action.writtenValues
  correlationId : action.correlationId.length ≠ 0 → ∃ id, lib.uuid action.correlationId = .ok id
  tool : action.intent = .callTool → action.toolName.truthy = true → action.ToolFits lib
  model : action.intent = .callModel → action.target.length ≠ 0 → action.ModelFits lib
  metadata : EntriesFit lib [(semanticIntentKey, .str action.intent.text)] action.metadata

/-- A session identifier that is given and does not have sixteen bytes. -/
def SessionRefused (givenSession : Option Bytes) : Prop :=
  givenSession.getD [] ≠ [] ∧ (givenSession.getD []).length ≠ 16

/-- A result whose packet can be built and written: one with a session identifier that
is refused need not fit. -/
structure ModelResult.Fits {σ : Type} (adapter : SemanticAdapter σ) (lib : Library)
    (result : ModelResult) (correlationId : Utf8String) (givenSession : Option Bytes) : Prop where
  output : result.output.Dumped lib
  correlationId : correlationId.length ≠ 0 → ∃ id, lib.uuid correlationId = .ok id
  origin : ¬ SessionRefused givenSession →
    adapter.origin.length ≤ 255 ∧ 0 ≤ adapter.identityType ∧ adapter.identityType < 256
  error : ¬ SessionRefused givenSession → ∀ text ∈ result.error, text.length ≤ 255
  metadata : ¬ SessionRefused givenSession →
    EntriesFit lib (responseMetadata result) result.metadata

section Fields

variable {lib : Library} {action : ModelAction}

/-- A field that has to be a text. -/
theorem textField_eq_ok_iff {value : Value} {text : Utf8String} :
    textField value = .ok text ↔ value = .str text := by
  cases value <;> simp [textField]

/-- A field that has to be a text raises nothing of the layer. -/
theorem textField_onlyEscapes (value : Value) : OnlyEscapes (textField value) := by
  cases value with
  | str text => trivial
  | _ => exact id

/-- A field that has to be a number. -/
theorem intField_eq_ok_iff {value : Value} {n : Int} :
    intField value = .ok n ↔ value.IsNumber n := by
  cases value <;> simp [intField, Value.IsNumber, eq_comm]

/-- A field that has to be a number raises nothing of the layer. -/
theorem intField_onlyEscapes (value : Value) : OnlyEscapes (intField value) := by
  cases value with
  | int n => trivial
  | bool b => trivial
  | _ =>
      intro h
      have ⟨_, _, heq⟩ := h
      cases heq

/-- What building a tool invocation raises. -/
theorem toolInvocationOf_onlyEscapes (hlib : lib.RaisesBuiltins) (action : ModelAction) :
    OnlyEscapes (toolInvocationOf lib action) := by
  unfold toolInvocationOf
  dsimp only
  split
  · exact (textField_onlyEscapes _).bind fun _ _ =>
      (onlyEscapes_of_builtin (hlib.dumps _)).bind fun _ _ =>
        (intField_onlyEscapes _).bind fun _ _ => trivial
  · trivial

/-- What building a model invocation raises. -/
theorem modelInvocationOf_onlyEscapes (hlib : lib.RaisesBuiltins) (action : ModelAction) :
    OnlyEscapes (modelInvocationOf lib action) := by
  unfold modelInvocationOf
  split
  · exact (textField_onlyEscapes _).bind fun _ _ =>
      (onlyEscapes_of_builtin (hlib.dumps _)).bind fun _ _ =>
        (intField_onlyEscapes _).bind fun _ _ => trivial
  · trivial

/-- When the tool invocation of an action is built and can be written. -/
theorem toolInvocationOf_fits_iff :
    (∃ ti, toolInvocationOf lib action = .ok ti ∧ ∀ t ∈ ti, t.Fits) ↔
      (action.intent = .callTool → action.toolName.truthy = true → action.ToolFits lib) := by
  by_cases hcalls : action.intent = .callTool ∧ action.toolName.truthy = true
  · have hbuild : toolInvocationOf lib action = textField action.toolName >>= fun name =>
        lib.dumps action.toolParameters >>= fun text =>
          intField action.timeout >>= fun n => .ok (some ⟨name, text, n⟩) :=
      if_pos hcalls
    rw [hbuild]
    constructor
    · intro ⟨ti, hti, hfits⟩ _ _
      have ⟨name, hname, hti⟩ := Outcome.bind_eq_ok_iff.mp hti
      have ⟨text, htext, hti⟩ := Outcome.bind_eq_ok_iff.mp hti
      have ⟨n, hn, hti⟩ := Outcome.bind_eq_ok_iff.mp hti
      cases hti
      have hfits := hfits _ rfl
      exact ⟨⟨name, textField_eq_ok_iff.mp hname, hfits.toolName⟩,
        ⟨text, htext, hfits.parametersJson⟩, ⟨n, intField_eq_ok_iff.mp hn, hfits.timeoutMs⟩⟩
    · intro h
      have ⟨⟨name, hname, hnameLen⟩, ⟨text, htext, htextLen⟩, ⟨n, hn, hnRange⟩⟩ :=
        h hcalls.1 hcalls.2
      refine ⟨some ⟨name, text, n⟩, ?_, ?_⟩
      · rw [textField_eq_ok_iff.mpr hname, Outcome.ok_bind, htext, Outcome.ok_bind,
          intField_eq_ok_iff.mpr hn, Outcome.ok_bind]
      · intro t ht
        cases ht
        exact ⟨hnameLen, htextLen, hnRange⟩
  · have hbuild : toolInvocationOf lib action = .ok none := if_neg hcalls
    rw [hbuild]
    refine iff_of_true ⟨none, rfl, by simp⟩ fun hintent htruthy => ?_
    exact absurd ⟨hintent, htruthy⟩ hcalls

/-- When the model invocation of an action is built and can be written. -/
theorem modelInvocationOf_fits_iff :
    (∃ m, modelInvocationOf lib action = .ok m ∧ ∀ i ∈ m, i.Fits) ↔
      (action.intent = .callModel → action.target.length ≠ 0 → action.ModelFits lib) := by
  by_cases hcalls : action.intent = .callModel ∧ action.target.length ≠ 0
  · have hbuild : modelInvocationOf lib action = textField action.task >>= fun task =>
        lib.dumps (.ofEntries action.params) >>= fun text =>
          intField action.timeout >>= fun n => .ok (some ⟨action.target, task, text, n⟩) :=
      if_pos hcalls
    rw [hbuild]
    constructor
    · intro ⟨m, hm, hfits⟩ _ _
      have ⟨task, htask, hm⟩ := Outcome.bind_eq_ok_iff.mp hm
      have ⟨text, htext, hm⟩ := Outcome.bind_eq_ok_iff.mp hm
      have ⟨n, hn, hm⟩ := Outcome.bind_eq_ok_iff.mp hm
      cases hm
      have hfits := hfits _ rfl
      exact ⟨hfits.modelName, ⟨task, textField_eq_ok_iff.mp htask, hfits.task⟩,
        ⟨text, htext, hfits.parametersJson⟩, ⟨n, intField_eq_ok_iff.mp hn, hfits.timeoutMs⟩⟩
    · intro h
      have ⟨htarget, ⟨task, htask, htaskLen⟩, ⟨text, htext, htextLen⟩, ⟨n, hn, hnRange⟩⟩ :=
        h hcalls.1 hcalls.2
      refine ⟨some ⟨action.target, task, text, n⟩, ?_, ?_⟩
      · rw [textField_eq_ok_iff.mpr htask, Outcome.ok_bind, htext, Outcome.ok_bind,
          intField_eq_ok_iff.mpr hn, Outcome.ok_bind]
      · intro i hi
        cases hi
        exact ⟨htarget, htaskLen, htextLen, hnRange⟩
  · have hbuild : modelInvocationOf lib action = .ok none := if_neg hcalls
    rw [hbuild]
    refine iff_of_true ⟨none, rfl, by simp⟩ fun hintent htarget => ?_
    exact absurd ⟨hintent, htarget⟩ hcalls

/-- What reading a correlation identifier raises. -/
theorem correlationBytes_onlyEscapes (hlib : lib.RaisesBuiltins) (correlationId : Utf8String) :
    OnlyEscapes (correlationBytes lib correlationId) := by
  unfold correlationBytes
  split
  · trivial
  · exact onlyEscapes_of_builtin (hlib.uuid correlationId)

/-- When a correlation identifier is read. -/
theorem exists_correlationBytes_iff {correlationId : Utf8String} :
    (∃ id, correlationBytes lib correlationId = .ok id) ↔
      (correlationId.length ≠ 0 → ∃ id, lib.uuid correlationId = .ok id) := by
  unfold correlationBytes
  by_cases hempty : correlationId.length = 0
  · rw [if_pos hempty]
    exact iff_of_true ⟨_, rfl⟩ fun h => absurd hempty h
  · rw [if_neg hempty]
    exact ⟨fun h _ => h, fun h => h hempty⟩

/-- Metadata of a packet that can be written. -/
theorem metadataFits_metadataOf_iff {base extra : Entries} :
    MetadataFits (metadataOf lib base extra) ↔ EntriesFit lib base extra :=
  List.forall_mem_map

end Fields

/-! ## Actions -/

/-- An adapter with the gate that allows everything. -/
def allowAllAdapter (origin : Utf8String) (identityType : Int) : SemanticAdapter Unit where
  origin
  gate := allowAllGate
  identityType

section Actions

variable {σ : Type} {self : SemanticAdapter σ} {crc32 : Bytes → UInt32} {lib : Library}
  {sessionId messageId : UuidBytes} {action : ModelAction} {checksum : Bool}

/-- The identity of an adapter is written when its name and its type are in the ranges
of their fields. -/
theorem identity_fits_iff :
    self.identity.Fits ↔ self.origin.length ≤ 255 ∧ 0 ≤ self.identityType ∧ self.identityType < 256 := by
  constructor
  · intro h
    exact ⟨h.name, h.idType⟩
  · intro ⟨hname, htype⟩
    have hinstance : InRange false 4 0 := by decide
    exact ⟨hname, htype, hinstance⟩

/-- What building the packet of an action raises. -/
theorem buildPacket_onlyEscapes (hlib : lib.RaisesBuiltins) :
    OnlyEscapes (self.buildPacket lib sessionId messageId action) := by
  unfold SemanticAdapter.buildPacket
  refine OnlyEscapes.bind (OnlyEscapes.attach ?_) fun _ _ => ?_
  · rw [buildSymbols_eq]
    exact toBinarySymbols_onlyEscapes hlib _
  refine (correlationBytes_onlyEscapes hlib _).bind fun _ _ => ?_
  refine (toolInvocationOf_onlyEscapes hlib _).bind fun _ _ => ?_
  exact (modelInvocationOf_onlyEscapes hlib _).bind fun _ _ => trivial

/-- The packet of an action is built and can be written exactly when the action fits. -/
theorem buildPacket_fits_iff :
    (∃ p, self.buildPacket lib sessionId messageId action = .ok p ∧
      p.FieldsFit ∧ AllLeavesIn Value.IntFits action.writtenValues) ↔ action.Fits self lib := by
  constructor
  · intro ⟨p, hp, hfits, hints⟩
    have ⟨symbols, hsymbols, hp⟩ := Outcome.bind_eq_ok_iff.mp hp
    have ⟨id, hid, hp⟩ := Outcome.bind_eq_ok_iff.mp hp
    have ⟨tool, htool, hp⟩ := Outcome.bind_eq_ok_iff.mp hp
    have ⟨model, hmodel, hp⟩ := Outcome.bind_eq_ok_iff.mp hp
    cases hp
    have hsymbols := Outcome.attach_eq_ok_iff.mp hsymbols
    rw [buildSymbols_eq] at hsymbols
    exact ⟨identity_fits_iff.mp (hfits.origin _ rfl), hints,
      (exists_toBinarySymbols_iff _).mp ⟨_, hsymbols⟩, exists_correlationBytes_iff.mp ⟨id, hid⟩,
      toolInvocationOf_fits_iff.mp ⟨tool, htool, hfits.toolInvocation⟩,
      modelInvocationOf_fits_iff.mp ⟨model, hmodel, hfits.modelInvocation⟩,
      metadataFits_metadataOf_iff.mp hfits.metadata⟩
  · intro h
    have ⟨symbols, hsymbols⟩ := (exists_toBinarySymbols_iff _).mpr h.dumped
    rw [← buildSymbols_eq] at hsymbols
    have ⟨id, hid⟩ := exists_correlationBytes_iff.mpr h.correlationId
    have ⟨tool, htool, htoolFits⟩ := toolInvocationOf_fits_iff.mpr h.tool
    have ⟨model, hmodel, hmodelFits⟩ := modelInvocationOf_fits_iff.mpr h.model
    have hattach : (buildSymbols lib action).attach (fun _ h => buildSymbols_wellFormed h) =
        .ok ⟨symbols, buildSymbols_wellFormed hsymbols⟩ :=
      Outcome.attach_eq_ok_iff.mpr hsymbols
    unfold SemanticAdapter.buildPacket
    rw [hattach, Outcome.ok_bind, hid, Outcome.ok_bind, htool, Outcome.ok_bind, hmodel,
      Outcome.ok_bind]
    have hpriority : InRange false 1 128 := by decide
    refine ⟨_, rfl, ⟨?_, hpriority, ?_, ?_, ?_, ?_, ?_, ?_, hmodelFits, htoolFits, ?_⟩, h.ints⟩
    · intro o ho
      cases ho
      exact identity_fits_iff.mpr h.origin
    · simp
    · simp
    · simp
    · simp
    · simp
    · simp
    · exact metadataFits_metadataOf_iff.mpr h.metadata

/-- Encoding the packet of an action stays in the package exactly when the packet can be
written. -/
theorem encode_buildPacket_iff (hdeadline : 0 ≤ action.deadlineMs) {p : Packet}
    (h : self.buildPacket lib sessionId messageId action = .ok p) :
    StaysInPackage (Bin.encode crc32 p checksum) ↔
      p.FieldsFit ∧ AllLeavesIn Value.IntFits action.writtenValues := by
  have ⟨symbols, hsymbols, hp⟩ := Outcome.bind_eq_ok_iff.mp h
  have ⟨id, _, hp⟩ := Outcome.bind_eq_ok_iff.mp hp
  have ⟨tool, _, hp⟩ := Outcome.bind_eq_ok_iff.mp hp
  have ⟨model, _, hp⟩ := Outcome.bind_eq_ok_iff.mp hp
  have hsymbols := Outcome.attach_eq_ok_iff.mp hsymbols
  rw [buildSymbols_eq] at hsymbols
  cases hp
  apply Bin.encode_staysInPackage_iff crc32
  · exact Bin.buildPayload_returnsIff rfl (encodeItems_returnsIff _ hsymbols)
  · exact List.mem_singleton_self Bin.currentVersion
  · simp only [Bin.wireFlags, ModelAction.flags]
    generalize action.stream = stream
    generalize action.cancel = cancel
    cases checksum <;> cases stream <;> cases cancel <;> decide
  · exact hdeadline

/-- A valid action is sent or refused with an exception of the layer exactly when it
fits. -/
theorem actionToBytes_endsCleanly_iff (hlib : lib.RaisesBuiltins) (origin : Utf8String)
    (identityType : Int) (h : action.validate lib = []) :
    EndsCleanly ((allowAllAdapter origin identityType).actionToBytes crc32 lib sessionId messageId
      action checksum ()).1 ↔ action.Fits (allowAllAdapter origin identityType) lib := by
  have hdeadline := deadlineMs_nonneg h
  have hbytes : ((allowAllAdapter origin identityType).actionToBytes crc32 lib sessionId messageId
      action checksum ()).1 =
        (allowAllAdapter origin identityType).buildPacket lib sessionId messageId action >>= fun p =>
          liftBin (Bin.encode crc32 p checksum) := by
    unfold SemanticAdapter.actionToBytes
    rw [SemanticAdapter.actionToPacket_of_valid h]
    rfl
  rw [hbytes, endsCleanly_bind_iff (buildPacket_onlyEscapes hlib), ← buildPacket_fits_iff]
  constructor
  · intro ⟨p, hp, hclean⟩
    exact ⟨p, hp, (encode_buildPacket_iff hdeadline hp).mp ((endsCleanly_liftBin_iff _).mp hclean)⟩
  · intro ⟨p, hp, hfits⟩
    exact ⟨p, hp, (endsCleanly_liftBin_iff _).mpr ((encode_buildPacket_iff hdeadline hp).mpr hfits)⟩

end Actions

/-! ## Results -/

section Results

variable {σ : Type} {self : SemanticAdapter σ} {crc32 : Bytes → UInt32} {lib : Library}
  {sessionId messageId : UuidBytes} {result : ModelResult} {correlationId : Utf8String}
  {givenSession : Option Bytes}

/-- What the symbols of an output raise. -/
theorem outputSymbols_onlyEscapes (hlib : lib.RaisesBuiltins) (output : Value) :
    OnlyEscapes (SemanticAdapter.outputSymbols lib output) := by
  cases output with
  | dict entries => exact (toBinarySymbol_onlyEscapes hlib _).bind fun _ _ => trivial
  | _ => trivial

/-- An output has symbols exactly when it has a text or is no dictionary. -/
theorem exists_outputSymbols_iff (output : Value) :
    (∃ ss, SemanticAdapter.outputSymbols lib output = .ok ss) ↔ output.Dumped lib := by
  cases output with
  | dict entries =>
      have hsymbol := @exists_toBinarySymbol_iff lib (.dict entries)
      rw [Value.AllLeaves] at hsymbol
      rw [← hsymbol, SemanticAdapter.outputSymbols]
      simp [Outcome.bind_eq_ok_iff]
  | _ => exact iff_of_true ⟨_, rfl⟩ trivial

/-- A string is written. -/
theorem encodeSymbol_string (text : Utf8String) : ∃ b, encodeSymbol (.string text) = .ok b := by
  rw [encodeSymbol, Bin.encodeCounted_eq]
  exact ⟨_, rfl⟩

/-- The symbols of an output are strings. -/
theorem outputSymbols_strings {output : Value} {ss : List Symbol}
    (h : SemanticAdapter.outputSymbols lib output = .ok ss) : ∀ s ∈ ss, ∃ text, s = .string text := by
  cases output with
  | null =>
      cases h
      simp
  | dict entries =>
      have ⟨s, hs, h⟩ := Outcome.bind_eq_ok_iff.mp h
      cases h
      rw [toBinarySymbol] at hs
      have ⟨text, _, hs⟩ := Outcome.bind_eq_ok_iff.mp hs
      cases hs
      simp
  | _ =>
      cases h
      simp

/-- The symbols of an error are strings. -/
theorem errorSymbols_strings (error : Option Utf8String) :
    ∀ s ∈ SemanticAdapter.errorSymbols error, ∃ text, s = .string text := by
  unfold SemanticAdapter.errorSymbols
  split
  · split <;> simp
  · simp

/-- A session identifier is refused with an exception of the package. -/
theorem sessionBytes_of_refused (h : SessionRefused givenSession) :
    SemanticAdapter.sessionBytes sessionId givenSession =
      .err (.bin (.bin .encodeError "session_id must be 16 bytes")) := by
  unfold SemanticAdapter.sessionBytes
  dsimp only
  rw [if_neg (by simpa using h.1), dif_neg h.2]

/-- A session identifier that is not refused. -/
theorem sessionBytes_of_not_refused (h : ¬ SessionRefused givenSession) :
    ∃ id, SemanticAdapter.sessionBytes sessionId givenSession = .ok id := by
  unfold SemanticAdapter.sessionBytes
  dsimp only
  by_cases hempty : givenSession.getD [] = []
  · rw [if_pos (by simpa using hempty)]
    exact ⟨_, rfl⟩
  · have hlength : (givenSession.getD []).length = 16 := by
      by_contra hne
      exact h ⟨hempty, hne⟩
    rw [if_neg (by simpa using hempty), dif_pos hlength]
    exact ⟨_, rfl⟩

/-- The error information of a result is written when the error fits. -/
theorem errorInfo_fits_iff {error : Option Utf8String} :
    (∀ e ∈ (error.filter fun text => decide (text.length ≠ 0)).map fun text =>
      ({ errorCode := 0x0001, severity := 1, message := text } : Bin.ErrorInfo), e.Fits) ↔
      ∀ text ∈ error, text.length ≤ 255 := by
  have hnumber : InRange false 2 1 := by decide
  cases error with
  | none => simp
  | some text =>
      by_cases hempty : text.length = 0
      · exact iff_of_true (by simp [Option.filter, hempty]) (by simp [hempty])
      · rw [Option.filter_some_pos (by simpa using hempty)]
        constructor
        · intro h text' htext
          cases htext
          exact (h _ rfl).message
        · intro h e he
          cases he
          exact ⟨hnumber, hnumber, h text rfl, Nat.zero_le _⟩

/-- Encoding the packet of a result stays in the package exactly when the fields of the
packet fit. -/
theorem encode_resultPacket_iff {p : Packet}
    (h : self.resultPacket lib sessionId messageId result correlationId givenSession = .ok p) :
    StaysInPackage (Bin.encode crc32 p false) ↔
      (self.origin.length ≤ 255 ∧ 0 ≤ self.identityType ∧ self.identityType < 256) ∧
        (∀ text ∈ result.error, text.length ≤ 255) ∧
          EntriesFit lib (responseMetadata result) result.metadata := by
  have ⟨output, houtput, hp⟩ := Outcome.bind_eq_ok_iff.mp h
  have ⟨id, _, hp⟩ := Outcome.bind_eq_ok_iff.mp hp
  have ⟨session, _, hp⟩ := Outcome.bind_eq_ok_iff.mp hp
  have houtput := Outcome.attach_eq_ok_iff.mp houtput
  cases hp
  have hflags : InRange false 2 2 := by decide
  have hpriority : InRange false 1 128 := by decide
  have hsymbols : Bin.ReturnsIff
      (encodeItems (output.val ++ SemanticAdapter.errorSymbols result.error)) True := by
    apply Bin.encodeItems_returnsIff_of_forall
    intro s hs
    rcases List.mem_append.mp hs with hs | hs
    · have ⟨text, htext⟩ := outputSymbols_strings houtput s hs
      rw [htext]
      exact encodeSymbol_string text
    · have ⟨text, htext⟩ := errorSymbols_strings result.error s hs
      rw [htext]
      exact encodeSymbol_string text
  apply Iff.trans
  · apply Bin.encode_staysInPackage_iff crc32
    · exact Bin.buildPayload_returnsIff rfl hsymbols
    · exact List.mem_singleton_self Bin.currentVersion
    · exact hflags
    · exact le_refl 0
  rw [and_iff_left trivial, ← identity_fits_iff, ← errorInfo_fits_iff,
    ← metadataFits_metadataOf_iff]
  constructor
  · intro h
    exact ⟨h.origin _ rfl, h.errorInfo, h.metadata⟩
  · intro ⟨horigin, herror, hmetadata⟩
    refine ⟨?_, hpriority, ?_, ?_, ?_, ?_, ?_, herror, ?_, ?_, hmetadata⟩
    · intro o ho
      cases ho
      exact horigin
    all_goals simp

/-- The packet of a result is built exactly when its output and its correlation
identifier are read, unless the session identifier is refused. -/
theorem exists_resultPacket_iff (h : ¬ SessionRefused givenSession) :
    (∃ p, self.resultPacket lib sessionId messageId result correlationId givenSession = .ok p) ↔
      result.output.Dumped lib ∧
        (correlationId.length ≠ 0 → ∃ id, lib.uuid correlationId = .ok id) := by
  rw [← exists_outputSymbols_iff, ← exists_correlationBytes_iff]
  constructor
  · intro ⟨p, hp⟩
    have ⟨output, houtput, hp⟩ := Outcome.bind_eq_ok_iff.mp hp
    have ⟨id, hid, _⟩ := Outcome.bind_eq_ok_iff.mp hp
    exact ⟨⟨_, Outcome.attach_eq_ok_iff.mp houtput⟩, ⟨id, hid⟩⟩
  · intro ⟨⟨output, houtput⟩, ⟨id, hid⟩⟩
    have ⟨session, hsession⟩ := @sessionBytes_of_not_refused sessionId givenSession h
    have hattach : (SemanticAdapter.outputSymbols lib result.output).attach
        (fun _ h => SemanticAdapter.outputSymbols_wellFormed h) =
          .ok ⟨output, SemanticAdapter.outputSymbols_wellFormed houtput⟩ :=
      Outcome.attach_eq_ok_iff.mpr houtput
    unfold SemanticAdapter.resultPacket
    rw [hattach, Outcome.ok_bind, hid, Outcome.ok_bind, hsession, Outcome.ok_bind]
    exact ⟨_, rfl⟩

/-- A result is sent or refused with an exception of the layer exactly when it fits. -/
theorem resultToBytes_endsCleanly_iff {σ : Type} (self : SemanticAdapter σ) (g : σ)
    (hlib : lib.RaisesBuiltins) :
    EndsCleanly (self.resultToBytes crc32 lib sessionId messageId result correlationId
      givenSession g).1 ↔ result.Fits self lib correlationId givenSession := by
  have houtput : OnlyEscapes ((SemanticAdapter.outputSymbols lib result.output).attach
      fun _ h => SemanticAdapter.outputSymbols_wellFormed h) :=
    (outputSymbols_onlyEscapes hlib _).attach
  have hcorrelation := correlationBytes_onlyEscapes hlib correlationId
  by_cases hsession : SessionRefused givenSession
  · -- The exception of the session identifier comes after the output and the
    -- correlation identifier were read, and before anything is packed.
    have hpacket : self.resultPacket lib sessionId messageId result correlationId givenSession =
        (SemanticAdapter.outputSymbols lib result.output).attach
            (fun _ h => SemanticAdapter.outputSymbols_wellFormed h) >>= fun _ =>
          correlationBytes lib correlationId >>= fun _ =>
            .err (.bin (.bin .encodeError "session_id must be 16 bytes")) := by
      unfold SemanticAdapter.resultPacket
      rw [sessionBytes_of_refused hsession]
      rfl
    unfold SemanticAdapter.resultToBytes
    dsimp only
    rw [hpacket, Outcome.bind_assoc, endsCleanly_bind_iff houtput]
    constructor
    · intro ⟨output, hok, hclean⟩
      rw [Outcome.bind_assoc, endsCleanly_bind_iff hcorrelation] at hclean
      have ⟨id, hid, _⟩ := hclean
      have hdumped := (exists_outputSymbols_iff _).mp ⟨_, Outcome.attach_eq_ok_iff.mp hok⟩
      exact ⟨hdumped, exists_correlationBytes_iff.mp ⟨id, hid⟩, absurd hsession,
        absurd hsession, absurd hsession⟩
    · intro h
      have ⟨output, houtput⟩ := (exists_outputSymbols_iff _).mpr h.output
      have ⟨id, hid⟩ := exists_correlationBytes_iff.mpr h.correlationId
      refine ⟨⟨output, SemanticAdapter.outputSymbols_wellFormed houtput⟩,
        Outcome.attach_eq_ok_iff.mpr houtput, ?_⟩
      rw [Outcome.bind_assoc, endsCleanly_bind_iff hcorrelation]
      exact ⟨id, hid, .encodeError, _, rfl⟩
  · have hpacket : OnlyEscapes
        (self.resultPacket lib sessionId messageId result correlationId givenSession) := by
      have ⟨session, hok⟩ := @sessionBytes_of_not_refused sessionId givenSession hsession
      refine houtput.bind fun _ _ => hcorrelation.bind fun _ _ => ?_
      rw [hok]
      trivial
    refine (endsCleanly_bind_iff hpacket).trans ?_
    constructor
    · intro ⟨p, hp, hclean⟩
      have ⟨horigin, herror, hmetadata⟩ :=
        (encode_resultPacket_iff hp).mp ((endsCleanly_liftBin_iff _).mp hclean)
      have ⟨hdumped, hid⟩ := (exists_resultPacket_iff hsession).mp ⟨p, hp⟩
      exact ⟨hdumped, hid, fun _ => horigin, fun _ => herror, fun _ => hmetadata⟩
    · intro h
      have ⟨p, hp⟩ := (@exists_resultPacket_iff σ self lib sessionId messageId result correlationId
        givenSession hsession).mpr ⟨h.output, h.correlationId⟩
      refine ⟨p, hp, (endsCleanly_liftBin_iff _).mpr ((encode_resultPacket_iff hp).mpr ?_)⟩
      exact ⟨h.origin hsession, h.error hsession, h.metadata hsession⟩

end Results

/-! ## What is sent and what is not -/

/-- Behind the gate that allows everything, a valid action and a result are sent or
refused with an exception of the layer exactly when they fit. -/
theorem sending_endsCleanly_iff (crc32 : Bytes → UInt32) {lib : Library}
    (hlib : lib.RaisesBuiltins) (origin : Utf8String) (identityType : Int)
    (sessionId messageId : UuidBytes) :
    (∀ (action : ModelAction) (checksum : Bool), action.validate lib = [] →
      (EndsCleanly ((allowAllAdapter origin identityType).actionToBytes crc32 lib sessionId
        messageId action checksum ()).1 ↔ action.Fits (allowAllAdapter origin identityType) lib)) ∧
    ∀ (result : ModelResult) (correlationId : Utf8String) (givenSession : Option Bytes),
      EndsCleanly ((allowAllAdapter origin identityType).resultToBytes crc32 lib sessionId
        messageId result correlationId givenSession ()).1 ↔
        result.Fits (allowAllAdapter origin identityType) lib correlationId givenSession :=
  ⟨fun _ _ h => actionToBytes_endsCleanly_iff hlib origin identityType h,
    fun _ _ _ => resultToBytes_endsCleanly_iff _ () hlib⟩

/-- The adapter of a model with its default origin. -/
def modelAdapter : SemanticAdapter Unit := allowAllAdapter (.ofAscii "model") 0x04

/-- A request to generate from one text fits, and its result does. -/
theorem sending_endsCleanly_generate :
    generateAction.Fits modelAdapter zeroLibrary ∧
      generateResult.Fits modelAdapter zeroLibrary .empty none := by
  have hlib : zeroLibrary.RaisesBuiltins :=
    ⟨fun _ => ⟨_, rfl⟩, fun _ => ⟨_, rfl⟩, fun _ => ⟨_, rfl⟩⟩
  have ⟨hactions, hresults⟩ := sending_endsCleanly_iff Crc32.ieee hlib (.ofAscii "model") 0x04
    zeroUuid zeroUuid
  have hsent : (modelAdapter.actionToBytes Crc32.ieee zeroLibrary zeroUuid zeroUuid
      generateAction false ()).1.isOk = true := by
    decide +kernel
  have hanswered : (modelAdapter.resultToBytes Crc32.ieee zeroLibrary zeroUuid zeroUuid
      generateResult .empty none ()).1.isOk = true := by
    decide +kernel
  have ⟨_, hsent⟩ := Outcome.isOk_iff.mp hsent
  have ⟨_, hanswered⟩ := Outcome.isOk_iff.mp hanswered
  constructor
  · apply (hactions generateAction false (by decide +kernel)).mp
    unfold modelAdapter at hsent
    rw [hsent]
    trivial
  · apply (hresults generateResult .empty none).mp
    unfold modelAdapter at hanswered
    rw [hanswered]
    trivial

/-- A request to generate with an integer of 64 bits among its inputs. -/
def wideAction : ModelAction where
  intent := .generate
  inputs := [(textKey, .int (2 ^ 63))]
  inputs_nodupKeys := List.nodup_singleton textKey
  params_nodupKeys := noEntries_nodupKeys
  result_nodupKeys := noEntries_nodupKeys
  metadata_nodupKeys := noEntries_nodupKeys

/-- A result with an error of 256 bytes. -/
def longErrorResult : ModelResult where
  intent := .generate
  error := some ⟨List.replicate 256 0x61, by decide +kernel⟩
  metadata_nodupKeys := noEntries_nodupKeys

/-- Both are not sent and raise {lit}`struct.error`. -/
theorem sending_raises_structError :
    wideAction.validate zeroLibrary = [] ∧
      (modelAdapter.actionToBytes Crc32.ieee zeroLibrary zeroUuid zeroUuid wideAction false ()).1 =
        .err (.bin .structError) ∧
      (modelAdapter.resultToBytes Crc32.ieee zeroLibrary zeroUuid zeroUuid longErrorResult .empty
        none ()).1 = .err (.bin .structError) ∧
      ¬ ((∀ action : ModelAction, action.validate zeroLibrary = [] →
          EndsCleanly (modelAdapter.actionToBytes Crc32.ieee zeroLibrary zeroUuid zeroUuid action
            false ()).1) ∧
        ∀ result : ModelResult, EndsCleanly (modelAdapter.resultToBytes Crc32.ieee zeroLibrary
          zeroUuid zeroUuid result .empty none ()).1) := by
  have hvalid : wideAction.validate zeroLibrary = [] := by decide +kernel
  have haction : (modelAdapter.actionToBytes Crc32.ieee zeroLibrary zeroUuid zeroUuid wideAction
      false ()).1 = .err (.bin .structError) :=
    Outcome.error?_eq_some_iff.mp (by decide +kernel)
  have hresult : (modelAdapter.resultToBytes Crc32.ieee zeroLibrary zeroUuid zeroUuid
      longErrorResult .empty none ()).1 = .err (.bin .structError) :=
    Outcome.error?_eq_some_iff.mp (by decide +kernel)
  refine ⟨hvalid, haction, hresult, ?_⟩
  intro h
  have hends : ∀ result, (modelAdapter.resultToBytes Crc32.ieee zeroLibrary zeroUuid zeroUuid
      result .empty none ()).1 ≠ .err (.bin .structError) := by
    intro result heq
    have hclean := h.2 result
    rw [heq] at hclean
    exact not_endsCleanly_structError hclean
  exact hends longErrorResult hresult

end Aicl.Semantic

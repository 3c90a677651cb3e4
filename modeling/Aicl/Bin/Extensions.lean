import Aicl.Bin.RichFields
import Aicl.Bin.RoundTrip

/-!
# Rich fields on the wire

Every rich field of a packet has a tag of its own, so that a view finds under each
tag exactly what one step of the encoder wrote, unless the packet has vendor
symbols of its own.

Main results:

- Theorem {lit}`valuesOf_appendAll`: under a tag stand the values of its step.
- Theorem {lit}`Shows.step_eq`: what a view has under the tag of a step.
- Theorems {lit}`readOr_extOption` and {lit}`readEach_extEach`: a record is read
  back when its layout is.
-/

namespace Aicl.Bin

/-! ## Values under a tag -/

/-- A step writes vendor operands with one tag. -/
def Under (tag : UInt8) (step : PyResult (List Symbol)) : Prop :=
  ∀ part, step = .ok part → ∃ raws : List Bytes, part = raws.map (Symbol.other tag)

/-- A step that writes nothing. -/
theorem under_nil (tag : UInt8) : Under tag (pure []) := by
  intro part h
  cases h
  exact ⟨[], rfl⟩

/-- A field under a tag. -/
theorem under_extIf (tag : UInt8) (c : Bool) (raw : PyResult Bytes) : Under tag (extIf c tag raw) := by
  unfold extIf
  split
  next =>
    intro part h
    obtain ⟨data, _, h⟩ := Outcome.bind_eq_ok_iff.mp h
    cases h
    exact ⟨[data], rfl⟩
  next => exact under_nil tag

/-- A byte string that may be missing. -/
theorem under_extBytes (tag : UInt8) (value : Option Bytes) : Under tag (extBytes tag value) :=
  under_extIf tag _ _

/-- A field that may be missing. -/
theorem under_extOption {α : Type} (tag : UInt8) (toBytes : α → PyResult Bytes)
    (field : Option α) : Under tag (extOption tag toBytes field) := by
  cases field with
  | none => exact under_nil tag
  | some a => exact under_extIf tag true (toBytes a)

/-- A list of fields. -/
theorem under_extEach {α : Type} (tag : UInt8) (toBytes : α → PyResult Bytes) (fields : List α) :
    Under tag (extEach tag toBytes fields) := by
  induction fields with
  | nil => exact under_nil tag
  | cons a fields ih =>
      intro part h
      obtain ⟨first, hfirst, h⟩ := Outcome.bind_eq_ok_iff.mp h
      obtain ⟨rest, hrest, h⟩ := Outcome.bind_eq_ok_iff.mp h
      cases h
      obtain ⟨raws, rfl⟩ := under_extIf tag true (toBytes a) first hfirst
      obtain ⟨raws', rfl⟩ := ih rest hrest
      exact ⟨raws ++ raws', by rw [List.map_append]⟩

/-- Vendor operands with one tag, filed. -/
theorem filterMap_others {tag : UInt8} (htag : 0x80 ≤ tag) (raws : List Bytes) :
    (raws.map (Symbol.other tag)).filterMap extension? = raws.map fun raw => (tag, raw) := by
  rw [List.filterMap_map, ← List.filterMap_eq_map]
  refine List.filterMap_congr fun raw _ => ?_
  exact if_pos ((isVendor_iff tag).mpr htag)

/-- The values under a tag of two parts. -/
theorem valuesOf_append (tag : UInt8) (pairs pairs' : List (UInt8 × Bytes)) :
    valuesOf tag (pairs ++ pairs') = valuesOf tag pairs ++ valuesOf tag pairs' := by
  simp only [valuesOf, List.filter_append, List.map_append]

/-- The values under the tag that all have. -/
theorem valuesOf_self (tag : UInt8) (raws : List Bytes) :
    valuesOf tag (raws.map fun raw => (tag, raw)) = raws := by
  induction raws with
  | nil => rfl
  | cons raw raws ih => simpa [valuesOf] using ih

/-- The values under another tag. -/
theorem valuesOf_of_ne {tag tag' : UInt8} (h : tag ≠ tag') (raws : List Bytes) :
    valuesOf tag' (raws.map fun raw => (tag, raw)) = [] := by
  simp [valuesOf, h]

section Steps

variable {steps : List (UInt8 × PyResult (List Symbol))} {exts : List Symbol} {tag : UInt8}

/-- What stands under a tag is what the first step puts there and then what the others
do. -/
theorem valuesOf_appendAll_cons {e : UInt8 × PyResult (List Symbol)}
    (he : 0x80 ≤ e.1 ∧ Under e.1 e.2) (h : appendAll ((e :: steps).map Prod.snd) = .ok exts)
    (tag : UInt8) :
    ∃ (raws : List Bytes) (rest : List Symbol), e.2 = .ok (raws.map (Symbol.other e.1)) ∧
      appendAll (steps.map Prod.snd) = .ok rest ∧
        valuesOf tag (exts.filterMap extension?) =
          valuesOf tag (raws.map fun raw => (e.1, raw)) ++
            valuesOf tag (rest.filterMap extension?) := by
  obtain ⟨first, hfirst, h⟩ := Outcome.bind_eq_ok_iff.mp h
  obtain ⟨rest, hrest, h⟩ := Outcome.bind_eq_ok_iff.mp h
  cases h
  obtain ⟨raws, rfl⟩ := he.2 first hfirst
  refine ⟨raws, rest, hfirst, hrest, ?_⟩
  rw [List.filterMap_append, filterMap_others he.1, valuesOf_append]

/-- Nothing stands under a tag that no step has. -/
theorem valuesOf_appendAll_of_not_mem (hsteps : ∀ e ∈ steps, 0x80 ≤ e.1 ∧ Under e.1 e.2)
    (h : appendAll (steps.map Prod.snd) = .ok exts) (htag : tag ∉ steps.map Prod.fst) :
    valuesOf tag (exts.filterMap extension?) = [] := by
  induction steps generalizing exts with
  | nil =>
      cases h
      rfl
  | cons e steps ih =>
      obtain ⟨raws, rest, -, hrest, hvalues⟩ :=
        valuesOf_appendAll_cons (hsteps e List.mem_cons_self) h tag
      rw [List.map_cons, List.mem_cons, not_or] at htag
      rw [hvalues, valuesOf_of_ne (Ne.symm htag.1), List.nil_append]
      exact ih (fun e' he' => hsteps e' (List.mem_cons_of_mem _ he')) hrest htag.2

/-- Under a tag stand the values of its step. -/
theorem valuesOf_appendAll (hsteps : ∀ e ∈ steps, 0x80 ≤ e.1 ∧ Under e.1 e.2)
    (hnodup : (steps.map Prod.fst).Nodup) (h : appendAll (steps.map Prod.snd) = .ok exts)
    {step : PyResult (List Symbol)} (hmem : (tag, step) ∈ steps) :
    step = .ok ((valuesOf tag (exts.filterMap extension?)).map (Symbol.other tag)) := by
  induction steps generalizing exts with
  | nil => cases hmem
  | cons e steps ih =>
      obtain ⟨raws, rest, hfirst, hrest, hvalues⟩ :=
        valuesOf_appendAll_cons (hsteps e List.mem_cons_self) h tag
      have hsteps' : ∀ e' ∈ steps, 0x80 ≤ e'.1 ∧ Under e'.1 e'.2 :=
        fun e' he' => hsteps e' (List.mem_cons_of_mem _ he')
      rw [List.map_cons, List.nodup_cons] at hnodup
      rw [hvalues]
      rcases List.mem_cons.mp hmem with rfl | hmem
      · rw [valuesOf_self, valuesOf_appendAll_of_not_mem hsteps' hrest hnodup.1, List.append_nil]
        exact hfirst
      · have hne : e.1 ≠ tag := by
          intro heq
          exact hnodup.1 (heq ▸ List.mem_map_of_mem hmem)
        rw [valuesOf_of_ne hne, List.nil_append]
        exact ih hsteps' hnodup.2 hrest hmem

end Steps

/-! ## The steps of a packet -/

/-- The steps of {lit}`_append_extensions`, each with its tag. -/
def Packet.extensionSteps (p : Packet) : List (UInt8 × PyResult (List Symbol)) :=
  [ (EXT_SESSION_ID, extBytes EXT_SESSION_ID (some p.sessionId)),
    (EXT_ORIGIN, extOption EXT_ORIGIN Identity.toBytes p.origin),
    (EXT_TARGETS, extIf (!p.targets.isEmpty) EXT_TARGETS (.ok (joinComma p.targets))),
    (EXT_INTENT, extBytes EXT_INTENT (some p.intent.bytes)),
    (EXT_RESPONSE_SYMBOLS, extIf (!p.responseSymbols.isEmpty) EXT_RESPONSE_SYMBOLS
      (encodeSymbols p.responseSymbols)),
    (EXT_CONFIDENCE, extIf (p.confidence != 0x3FF0000000000000) EXT_CONFIDENCE
      (.ok (packF64 p.confidence))),
    (EXT_PRIORITY, extIf (p.priority != 128) EXT_PRIORITY (pack [(fmtB, p.priority)])),
    (EXT_CAPABILITIES, extIf (!p.capabilities.isEmpty) EXT_CAPABILITIES
      (.ok (joinComma p.capabilities))),
    (EXT_QOS, extOption EXT_QOS QoS.toBytes p.qos),
    (EXT_SECURITY, extBytes EXT_SECURITY p.security),
    (EXT_TRACE_ENTRY, extEach EXT_TRACE_ENTRY TraceEntry.toBytes p.trace),
    (EXT_CHUNK_INFO, extOption EXT_CHUNK_INFO ChunkInfo.toBytes p.chunkInfo),
    (EXT_BLOB_REF, extEach EXT_BLOB_REF BlobRef.toBytes p.blobRefs),
    (EXT_BACKPRESSURE, extOption EXT_BACKPRESSURE Backpressure.toBytes p.backpressure),
    (EXT_ERROR_INFO, extOption EXT_ERROR_INFO ErrorInfo.toBytes p.errorInfo),
    (EXT_ACK_INFO, extOption EXT_ACK_INFO AckInfo.toBytes p.ackInfo),
    (EXT_TARGET_CAPS, extIf (!p.targetCaps.isEmpty) EXT_TARGET_CAPS (.ok (joinComma p.targetCaps))),
    (EXT_SCHEMA_ID, extBytes EXT_SCHEMA_ID (some p.schemaId.bytes)),
    (EXT_STREAM_ID, extBytes EXT_STREAM_ID p.streamId),
    (EXT_PARTIAL_RESULT, extBytes EXT_PARTIAL_RESULT p.partialResult),
    (EXT_MODEL_INVOCATION, extOption EXT_MODEL_INVOCATION ModelInvocation.toBytes p.modelInvocation),
    (EXT_TOOL_INVOCATION, extOption EXT_TOOL_INVOCATION ToolInvocation.toBytes p.toolInvocation),
    (EXT_METADATA, extIf (!p.metadata.isEmpty) EXT_METADATA (metadataToBytes p.metadata)) ]

/-- The tags of the steps. -/
theorem extensionSteps_tags (p : Packet) : p.extensionSteps.map Prod.fst =
    [0x80, 0x81, 0x82, 0x83, 0x84, 0x85, 0x86, 0x87, 0x88, 0x89, 0x8A, 0x8B, 0x8C, 0x8D, 0x8E, 0x8F,
      0x90, 0x91, 0x92, 0x93, 0x94, 0x95, 0x96] := rfl

/-- No two steps have one tag. -/
theorem extensionSteps_nodup (p : Packet) : (p.extensionSteps.map Prod.fst).Nodup := by
  rw [extensionSteps_tags]
  decide

/-- Every step writes under its own tag. -/
theorem extensionSteps_under (p : Packet) : ∀ e ∈ p.extensionSteps, Under e.1 e.2 := by
  simp only [Packet.extensionSteps, List.forall_mem_cons]
  refine ⟨?_, ?_, ?_, ?_, ?_, ?_, ?_, ?_, ?_, ?_, ?_, ?_, ?_, ?_, ?_, ?_, ?_, ?_, ?_, ?_, ?_, ?_, ?_,
    by simp⟩
  all_goals
    first
      | exact under_extBytes _ _
      | exact under_extIf _ _ _
      | exact under_extOption _ _ _
      | exact under_extEach _ _ _

/-- The tags of the steps are vendor tags. -/
theorem extensionSteps_vendor (p : Packet) : ∀ e ∈ p.extensionSteps, 0x80 ≤ e.1 := by
  have htags : ∀ tag ∈ p.extensionSteps.map Prod.fst, 0x80 ≤ tag := by
    rw [extensionSteps_tags]
    decide +kernel
  intro e he
  exact htags e.1 (List.mem_map_of_mem he)

/-! ## Values under the tags of a view -/

section Views

variable {p : Packet} {checksum : Bool} {exts : List Symbol} {v : PacketView}

/-- A symbol that is no vendor operand has no extension. -/
theorem extension?_eq_none {s : Symbol} (h : ¬ IsExtension s) : extension? s = none := by
  cases s with
  | other tag data =>
      have hvendor : ¬ isVendor tag = true := fun hv => h ⟨tag, data, rfl, (isVendor_iff tag).mp hv⟩
      exact if_neg hvendor
  | _ => rfl

/-- The symbols of a packet without vendor symbols have no extension. -/
theorem filterMap_of_plain {ss : List Symbol} (hplain : ∀ s ∈ ss, ¬ IsExtension s) :
    ss.filterMap extension? = [] :=
  List.filterMap_eq_nil_iff.mpr fun s hs => extension?_eq_none (hplain s hs)

/-- Under the tag of a step stand the values that the step wrote. -/
theorem Shows.step_eq (h : Shows p checksum exts v) (hexts : p.appendExtensions = .ok exts)
    (hplain : ∀ s ∈ p.symbols, ¬ IsExtension s) (i : Nat) {tag : UInt8}
    {step : PyResult (List Symbol)} (hi : p.extensionSteps[i]? = some (tag, step)) :
    step = .ok ((v.extAll tag).map (Symbol.other tag)) := by
  rw [h.extAll, List.filterMap_append, filterMap_of_plain hplain, List.nil_append]
  exact valuesOf_appendAll (fun e he => ⟨extensionSteps_vendor p e he, extensionSteps_under p e he⟩)
    (extensionSteps_nodup p) hexts (List.mem_of_getElem? hi)

/-- Under the tag of a step that wrote nothing stands nothing. -/
theorem Shows.extOne_eq_none (h : Shows p checksum exts v) (hexts : p.appendExtensions = .ok exts)
    (hplain : ∀ s ∈ p.symbols, ¬ IsExtension s) (i : Nat) {tag : UInt8}
    {step : PyResult (List Symbol)} (hi : p.extensionSteps[i]? = some (tag, step))
    (hstep : step = .ok []) : v.extOne tag = none := by
  have heq := h.step_eq hexts hplain i hi
  rw [hstep] at heq
  rw [PacketView.extOne, List.map_eq_nil_iff.mp (Outcome.ok.inj heq).symm]
  rfl

/-- A field that nothing was written for has its default. -/
theorem Shows.readOr_eq_default (h : Shows p checksum exts v)
    (hexts : p.appendExtensions = .ok exts) (hplain : ∀ s ∈ p.symbols, ¬ IsExtension s) (i : Nat)
    {tag : UInt8} {step : PyResult (List Symbol)} (hi : p.extensionSteps[i]? = some (tag, step))
    (hstep : step = .ok []) {α : Type} {default : α} {read : Bytes → PyResult α} :
    readOr default read (v.extOne tag) = .ok default := by
  rw [h.extOne_eq_none hexts hplain i hi hstep]
  rfl

end Views

/-! ## Records on the wire -/

section Records

variable {α β : Type} {tag : UInt8} {toBytes : α → PyResult Bytes} {raws : List Bytes}

/-- The value of a field that is written. -/
theorem extIf_true {raw : PyResult Bytes}
    (h : extIf true tag raw = .ok (raws.map (Symbol.other tag))) :
    ∃ value, raw = .ok value ∧ raws = [value] := by
  obtain ⟨value, hvalue, h⟩ := Outcome.bind_eq_ok_iff.mp h
  obtain ⟨value', rfl, heq⟩ := List.map_eq_singleton_iff.mp (Outcome.ok.inj h).symm
  cases heq
  exact ⟨value, hvalue, rfl⟩

/-- No value stands for a field that is not written. -/
theorem extIf_false {raw : PyResult Bytes}
    (h : extIf false tag raw = .ok (raws.map (Symbol.other tag))) : raws = [] :=
  List.map_eq_nil_iff.mp (Outcome.ok.inj h).symm

/-- A property whose empty value reads as its default. -/
theorem readOr_of_empty {default : α} {read : Bytes → PyResult α} (h : read [] = .ok default)
    (value : Bytes) : readOr default read (some value) = read value := by
  cases value with
  | nil => exact h.symm
  | cons b value => rfl

/-- No value stands for a record that is missing. -/
theorem extOption_none (h : extOption tag toBytes none = .ok (raws.map (Symbol.other tag))) :
    raws = [] :=
  List.map_eq_nil_iff.mp (Outcome.ok.inj h).symm

/-- The values of a list of records. -/
theorem extEach_cons {a : α} {fields : List α}
    (h : extEach tag toBytes (a :: fields) = .ok (raws.map (Symbol.other tag))) :
    ∃ raw rest, toBytes a = .ok raw ∧ raws = raw :: rest ∧
      extEach tag toBytes fields = .ok (rest.map (Symbol.other tag)) := by
  obtain ⟨first, hfirst, h⟩ := Outcome.bind_eq_ok_iff.mp h
  obtain ⟨others, hothers, h⟩ := Outcome.bind_eq_ok_iff.mp h
  obtain ⟨raw, hraw, hfirst⟩ := Outcome.bind_eq_ok_iff.mp hfirst
  cases hfirst
  obtain ⟨raw', rest, rfl, heq, rfl⟩ := List.map_eq_cons_iff.mp (Outcome.ok.inj h).symm
  cases heq
  exact ⟨raw, rest, hraw, rfl, hothers⟩

/-- A record that may be missing is read back. -/
theorem readOr_extOption {read : Bytes → PyResult (Option β)} {view : α → β}
    (hread : ∀ a raw, toBytes a = .ok raw → read raw = .ok (some (view a)))
    (hempty : ∀ b, read [] ≠ .ok (some b)) {field : Option α}
    (h : extOption tag toBytes field = .ok (raws.map (Symbol.other tag))) :
    readOr none read raws.head? = .ok (field.map view) := by
  cases field with
  | none =>
      obtain rfl := extOption_none h
      rfl
  | some a =>
      obtain ⟨raw, hraw, rfl⟩ := extIf_true h
      have hsome := hread a raw hraw
      have hne : raw ≠ [] := by
        rintro rfl
        exact hempty _ hsome
      rw [List.head?_cons, readOr, if_neg (by simpa using hne), hsome]
      rfl

/-- A record that may be missing is read back as it is. -/
theorem readOr_extOption_self {read : Bytes → PyResult (Option α)}
    (hread : ∀ a raw, toBytes a = .ok raw → read raw = .ok (some a))
    (hempty : ∀ b, read [] ≠ .ok (some b)) {field : Option α}
    (h : extOption tag toBytes field = .ok (raws.map (Symbol.other tag))) :
    readOr none read raws.head? = .ok field := by
  have hview := @readOr_extOption α α tag toBytes raws read id hread hempty field h
  rw [Option.map_id] at hview
  exact hview

/-- A list of records is read back. -/
theorem readEach_extEach {read : Bytes → PyResult α}
    (hread : ∀ a raw, toBytes a = .ok raw → read raw = .ok a) {fields : List α}
    (h : extEach tag toBytes fields = .ok (raws.map (Symbol.other tag))) :
    readEach read raws = .ok fields := by
  induction fields generalizing raws with
  | nil =>
      obtain rfl : raws = [] := List.map_eq_nil_iff.mp (Outcome.ok.inj h).symm
      rfl
  | cons a fields ih =>
      obtain ⟨raw, rest, hraw, rfl, hrest⟩ := extEach_cons h
      rw [readEach, hread a raw hraw, Outcome.ok_bind, ih hrest]
      rfl

end Records

/-- A list of blob references is read back only when it is empty. -/
theorem readEach_blobRefs_iff {refs : List BlobRef} {raws : List Bytes}
    (h : extEach EXT_BLOB_REF BlobRef.toBytes refs = .ok (raws.map (Symbol.other EXT_BLOB_REF))) :
    readEach BlobRef.ofValue raws = .ok (refs.map BlobRef.object) ↔ refs = [] := by
  cases refs with
  | nil =>
      obtain rfl : raws = [] := List.map_eq_nil_iff.mp (Outcome.ok.inj h).symm
      exact iff_of_true rfl rfl
  | cons br refs =>
      refine iff_of_false ?_ (List.cons_ne_nil br refs)
      intro hread
      obtain ⟨raw, rest, _, rfl, _⟩ := extEach_cons h
      obtain ⟨o, ho, hread⟩ := Outcome.bind_eq_ok_iff.mp hread
      obtain ⟨os, _, hread⟩ := Outcome.bind_eq_ok_iff.mp hread
      exact BlobRef.ofValue_ne ho br (List.cons.inj (Outcome.ok.inj hread)).1

/-- An acknowledgement is read back only when both of its texts are empty. -/
theorem readOr_ackInfo_iff {field : Option AckInfo} {raws : List Bytes}
    (h : extOption EXT_ACK_INFO AckInfo.toBytes field =
      .ok (raws.map (Symbol.other EXT_ACK_INFO))) :
    readOr none AckInfo.ofValue raws.head? = .ok field ↔
      ∀ a, field = some a → a = { ackType := .empty, message := .empty } := by
  cases field with
  | none =>
      obtain rfl := extOption_none h
      refine iff_of_true rfl ?_
      intro a ha
      cases ha
  | some a =>
      obtain ⟨raw, hraw, rfl⟩ := extIf_true h
      have hne : ¬ raw.isEmpty = true := by
        obtain ⟨head, hhead, hraw⟩ := Outcome.bind_eq_ok_iff.mp hraw
        cases hraw
        obtain ⟨n, rest, _, _, _, rfl⟩ := pack_unsigned hhead
        simp [BigEndian.toBytes]
      rw [List.head?_cons, readOr, if_neg hne, AckInfo.ofValue_toBytes hraw]
      rcases a with ⟨ackType, message⟩
      simp only [Outcome.ok.injEq, Option.some.injEq, AckInfo.mk.injEq, forall_eq']
      constructor
      · intro heq
        exact ⟨heq.1.symm.trans heq.2.symm, heq.2.symm⟩
      · intro heq
        exact ⟨heq.2.trans heq.1.symm, heq.2.symm⟩

end Aicl.Bin

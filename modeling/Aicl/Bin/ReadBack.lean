import Aicl.Bin.Extensions
import Aicl.Foundation.Crc32

/-!
# Reading a packet back

What the view of a frame returns of the packet that was sent: its symbols, its
session, and its rich fields.

Main results:

- Theorem {lit}`richFields_returned_iff`: when a view returns the records of a packet.
- Theorem {lit}`symbols_kept_apart_iff`: when symbols and rich fields keep apart.
-/

namespace Aicl.Bin

open Isa.Frame

/-! ## The records of a packet -/

variable {crc32 : Bytes → UInt32} {p : Packet} {checksum : Bool} {frame : Bytes}

/-- A view returns the records of a packet; missing and empty details are one. -/
structure RichFields (p : Packet) (v : PacketView) : Prop where
  origin : v.origin = .ok p.origin
  qos : v.qos = .ok p.qos
  trace : v.trace = .ok p.trace
  chunkInfo : v.chunkInfo = .ok p.chunkInfo
  blobRefs : v.blobRefs = .ok (p.blobRefs.map BlobRef.object)
  backpressure : v.backpressure = .ok p.backpressure
  errorInfo : ∃ e, v.errorInfo = .ok e ∧
    e.map ErrorInfo.identified = p.errorInfo.map ErrorInfo.identified
  ackInfo : v.ackInfo = .ok p.ackInfo
  modelInvocation : v.modelInvocation = .ok p.modelInvocation
  toolInvocation : v.toolInvocation = .ok p.toolInvocation
  metadata : v.metadata = .ok p.metadata

/-- Taking away empty details twice is taking them away once. -/
theorem ErrorInfo.identified_identified (e : ErrorInfo) : e.identified.identified = e.identified := by
  simp only [ErrorInfo.identified, Option.filter_filter, Bool.and_self]

section Shown

variable {exts : List Symbol} {v : PacketView} (h : Shows p checksum exts v)
  (hexts : p.appendExtensions = .ok exts) (hplain : ∀ s ∈ p.symbols, ¬ IsExtension s)

include h hexts hplain

/-- The origin is returned. -/
theorem Shows.origin_eq : v.origin = .ok p.origin := by
  refine readOr_extOption_self ?_ ?_ (h.step_eq hexts hplain 1 rfl)
  · intro o raw hraw
    rw [Identity.fromBytes_toBytes hraw]
    rfl
  · simp [Identity.fromBytes]

/-- The quality of service is returned. -/
theorem Shows.qos_eq : v.qos = .ok p.qos :=
  readOr_extOption_self (fun _ _ => QoS.ofValue_toBytes) (by simp [QoS.ofValue])
    (h.step_eq hexts hplain 8 rfl)

/-- The trace is returned, entry by entry. -/
theorem Shows.trace_eq : v.trace = .ok p.trace :=
  readEach_extEach (fun _ _ => TraceEntry.ofValue_toBytes) (h.step_eq hexts hplain 10 rfl)

/-- The chunk information is returned. -/
theorem Shows.chunkInfo_eq : v.chunkInfo = .ok p.chunkInfo :=
  readOr_extOption_self (fun _ _ => ChunkInfo.ofValue_toBytes) (by simp [ChunkInfo.ofValue])
    (h.step_eq hexts hplain 11 rfl)

/-- The blob references are returned only when there are none. -/
theorem Shows.blobRefs_iff : v.blobRefs = .ok (p.blobRefs.map BlobRef.object) ↔ p.blobRefs = [] :=
  readEach_blobRefs_iff (h.step_eq hexts hplain 12 rfl)

/-- The backpressure is returned. -/
theorem Shows.backpressure_eq : v.backpressure = .ok p.backpressure :=
  readOr_extOption_self (fun _ _ => Backpressure.ofValue_toBytes) (by simp [Backpressure.ofValue])
    (h.step_eq hexts hplain 13 rfl)

/-- The error information is returned, up to empty details. -/
theorem Shows.errorInfo_eq : v.errorInfo = .ok (p.errorInfo.map ErrorInfo.identified) :=
  readOr_extOption (fun _ _ => ErrorInfo.ofValue_toBytes) (by simp [ErrorInfo.ofValue])
    (h.step_eq hexts hplain 14 rfl)

/-- The acknowledgement is returned only when it is empty. -/
theorem Shows.ackInfo_iff : v.ackInfo = .ok p.ackInfo ↔
    ∀ a, p.ackInfo = some a → a = { ackType := .empty, message := .empty } :=
  readOr_ackInfo_iff (h.step_eq hexts hplain 15 rfl)

/-- The model invocation is returned. -/
theorem Shows.modelInvocation_eq : v.modelInvocation = .ok p.modelInvocation :=
  readOr_extOption_self (fun _ _ => ModelInvocation.ofValue_toBytes)
    (by simp [ModelInvocation.ofValue]) (h.step_eq hexts hplain 20 rfl)

/-- The tool invocation is returned. -/
theorem Shows.toolInvocation_eq : v.toolInvocation = .ok p.toolInvocation :=
  readOr_extOption_self (fun _ _ => ToolInvocation.ofValue_toBytes)
    (by simp [ToolInvocation.ofValue]) (h.step_eq hexts hplain 21 rfl)

/-- The metadata are returned. -/
theorem Shows.metadata_eq : v.metadata = .ok p.metadata := by
  have hstep := h.step_eq hexts hplain 22 rfl
  unfold PacketView.metadata PacketView.extOne
  cases hmetadata : p.metadata with
  | nil =>
      rw [hmetadata] at hstep
      rw [extIf_false hstep]
      rfl
  | cons e m =>
      rw [hmetadata] at hstep
      obtain ⟨value, hvalue, hraws⟩ := extIf_true hstep
      have hempty : metadataOfValue [] = .ok [] := rfl
      rw [hraws, List.head?_cons, readOr_of_empty hempty]
      exact metadataOfValue_metadataToBytes hvalue (hmetadata ▸ p.metadata_nodupKeys)

/-- The value of a field that is written under a condition. -/
theorem Shows.extOne_of_ok (i : Nat) {tag : UInt8} {c : Bool} {value : Bytes}
    (hi : p.extensionSteps[i]? = some (tag, extIf c tag (.ok value))) :
    v.extOne tag = if c then some value else none := by
  have hstep := h.step_eq hexts hplain i hi
  rw [PacketView.extOne]
  cases c with
  | false =>
      rw [extIf_false hstep]
      rfl
  | true =>
      obtain ⟨_, heq, hraws⟩ := extIf_true hstep
      cases heq
      rw [hraws]
      rfl

/-- The intent is returned. -/
theorem Shows.intent_eq : v.intent = .ok p.intent := by
  have hone : v.extOne EXT_INTENT = if (!p.intent.bytes.isEmpty) = true then some p.intent.bytes
      else none := h.extOne_of_ok hexts hplain 3 rfl
  rw [PacketView.intent, hone]
  cases hintent : p.intent.bytes with
  | nil => exact congrArg _ (Utf8String.ext_bytes hintent.symm)
  | cons b bs =>
      have hwritten : (!(b :: bs).isEmpty) = true := rfl
      have hempty : decodeUtf8 [] = .ok .empty := rfl
      rw [if_pos hwritten, ← hintent, readOr_of_empty hempty, decodeUtf8_bytes]

/-- The confidence is returned. -/
theorem Shows.confidence_eq : v.confidence = .ok p.confidence := by
  have hone : v.extOne EXT_CONFIDENCE = if (p.confidence != 0x3FF0000000000000) = true then
      some (packF64 p.confidence) else none := h.extOne_of_ok hexts hplain 5 rfl
  rw [PacketView.confidence, hone]
  by_cases hdefault : p.confidence = 0x3FF0000000000000
  · rw [hdefault]
    rfl
  · have hread : unpackWord 8 (BigEndian.toBytes 8 p.confidence.toNat ++ []) 0 =
        .ok p.confidence.toNat := unpackWord_front rfl p.confidence.toNat_lt
    rw [List.append_nil] at hread
    have hempty : ¬ (packF64 p.confidence).isEmpty = true := by simp [packF64, BigEndian.toBytes]
    rw [if_pos (bne_iff_ne.mpr hdefault), readOr, if_neg hempty, packF64, hread, Outcome.ok_bind,
      UInt64.ofNat_toNat]
    rfl

/-- The targets are those of the joined names. -/
theorem Shows.targets_eq : v.targets =
    readOr [] splitNames (if (!p.targets.isEmpty) = true then some (joinComma p.targets)
      else none) := by
  rw [PacketView.targets, h.extOne_of_ok hexts hplain 2 rfl]

/-- The identifier of the session is returned. -/
theorem Shows.sessionId_eq : v.sessionId = some p.sessionId := by
  have hne : (!p.sessionId.isEmpty) = true := by
    rw [Bool.not_eq_true', List.isEmpty_eq_false_iff]
    intro hnil
    exact absurd p.sessionId_length (by rw [hnil]; decide)
  have hstep := h.step_eq hexts hplain 0 rfl
  rw [extBytes, Option.getD_some, hne] at hstep
  obtain ⟨value, hvalue, hraws⟩ := extIf_true hstep
  cases hvalue
  rw [PacketView.sessionId, PacketView.extOne, hraws]
  rfl

end Shown

/-- A view returns the records of a packet exactly when there is no blob
reference and no acknowledgement but the empty one. -/
theorem richFields_returned_iff (h : encode crc32 p checksum = .ok frame)
    (hplain : ∀ s ∈ p.symbols, ¬ IsExtension s) :
    ((∃ v, decode crc32 frame = .ok v) ↔ payloadLen frame ≤ maxTlvValueSize) ∧
      ∀ v, decode crc32 frame = .ok v →
        (RichFields p v ↔ p.blobRefs = [] ∧
          ∀ a, p.ackInfo = some a → a = { ackType := .empty, message := .empty }) := by
  refine ⟨decode_isOk_iff h, ?_⟩
  intro v hv
  obtain ⟨exts, hexts, hshows⟩ := shows_of_decode h hv
  constructor
  · intro hfields
    exact ⟨(hshows.blobRefs_iff hexts hplain).mp hfields.blobRefs,
      (hshows.ackInfo_iff hexts hplain).mp hfields.ackInfo⟩
  · intro hcond
    constructor
    · exact hshows.origin_eq hexts hplain
    · exact hshows.qos_eq hexts hplain
    · exact hshows.trace_eq hexts hplain
    · exact hshows.chunkInfo_eq hexts hplain
    · exact (hshows.blobRefs_iff hexts hplain).mpr hcond.1
    · exact hshows.backpressure_eq hexts hplain
    · refine ⟨_, hshows.errorInfo_eq hexts hplain, ?_⟩
      rw [Option.map_map]
      congr 1
      funext e
      exact e.identified_identified
    · exact (hshows.ackInfo_iff hexts hplain).mpr hcond.2
    · exact hshows.modelInvocation_eq hexts hplain
    · exact hshows.toolInvocation_eq hexts hplain
    · exact hshows.metadata_eq hexts hplain

/-- A packet with several records. -/
def tracedPacket : Packet where
  sessionId := List.replicate 16 0
  messageId := List.replicate 16 1
  origin := some { idType := 2, name := ackName }
  qos := some ⟨1, 2, 3, 4, 5, 6⟩
  trace := [⟨1, ackName, .empty, -1, 20⟩, ⟨2, .empty, ackName, 3, -4⟩]
  errorInfo := some { errorCode := 7, severity := 1, message := ackName }
  metadata := [(ackName, .empty)]
  sessionId_length := zeroId_length
  messageId_length := oneId_length
  correlationId_length := zeroId_length
  symbols_wellFormed := noSymbols_wellFormed
  responseSymbols_wellFormed := noSymbols_wellFormed
  metadata_nodupKeys := List.nodup_singleton ackName

/-- The records of that packet are returned. -/
theorem richFields_returned_traced :
    ∃ frame v, encode Crc32.ieee tracedPacket false = .ok frame ∧
      decode Crc32.ieee frame = .ok v ∧ RichFields tracedPacket v := by
  have hok : (encode Crc32.ieee tracedPacket false >>= decode Crc32.ieee).isOk = true := by
    decide +kernel
  obtain ⟨v, hrun⟩ := Outcome.isOk_iff.mp hok
  obtain ⟨frame, hframe, hv⟩ := Outcome.bind_eq_ok_iff.mp hrun
  have hplain : ∀ s ∈ tracedPacket.symbols, ¬ IsExtension s := List.forall_mem_nil _
  refine ⟨frame, v, hframe, hv, ((richFields_returned_iff hframe hplain).2 v hv).mpr ⟨rfl, ?_⟩⟩
  intro a ha
  cases ha

/-- A packet with a blob reference and a default acknowledgement. -/
def referencePacket : Packet where
  sessionId := List.replicate 16 0
  messageId := List.replicate 16 1
  blobRefs := [{ refType := 1, size := 16, offset := 2, identifier := ackName }]
  ackInfo := some {}
  sessionId_length := zeroId_length
  messageId_length := oneId_length
  correlationId_length := zeroId_length
  symbols_wellFormed := noSymbols_wellFormed
  responseSymbols_wellFormed := noSymbols_wellFormed
  metadata_nodupKeys := noMetadata_nodupKeys

/-- The blob reference comes back with a text for its size and a number for its
identifier, and the acknowledgement without its type. -/
theorem richFields_not_returned :
    ∃ frame v, encode Crc32.ieee referencePacket false = .ok frame ∧
      decode Crc32.ieee frame = .ok v ∧ (∀ s ∈ referencePacket.symbols, ¬ IsExtension s) ∧
      v.blobRefs ≠ .ok (referencePacket.blobRefs.map BlobRef.object) ∧
      v.ackInfo ≠ .ok referencePacket.ackInfo ∧ ¬ RichFields referencePacket v := by
  have hok : (encode Crc32.ieee referencePacket false >>= decode Crc32.ieee).isOk = true := by
    decide +kernel
  obtain ⟨v, hrun⟩ := Outcome.isOk_iff.mp hok
  obtain ⟨frame, hframe, hv⟩ := Outcome.bind_eq_ok_iff.mp hrun
  have hplain : ∀ s ∈ referencePacket.symbols, ¬ IsExtension s := List.forall_mem_nil _
  obtain ⟨exts, hexts, hshows⟩ := shows_of_decode hframe hv
  have hrefs := mt (hshows.blobRefs_iff hexts hplain).mp (List.cons_ne_nil _ _)
  have hack : v.ackInfo ≠ .ok referencePacket.ackInfo := by
    intro heq
    exact absurd ((hshows.ackInfo_iff hexts hplain).mp heq {} rfl) (by decide)
  exact ⟨frame, v, hframe, hv, hplain, hrefs, hack, fun hfields => hrefs hfields.blobRefs⟩

/-! ## Symbols and rich fields -/

/-- A view returns the session of a packet, and the default of every rich field
that the packet leaves at its default. -/
structure KeptApart (p : Packet) (v : PacketView) : Prop where
  sessionId : v.sessionId = some p.sessionId
  origin : p.origin = none → v.origin = .ok none
  targets : p.targets = [] → v.targets = .ok []
  intent : p.intent = .empty → v.intent = .ok .empty
  responseSymbols : p.responseSymbols = [] → v.responseSymbols = .ok []
  confidence : p.confidence = 0x3FF0000000000000 → v.confidence = .ok 0x3FF0000000000000
  priority : p.priority = 128 → v.priority = .ok 128
  capabilities : p.capabilities = [] → v.capabilities = .ok []
  qos : p.qos = none → v.qos = .ok none
  security : p.security = none → v.security = none
  trace : p.trace = [] → v.trace = .ok []
  chunkInfo : p.chunkInfo = none → v.chunkInfo = .ok none
  blobRefs : p.blobRefs = [] → v.blobRefs = .ok []
  backpressure : p.backpressure = none → v.backpressure = .ok none
  errorInfo : p.errorInfo = none → v.errorInfo = .ok none
  ackInfo : p.ackInfo = none → v.ackInfo = .ok none
  targetCaps : p.targetCaps = [] → v.targetCaps = .ok []
  schemaId : p.schemaId = .empty → v.schemaId = .ok .empty
  streamId : p.streamId = none → v.streamId = none
  partialResult : p.partialResult = none → v.partialResult = none
  modelInvocation : p.modelInvocation = none → v.modelInvocation = .ok none
  toolInvocation : p.toolInvocation = none → v.toolInvocation = .ok none
  metadata : p.metadata = [] → v.metadata = .ok []

/-- Without vendor symbols a packet keeps symbols and rich fields apart. -/
theorem Shows.keptApart {exts : List Symbol} {v : PacketView} (h : Shows p checksum exts v)
    (hexts : p.appendExtensions = .ok exts) (hplain : ∀ s ∈ p.symbols, ¬ IsExtension s) :
    KeptApart p v := by
  constructor
  · exact h.sessionId_eq hexts hplain
  · intro hd
    exact h.readOr_eq_default hexts hplain 1 rfl (by rw [hd]; rfl)
  · intro hd
    exact h.readOr_eq_default hexts hplain 2 rfl (by rw [hd]; rfl)
  · intro hd
    exact h.readOr_eq_default hexts hplain 3 rfl (by rw [hd]; rfl)
  · intro hd
    exact h.readOr_eq_default hexts hplain 4 rfl (by rw [hd]; rfl)
  · intro hd
    exact h.readOr_eq_default hexts hplain 5 rfl (by rw [hd]; rfl)
  · intro hd
    exact h.readOr_eq_default hexts hplain 6 rfl (by rw [hd]; rfl)
  · intro hd
    exact h.readOr_eq_default hexts hplain 7 rfl (by rw [hd]; rfl)
  · intro hd
    exact h.readOr_eq_default hexts hplain 8 rfl (by rw [hd]; rfl)
  · intro hd
    exact h.extOne_eq_none hexts hplain 9 rfl (by rw [hd]; rfl)
  · intro hd
    rw [h.trace_eq hexts hplain, hd]
  · intro hd
    exact h.readOr_eq_default hexts hplain 11 rfl (by rw [hd]; rfl)
  · intro hd
    have hrefs := (h.blobRefs_iff hexts hplain).mpr hd
    rw [hrefs, hd]
    rfl
  · intro hd
    exact h.readOr_eq_default hexts hplain 13 rfl (by rw [hd]; rfl)
  · intro hd
    exact h.readOr_eq_default hexts hplain 14 rfl (by rw [hd]; rfl)
  · intro hd
    exact h.readOr_eq_default hexts hplain 15 rfl (by rw [hd]; rfl)
  · intro hd
    exact h.readOr_eq_default hexts hplain 16 rfl (by rw [hd]; rfl)
  · intro hd
    exact h.readOr_eq_default hexts hplain 17 rfl (by rw [hd]; rfl)
  · intro hd
    exact h.extOne_eq_none hexts hplain 18 rfl (by rw [hd]; rfl)
  · intro hd
    exact h.extOne_eq_none hexts hplain 19 rfl (by rw [hd]; rfl)
  · intro hd
    exact h.readOr_eq_default hexts hplain 20 rfl (by rw [hd]; rfl)
  · intro hd
    exact h.readOr_eq_default hexts hplain 21 rfl (by rw [hd]; rfl)
  · intro hd
    exact h.readOr_eq_default hexts hplain 22 rfl (by rw [hd]; rfl)

/-- A view that keeps all symbols of a packet has filed none of them. -/
theorem plain_of_length {exts : List Symbol} {v : PacketView} (h : Shows p checksum exts v)
    (hlen : v.symbols.length = p.symbols.length) : ∀ s ∈ p.symbols, ¬ IsExtension s := by
  have hall : ∀ s ∈ roundedItems p.symbols, (extension? s).isNone = true := by
    apply List.length_filter_eq_length_iff.mp
    rw [← h.symbols, hlen, roundedItems_eq_map, List.length_map]
  intro s hs hext
  have hnone := hall s.rounded (by rw [roundedItems_eq_map]; exact List.mem_map_of_mem hs)
  rw [extension?_rounded, Option.isNone_iff_eq_none] at hnone
  have hsome := hext.isSome
  rw [hnone] at hsome
  cases hsome

/-- A view of a packet without vendor symbols has all of its symbols, the floats
behind the tag {lit}`F32` rounded. -/
theorem Shows.symbols_eq {exts : List Symbol} {v : PacketView} (h : Shows p checksum exts v)
    (hplain : ∀ s ∈ p.symbols, ¬ IsExtension s) : v.symbols = roundedItems p.symbols := by
  rw [h.symbols, List.filter_eq_self, roundedItems_eq_map]
  refine List.forall_mem_map.mpr ?_
  intro s hs
  rw [extension?_rounded, extension?_eq_none (hplain s hs)]
  rfl

/-- Symbols and rich fields keep apart exactly when no symbol of the packet is a
vendor operand; the symbols are then returned as they are exactly when their
floats behind the tag {lit}`F32` are of single precision. -/
theorem symbols_kept_apart_iff (h : encode crc32 p checksum = .ok frame) :
    ((∃ v, decode crc32 frame = .ok v) ↔ payloadLen frame ≤ maxTlvValueSize) ∧
      ∀ v, decode crc32 frame = .ok v →
        (v.symbols = roundedItems p.symbols ∧ KeptApart p v ↔ ∀ s ∈ p.symbols, ¬ IsExtension s) ∧
        (v.symbols = p.symbols ∧ KeptApart p v ↔
          (∀ s ∈ p.symbols, ¬ IsExtension s) ∧ ∀ s ∈ p.symbols, s.rounded = s) := by
  refine ⟨decode_isOk_iff h, ?_⟩
  intro v hv
  obtain ⟨exts, hexts, hshows⟩ := shows_of_decode h hv
  refine ⟨⟨?_, ?_⟩, ⟨?_, ?_⟩⟩
  · intro hkept
    apply plain_of_length hshows
    rw [hkept.1, roundedItems_eq_map, List.length_map]
  · intro hplain
    exact ⟨hshows.symbols_eq hplain, hshows.keptApart hexts hplain⟩
  · intro hkept
    have hplain := plain_of_length hshows (congrArg List.length hkept.1)
    have hrounded := (hshows.symbols_eq hplain).symm.trans hkept.1
    rw [roundedItems_eq_map] at hrounded
    refine ⟨hplain, ?_⟩
    exact List.map_inj_left.mp (hrounded.trans (List.map_id _).symm)
  · intro hcond
    refine ⟨?_, hshows.keptApart hexts hcond.1⟩
    rw [hshows.symbols_eq hcond.1, roundedItems_eq_map]
    exact (List.map_congr_left hcond.2).trans (List.map_id' _)

/-- A number and nothing else is no vendor operand. -/
theorem u8_plain (value : Int) : ∀ s ∈ [Symbol.int .u8 value], ¬ IsExtension s := by
  intro s hs hext
  obtain rfl := List.mem_singleton.mp hs
  rcases hext with ⟨tag, data, heq, _⟩
  cases heq

/-- A number is well formed. -/
theorem u8_wellFormed (value : Int) :
    ∀ s ∈ [Symbol.int .u8 value], s.All Symbol.WellFormed := by
  intro s hs
  obtain rfl := List.mem_singleton.mp hs
  exact Symbol.All.of_leaf trivial trivial

/-- A packet with one number. -/
def numberPacket : Packet where
  sessionId := List.replicate 16 0
  messageId := List.replicate 16 1
  symbols := [.int .u8 7]
  sessionId_length := zeroId_length
  messageId_length := oneId_length
  correlationId_length := zeroId_length
  symbols_wellFormed := u8_wellFormed 7
  responseSymbols_wellFormed := noSymbols_wellFormed
  metadata_nodupKeys := noMetadata_nodupKeys

/-- Symbols and rich fields of that packet keep apart. -/
theorem symbols_kept_apart_number :
    ∃ frame v, encode Crc32.ieee numberPacket false = .ok frame ∧
      decode Crc32.ieee frame = .ok v ∧ v.symbols = numberPacket.symbols ∧
      KeptApart numberPacket v := by
  have hok : (encode Crc32.ieee numberPacket false >>= decode Crc32.ieee).isOk = true := by
    decide +kernel
  obtain ⟨v, hrun⟩ := Outcome.isOk_iff.mp hok
  obtain ⟨frame, hframe, hv⟩ := Outcome.bind_eq_ok_iff.mp hrun
  refine ⟨frame, v, hframe, hv, ((symbols_kept_apart_iff hframe).2 v hv).2.mpr ⟨u8_plain 7, ?_⟩⟩
  intro s hs
  obtain rfl := List.mem_singleton.mp hs
  rfl

/-- A vendor symbol under the tag of the session is well formed. -/
theorem sessionSymbol_wellFormed (data : Bytes) :
    ∀ s ∈ [Symbol.other EXT_SESSION_ID data], s.All Symbol.WellFormed := by
  intro s hs
  obtain rfl := List.mem_singleton.mp hs
  exact Symbol.All.of_leaf trivial (.inl rfl)

/-- A packet with a vendor symbol under the tag of the session. -/
def spoofingPacket : Packet where
  sessionId := List.replicate 16 0
  messageId := List.replicate 16 1
  symbols := [.other EXT_SESSION_ID [0x41]]
  sessionId_length := zeroId_length
  messageId_length := oneId_length
  correlationId_length := zeroId_length
  symbols_wellFormed := sessionSymbol_wellFormed [0x41]
  responseSymbols_wellFormed := noSymbols_wellFormed
  metadata_nodupKeys := noMetadata_nodupKeys

/-- The symbol is lost, and its bytes are returned as the identifier of the
session. -/
theorem session_spoofed :
    ∃ frame v, encode Crc32.ieee spoofingPacket false = .ok frame ∧
      decode Crc32.ieee frame = .ok v ∧ v.symbols = [] ∧ v.symbols ≠ spoofingPacket.symbols ∧
      v.sessionId = some [0x41] ∧ v.sessionId ≠ some spoofingPacket.sessionId := by
  have hrun : (do
      let frame ← encode Crc32.ieee spoofingPacket false
      let v ← decode Crc32.ieee frame
      raiseIf (¬ v.symbols.isEmpty ∨ v.sessionId ≠ some [0x41]) .decodeError ""
      pure ()).isOk = true := by
    decide +kernel
  obtain ⟨_, hrun⟩ := Outcome.isOk_iff.mp hrun
  obtain ⟨frame, hframe, hrun⟩ := Outcome.bind_eq_ok_iff.mp hrun
  obtain ⟨v, hv, hrun⟩ := Outcome.bind_eq_ok_iff.mp hrun
  obtain ⟨_, hview, _⟩ := Outcome.bind_eq_ok_iff.mp hrun
  have hview := Outcome.failIf_eq_ok_iff.mp hview
  rw [not_or, not_not, not_not] at hview
  have hsymbols : v.symbols = [] := List.isEmpty_iff.mp hview.1
  refine ⟨frame, v, hframe, hv, hsymbols, ?_, hview.2, ?_⟩
  · rw [hsymbols]
    exact (List.cons_ne_nil _ _).symm
  · rw [hview.2]
    decide

end Aicl.Bin

import Aicl.CoreRust.SizeChecks
import Aicl.Interop.PythonToRust
import Aicl.Semantic.Inputs

/-!
# Actions of a model at the gate of the Rust core

From {lit}`action_to_bytes` of {lit}`aicl/semantic/adapter.py` over the wire to
{lit}`decode_to_packet` and {lit}`check_and_validate` of {lit}`core-rust/src/gate.rs`.  The
values of an action become texts, numbers, booleans and lists, never references, so that
no table of capabilities matters; the gate looks at their number, at the lengths of the
texts and at the depth of the lists.

Main results:

- Theorem {lit}`action_arrives`: the packet that the Rust core reads for an action.
- Theorem {lit}`admits_carried_iff`: the bounds of a policy on operands and on symbols.
- Theorem {lit}`action_admitted_iff`: when a gate admits an action.
-/

namespace Aicl.Interop

open Bin (Symbol Packet isAssigned roundedItems_eq_map trailerOf)
open CoreRust (AiclPacket AiclCodec AiclGate Id16 Operand SafetyPolicy)
open Isa.Frame
open Nested (AtDepth)
open Semantic (Library ModelAction ModelIntent SemanticAdapter UuidBytes Value
  buildSymbols correlationBytes toBinarySymbol toBinarySymbols)

/-! ## Symbols of values -/

/-- The kinds of symbols that the adapter makes of values. -/
def OfValue : Symbol → Prop
  | .string _ => True
  | .bool _ => True
  | .int type _ => type = .i64
  | .f64 _ => True
  | .list _ => True
  | .null => True
  | _ => False

mutual

/-- The symbol of a value is of these kinds throughout. -/
theorem toBinarySymbol_ofValue (lib : Library) : ∀ (value : Value) {s : Symbol},
    toBinarySymbol lib value = .ok s → s.All OfValue
  | .str _, s, h => by
      cases h
      exact Symbol.All.of_leaf trivial trivial
  | .bool _, s, h => by
      cases h
      exact Symbol.All.of_leaf trivial trivial
  | .int _, s, h => by
      cases h
      exact Symbol.All.of_leaf trivial rfl
  | .float _, s, h => by
      cases h
      exact Symbol.All.of_leaf trivial trivial
  | .list items, s, h => by
      rw [toBinarySymbol] at h
      rcases Outcome.bind_eq_ok_iff.mp h with ⟨symbols, hsymbols, hret⟩
      cases hret
      exact Symbol.all_list_iff.mpr ⟨trivial, toBinarySymbols_ofValue lib items hsymbols⟩
  | .dict entries, s, h => by
      rw [toBinarySymbol] at h
      rcases Outcome.bind_eq_ok_iff.mp h with ⟨text, _, hret⟩
      cases hret
      exact Symbol.All.of_leaf trivial trivial
  | .null, s, h => by
      cases h
      exact Symbol.All.of_leaf trivial trivial
  | .object _ _, s, h => by
      cases h
      exact Symbol.All.of_leaf trivial trivial

/-- The symbols of values are of these kinds throughout. -/
theorem toBinarySymbols_ofValue (lib : Library) : ∀ (values : List Value) {ss : List Symbol},
    toBinarySymbols lib values = .ok ss → ∀ s ∈ ss, s.All OfValue
  | [], ss, h => by
      cases h
      simp
  | item :: items, ss, h => by
      rw [toBinarySymbols] at h
      rcases Outcome.bind_eq_ok_iff.mp h with ⟨symbol, hsymbol, hrest⟩
      rcases Outcome.bind_eq_ok_iff.mp hrest with ⟨symbols, hsymbols, hret⟩
      cases hret
      exact List.forall_mem_cons.mpr ⟨toBinarySymbol_ofValue lib item hsymbol,
        toBinarySymbols_ofValue lib items hsymbols⟩

end

/-- Neither rounding nor sorting changes such a symbol. -/
theorem sorted_rounded_ofValue {s : Symbol} (h : s.All OfValue) : sorted s.rounded = s := by
  induction s using Symbol.induct with
  | leaf s hleaf =>
      cases s with
      | f32 value => exact (Nested.All.self h).elim
      | list items => exact hleaf.elim
      | map entries => exact hleaf.elim
      | _ => rfl
  | list items ih =>
      have hitems : ∀ s ∈ items, sorted s.rounded = s :=
        fun s hs => ih s hs ((Symbol.all_list_iff.mp h).2 s hs)
      rw [Symbol.rounded, sorted, roundedItems_eq_map, sortedItems_eq_map, List.map_map]
      exact congrArg Symbol.list ((List.map_congr_left hitems).trans (List.map_id' items))
  | map entries ih => exact (Nested.All.self h).elim

/-! ## Depths on both sides -/

/-- What stands directly in the symbol of an operand. -/
theorem children_operandToSymbol (op : Operand) :
    Nested.children (operandToSymbol op) = (Nested.children op).map operandToSymbol := by
  cases op with
  | list items =>
      rw [operandToSymbol, operandsToSymbols_eq_map]
      rfl
  | map entries =>
      rw [operandToSymbol, entriesToItems_eq_map]
      simp only [Nested.children, Symbol.children, Operand.children, List.map_map]
      rfl
  | _ => rfl

/-- Operands of a packet that was read are not nested too deep for a counter of 32
bits. -/
theorem not_nestedTo_of_payloadSize {q : AiclPacket} (hsize : q.payloadSize < 2 ^ 32)
    {op : Operand} (hop : op ∈ q.operands) : ¬ op.NestedTo (2 ^ 32) := by
  rintro ⟨x, hx⟩
  have hdepth := AtDepth.add_le CoreRust.wireSize_lt_of_child hx
  have hle := CoreRust.wireSize_le_of_mem hop
  rw [AiclPacket.payloadSize] at hsize
  omega

/-! ## Bounds on both sides -/

/-- The bounds of a policy on a symbol: on the depth of everything in it, and on the
lengths of the texts in it. -/
def WithinPolicy (policy : SafetyPolicy) (s : Symbol) : Prop :=
  ∀ d x, AtDepth d x s → d ≤ policy.maxNestingDepth.toNat ∧
    ∀ text, x = .string text → text.length ≤ policy.maxStringLength.toNat

variable {policy : SafetyPolicy} {op : Operand}

/-- The lengths of an operand that carries a value. -/
theorem admitsLengths_iff_of_ofValue (h : OfValue (operandToSymbol op)) :
    policy.AdmitsLengths op ↔
      ∀ text, operandToSymbol op = .string text → text.length ≤ policy.maxStringLength.toNat := by
  cases op with
  | str s =>
      rw [SafetyPolicy.AdmitsLengths, operandToSymbol]
      constructor
      · intro hle text heq
        cases heq
        exact hle
      · exact fun hle => hle s rfl
  | bytes b => exact h.elim
  | map entries => exact h.elim
  | _ =>
      refine iff_of_true trivial ?_
      intro text heq
      cases heq

/-- The check of an operand that carries a symbol looks at the bounds on the symbol. -/
theorem admits_carried_iff (hshallow : ¬ op.NestedTo (2 ^ 32))
    (h : (operandToSymbol op).All OfValue) :
    policy.Admits 0 op ↔ WithinPolicy policy (operandToSymbol op) := by
  have hwithin : policy.Admits 0 op ↔ policy.Within op := by
    by_cases hlimit : policy.maxNestingDepth.toNat + 1 < 2 ^ 32
    · exact SafetyPolicy.admits_iff_within hlimit
    · rw [SafetyPolicy.admits_iff_lengths hlimit, SafetyPolicy.within_iff_lengths hlimit,
        and_iff_left hshallow]
  rw [hwithin, WithinPolicy, Nested.forall_atDepth_map_iff children_operandToSymbol,
    SafetyPolicy.Within]
  refine forall_congr' fun d => forall_congr' fun x => forall_congr' fun hx => ?_
  have hvalue : OfValue (operandToSymbol x) :=
    h _ (Nested.within_iff.mpr ⟨d, hx.map children_operandToSymbol⟩)
  rw [admitsLengths_iff_of_ofValue hvalue]

/-- Vendor operands are not looked into. -/
theorem admits_vendor (tag : UInt8) (data : Bytes) : policy.Admits 0 (.vendor tag data) := by
  intro d x hx
  cases hx with
  | here => exact ⟨UInt32.zero_le, trivial⟩
  | child hc _ => cases hc

/-! ## The packet of an action -/

variable {σ : Type} {self : SemanticAdapter σ} {crc32 : Bytes → UInt32} {lib : Library}
  {sessionId messageId : UuidBytes} {action : ModelAction} {checksum : Bool} {g : σ}

/-- The fields of the packet of an action that the header of its frame holds, and its
symbols. -/
structure Sends (lib : Library) (messageId : UuidBytes) (action : ModelAction) (p : Packet) :
    Prop where
  flags : p.flags = action.flags
  operation : p.operation = action.intent.toOpcode
  messageId : p.messageId = messageId.val
  correlationId : ∃ id, correlationBytes lib action.correlationId = .ok id ∧
    p.correlationId = id.val
  deadlineMs : p.deadlineMs = action.deadlineMs
  symbols : buildSymbols lib action = .ok p.symbols

/-- What is sent for an action is the frame of a packet with its fields. -/
theorem sends_of_actionToBytes {bytes : Bytes}
    (h : (self.actionToBytes crc32 lib sessionId messageId action checksum g).1 = .ok bytes) :
    ∃ p, Sends lib messageId action p ∧ Bin.encode crc32 p checksum = .ok bytes := by
  rcases SemanticAdapter.actionToBytes_eq_ok h with ⟨p, hp, hencode⟩
  refine ⟨p, ?_, hencode⟩
  have hbuild := (SemanticAdapter.actionToPacket_eq_ok hp).2
  rcases Outcome.bind_eq_ok_iff.mp hbuild with ⟨symbols, hsymbols, hrest⟩
  rcases Outcome.bind_eq_ok_iff.mp hrest with ⟨id, hid, hrest⟩
  rcases Outcome.bind_eq_ok_iff.mp hrest with ⟨tool, _, hrest⟩
  rcases Outcome.bind_eq_ok_iff.mp hrest with ⟨model, _, hret⟩
  cases hret
  constructor
  · rfl
  · rfl
  · rfl
  · exact ⟨id, hid, rfl⟩
  · rfl
  · exact Outcome.attach_eq_ok_iff.mp hsymbols

/-- Every intent has an assigned opcode. -/
theorem isAssigned_toOpcode (intent : ModelIntent) : isAssigned intent.toOpcode = true := by
  cases intent <;> decide

/-- The flags of an action are few and announce no trailer. -/
theorem flags_small (action : ModelAction) :
    action.flags < 2 ^ 16 ∧ action.flags &&& 0x0100 = 0 := by
  unfold ModelAction.flags
  generalize action.stream = stream
  generalize action.cancel = cancel
  cases stream <;> cases cancel <;> decide

/-- A packet of the Rust core is what was sent for an action: the fields of the header,
then one operand for each symbol, then the vendor operands with everything else. -/
structure Carries (lib : Library) (messageId : UuidBytes) (action : ModelAction)
    (symbols : List Symbol) (extensions : List (UInt8 × Bytes)) (checksum : Bool)
    (q : AiclPacket) : Prop where
  opcode : (q.opcode.toU8.toNat : Int) = action.intent.toOpcode
  flags : q.flags.bits.toNat = action.flags + if checksum then 0x0100 else 0
  messageId : q.messageId.map Id16.bytes = some messageId.val
  correlationId : ∃ id, correlationBytes lib action.correlationId = .ok id ∧
    q.correlationId.bytes = id.val
  deadlineMs : (q.deadlineMs.toNat : Int) = action.deadlineMs
  operands : ∃ core, core.map operandToSymbol = symbols ∧
    q.operands = core ++ extensions.map fun e => .vendor e.1 e.2

/-- The Rust core reads what the adapter sends for an action. -/
theorem action_arrives {bytes : Bytes}
    (hbytes : (self.actionToBytes crc32 lib sessionId messageId action checksum g).1 = .ok bytes)
    (hlimit : payloadLen bytes ≤ CoreRust.maxPayloadSize) :
    ∃ symbols extensions q, buildSymbols lib action = .ok symbols ∧
      AiclCodec.new.decodeToPacket crc32 bytes = .ok q ∧
        Carries lib messageId action symbols extensions checksum q := by
  rcases sends_of_actionToBytes hbytes with ⟨p, hp, hencode⟩
  rcases Bin.encode_eq_ok hencode with ⟨body, fields, hbody, hfields, hframe⟩
  have hdeclared : payloadLen bytes = body.length := by
    rw [hframe, hfields.declared]
  rw [hdeclared] at hlimit
  have hshort : body.length < 2 ^ 28 := hlimit.trans_lt (by decide)
  rcases Bin.buildPayload_spells hbody hshort with ⟨exts, ts, hexts, hpayload, hitems⟩
  rcases exists_extensions (Bin.appendExtensions_vendor p exts hexts) with ⟨extensions, rfl⟩
  -- the header
  have hassigned : isAssigned p.operation = true := by
    rw [hp.operation]
    exact isAssigned_toOpcode _
  rcases opcodeByte_assigned hassigned with ⟨opcode, hopcode, hoperation⟩
  have ⟨hsmall, hclear⟩ := flags_small action
  have hland : p.flags.land 0x0100 = 0 := by
    rw [hp.flags]
    exact congrArg Int.ofNat hclear
  have hmod := Nat.mod_eq_of_lt hfields.flags_lt
  have hflag : fields.flags % 2 ^ 16 &&& 0x0100 ≠ 0 ↔ checksum = true := by
    rw [hmod]
    exact Bin.wireFlags_trailer (fun _ => hland) hfields.flags_eq
  have hdecode := frame_decodes hframe hfields.version_eq hfields.payloadLen_eq hlimit hflag
    hpayload hopcode
  have hassoc : bytes = fields.bytes crc32 ++
      (body ++ trailerOf crc32 checksum (fields.bytes crc32 ++ body)) :=
    hframe.trans (List.append_assoc _ _ _)
  have ⟨hqflags, hqmessage, hqcorrelation, hqdeadline⟩ :=
    @packetOf_bytes crc32 fields (body ++ trailerOf crc32 checksum (fields.bytes crc32 ++ body))
      opcode ts
  rw [← hassoc] at hqflags hqmessage hqcorrelation hqdeadline
  -- the operands
  have hcore : ∃ core, core.map operandToSymbol = p.symbols ∧
      CoreRust.toOperands ts = core ++ extensions.map fun e => .vendor e.1 e.2 := by
    cases hpayload with
    | mk _ hts =>
        rcases split_operands hts hitems with ⟨core, hsplit, hmap⟩
        have hvalues := Semantic.forall_buildSymbols
          (fun value _ hs => toBinarySymbol_ofValue lib value hs) hp.symbols
        refine ⟨core, ?_, hsplit⟩
        rw [hmap, List.map_congr_left fun s hs => sorted_rounded_ofValue (hvalues s hs),
          List.map_id']
  refine ⟨p.symbols, extensions, _, hp.symbols, hdecode, ?_⟩
  constructor
  · exact hoperation.trans hp.operation
  · have hsum := wireFlags_eq_add checksum (n := action.flags) hp.flags hsmall hclear
      hfields.flags_eq
    rw [hqflags, hmod, hsum]
  · rw [hqmessage, hfields.messageId_eq, hp.messageId]
  · rcases hp.correlationId with ⟨id, hid, hsame⟩
    refine ⟨id, hid, ?_⟩
    rw [hqcorrelation, hfields.correlationId_eq, hsame]
  · rw [hqdeadline, Nat.mod_eq_of_lt hfields.deadlineMs_lt, hfields.deadlineMs_eq, hp.deadlineMs]
  · exact hcore

/-! ## At the gate -/

/-- An operand that carries a symbol of a value is no reference. -/
theorem refRegistered_of_ofValue {table : CoreRust.CapabilityTable} {op : Operand}
    (h : OfValue (operandToSymbol op)) : op.RefRegistered table := by
  cases op with
  | ref idx => cases h
  | _ => trivial

/-- What a policy asks of an action. -/
structure ActionFits (policy : SafetyPolicy) (symbols : List Symbol)
    (extensions : List (UInt8 × Bytes)) : Prop where
  count : symbols.length + extensions.length ≤ policy.maxOperandCount.toNat
  symbols : ∀ s ∈ symbols, WithinPolicy policy s

/-- A gate admits the packet of an action exactly when the action fits its policy,
whatever is registered in its table. -/
theorem Carries.admitted_iff {symbols : List Symbol} {extensions : List (UInt8 × Bytes)}
    {q : AiclPacket} (h : Carries lib messageId action symbols extensions checksum q)
    (hvalues : ∀ s ∈ symbols, s.All OfValue) (hsize : q.payloadSize < 2 ^ 32) (gate : AiclGate) :
    (∃ decision, gate.checkAndValidate q = .ok decision) ↔
      ActionFits gate.policy symbols extensions := by
  rcases h.operands with ⟨core, hcore, hoperands⟩
  have hcarried : ∀ op ∈ core, (operandToSymbol op).All OfValue := by
    intro op hop
    apply hvalues
    rw [← hcore]
    exact List.mem_map_of_mem hop
  have hrefs : ∀ op ∈ q.operands, op.RefRegistered gate.capTable := by
    rw [hoperands, List.forall_mem_append]
    constructor
    · exact fun op hop => refRegistered_of_ofValue (hcarried op hop).self
    · exact List.forall_mem_map.mpr fun _ _ => trivial
  have hadmits : (∀ op ∈ q.operands, gate.policy.Admits 0 op) ↔
      ∀ s ∈ symbols, WithinPolicy gate.policy s := by
    have hshallow : ∀ op ∈ core, ¬ op.NestedTo (2 ^ 32) := by
      intro op hop
      apply not_nestedTo_of_payloadSize hsize
      rw [hoperands]
      exact List.mem_append_left _ hop
    have hvendors : ∀ op ∈ extensions.map (fun e => Operand.vendor e.1 e.2),
        gate.policy.Admits 0 op := List.forall_mem_map.mpr fun _ _ => admits_vendor _ _
    rw [hoperands, List.forall_mem_append, and_iff_left hvendors, ← hcore, List.forall_mem_map]
    exact forall₂_congr fun op hop => admits_carried_iff (hshallow op hop) (hcarried op hop)
  have hlength : q.operands.length = symbols.length + extensions.length := by
    rw [hoperands, ← hcore]
    simp
  have hcount : q.operands.length < 2 ^ 32 := by
    have hle := CoreRust.length_le_wireSizes q.operands
    rw [AiclPacket.payloadSize] at hsize
    omega
  rw [AiclGate.checkAndValidate_isOk_iff, and_iff_right hrefs]
  constructor
  · intro hpacket
    refine ⟨?_, hadmits.mp hpacket.operands⟩
    rw [← hlength]
    exact (AiclGate.ofNat_count_le_iff hcount).mp hpacket.count_le
  · intro hfits
    refine ⟨(AiclGate.ofNat_count_le_iff hcount).mpr ?_, hadmits.mpr hfits.symbols⟩
    rw [hlength]
    exact hfits.count

/-- An action that the adapter sends in a frame within the limit arrives at the Rust core
as a packet with its opcode, flags, identifiers, deadline and symbols.  A gate, with
whatever policy and whatever registered, admits that packet exactly when the symbols and
the extensions are not too many, no text among the symbols is too long and no list nested
too deep. -/
theorem action_admitted_iff (crc32 : Bytes → UInt32) (lib : Library) (self : SemanticAdapter σ)
    (sessionId messageId : UuidBytes) (action : ModelAction) (checksum : Bool) (g : σ)
    (bytes : Bytes)
    (hbytes : (self.actionToBytes crc32 lib sessionId messageId action checksum g).1 = .ok bytes)
    (hlimit : payloadLen bytes ≤ CoreRust.maxPayloadSize) :
    ∃ symbols extensions q, buildSymbols lib action = .ok symbols ∧
      AiclCodec.new.decodeToPacket crc32 bytes = .ok q ∧
        Carries lib messageId action symbols extensions checksum q ∧
          ∀ gate : AiclGate, (∃ decision, gate.checkAndValidate q = .ok decision) ↔
            ActionFits gate.policy symbols extensions := by
  rcases action_arrives hbytes hlimit with ⟨symbols, extensions, q, hsymbols, hdecode, hcarries⟩
  have hvalues := Semantic.forall_buildSymbols
    (fun value _ hs => toBinarySymbol_ofValue lib value hs) hsymbols
  have ⟨_, _, hgrows, hmax⟩ := CoreRust.relayable_of_decodeToPacket hdecode
  have hsize : q.payloadSize < 2 ^ 32 := (hgrows.trans hmax).trans_lt (by decide)
  exact ⟨symbols, extensions, q, hsymbols, hdecode, hcarries,
    hcarries.admitted_iff hvalues hsize⟩

/-- A request to generate at every gate. -/
theorem action_admitted_iff_generate :
    ∃ bytes, (SemanticAdapter.actionToBytes { gate := Semantic.allowAllGate } Crc32.ieee
        Semantic.idleLibrary Semantic.zeroUuid Semantic.zeroUuid Semantic.generateAction true
        ()).1 = .ok bytes ∧
      ∃ symbols extensions q, buildSymbols Semantic.idleLibrary Semantic.generateAction =
          .ok symbols ∧
        AiclCodec.new.decodeToPacket Crc32.ieee bytes = .ok q ∧
          Carries Semantic.idleLibrary Semantic.zeroUuid Semantic.generateAction symbols
            extensions true q ∧
          ∀ gate : AiclGate, (∃ decision, gate.checkAndValidate q = .ok decision) ↔
            ActionFits gate.policy symbols extensions := by
  have hok : ((SemanticAdapter.actionToBytes { gate := Semantic.allowAllGate } Crc32.ieee
      Semantic.idleLibrary Semantic.zeroUuid Semantic.zeroUuid Semantic.generateAction true
      ()).1 >>= fun bytes => Outcome.failIf (CoreRust.maxPayloadSize < payloadLen bytes)
        (.builtin "")).isOk = true := by
    decide +kernel
  rcases Outcome.isOk_iff.mp hok with ⟨_, hrun⟩
  rcases Outcome.bind_eq_ok_iff.mp hrun with ⟨bytes, hbytes, hshort⟩
  exact ⟨bytes, hbytes, action_admitted_iff Crc32.ieee _ _ _ _ _ true () bytes hbytes
    (Nat.le_of_not_lt (Outcome.failIf_eq_ok_iff.mp hshort))⟩

end Aicl.Interop

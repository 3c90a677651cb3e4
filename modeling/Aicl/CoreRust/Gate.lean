import Aicl.CoreRust.Capability
import Aicl.CoreRust.Codec

/-!
# The gate of the Rust core

{lit}`SafetyPolicy` of {lit}`core-rust/src/safety.rs` and {lit}`AiclGate` of
{lit}`core-rust/src/gate.rs`.  The capability check looks at the operands of a
packet, the policy check at everything nested in them; only the first one looks
at references.

Main results:

- Theorem {lit}`SafetyPolicy.validateOperand_eq_ok_iff`: the recursive check
  accepts exactly the operands within the limits at every depth.
- Theorem {lit}`AiclGate.checkAndValidate_isOk_iff`: what the gate lets through.
- Theorem {lit}`AiclGate.refs_registered_iff`: when what it lets through refers to
  registered capabilities only.
-/

namespace Aicl.CoreRust

open Outcome (failIf)

/-! ## Safety policy -/

/-- A set of bounds on packets. -/
structure SafetyPolicy where
  maxPayloadSize : Nat
  maxOperandCount : UInt32
  maxStringLength : UInt32
  maxBytesLength : UInt32
  maxNestingDepth : UInt32
deriving DecidableEq, Repr

namespace SafetyPolicy

/-- {lit}`SafetyPolicy::default`. -/
def default : SafetyPolicy where
  maxPayloadSize := 16 * 1024 * 1024
  maxOperandCount := 1024
  maxStringLength := 64 * 1024
  maxBytesLength := 16 * 1024 * 1024
  maxNestingDepth := 32

/-- {lit}`check_string`. -/
def checkString (policy : SafetyPolicy) (s : Utf8String) : AiclResult Unit :=
  failIf (policy.maxStringLength.toNat < s.length)
    (.new .payloadTooLarge s!"string len {s.length} > {policy.maxStringLength}")

/-- {lit}`check_bytes`. -/
def checkBytes (policy : SafetyPolicy) (b : Bytes) : AiclResult Unit :=
  failIf (policy.maxBytesLength.toNat < b.length)
    (.new .payloadTooLarge s!"bytes len {b.length} > {policy.maxBytesLength}")

/-- The check of the nesting depth in {lit}`validate_operand`. -/
def checkDepth (policy : SafetyPolicy) (depth : UInt32) : AiclResult Unit :=
  failIf (policy.maxNestingDepth < depth)
    (.new .payloadTooLarge s!"nesting depth {depth} > limit {policy.maxNestingDepth}")

mutual

/-- {lit}`validate_operand`. -/
def validateOperand (policy : SafetyPolicy) (depth : UInt32) : Operand → AiclResult Unit
  | .str s => do
      policy.checkDepth depth
      policy.checkString s
  | .bytes b => do
      policy.checkDepth depth
      policy.checkBytes b
  | .list items => do
      policy.checkDepth depth
      validateItems policy (depth + 1) items
  | .map entries => do
      policy.checkDepth depth
      validateEntries policy (depth + 1) entries
  | _ => policy.checkDepth depth

/-- The loop over the items of a list. -/
def validateItems (policy : SafetyPolicy) (depth : UInt32) : List Operand → AiclResult Unit
  | [] => .ok ()
  | item :: items => do
      validateOperand policy depth item
      validateItems policy depth items

/-- The loop over the entries of a map. -/
def validateEntries (policy : SafetyPolicy) (depth : UInt32) :
    List (Utf8String × Operand) → AiclResult Unit
  | [] => .ok ()
  | (k, v) :: entries => do
      policy.checkString k
      validateOperand policy depth v
      validateEntries policy depth entries

end

/-! ## What the policy admits -/

/-- The lengths of an operand, not of what is nested in it, are within bounds. -/
def AdmitsLengths (policy : SafetyPolicy) : Operand → Prop
  | .str s => s.length ≤ policy.maxStringLength.toNat
  | .bytes b => b.length ≤ policy.maxBytesLength.toNat
  | .map entries => ∀ e ∈ entries, e.1.length ≤ policy.maxStringLength.toNat
  | _ => True

/-- An operand that starts at a depth is within bounds at every level. -/
def Admits (policy : SafetyPolicy) (depth : UInt32) (op : Operand) : Prop :=
  ∀ d x, Nested.AtDepth d x op →
    depth + UInt32.ofNat d ≤ policy.maxNestingDepth ∧ policy.AdmitsLengths x

variable {policy : SafetyPolicy} {depth : UInt32}

/-- An operand is within bounds when it is at its own level and what it holds is
one level deeper. -/
theorem admits_iff {op : Operand} :
    policy.Admits depth op ↔ (depth ≤ policy.maxNestingDepth ∧ policy.AdmitsLengths op) ∧
      ∀ c ∈ Nested.children op, policy.Admits (depth + 1) c := by
  have hshift : ∀ d : Nat, depth + UInt32.ofNat (d + 1) = depth + 1 + UInt32.ofNat d := by
    intro d
    rw [UInt32.ofNat_add, add_comm (UInt32.ofNat d), ← add_assoc]
    rfl
  unfold Admits
  rw [Nested.forall_atDepth_iff]
  simp only [hshift]
  simp

/-- The loop over a list accepts exactly when every item is accepted. -/
theorem validateItems_eq_ok_iff {items : List Operand} :
    validateItems policy depth items = .ok () ↔
      ∀ op ∈ items, validateOperand policy depth op = .ok () := by
  induction items with
  | nil => simp [validateItems]
  | cons item items ih =>
      rw [validateItems, Outcome.bind_eq_ok_iff, List.forall_mem_cons, ← ih]
      constructor
      · rintro ⟨_, hitem, hitems⟩
        exact ⟨hitem, hitems⟩
      · rintro ⟨hitem, hitems⟩
        exact ⟨(), hitem, hitems⟩

/-- The loop over a map accepts exactly when every key is short enough and every
value is accepted. -/
theorem validateEntries_eq_ok_iff {entries : List (Utf8String × Operand)} :
    validateEntries policy depth entries = .ok () ↔
      ∀ e ∈ entries, e.1.length ≤ policy.maxStringLength.toNat ∧
        validateOperand policy depth e.2 = .ok () := by
  induction entries with
  | nil => simp [validateEntries]
  | cons entry entries ih =>
      obtain ⟨k, v⟩ := entry
      simp only [validateEntries, checkString, Outcome.bind_eq_ok_iff, Outcome.failIf_eq_ok_iff,
        List.forall_mem_cons, ← ih, not_lt]
      constructor
      · rintro ⟨_, hkey, _, hvalue, hentries⟩
        exact ⟨⟨hkey, hvalue⟩, hentries⟩
      · rintro ⟨⟨hkey, hvalue⟩, hentries⟩
        exact ⟨(), hkey, (), hvalue, hentries⟩

/-- The recursive check accepts exactly what is within bounds at every depth. -/
theorem validateOperand_eq_ok_iff (op : Operand) :
    validateOperand policy depth op = .ok () ↔ policy.Admits depth op := by
  induction op using Operand.induct generalizing depth with
  | leaf op hleaf =>
      rw [admits_iff, hleaf.children_eq]
      cases op with
      | list items => exact hleaf.elim
      | map entries => exact hleaf.elim
      | str s => simp [validateOperand, checkDepth, checkString, AdmitsLengths,
          Outcome.bind_eq_ok_iff]
      | bytes b => simp [validateOperand, checkDepth, checkBytes, AdmitsLengths,
          Outcome.bind_eq_ok_iff]
      | _ => simp [validateOperand, checkDepth, AdmitsLengths]
  | list items ih =>
      have hitems : (∀ op ∈ items, validateOperand policy (depth + 1) op = .ok ()) ↔
          ∀ c ∈ Nested.children (Operand.list items), policy.Admits (depth + 1) c :=
        forall₂_congr fun op hop => ih op hop
      rw [admits_iff, ← hitems]
      simp [validateOperand, checkDepth, AdmitsLengths, Outcome.bind_eq_ok_iff,
        validateItems_eq_ok_iff]
  | map entries ih =>
      have hvalues : (∀ e ∈ entries, validateOperand policy (depth + 1) e.2 = .ok ()) ↔
          ∀ c ∈ Nested.children (Operand.map entries), policy.Admits (depth + 1) c := by
        refine Iff.trans (forall₂_congr fun e he => ih e he) ?_
        exact List.forall_mem_map.symm
      rw [admits_iff, ← hvalues]
      simp [validateOperand, checkDepth, AdmitsLengths, Outcome.bind_eq_ok_iff,
        validateEntries_eq_ok_iff, forall_and, and_assoc]

/-- The limit on the number of operands, and the bounds on each. -/
structure AdmitsPacket (policy : SafetyPolicy) (pkt : AiclPacket) : Prop where
  count_le : UInt32.ofNat pkt.operands.length ≤ policy.maxOperandCount
  operands : ∀ op ∈ pkt.operands, policy.Admits 0 op

end SafetyPolicy

/-! ## The gate -/

/-- Access control decision returned by the gate. -/
inductive AccessDecision where
  | allow | deny | audit
deriving DecidableEq, Repr

/-- The variant name that {lit}`\x7b:?\x7d` prints for an opcode. -/
def AiclOpcode.debug : AiclOpcode → String
  | .nop => "Nop" | .hello => "Hello" | .goodbye => "Goodbye" | .discover => "Discover"
  | .ping => "Ping" | .pong => "Pong" | .ack => "Ack" | .nak => "Nak" | .error => "Error"
  | .cancel => "Cancel" | .version => "Version"
  | .call => "Call" | .return_ => "Return" | .stream => "Stream" | .streamEnd => "StreamEnd"
  | .memoryRead => "MemoryRead" | .memoryWrite => "MemoryWrite"
  | .memoryDelete => "MemoryDelete" | .indexQuery => "IndexQuery"
  | .indexUpsert => "IndexUpsert"
  | .capabilityAdvertise => "CapabilityAdvertise"
  | .capabilityWithdraw => "CapabilityWithdraw" | .capabilityQuery => "CapabilityQuery"
  | .modelCall => "ModelCall" | .toolCall => "ToolCall" | .embed => "Embed"
  | .classify => "Classify" | .reason => "Reason" | .retrieve => "Retrieve"
  | .execute => "Execute"
  | .trace => "Trace" | .stats => "Stats" | .health => "Health"
  | .bufferRef => "BufferRef" | .bufferRelease => "BufferRelease" | .bufferShare => "BufferShare"
  | .vendor v => s!"Vendor({v})"

/-- The gate: a capability table, a policy, and whether allowed packets are
audited. -/
structure AiclGate where
  capTable : CapabilityTable
  policy : SafetyPolicy
  auditEnabled : Bool

/-- A reference is to a registered capability; other operands are no references. -/
def Operand.RefRegistered (table : CapabilityTable) : Operand → Prop
  | .ref idx => (table.get idx).isSome
  | _ => True

instance (table : CapabilityTable) : DecidablePred (Operand.RefRegistered table) := fun op => by
  cases op <;> (unfold Operand.RefRegistered; infer_instance)

namespace AiclGate

/-- {lit}`AiclGate::new`. -/
def new : AiclGate where
  capTable := .new 65535
  policy := .default
  auditEnabled := false

/-- {lit}`with_policy`. -/
def withPolicy (gate : AiclGate) (policy : SafetyPolicy) : AiclGate := { gate with policy }

/-- {lit}`with_audit`. -/
def withAudit (gate : AiclGate) (enabled : Bool) : AiclGate := { gate with auditEnabled := enabled }

/-- {lit}`register_capability`. -/
def registerCapability (gate : AiclGate) (cap : Capability) : AiclResult UInt16 × AiclGate :=
  let (result, capTable) := gate.capTable.register cap
  (result, { gate with capTable })

/-- {lit}`check`: the loop over the operands stops at the first reference that is
not registered. -/
def check (gate : AiclGate) (pkt : AiclPacket) : AccessDecision :=
  if ∃ op ∈ pkt.operands, ¬ op.RefRegistered gate.capTable then .deny
  else if gate.auditEnabled then .audit
  else .allow

/-- The loop of {lit}`validate_packet` over the operands. -/
def validateOperands (gate : AiclGate) (operands : List Operand) : AiclResult Unit :=
  gate.policy.validateItems 0 operands

/-- {lit}`validate_packet`. -/
def validatePacket (gate : AiclGate) (pkt : AiclPacket) : AiclResult Unit := do
  failIf (gate.policy.maxOperandCount < UInt32.ofNat pkt.operands.length)
    (.new .operandCount
      s!"operand count {pkt.operands.length} > limit {gate.policy.maxOperandCount}")
  gate.validateOperands pkt.operands

/-- {lit}`check_and_validate`. -/
def checkAndValidate (gate : AiclGate) (pkt : AiclPacket) : AiclResult AccessDecision := do
  let decision := gate.check pkt
  failIf (decision = .deny)
    (.new .capabilityNotFound s!"capability not found for opcode {pkt.opcode.debug}")
  gate.validatePacket pkt
  pure decision

variable {gate : AiclGate} {pkt : AiclPacket}

/-- The capability check denies exactly when an operand refers to nothing. -/
theorem check_eq_deny_iff :
    gate.check pkt = .deny ↔ ∃ op ∈ pkt.operands, ¬ op.RefRegistered gate.capTable := by
  unfold check
  split
  · next hsome => exact iff_of_true rfl hsome
  · next hnone =>
      refine iff_of_false ?_ hnone
      split <;> simp

/-- The policy check accepts exactly the packets that the policy admits. -/
theorem validatePacket_eq_ok_iff :
    gate.validatePacket pkt = .ok () ↔ gate.policy.AdmitsPacket pkt := by
  simp only [validatePacket, validateOperands, Outcome.bind_eq_ok_iff, Outcome.failIf_eq_ok_iff,
    SafetyPolicy.validateItems_eq_ok_iff, SafetyPolicy.validateOperand_eq_ok_iff, UInt32.not_lt]
  constructor
  · rintro ⟨_, hcount, hoperands⟩
    exact ⟨hcount, hoperands⟩
  · intro h
    exact ⟨(), h.count_le, h.operands⟩

/-- The gate lets through the packets whose own operands refer to registered
capabilities and which the policy admits. -/
theorem checkAndValidate_isOk_iff :
    (∃ decision, gate.checkAndValidate pkt = .ok decision) ↔
      (∀ op ∈ pkt.operands, op.RefRegistered gate.capTable) ∧
        gate.policy.AdmitsPacket pkt := by
  have hdeny : ¬ gate.check pkt = .deny ↔
      ∀ op ∈ pkt.operands, op.RefRegistered gate.capTable := by
    rw [check_eq_deny_iff]
    simp
  rw [← hdeny, ← validatePacket_eq_ok_iff]
  simp only [checkAndValidate, Outcome.bind_eq_ok_iff, Outcome.failIf_eq_ok_iff, Outcome.pure_eq]
  constructor
  · rintro ⟨_, _, hcheck, _, hvalidate, _⟩
    exact ⟨hcheck, hvalidate⟩
  · rintro ⟨hcheck, hvalidate⟩
    exact ⟨_, (), hcheck, (), hvalidate, rfl⟩

/-- Everything that a packet let through refers to is registered exactly when
this holds of what is nested in its operands, or the packet is refused. -/
theorem refs_registered_iff (gate : AiclGate) (pkt : AiclPacket) :
    ((∃ decision, gate.checkAndValidate pkt = .ok decision) →
        ∀ op ∈ pkt.operands, op.All (Operand.RefRegistered gate.capTable)) ↔
      ((∀ op ∈ pkt.operands, op.RefRegistered gate.capTable) →
        gate.policy.AdmitsPacket pkt →
        ∀ op ∈ pkt.operands, ∀ c ∈ Nested.children op,
          Operand.All (Operand.RefRegistered gate.capTable) c) := by
  rw [checkAndValidate_isOk_iff, and_imp]
  apply imp_congr_right
  intro hrefs
  apply imp_congr_right
  intro _
  apply forall₂_congr
  intro op hop
  exact Nested.all_iff.trans (and_iff_right (hrefs op hop))

/-- A call whose only operand is a list with a reference in it. -/
def nestedRef : AiclPacket where
  opcode := .call
  flags := .request
  messageId := some .zero
  correlationId := .zero
  deadlineMs := 0
  operands := [.list [.ref 7]]
  sorted := by
    intro op hop
    rw [List.mem_singleton.mp hop, Operand.all_list_iff]
    refine ⟨trivial, fun op hop => ?_⟩
    rw [List.mem_singleton.mp hop]
    exact .of_leaf trivial trivial

/-- The new gate lets through a reference that nobody registered. -/
theorem check_passes_nestedRef :
    ¬ ∀ (gate : AiclGate) (pkt : AiclPacket),
      (∃ decision, gate.checkAndValidate pkt = .ok decision) →
        ∀ op ∈ pkt.operands, op.All (Operand.RefRegistered gate.capTable) := by
  intro h
  have hpass : new.checkAndValidate nestedRef = .ok .allow := by
    decide +kernel
  have hall := h new nestedRef ⟨.allow, hpass⟩ (.list [.ref 7]) (List.mem_singleton_self _)
  have href : Operand.RefRegistered new.capTable (.ref 7) :=
    Nested.All.self ((Operand.all_list_iff.mp hall).2 (.ref 7) (List.mem_singleton_self _))
  exact absurd href (by decide +kernel)

end AiclGate

end Aicl.CoreRust

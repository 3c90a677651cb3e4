import Aicl.CoreRust.CallerBuffer
import Aicl.CoreRust.Gate

/-!
# The payload bound of the gate

A safety policy has a bound on the payload of a packet beside its bounds on single
operands.  The gate checks the latter, and their combination bounds nothing: the
size of a payload adds up over all operands, and what a vendor operand holds is not
looked at.

Main results:

- Theorem {lit}`AiclGate.checkAndValidate_maxPayloadSize`: the gate does not look at
  the bound on the payload.
- Theorem {lit}`AiclGate.boundsPayload_iff`: the packets whose payload keeps the bound
  when the gate lets them through, and that no gate bounds the payload of all
  packets.
-/

namespace Aicl.CoreRust

open Isa.Frame

/-! ## Written payloads -/

/-- A codec that takes a payload of any size: what it compares has 32 bits. -/
def AiclCodec.unlimited : AiclCodec := { maxPayload := 2 ^ 32 - 1, checkCrc := true }

/-- The payload that the encoder writes into an empty buffer, behind the header. -/
def payloadWritten (crc32 : Bytes → UInt32) (uuidV4 : Id16) (pkt : AiclPacket) : Bytes :=
  (AiclCodec.unlimited.encodeInto crc32 uuidV4 pkt []).1.drop headerSize

variable {crc32 : Bytes → UInt32}

/-- The written payload takes the size of the packet. -/
theorem payloadWritten_length (uuidV4 : Id16) (pkt : AiclPacket) :
    (payloadWritten crc32 uuidV4 pkt).length = pkt.writtenSize := by
  have hlt : (headerOf uuidV4 pkt).payloadLen < 2 ^ 32 := by
    rw [headerOf_payloadLen]
    exact Nat.mod_lt _ (by decide)
  have htaken : ¬ AiclCodec.unlimited.maxPayload < (headerOf uuidV4 pkt).payloadLen := by
    show ¬ 2 ^ 32 - 1 < (headerOf uuidV4 pkt).payloadLen
    omega
  rw [payloadWritten, encodeInto_eq, if_neg htaken, List.nil_append, ← payloadBytes_writtenSize]
  exact congrArg List.length (List.drop_left' (Header.bytes_length crc32 _))

namespace AiclGate

variable {gate : AiclGate} {pkt : AiclPacket}

/-! ## What the gate bounds -/

/-- When the gate lets a packet through, its payload keeps the bound of the policy. -/
def BoundsPayload (crc32 : Bytes → UInt32) (gate : AiclGate) (pkt : AiclPacket) : Prop :=
  ∀ decision uuidV4, gate.checkAndValidate pkt = .ok decision →
    (payloadWritten crc32 uuidV4 pkt).length ≤ gate.policy.maxPayloadSize

/-- The operands of a packet refer to registered capabilities, and the policy admits
their count and every one of them. -/
structure Passes (gate : AiclGate) (pkt : AiclPacket) : Prop where
  registered : ∀ op ∈ pkt.operands, op.RefRegistered gate.capTable
  admitted : gate.policy.AdmitsPacket pkt

/-- The gate does not look at the bound on the payload. -/
theorem checkAndValidate_maxPayloadSize (size : Nat) :
    (∃ decision, (gate.withPolicy { gate.policy with maxPayloadSize := size }).checkAndValidate pkt =
        .ok decision) ↔ ∃ decision, gate.checkAndValidate pkt = .ok decision := by
  rw [checkAndValidate_isOk_iff, checkAndValidate_isOk_iff]
  apply and_congr_right'
  constructor
  · intro h
    exact ⟨h.count_le, h.operands⟩
  · intro h
    exact ⟨h.count_le, h.operands⟩

/-- A packet that the gate lets through keeps the bound exactly when its size does. -/
theorem boundsPayload_iff_of_passes (h : gate.Passes pkt) :
    gate.BoundsPayload crc32 pkt ↔ pkt.writtenSize ≤ gate.policy.maxPayloadSize := by
  unfold BoundsPayload
  simp only [payloadWritten_length]
  have ⟨decision, hdecision⟩ := checkAndValidate_isOk_iff.mpr ⟨h.registered, h.admitted⟩
  constructor
  · intro hbounds
    exact hbounds decision .zero hdecision
  · intro hsize _ _ _
    exact hsize

/-! ## Packets that no gate refuses -/

/-- A request with as many operands without a value as the count wraps to none. -/
def emptyOperands (n : Nat) : AiclPacket where
  opcode := .call
  flags := .request
  messageId := some .zero
  correlationId := .zero
  deadlineMs := 0
  operands := List.replicate (2 ^ 32 * n) .null
  sorted := fun op hop => by
    rw [List.eq_of_mem_replicate hop]
    exact .of_leaf trivial trivial

/-- Nothing in an operand without a value is out of bounds. -/
theorem admits_null (policy : SafetyPolicy) : policy.Admits 0 .null := by
  rw [SafetyPolicy.admits_iff]
  refine ⟨⟨UInt32.zero_le, trivial⟩, ?_⟩
  intro c hc
  cases hc

/-- Every gate lets such a request through. -/
theorem passes_emptyOperands (gate : AiclGate) (n : Nat) : gate.Passes (emptyOperands n) := by
  have hnull : ∀ op ∈ (emptyOperands n).operands, op = .null := fun op hop =>
    List.eq_of_mem_replicate hop
  have hcount : UInt32.ofNat (emptyOperands n).operands.length = 0 := by
    rw [emptyOperands, List.length_replicate, ← UInt32.toNat_inj, UInt32.toNat_ofNat',
      Nat.mul_mod_right]
    rfl
  refine ⟨fun op hop => ?_, ?_, fun op hop => ?_⟩
  · rw [hnull op hop]
    trivial
  · rw [hcount]
    exact UInt32.zero_le
  · rw [hnull op hop]
    exact admits_null gate.policy

/-- Operands take a byte each at least. -/
theorem length_le_encodeItems : ∀ ops : List Operand, ops.length ≤ (encodeItems ops).length
  | [] => Nat.le_refl 0
  | op :: ops => by
      have hrest := length_le_encodeItems ops
      simp only [encodeItems, List.length_cons, List.length_append]
      omega

/-- A packet takes more bytes than it has operands. -/
theorem operands_lt_writtenSize (pkt : AiclPacket) : pkt.operands.length < pkt.writtenSize := by
  have hitems := length_le_encodeItems pkt.operands
  rw [← payloadBytes_writtenSize, payloadBytes, List.length_cons, List.length_append]
  omega

/-- The gate bounds the payload of a packet exactly when it refuses the packet or the
packet is small enough by itself, and no gate bounds the payload of every packet. -/
theorem boundsPayload_iff (crc32 : Bytes → UInt32) (gate : AiclGate) :
    (∀ pkt, gate.BoundsPayload crc32 pkt ↔
      ¬ gate.Passes pkt ∨ pkt.writtenSize ≤ gate.policy.maxPayloadSize) ∧
    ∃ pkt, pkt.messageId.isSome ∧ ¬ gate.BoundsPayload crc32 pkt := by
  constructor
  · intro pkt
    by_cases hpasses : gate.Passes pkt
    · rw [boundsPayload_iff_of_passes hpasses]
      exact (or_iff_right (not_not.mpr hpasses)).symm
    · refine iff_of_true (fun decision _ hok => ?_) (.inl hpasses)
      have ⟨hregistered, hadmitted⟩ := checkAndValidate_isOk_iff.mp ⟨decision, hok⟩
      exact absurd ⟨hregistered, hadmitted⟩ hpasses
  · refine ⟨emptyOperands (gate.policy.maxPayloadSize + 1), rfl, ?_⟩
    rw [boundsPayload_iff_of_passes (passes_emptyOperands gate _)]
    have hlt := operands_lt_writtenSize (emptyOperands (gate.policy.maxPayloadSize + 1))
    have hcount : (emptyOperands (gate.policy.maxPayloadSize + 1)).operands.length =
        2 ^ 32 * (gate.policy.maxPayloadSize + 1) := List.length_replicate
    omega

/-- The new gate lets a byte string within its bound through. -/
theorem passes_zeros {n : Nat} (hn : n ≤ 2 ^ 24) : new.Passes (SessionPair.zeros n) := by
  refine ⟨List.forall_mem_singleton.mpr trivial, ?_, List.forall_mem_singleton.mpr ?_⟩
  · show UInt32.ofNat 1 ≤ 1024
    decide
  · rw [SafetyPolicy.admits_iff]
    refine ⟨⟨UInt32.zero_le, ?_⟩, fun c hc => ?_⟩
    · show (List.replicate n (0 : UInt8)).length ≤ 2 ^ 24
      rw [List.length_replicate]
      exact hn
    · cases hc

/-- The new gate lets a byte string of the largest payload through, and its tag and
its length come on top of it. -/
theorem checkAndValidate_passes_bulk :
    ¬ ∀ (gate : AiclGate) (pkt : AiclPacket), pkt.messageId.isSome →
      gate.BoundsPayload Crc32.ieee pkt := by
  intro h
  have hsize := (boundsPayload_iff_of_passes (passes_zeros (Nat.le_refl _))).mp (h new _ rfl)
  rw [← payloadBytes_writtenSize, payloadBytes_length (SessionPair.zeros_spellable _).noVendor,
    SessionPair.zeros_payloadSize] at hsize
  have hlimit : new.policy.maxPayloadSize = 2 ^ 24 := rfl
  omega

end AiclGate

end Aicl.CoreRust

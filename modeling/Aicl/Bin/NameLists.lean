import Aicl.Bin.PacketSizes
import Aicl.Bin.ReadBack

/-!
# Lists of names on the wire

Targets, capabilities and target capabilities are written with commas between the
names and split at the commas again; nothing marks a comma within a name, and empty
parts are left out.

Main results:

- Theorem {lit}`readNames_iff`: when one list of names is read back.
- Theorem {lit}`names_returned_iff`: when a view returns the lists of names of a
  packet.
-/

namespace Aicl.Bin

open Isa.Frame

variable {crc32 : Bytes → UInt32} {p : Packet} {checksum : Bool} {frame : Bytes}

/-- A name that keeps its place between commas. -/
def Separable (name : Utf8String) : Prop := name.length ≠ 0 ∧ 0x2C ∉ name.bytes

instance (name : Utf8String) : Decidable (Separable name) := by
  unfold Separable
  infer_instance

/-- A list of names is read back exactly when all of them are separable. -/
theorem readNames_iff (names : List Utf8String) :
    readOr [] splitNames (if (!names.isEmpty) = true then some (joinComma names) else none) =
      .ok names ↔ ∀ name ∈ names, Separable name := by
  cases names with
  | nil => exact iff_of_true rfl (List.forall_mem_nil _)
  | cons name names =>
      have hwritten : (!(name :: names).isEmpty) = true := rfl
      have hempty : splitNames [] = .ok [] := rfl
      rw [if_pos hwritten, readOr_of_empty hempty]
      exact splitNames_joinComma_iff (name :: names)

/-- A view returns the lists of names of a packet. -/
structure NamesReturned (p : Packet) (v : PacketView) : Prop where
  targets : v.targets = .ok p.targets
  capabilities : v.capabilities = .ok p.capabilities
  targetCaps : v.targetCaps = .ok p.targetCaps

section Shown

variable {exts : List Symbol} {v : PacketView} (h : Shows p checksum exts v)
  (hexts : p.appendExtensions = .ok exts) (hplain : ∀ s ∈ p.symbols, ¬ IsExtension s)

include h hexts hplain

/-- The targets are returned exactly when all of them are separable. -/
theorem Shows.targets_iff : v.targets = .ok p.targets ↔ ∀ name ∈ p.targets, Separable name := by
  rw [h.targets_eq hexts hplain, readNames_iff]

/-- The capabilities are returned exactly when all of them are separable. -/
theorem Shows.capabilities_iff :
    v.capabilities = .ok p.capabilities ↔ ∀ name ∈ p.capabilities, Separable name := by
  rw [PacketView.capabilities, h.extOne_of_ok hexts hplain 7 rfl, readNames_iff]

/-- The target capabilities are returned exactly when all of them are separable. -/
theorem Shows.targetCaps_iff :
    v.targetCaps = .ok p.targetCaps ↔ ∀ name ∈ p.targetCaps, Separable name := by
  rw [PacketView.targetCaps, h.extOne_of_ok hexts hplain 16 rfl, readNames_iff]

end Shown

/-- A frame is read exactly when its payload keeps the limit of the decoder, and a
view returns the lists of names of a packet without vendor symbols exactly when no
name is empty or contains a comma. -/
theorem names_returned_iff (crc32 : Bytes → UInt32) (p : Packet) (checksum : Bool) {frame : Bytes}
    (h : encode crc32 p checksum = .ok frame) (hplain : ∀ s ∈ p.symbols, ¬ IsExtension s) :
    ((∃ v, decode crc32 frame = .ok v) ↔ p.payloadSize ≤ maxTlvValueSize) ∧
      ∀ v, decode crc32 frame = .ok v →
        (NamesReturned p v ↔
          ∀ name ∈ p.targets ++ (p.capabilities ++ p.targetCaps), Separable name) := by
  rw [← payloadLen_of_encode h]
  refine ⟨decode_isOk_iff h, ?_⟩
  intro v hv
  have ⟨exts, hexts, hshows⟩ := shows_of_decode h hv
  rw [List.forall_mem_append, List.forall_mem_append, ← hshows.targets_iff hexts hplain,
    ← hshows.capabilities_iff hexts hplain, ← hshows.targetCaps_iff hexts hplain]
  constructor
  · intro hnames
    exact ⟨hnames.targets, hnames.capabilities, hnames.targetCaps⟩
  · intro ⟨htargets, hcapabilities, htargetCaps⟩
    exact ⟨htargets, hcapabilities, htargetCaps⟩

/-- A packet with the given targets. -/
def targetedPacket (targets : List Utf8String) : Packet where
  sessionId := List.replicate 16 0
  messageId := List.replicate 16 1
  targets := targets
  sessionId_length := zeroId_length
  messageId_length := oneId_length
  correlationId_length := zeroId_length
  symbols_wellFormed := noSymbols_wellFormed
  responseSymbols_wellFormed := noSymbols_wellFormed
  metadata_nodupKeys := noMetadata_nodupKeys

/-- Two plain targets are returned. -/
theorem names_returned_sample :
    ∃ frame v, encode Crc32.ieee (targetedPacket [.ofAscii "a", .ofAscii "b"]) false = .ok frame ∧
      decode Crc32.ieee frame = .ok v ∧
        NamesReturned (targetedPacket [.ofAscii "a", .ofAscii "b"]) v := by
  have hok : (encode Crc32.ieee (targetedPacket [.ofAscii "a", .ofAscii "b"]) false >>=
      decode Crc32.ieee).isOk = true := by
    decide +kernel
  have ⟨v, hrun⟩ := Outcome.isOk_iff.mp hok
  have ⟨frame, hframe, hv⟩ := Outcome.bind_eq_ok_iff.mp hrun
  refine ⟨frame, v, hframe, hv, ?_⟩
  apply ((names_returned_iff Crc32.ieee _ false hframe (List.forall_mem_nil _)).2 v hv).mpr
  decide

/-- The one target that is a name with a comma is not returned. -/
theorem names_not_returned :
    ¬ ∀ (crc32 : Bytes → UInt32) (p : Packet) (checksum : Bool) (frame : Bytes) (v : PacketView),
      encode crc32 p checksum = .ok frame → (∀ s ∈ p.symbols, ¬ IsExtension s) →
        decode crc32 frame = .ok v → NamesReturned p v := by
  intro h
  have hok : (encode Crc32.ieee (targetedPacket [.ofAscii "a,b"]) false >>=
      decode Crc32.ieee).isOk = true := by
    decide +kernel
  have ⟨v, hrun⟩ := Outcome.isOk_iff.mp hok
  have ⟨frame, hframe, hv⟩ := Outcome.bind_eq_ok_iff.mp hrun
  have hplain : ∀ s ∈ (targetedPacket [.ofAscii "a,b"]).symbols, ¬ IsExtension s :=
    List.forall_mem_nil _
  have ⟨exts, hexts, hshows⟩ := shows_of_decode hframe hv
  have hreturned := (h _ _ _ frame v hframe hplain hv).targets
  exact absurd ((hshows.targets_iff hexts hplain).mp hreturned) (by decide)

end Aicl.Bin

import Aicl.CoreRust.GatePolicy
import Aicl.CoreRust.PacketBuilder
import Aicl.CoreRust.PacketRoundTrip
import Aicl.Foundation.Crc32
import Aicl.Foundation.Depths

/-!
# The size checks of packets

{lit}`validate` of {lit}`core-rust/src/operand.rs` and {lit}`core-rust/src/packet.rs`.  They
stop at the first text, byte string or key that is too long; the number of operands and
their depth are left to the gate.

Main results:

- Theorem {lit}`Operand.validate_eq_first`: the check of an operand reports the first of
  its violations in reading order.
- Theorem {lit}`AiclPacket.validate_received`: the check of a packet that was received, beside
  the check of the gate under the default policy.
-/

namespace Aicl.CoreRust

open Nested (AtDepth)
open Outcome (failIf first)

/-- {lit}`MAX_STR_SIZE`. -/
def maxStrSize : Nat := 64 * 1024

/-- {lit}`MAX_BYTES_SIZE`. -/
def maxBytesSize : Nat := 16 * 1024 * 1024

/-- What is printed for a text. -/
def displayText (s : Utf8String) : String := (String.fromUTF8? ⟨s.bytes.toArray⟩).getD ""

/-! ## The checks -/

/-- The error of a text. -/
def strTooLong (s : Utf8String) : AiclError :=
  .new .payloadTooLarge s!"STR {s.length} > limit {maxStrSize}"

/-- The error of a byte string. -/
def bytesTooLong (b : Bytes) : AiclError :=
  .new .payloadTooLarge s!"BYTES {b.length} > limit {maxBytesSize}"

/-- The error of a key. -/
def keyTooLong (k : Utf8String) : AiclError :=
  .new .payloadTooLarge s!"MAP key '{displayText k}' > limit"

mutual

/-- {lit}`Operand::validate`. -/
def Operand.validate : Operand → AiclResult Unit
  | .str s => failIf (maxStrSize < s.length) (strTooLong s)
  | .bytes b => failIf (maxBytesSize < b.length) (bytesTooLong b)
  | .list items => validateItems items
  | .map entries => validateEntries entries
  | _ => .ok ()

/-- The loop over the items of a list, or over the operands of a packet. -/
def validateItems : List Operand → AiclResult Unit
  | [] => .ok ()
  | item :: items => do
      item.validate
      validateItems items

/-- The loop over the entries of a map. -/
def validateEntries : List (Utf8String × Operand) → AiclResult Unit
  | [] => .ok ()
  | (k, v) :: entries => do
      failIf (maxStrSize < k.length) (keyTooLong k)
      v.validate
      validateEntries entries

end

/-- {lit}`is_vendor`. -/
def AiclOpcode.isVendor : AiclOpcode → Bool
  | .vendor _ => true
  | _ => false

/-- {lit}`AiclPacket::validate`. -/
def AiclPacket.validate (pkt : AiclPacket) : AiclResult Unit :=
  if pkt.opcode.isVendor then .ok () else validateItems pkt.operands

/-! ## Violations -/

mutual

/-- Everything in an operand that is too long, in reading order: a key comes before its
value. -/
def Operand.violations : Operand → List AiclError
  | .str s => if maxStrSize < s.length then [strTooLong s] else []
  | .bytes b => if maxBytesSize < b.length then [bytesTooLong b] else []
  | .list items => violationsOfItems items
  | .map entries => violationsOfEntries entries
  | _ => []

/-- Those of the items of a list. -/
def violationsOfItems : List Operand → List AiclError
  | [] => []
  | item :: items => item.violations ++ violationsOfItems items

/-- Those of the entries of a map. -/
def violationsOfEntries : List (Utf8String × Operand) → List AiclError
  | [] => []
  | (k, v) :: entries =>
      (if maxStrSize < k.length then [keyTooLong k] else []) ++ v.violations ++
        violationsOfEntries entries

end

/-- The loop over items reports their first violation. -/
theorem validateItems_eq_first {items : List Operand}
    (h : ∀ op ∈ items, op.validate = first op.violations) :
    validateItems items = first (violationsOfItems items) := by
  induction items with
  | nil => rfl
  | cons item items ih =>
      rw [validateItems, violationsOfItems, Outcome.first_append, h item List.mem_cons_self,
        ih fun op hop => h op (List.mem_cons_of_mem _ hop)]

/-- The loop over entries reports their first violation. -/
theorem validateEntries_eq_first {entries : List (Utf8String × Operand)}
    (h : ∀ e ∈ entries, e.2.validate = first e.2.violations) :
    validateEntries entries = first (violationsOfEntries entries) := by
  induction entries with
  | nil => rfl
  | cons entry entries ih =>
      obtain ⟨k, v⟩ := entry
      rw [validateEntries, violationsOfEntries, Outcome.first_append, Outcome.first_append,
        Outcome.bind_assoc, Outcome.failIf_eq_first, h (k, v) List.mem_cons_self,
        ih fun e he => h e (List.mem_cons_of_mem _ he)]

/-- The check of an operand reports its first violation. -/
theorem Operand.validate_eq_first (op : Operand) : op.validate = first op.violations := by
  induction op using Operand.induct with
  | leaf op hleaf =>
      cases op with
      | list items => exact hleaf.elim
      | map entries => exact hleaf.elim
      | str s => rw [Operand.validate, Operand.violations, Outcome.failIf_eq_first]
      | bytes b => rw [Operand.validate, Operand.violations, Outcome.failIf_eq_first]
      | _ => rw [Operand.validate, Operand.violations, first] <;> simp
  | list items ih =>
      rw [Operand.validate, Operand.violations]
      exact validateItems_eq_first ih
  | map entries ih =>
      rw [Operand.validate, Operand.violations]
      exact validateEntries_eq_first ih

/-! ## What is not too long -/

/-- The lengths of an operand, not of what is nested in it, keep the limits of the
instruction set. -/
def Operand.Fits : Operand → Prop
  | .str s => s.length ≤ maxStrSize
  | .bytes b => b.length ≤ maxBytesSize
  | .map entries => ∀ e ∈ entries, e.1.length ≤ maxStrSize
  | _ => True

/-- The texts and keys of an operand, not of what is nested in it, keep their limit. -/
def Operand.TextsFit : Operand → Prop
  | .str s => s.length ≤ maxStrSize
  | .map entries => ∀ e ∈ entries, e.1.length ≤ maxStrSize
  | _ => True

/-- The default policy has the limits of the instruction set. -/
theorem admitsLengths_default_iff (op : Operand) :
    SafetyPolicy.default.AdmitsLengths op ↔ op.Fits := by
  cases op <;> exact Iff.rfl

/-- A guard has no error exactly when its condition is false. -/
theorem guard_eq_nil_iff {c : Prop} [Decidable c] {e : AiclError} :
    (if c then [e] else []) = [] ↔ ¬ c := by
  split <;> simp [*]

/-- No item has violations. -/
theorem violationsOfItems_eq_nil_iff {items : List Operand} :
    violationsOfItems items = [] ↔ ∀ op ∈ items, op.violations = [] := by
  induction items with
  | nil => simp [violationsOfItems]
  | cons item items ih =>
      rw [violationsOfItems, List.append_eq_nil_iff, ih, List.forall_mem_cons]

/-- No key is too long and no value has violations. -/
theorem violationsOfEntries_eq_nil_iff {entries : List (Utf8String × Operand)} :
    violationsOfEntries entries = [] ↔
      ∀ e ∈ entries, e.1.length ≤ maxStrSize ∧ e.2.violations = [] := by
  induction entries with
  | nil => simp [violationsOfEntries]
  | cons entry entries ih =>
      obtain ⟨k, v⟩ := entry
      rw [violationsOfEntries, List.append_eq_nil_iff, List.append_eq_nil_iff, ih,
        List.forall_mem_cons, guard_eq_nil_iff, not_lt]

/-- An operand has no violations exactly when everything in it keeps the limits. -/
theorem Operand.violations_eq_nil_iff (op : Operand) : op.violations = [] ↔ op.All Fits := by
  induction op using Operand.induct with
  | leaf op hleaf =>
      rw [all_leaf_iff hleaf]
      cases op with
      | list items => exact hleaf.elim
      | map entries => exact hleaf.elim
      | str s => rw [Operand.violations, guard_eq_nil_iff, not_lt, Fits]
      | bytes b => rw [Operand.violations, guard_eq_nil_iff, not_lt, Fits]
      | _ => simp [Operand.violations, Fits]
  | list items ih =>
      rw [Operand.violations, violationsOfItems_eq_nil_iff, all_list_iff]
      simp only [Fits, true_and]
      exact forall₂_congr ih
  | map entries ih =>
      rw [Operand.violations, violationsOfEntries_eq_nil_iff, all_map_iff, Fits,
        ← forall₂_and]
      exact forall₂_congr fun e he => and_congr_right' (ih e he)

/-- The check of a packet passes vendor opcodes, and reports the first violation of any
other packet. -/
theorem AiclPacket.validate_eq_first (pkt : AiclPacket) :
    pkt.validate =
      if pkt.opcode.isVendor then .ok () else first (violationsOfItems pkt.operands) := by
  rw [AiclPacket.validate, validateItems_eq_first fun op _ => op.validate_eq_first]

/-! ## Depths and lengths apart -/

/-- The bounds of a policy on an operand are those on its depth and those on its lengths. -/
theorem SafetyPolicy.within_iff (policy : SafetyPolicy) (op : Operand) :
    policy.Within op ↔
      ¬ op.NestedTo (policy.maxNestingDepth.toNat + 1) ∧ op.All policy.AdmitsLengths := by
  constructor
  · intro h
    constructor
    · rintro ⟨x, hx⟩
      have hle := (h _ x hx).1
      omega
    · intro x hx
      have ⟨d, hd⟩ := Nested.within_iff.mp hx
      exact (h d x hd).2
  · rintro ⟨hshallow, hlengths⟩ d x hx
    refine ⟨?_, hlengths x (Nested.within_iff.mpr ⟨d, hx⟩)⟩
    by_contra hdeep
    exact hshallow (hx.exists_of_le (by omega))

/-! ## Sizes on the wire -/

/-- An operand of a sequence needs no more bytes than the sequence. -/
theorem wireSize_le_of_mem {op : Operand} : ∀ {ops : List Operand}, op ∈ ops →
    wireSize op ≤ wireSizes ops
  | first :: ops, h => by
      rw [wireSizes]
      rcases List.mem_cons.mp h with rfl | hmem
      · exact Nat.le_add_right _ _
      · exact (wireSize_le_of_mem hmem).trans (Nat.le_add_left _ _)

/-- A sequence needs a byte for each operand. -/
theorem length_le_wireSizes (ops : List Operand) : ops.length ≤ wireSizes ops := by
  induction ops with
  | nil => rfl
  | cons op ops ih =>
      have hpos : 0 < wireSize op := by
        cases op <;> simp only [wireSize] <;> omega
      rw [wireSizes, List.length_cons]
      omega

/-- A value of a map needs no more bytes than the entries. -/
theorem wireSize_le_of_mem_entries {e : Utf8String × Operand} :
    ∀ {entries : List (Utf8String × Operand)}, e ∈ entries → wireSize e.2 ≤ entrySizes entries
  | (key, value) :: entries, h => by
      rw [entrySizes]
      rcases List.mem_cons.mp h with rfl | hmem
      · dsimp only
        omega
      · exact (wireSize_le_of_mem_entries hmem).trans (Nat.le_add_left _ _)

/-- What stands directly in an operand needs fewer bytes. -/
theorem wireSize_lt_of_child (op : Operand) :
    ∀ c ∈ Nested.children op, wireSize c < wireSize op := by
  intro c hc
  cases op with
  | list items =>
      have hle : wireSize c ≤ wireSizes items := wireSize_le_of_mem hc
      rw [wireSize]
      omega
  | map entries =>
      rcases List.mem_map.mp hc with ⟨e, he, rfl⟩
      have hle := wireSize_le_of_mem_entries he
      rw [wireSize]
      omega
  | _ => cases hc

/-! ## Packets that were received -/

/-- Everything in an operand of a packet that was read keeps the limits when its texts and
keys do. -/
theorem Operand.fits_iff_of_wireSize {op x : Operand} (hx : Nested.Within x op)
    (hsize : wireSize op ≤ maxPayloadSize) : x.Fits ↔ x.TextsFit := by
  have ⟨d, hd⟩ := Nested.within_iff.mp hx
  have hle := AtDepth.add_le wireSize_lt_of_child hd
  cases x with
  | bytes b =>
      refine iff_of_true ?_ trivial
      have hlimits : maxPayloadSize = maxBytesSize := rfl
      rw [wireSize] at hle
      change b.length ≤ maxBytesSize
      omega
  | _ => exact Iff.rfl

/-- No operand of a packet that was read has violations exactly when texts and keys keep
their limit. -/
theorem violations_received_iff {pkt : AiclPacket} (hsize : pkt.payloadSize ≤ maxPayloadSize) :
    violationsOfItems pkt.operands = [] ↔ ∀ op ∈ pkt.operands, op.All Operand.TextsFit := by
  rw [violationsOfItems_eq_nil_iff]
  refine forall₂_congr fun op hop => ?_
  have hop' : wireSize op ≤ maxPayloadSize := by
    have hle := wireSize_le_of_mem hop
    rw [AiclPacket.payloadSize] at hsize
    omega
  rw [op.violations_eq_nil_iff]
  exact forall₂_congr fun x hx => Operand.fits_iff_of_wireSize hx hop'

/-- Of a packet that the codec read, the check of a packet reports the first violation, and
there is none exactly when texts and keys keep their limit; and a gate with the default policy
admits the operands exactly when texts and keys keep it, there are at most 1024 operands, and
nothing is nested deeper than 32. -/
theorem AiclPacket.validate_received (crc32 : Bytes → UInt32) {data : Bytes} {pkt : AiclPacket}
    (hdecode : AiclCodec.new.decodeToPacket crc32 data = .ok pkt) :
    (pkt.validate =
        if pkt.opcode.isVendor then .ok () else first (violationsOfItems pkt.operands)) ∧
      (violationsOfItems pkt.operands = [] ↔
        ∀ op ∈ pkt.operands, op.All Operand.TextsFit) ∧
      ∀ gate : AiclGate, gate.policy = .default →
        (gate.validatePacket pkt = .ok () ↔
          (∀ op ∈ pkt.operands, op.All Operand.TextsFit) ∧ pkt.operands.length ≤ 1024 ∧
            ∀ op ∈ pkt.operands, ¬ op.NestedTo 33) := by
  have ⟨_, _, hsize, hlimit⟩ := relayable_of_decodeToPacket hdecode
  have hfits := violations_received_iff (hsize.trans hlimit)
  refine ⟨pkt.validate_eq_first, hfits, ?_⟩
  intro gate hpolicy
  have hcount : pkt.operands.length < 2 ^ 32 := by
    have hle := length_le_wireSizes pkt.operands
    have hmax : maxPayloadSize < 2 ^ 32 := by decide
    rw [AiclPacket.payloadSize] at hsize
    omega
  have hdepth : gate.policy.maxNestingDepth.toNat + 1 < 2 ^ 32 := by
    rw [hpolicy]
    decide
  have hwithin : (∀ op ∈ pkt.operands, gate.policy.Within op) ↔
      (∀ op ∈ pkt.operands, op.All Operand.TextsFit) ∧
        ∀ op ∈ pkt.operands, ¬ op.NestedTo 33 := by
    rw [← hfits, violationsOfItems_eq_nil_iff, hpolicy, ← forall₂_and]
    refine forall₂_congr fun op _ => ?_
    have hlengths : op.All SafetyPolicy.default.AdmitsLengths ↔ op.All Operand.Fits :=
      forall₂_congr fun x _ => admitsLengths_default_iff x
    rw [SafetyPolicy.within_iff, hlengths, op.violations_eq_nil_iff, and_comm]
    rfl
  rw [AiclGate.validatePacket_decides hcount hdepth]
  constructor
  · intro h
    have hboth := hwithin.mp h.operands
    have hle := h.count_le
    rw [hpolicy] at hle
    exact ⟨hboth.1, hle, hboth.2⟩
  · rintro ⟨htexts, hle, hshallow⟩
    refine ⟨?_, hwithin.mpr ⟨htexts, hshallow⟩⟩
    rw [hpolicy]
    exact hle

/-- A request to embed two texts. -/
def embedTexts : AiclPacket := .embed (.ofAscii "small") [.ofAscii "AICL", .empty]

/-- The check of the request, sent and received. -/
theorem AiclPacket.validate_received_embedTexts :
    ∃ frame pkt, AiclCodec.new.encode Crc32.ieee .zero embedTexts = .ok frame ∧
      AiclCodec.new.decodeToPacket Crc32.ieee frame = .ok pkt ∧
        (pkt.validate =
            if pkt.opcode.isVendor then .ok () else first (violationsOfItems pkt.operands)) ∧
          (violationsOfItems pkt.operands = [] ↔
            ∀ op ∈ pkt.operands, op.All Operand.TextsFit) ∧
          ∀ gate : AiclGate, gate.policy = .default →
            (gate.validatePacket pkt = .ok () ↔
              (∀ op ∈ pkt.operands, op.All Operand.TextsFit) ∧ pkt.operands.length ≤ 1024 ∧
                ∀ op ∈ pkt.operands, ¬ op.NestedTo 33) := by
  have hok : (AiclCodec.new.encode Crc32.ieee .zero embedTexts >>= fun frame =>
      AiclCodec.new.decodeToPacket Crc32.ieee frame).isOk = true := by
    decide +kernel
  rcases Outcome.isOk_iff.mp hok with ⟨pkt, hrun⟩
  rcases Outcome.bind_eq_ok_iff.mp hrun with ⟨frame, hencode, hdecode⟩
  exact ⟨frame, pkt, hencode, hdecode, validate_received Crc32.ieee hdecode⟩

end Aicl.CoreRust

import Aicl.Bin.OperandsEncode
import Aicl.Bin.Packet

/-!
# What the Python encoder writes

The frame of a packet: a header with the fields of the packet, a payload of the
instruction set with the packet's symbols and one vendor operand for each rich
field, and a trailer when a checksum is asked for.

Main results:

- Theorem {lit}`appendExtensions_vendor`: rich fields are written as vendor
  operands.
- Theorem {lit}`buildPayload_spells`: the payload spells the symbols and the
  extensions.
- Theorem {lit}`encode_eq_ok`: the frame of a packet.
-/

namespace Aicl.Bin

open Isa (Varint Tree DerivesList Payload IsNull)
open Isa.Frame

/-! ## Extensions -/

/-- A vendor operand. -/
def IsExtension (s : Symbol) : Prop :=
  ∃ tag data, s = .other tag data ∧ 0x80 ≤ tag

/-- A step appends vendor operands only. -/
def Appends (step : PyResult (List Symbol)) : Prop :=
  ∀ exts, step = .ok exts → ∀ s ∈ exts, IsExtension s

/-- A step that appends nothing. -/
theorem appends_nil : Appends (pure []) := by
  intro exts h
  cases h
  simp

/-- Two steps, one after the other. -/
theorem Appends.append {step step' : PyResult (List Symbol)} (h : Appends step)
    (h' : Appends step') :
    Appends (step >>= fun first => step' >>= fun rest => pure (first ++ rest)) := by
  intro exts heq s hs
  obtain ⟨first, hfirst, heq⟩ := Outcome.bind_eq_ok_iff.mp heq
  obtain ⟨rest, hrest, heq⟩ := Outcome.bind_eq_ok_iff.mp heq
  cases heq
  rcases List.mem_append.mp hs with hs | hs
  · exact h first hfirst s hs
  · exact h' rest hrest s hs

/-- A field under a vendor tag. -/
theorem appends_extIf {tag : UInt8} (htag : 0x80 ≤ tag) (c : Bool) (raw : PyResult Bytes) :
    Appends (extIf c tag raw) := by
  unfold extIf
  split
  next =>
    intro exts h s hs
    obtain ⟨data, _, h⟩ := Outcome.bind_eq_ok_iff.mp h
    cases h
    obtain rfl := List.mem_singleton.mp hs
    exact ⟨tag, data, rfl, htag⟩
  next => exact appends_nil

/-- A field that may be missing. -/
theorem appends_extOption {α : Type} {tag : UInt8} (htag : 0x80 ≤ tag) (toBytes : α → PyResult Bytes)
    (field : Option α) : Appends (extOption tag toBytes field) := by
  cases field with
  | none => exact appends_nil
  | some a => exact appends_extIf htag true (toBytes a)

/-- A byte string that may be missing. -/
theorem appends_extBytes {tag : UInt8} (htag : 0x80 ≤ tag) (value : Option Bytes) :
    Appends (extBytes tag value) :=
  appends_extIf htag _ _

/-- A list of fields. -/
theorem appends_extEach {α : Type} {tag : UInt8} (htag : 0x80 ≤ tag) (toBytes : α → PyResult Bytes)
    (fields : List α) : Appends (extEach tag toBytes fields) := by
  induction fields with
  | nil => exact appends_nil
  | cons a fields ih => exact (appends_extIf htag true (toBytes a)).append ih

/-- Many steps, one after the other. -/
theorem appends_appendAll {steps : List (PyResult (List Symbol))} (h : ∀ step ∈ steps, Appends step) :
    Appends (appendAll steps) := by
  induction steps with
  | nil => exact appends_nil
  | cons step steps ih =>
      exact (h step List.mem_cons_self).append
        (ih fun step' hstep' => h step' (List.mem_cons_of_mem _ hstep'))

/-- Rich fields are written as vendor operands. -/
theorem appendExtensions_vendor (p : Packet) : Appends p.appendExtensions := by
  refine appends_appendAll ?_
  simp only [List.forall_mem_cons]
  refine ⟨?_, ?_, ?_, ?_, ?_, ?_, ?_, ?_, ?_, ?_, ?_, ?_, ?_, ?_, ?_, ?_, ?_, ?_, ?_, ?_, ?_, ?_, ?_,
    by simp⟩
  all_goals
    first
      | exact appends_extBytes (by decide) _
      | exact appends_extIf (by decide) _ _
      | exact appends_extOption (by decide) _ _
      | exact appends_extEach (by decide) _ _

/-- A vendor operand is written as it is. -/
theorem IsExtension.rounded_eq {s : Symbol} (h : IsExtension s) : s.rounded = s := by
  obtain ⟨tag, data, rfl, _⟩ := h
  rfl

/-- A vendor operand has a tag of its own. -/
theorem IsExtension.wellFormed {s : Symbol} (h : IsExtension s) : s.All Symbol.WellFormed := by
  obtain ⟨tag, data, rfl, htag⟩ := h
  exact Symbol.All.of_leaf trivial (.inl ((Isa.kindOf_eq_vendor_iff tag).mpr htag))

/-! ## Payloads -/

/-- The payload spells the symbols and the extensions under the opcode byte. -/
theorem buildPayload_spells {p : Packet} {payload : Bytes} (h : p.buildPayload = .ok payload)
    (hlen : payload.length < 2 ^ 28) :
    ∃ exts ts, p.appendExtensions = .ok exts ∧ Payload IsNull p.opcodeByte ts payload ∧
      roundedItems (p.symbols ++ exts) = toSymbols ts := by
  obtain ⟨exts, hexts, h⟩ := Outcome.bind_eq_ok_iff.mp h
  obtain ⟨count, hcount, h⟩ := Outcome.bind_eq_ok_iff.mp h
  obtain ⟨body, hbody, h⟩ := Outcome.bind_eq_ok_iff.mp h
  cases h
  rw [encodeVarint_length] at hcount
  cases hcount
  have hwf : ∀ s ∈ p.symbols ++ exts, s.All Symbol.WellFormed := by
    intro s hs
    rcases List.mem_append.mp hs with hs | hs
    · exact p.symbols_wellFormed s hs
    · exact (appendExtensions_vendor p exts hexts s hs).wellFormed
  simp only [List.length_cons, List.length_append] at hlen
  obtain ⟨ts, hts, hitems⟩ := encodeSymbols_spells hwf hbody (by omega)
  have hcount : ts.length = (p.symbols ++ exts).length := by
    rw [← toSymbols_length, ← hitems, roundedItems_eq_map, List.length_map]
  have hle := hts.length_le
  have hvarint : Varint ts.length (Leb128.emit 4 (p.symbols ++ exts).length) :=
    hcount ▸ encodeVarint_length_varint (by omega)
  exact ⟨exts, ts, hexts, .mk hvarint hts, hitems⟩

/-! ## Headers -/

/-- An unsigned number is written with its own digits. -/
theorem packInt_unsigned {w : Nat} {v : Int} {bs : Bytes} (h : packInt false w v = .ok bs) :
    ∃ n : Nat, v = n ∧ n < 256 ^ w ∧ bs = BigEndian.toBytes w n := by
  obtain ⟨⟨hnonneg, hlt⟩, rfl⟩ := packInt_eq_ok_iff.mp h
  obtain ⟨n, rfl⟩ := Int.eq_ofNat_of_zero_le hnonneg
  refine ⟨n, rfl, by exact_mod_cast hlt, ?_⟩
  rw [Int.emod_eq_of_lt hnonneg hlt, Int.toNat_natCast]

/-- Two unsigned numbers in a row. -/
theorem pack_unsigned_pair {w w' : Nat} {v v' : Int} {bs : Bytes}
    (h : pack [((false, w), v), ((false, w'), v')] = .ok bs) :
    ∃ n n' : Nat, v = n ∧ v' = n' ∧ n < 256 ^ w ∧ n' < 256 ^ w' ∧
      bs = BigEndian.toBytes w n ++ BigEndian.toBytes w' n' := by
  obtain ⟨raw, hraw, h⟩ := Outcome.bind_eq_ok_iff.mp h
  obtain ⟨rest, hrest, h⟩ := Outcome.bind_eq_ok_iff.mp h
  obtain ⟨raw', hraw', hrest⟩ := Outcome.bind_eq_ok_iff.mp hrest
  obtain ⟨_, hnil, hrest⟩ := Outcome.bind_eq_ok_iff.mp hrest
  cases hnil
  cases hrest
  cases h
  obtain ⟨n, hv, hn, rfl⟩ := packInt_unsigned hraw
  obtain ⟨n', hv', hn', rfl⟩ := packInt_unsigned hraw'
  exact ⟨n, n', hv, hv', hn, hn', by rw [List.append_nil]⟩

/-- A header carries the fields of a packet, these flags and this length. -/
structure HeaderFields (p : Packet) (flags : Int) (n : Nat) (h : Isa.Frame.Header) : Prop where
  version_eq : h.version = 0x0100
  flags_eq : (h.flags : Int) = flags
  flags_lt : h.flags < 2 ^ 16
  messageId_eq : h.messageId = p.messageId
  correlationId_eq : h.correlationId = p.correlationId
  deadlineMs_eq : (h.deadlineMs : Int) = p.deadlineMs
  deadlineMs_lt : h.deadlineMs < 2 ^ 32
  payloadLen_eq : h.payloadLen = n
  payloadLen_lt : n < 2 ^ 32

/-- The declared length keeps all of its digits. -/
theorem HeaderFields.payloadLen_mod {p : Packet} {flags : Int} {n : Nat} {h : Isa.Frame.Header}
    (hfields : HeaderFields p flags n h) : h.payloadLen % 2 ^ 32 = n := by
  rw [hfields.payloadLen_eq, Nat.mod_eq_of_lt hfields.payloadLen_lt]

/-- A frame with such a header declares the length. -/
theorem HeaderFields.declared {crc32 : Bytes → UInt32} {p : Packet} {flags : Int} {n : Nat}
    {h : Isa.Frame.Header} (hfields : HeaderFields p flags n h) (body trailer : Bytes) :
    payloadLen ((h.bytes crc32 ++ body) ++ trailer) = n := by
  rw [List.append_assoc, payloadLen_bytes, hfields.payloadLen_mod]

/-- The header of a packet. -/
theorem packHeader_eq_ok {crc32 : Bytes → UInt32} {p : Packet} {flags : Int} {n : Nat}
    {header : Bytes}
    (h : packHeader crc32 p.version flags p.messageId p.correlationId p.deadlineMs n = .ok header) :
    ∃ fields, HeaderFields p flags n fields ∧ header = fields.bytes crc32 := by
  unfold packHeader raiseIf at h
  obtain ⟨_, hversion, h⟩ := Outcome.bind_eq_ok_iff.mp h
  obtain ⟨_, _, h⟩ := Outcome.bind_eq_ok_iff.mp h
  obtain ⟨_, _, h⟩ := Outcome.bind_eq_ok_iff.mp h
  obtain ⟨_, _, h⟩ := Outcome.bind_eq_ok_iff.mp h
  obtain ⟨_, _, h⟩ := Outcome.bind_eq_ok_iff.mp h
  obtain ⟨words, hwords, h⟩ := Outcome.bind_eq_ok_iff.mp h
  obtain ⟨tail, htail, h⟩ := Outcome.bind_eq_ok_iff.mp h
  cases h
  obtain ⟨version, flags', hv, hflags, _, hflags_lt, rfl⟩ := pack_unsigned_pair hwords
  obtain ⟨deadline, n', hdeadline, hn, hdeadline_lt, hn_lt, rfl⟩ := pack_unsigned_pair htail
  obtain rfl : n = n' := Int.ofNat_inj.mp hn
  have hsupported : p.version ∈ supportedVersions := by simpa using hversion
  have hcurrent : (version : Int) = 0x0100 := by
    rw [hv] at hsupported
    simpa [supportedVersions] using hsupported
  refine ⟨⟨version, flags', p.messageId, p.correlationId, deadline, n, p.messageId_length,
    p.correlationId_length⟩, ?_, ?_⟩
  · exact ⟨Int.ofNat_inj.mp hcurrent, hflags.symm, hflags_lt, rfl, rfl, hdeadline.symm, hdeadline_lt, rfl, hn_lt⟩
  · simp only [Isa.Frame.Header.bytes, Isa.Frame.Header.covered, List.append_assoc]

/-! ## Frames -/

/-- The flags that the encoder writes. -/
def wireFlags (p : Packet) (checksum : Bool) : Int :=
  if checksum then p.flags.lor FLAG_HAS_TRAILER else p.flags

/-- The written flags announce a trailer exactly when a checksum is asked for, if
the flags of the packet do not announce one already. -/
theorem wireFlags_trailer {p : Packet} {checksum : Bool}
    (h : checksum = false → p.flags.land FLAG_HAS_TRAILER = 0) {w : Nat}
    (hw : (w : Int) = wireFlags p checksum) : w &&& 0x0100 ≠ 0 ↔ checksum = true := by
  cases checksum with
  | false =>
      have hclear := h rfl
      have hflags : p.flags = w := hw.symm
      rw [hflags] at hclear
      simpa using Int.ofNat_inj.mp hclear
  | true =>
      have hor : (w : Int) = p.flags.lor FLAG_HAS_TRAILER := hw
      cases hflags : p.flags with
      | ofNat n =>
          rw [hflags] at hor
          obtain rfl : w = n ||| 0x0100 := Int.ofNat_inj.mp hor
          rw [Nat.and_or_distrib_right, Nat.and_self]
          simp [Nat.or_eq_zero_iff]
      | negSucc n =>
          rw [hflags] at hor
          cases hor

/-- The trailer that the encoder writes after header and payload. -/
def trailerOf (crc32 : Bytes → UInt32) (checksum : Bool) (covered : Bytes) : Bytes :=
  if checksum then BigEndian.toBytes 4 (crc32 covered).toNat else []

/-- The frame of a packet: header, payload, trailer. -/
theorem encode_eq_ok {crc32 : Bytes → UInt32} {p : Packet} {checksum : Bool} {bytes : Bytes}
    (h : encode crc32 p checksum = .ok bytes) :
    ∃ payload fields, p.buildPayload = .ok payload ∧
      HeaderFields p (wireFlags p checksum) payload.length fields ∧
      bytes = (fields.bytes crc32 ++ payload) ++
        trailerOf crc32 checksum (fields.bytes crc32 ++ payload) := by
  obtain ⟨payload, hpayload, h⟩ := Outcome.bind_eq_ok_iff.mp h
  obtain ⟨header, hheader, h⟩ := Outcome.bind_eq_ok_iff.mp h
  obtain ⟨fields, hfields, rfl⟩ := packHeader_eq_ok hheader
  refine ⟨payload, fields, hpayload, hfields, ?_⟩
  cases checksum with
  | true =>
      cases h
      rfl
  | false =>
      cases h
      exact (List.append_nil _).symm

end Aicl.Bin

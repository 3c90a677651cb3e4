import Aicl.CoreRust.SessionRuns

/-!
# The sizes that the encoder states

A payload as the Rust encoder puts it together: lengths, counts, and bytes that it
copies.  The encoder casts every length, and the size of the whole payload, to 32
bits, and its varint writer stops after four bytes.

Main results:

- Theorem {lit}`layout_payloadPieces`: the pieces of a payload are what is written.
- Theorem {lit}`decodeVarint_encodeLen_iff`: a length is read back exactly when it
  fits a varint.
- Theorem {lit}`encode_statesSizes_iff`: when an encoded packet says how large its
  parts are.
-/

namespace Aicl.CoreRust

open Isa.Frame

/-! ## Written lengths -/

/-- The width in which the encoder writes a length. -/
def lenWidth (n : Nat) : Nat :=
  let cut := n % 2 ^ 32
  if cut < 2 ^ 7 then 1
  else if cut < 2 ^ 14 then 2
  else if cut < 2 ^ 21 then 3
  else 4

/-- A length is written in its width. -/
theorem encodeLen_length (n : Nat) : (encodeLen n).length = lenWidth n := by
  unfold encodeLen encodeVarint
  rw [encodeVarintLoop_eq, UInt32.toNat_ofNat']
  exact Leb128.emit_four_length (n % 2 ^ 32)

/-- A written length is read back exactly when it fits a varint. -/
theorem decodeVarint_encodeLen_iff (n : Nat) (post : Bytes) :
    (∃ v, decodeVarint (encodeLen n ++ post) = .ok (v, lenWidth n) ∧ v.toNat = n) ↔
      n < 2 ^ 28 := by
  constructor
  · intro ⟨v, hread, hv⟩
    have ⟨bs, _, _, hvarint, _⟩ := decodeVarint_eq_ok_iff.mp hread
    rw [← hv]
    exact hvarint.lt
  · intro hlt
    refine ⟨UInt32.ofNat n, ?_, UInt32.toNat_ofNat_of_lt' (hlt.trans (by decide))⟩
    rw [decodeVarint_append (encodeLen_varint hlt), encodeLen_length]

/-! ## The pieces of a payload -/

/-- A piece of a payload: a length or a count, or bytes that are copied. -/
inductive Piece where
  | len (n : Nat)
  | raw (bytes : Bytes)

namespace Piece

/-- What the encoder writes for a piece. -/
def bytes : Piece → Bytes
  | .len n => encodeLen n
  | .raw bytes => bytes

/-- How many bytes it writes for it. -/
def size : Piece → Nat
  | .len n => lenWidth n
  | .raw bytes => bytes.length

/-- The size of a piece is what is written for it. -/
theorem bytes_length (piece : Piece) : piece.bytes.length = piece.size := by
  cases piece with
  | len n => exact encodeLen_length n
  | raw bytes => rfl

end Piece

/-- Pieces one after the other. -/
def layout (pieces : List Piece) : Bytes := pieces.flatMap Piece.bytes

/-- Pieces in two parts. -/
theorem layout_append (pieces pieces' : List Piece) :
    layout (pieces ++ pieces') = layout pieces ++ layout pieces' :=
  List.flatMap_append

/-- A first piece. -/
theorem layout_cons (piece : Piece) (pieces : List Piece) :
    layout (piece :: pieces) = piece.bytes ++ layout pieces :=
  List.flatMap_cons

/-- The size of pieces is the sum of their sizes. -/
theorem layout_length (pieces : List Piece) :
    (layout pieces).length = (pieces.map Piece.size).sum := by
  induction pieces with
  | nil => rfl
  | cons piece pieces ih =>
      rw [layout_cons, List.length_append, piece.bytes_length, ih, List.map_cons, List.sum_cons]

mutual

/-- What follows the tag of an operand, piece by piece. -/
def valuePieces : Operand → List Piece
  | .str s => [.len s.length, .raw s.bytes]
  | .bytes b => [.len b.length, .raw b]
  | .list items => .len items.length :: itemPieces items
  | .map m => .len m.length :: entryPieces m
  | .vendor tag data => [.len data.length, .raw (tag :: data)]
  | op => [.raw (encodeValue op)]

/-- The items of a list, piece by piece. -/
def itemPieces : List Operand → List Piece
  | [] => []
  | item :: items => .raw [item.kind.toU8] :: (valuePieces item ++ itemPieces items)

/-- The entries of a map, piece by piece. -/
def entryPieces : List (Utf8String × Operand) → List Piece
  | [] => []
  | (k, v) :: m =>
      .len k.length :: .raw k.bytes :: .raw [v.kind.toU8] :: (valuePieces v ++ entryPieces m)

end

/-- The pieces of items, when the pieces of each are what is written for it. -/
theorem layout_itemPieces {items : List Operand}
    (h : ∀ op ∈ items, layout (valuePieces op) = encodeValue op) :
    layout (itemPieces items) = encodeItems items := by
  induction items with
  | nil => rfl
  | cons item items ih =>
      have hitem := h item List.mem_cons_self
      have hitems := ih fun op hop => h op (List.mem_cons_of_mem _ hop)
      rw [itemPieces, layout_cons, layout_append, hitem, hitems]
      rfl

/-- The pieces of entries, when the pieces of each value are what is written for
it. -/
theorem layout_entryPieces {m : List (Utf8String × Operand)}
    (h : ∀ e ∈ m, layout (valuePieces e.2) = encodeValue e.2) :
    layout (entryPieces m) = encodeEntries m := by
  induction m with
  | nil => rfl
  | cons e m ih =>
      have ⟨k, v⟩ := e
      have hvalue := h (k, v) List.mem_cons_self
      have hentries := ih fun e he => h e (List.mem_cons_of_mem _ he)
      simp only at hvalue
      rw [entryPieces, layout_cons, layout_cons, layout_cons, layout_append, hvalue, hentries]
      rfl

/-- The pieces of an operand are what is written for it. -/
theorem layout_valuePieces (op : Operand) : layout (valuePieces op) = encodeValue op := by
  induction op using Operand.induct with
  | leaf op hleaf =>
      cases op with
      | list items => exact hleaf.elim
      | map m => exact hleaf.elim
      | _ => simp [valuePieces, layout, Piece.bytes, encodeValue]
  | list items ih => rw [valuePieces, layout_cons, layout_itemPieces ih, Piece.bytes, encodeValue]
  | map m ih => rw [valuePieces, layout_cons, layout_entryPieces ih, Piece.bytes, encodeValue]

/-- The payload of a packet, piece by piece. -/
def payloadPieces (pkt : AiclPacket) : List Piece :=
  .raw [pkt.opcode.toU8] :: .len pkt.operands.length :: itemPieces pkt.operands

/-- The pieces of a payload are what is written. -/
theorem layout_payloadPieces (pkt : AiclPacket) :
    layout (payloadPieces pkt) = payloadBytes pkt := by
  rw [payloadPieces, layout_cons, layout_cons, layout_itemPieces fun op _ => layout_valuePieces op]
  rfl

/-- The number of bytes that the payload of a packet takes. -/
def AiclPacket.writtenSize (pkt : AiclPacket) : Nat :=
  ((payloadPieces pkt).map Piece.size).sum

/-- A payload is written in its size. -/
theorem payloadBytes_writtenSize (pkt : AiclPacket) :
    (payloadBytes pkt).length = pkt.writtenSize := by
  rw [← layout_payloadPieces, layout_length, AiclPacket.writtenSize]

/-- The encoder compares what is left of the size after the cast. -/
theorem headerOf_payloadLen (uuidV4 : Id16) (pkt : AiclPacket) :
    (headerOf uuidV4 pkt).payloadLen = pkt.writtenSize % 2 ^ 32 := by
  rw [headerOf, UInt32.toNat_ofNat', payloadBytes_writtenSize]

/-! ## What a frame says about its sizes -/

/-- A frame says how large its parts are: its payload keeps the limit, the header
declares as many bytes as there are, and each length in the payload is read as the
length that was meant. -/
structure StatesSizes (codec : AiclCodec) (pkt : AiclPacket) (frame : Bytes) : Prop where
  within : (frame.drop headerSize).length ≤ codec.maxPayload
  declared : payloadLen frame = (frame.drop headerSize).length
  lengths : ∀ before n after, payloadPieces pkt = before ++ .len n :: after →
    ∃ v, decodeVarint ((frame.drop headerSize).drop (layout before).length) =
      .ok (v, lenWidth n) ∧ v.toNat = n

/-- The encoder returns a frame that says how large its parts are, or reports that
something is too large. -/
def EncodeStatesSizes (crc32 : Bytes → UInt32) (codec : AiclCodec) (uuidV4 : Id16)
    (pkt : AiclPacket) : Prop :=
  (codec.encode crc32 uuidV4 pkt).Sat (StatesSizes codec pkt)
    fun e => e.code = .payloadTooLarge ∨ e.code = .varintOverflow

variable {crc32 : Bytes → UInt32} {codec : AiclCodec} {uuidV4 : Id16} {pkt : AiclPacket}

/-- What an encoded packet says about its sizes. -/
theorem statesSizes_iff :
    StatesSizes codec pkt ((headerOf uuidV4 pkt).bytes crc32 ++ payloadBytes pkt) ↔
      pkt.writtenSize ≤ codec.maxPayload ∧ pkt.writtenSize < 2 ^ 32 ∧
        ∀ n, Piece.len n ∈ payloadPieces pkt → n < 2 ^ 28 := by
  have hdrop : ((headerOf uuidV4 pkt).bytes crc32 ++ payloadBytes pkt).drop headerSize =
      payloadBytes pkt := List.drop_left' (Header.bytes_length crc32 _)
  have hdeclared : payloadLen ((headerOf uuidV4 pkt).bytes crc32 ++ payloadBytes pkt) =
      pkt.writtenSize % 2 ^ 32 := payloadLen_headerOf.trans (headerOf_payloadLen uuidV4 pkt)
  have hsize := payloadBytes_writtenSize pkt
  -- what stands at a length
  have hat : ∀ before n after, payloadPieces pkt = before ++ .len n :: after →
      (payloadBytes pkt).drop (layout before).length = encodeLen n ++ layout after := by
    intro before n after hpieces
    rw [← layout_payloadPieces, hpieces, layout_append, List.drop_left, layout_cons]
    rfl
  constructor
  · intro ⟨hwithin, hstated, hlengths⟩
    rw [hdrop, hsize] at hwithin
    rw [hdrop, hdeclared, hsize] at hstated
    refine ⟨hwithin, by omega, fun n hmem => ?_⟩
    have ⟨before, after, hpieces⟩ := List.append_of_mem hmem
    have hread := hlengths before n after hpieces
    rw [hdrop, hat before n after hpieces] at hread
    exact (decodeVarint_encodeLen_iff n _).mp hread
  · intro ⟨hwithin, hlt, hshort⟩
    constructor
    · rw [hdrop, hsize]
      exact hwithin
    · rw [hdrop, hdeclared, hsize]
      exact Nat.mod_eq_of_lt hlt
    · intro before n after hpieces
      rw [hdrop, hat before n after hpieces]
      apply (decodeVarint_encodeLen_iff n _).mpr
      apply hshort
      rw [hpieces]
      exact List.mem_append_right before List.mem_cons_self

/-- The encoder never misstates a size exactly when it refuses what is left of the
size of the payload after the cast, or the payload keeps the limit, its size fits 32
bits and all lengths in it fit a varint. -/
theorem encode_statesSizes_iff (crc32 : Bytes → UInt32) (codec : AiclCodec) (uuidV4 : Id16)
    (pkt : AiclPacket) :
    EncodeStatesSizes crc32 codec uuidV4 pkt ↔
      codec.maxPayload < pkt.writtenSize % 2 ^ 32 ∨
        (pkt.writtenSize ≤ codec.maxPayload ∧ pkt.writtenSize < 2 ^ 32 ∧
          ∀ n, Piece.len n ∈ payloadPieces pkt → n < 2 ^ 28) := by
  unfold EncodeStatesSizes
  rw [encode_eq, headerOf_payloadLen]
  by_cases hrefused : codec.maxPayload < pkt.writtenSize % 2 ^ 32
  · rw [if_pos hrefused]
    exact iff_of_true (.inl rfl) (.inl hrefused)
  · rw [if_neg hrefused, Outcome.sat_ok, statesSizes_iff]
    exact (or_iff_right hrefused).symm

/-- A frame with a byte string of zeros says how large it is only below four
gibibytes. -/
theorem lt_of_statesSizes_zeros {n : Nat}
    (h : StatesSizes .new (SessionPair.zeros n) (SessionPair.zerosFrame n)) : n < 2 ^ 32 := by
  have hlt := (statesSizes_iff.mp h).2.1
  rw [← payloadBytes_writtenSize, payloadBytes_length (SessionPair.zeros_spellable n).noVendor,
    SessionPair.zeros_payloadSize] at hlt
  omega

/-- A request with a byte string of four gibibytes is encoded, in a frame that
declares a payload of four bytes. -/
theorem encode_misstates_bulk :
    ¬ ∀ (crc32 : Bytes → UInt32) (codec : AiclCodec) (uuidV4 : Id16) (pkt : AiclPacket),
      EncodeStatesSizes crc32 codec uuidV4 pkt := by
  intro h
  apply Nat.lt_irrefl (2 ^ 32)
  apply lt_of_statesSizes_zeros
  exact Outcome.Sat.of_eq_ok (h Crc32.ieee .new .zero (SessionPair.zeros (2 ^ 32)))
    SessionPair.readFrame_bulk.1

end Aicl.CoreRust

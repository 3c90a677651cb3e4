import Aicl.CoreRust.Codec
import Aicl.Foundation.Service

/-!
# The zero-copy path of the Rust core

{lit}`decode_borrowed`, {lit}`BorrowedView` and {lit}`LocalNonce` of
{lit}`core-rust/src/local_path.rs`.  The borrowed decoder repeats the first
checks of {lit}`validate_header` with messages of its own and makes none of the
later ones.

Main definitions:

- Definition {lit}`AiclCodec.decodeBorrowed`: a view that borrows the frame.
- Definition {lit}`AiclCodec.decodeBorrowedToPacket`: the view, then its packet.
- Definition {lit}`LocalNonce.nextId`: message ids from a counter.

Main results:

- Theorem {lit}`LocalNonce.unique_iff`: message ids are unique when a process has one
  generator in use.
-/

namespace Aicl.CoreRust

open Outcome (failIf index)

variable (crc32 : Bytes → UInt32)

/-- A view that borrows directly from the source buffer. -/
structure BorrowedView where
  data : Bytes
  payloadOffset : Nat
  payloadLength : Nat
  hasTrailer : Bool
  flags_ : UInt16
deriving DecidableEq, Repr

/-- The messages of {lit}`decode_borrowed`. -/
def borrowedMessages : PreludeMessages where
  short n := s!"buffer {n} < header size {headerSize}"
  magic _ := "invalid magic"
  version _ := "version major != 1"
  headerCrc _ _ := "header CRC mismatch"

/-- {lit}`decode_borrowed`; the settings of the codec are not looked at. -/
def AiclCodec.decodeBorrowed (_codec : AiclCodec) (data : Bytes) : AiclResult BorrowedView := do
  checkPrelude crc32 borrowedMessages data
  let flags ← wordU16 data 6
  let payloadLen ← wordU32 data 44
  let total := headerSize + payloadLen.toNat
  failIf (data.length < total) (.new .truncated "truncated")
  pure
    { data
      payloadOffset := headerSize
      payloadLength := payloadLen.toNat
      hasTrailer := flags &&& 0x0100 != 0
      flags_ := flags }

namespace BorrowedView

/-- {lit}`opcode`. -/
def opcode (v : BorrowedView) : AiclResult UInt8 := index v.data headerSize

/-- {lit}`to_packet`. -/
def toPacket (v : BorrowedView) : AiclResult AiclPacket := decodeToPacketFromSlice v.data

end BorrowedView

/-- The borrowed path to a packet. -/
def AiclCodec.decodeBorrowedToPacket (codec : AiclCodec) (data : Bytes) :
    AiclResult AiclPacket := do
  let view ← codec.decodeBorrowed crc32 data
  view.toPacket

/-- The borrowed path with a look at the opcode on the way. -/
def AiclCodec.decodeBorrowedOpcode (codec : AiclCodec) (data : Bytes) :
    AiclResult (UInt8 × AiclPacket) := do
  let view ← codec.decodeBorrowed crc32 data
  let opcode ← view.opcode
  let packet ← view.toPacket
  pure (opcode, packet)

/-! ## Message ids of the local path -/

/-- Atomic nonce generator for local-path message IDs. -/
structure LocalNonce where
  counter : UInt64
deriving DecidableEq, Repr

namespace LocalNonce

/-- {lit}`LocalNonce::new`. -/
def new : LocalNonce := ⟨1⟩

/-- The identifier of a counter: eight zero bytes, then the counter, least
significant byte first. -/
def idOf (n : UInt64) : Id16 where
  bytes := List.replicate 8 0 ++ (writeU64 n).reverse
  length_eq := by simp

/-- {lit}`next_id`. -/
def nextId (nonce : LocalNonce) : Id16 × LocalNonce := (idOf nonce.counter, ⟨nonce.counter + 1⟩)

/-- {lit}`correlation_id`: the second half is inverted. -/
def correlationId (requestId : Id16) : Id16 where
  bytes := requestId.bytes.take 8 ++ (requestId.bytes.drop 8).map (· ^^^ 0xFF)
  length_eq := by simp [requestId.length_eq]

@[simp] theorem correlationId_bytes (requestId : Id16) :
    (correlationId requestId).bytes =
      requestId.bytes.take 8 ++ (requestId.bytes.drop 8).map (· ^^^ 0xFF) := rfl

/-- Different counters have different identifiers. -/
theorem idOf_injective : Function.Injective idOf := by
  intro m n h
  have hbytes := congrArg Id16.bytes h
  have hcounter : writeU64 m = writeU64 n :=
    List.reverse_injective (List.append_cancel_left hbytes)
  rw [← readU64_writeU64 m, hcounter, readU64_writeU64]

/-- Inverting the second half twice gives the identifier. -/
theorem correlationId_involutive : Function.Involutive correlationId := by
  intro requestId
  have htake : (requestId.bytes.take 8).length = 8 := by
    rw [List.length_take, requestId.length_eq]
    rfl
  have hxor : ∀ b : UInt8, b ^^^ 0xFF ^^^ 0xFF = b := by
    intro b
    rw [UInt8.xor_assoc, UInt8.xor_self, UInt8.xor_zero]
  apply Id16.ext_bytes
  rw [correlationId_bytes, correlationId_bytes, List.take_left' htake, List.drop_left' htake,
    List.map_map]
  simp only [Function.comp_def, hxor, List.map_id_fun', id, List.take_append_drop]

/-! ## Generators in a process -/

variable {ι : Type} [DecidableEq ι]

/-- A call of one of the generators of a process. -/
def callOn (nonces : ι → LocalNonce) (i : ι) : Id16 × (ι → LocalNonce) :=
  ((nonces i).nextId.1, Function.update nonces i (nonces i).nextId.2)

/-- The identifiers that calls of new generators return. -/
def idsOf (calls : List ι) : List Id16 := (Service.run callOn (fun _ => new) calls).1

/-- A call of a generator returns the identifier of its counter, which the calls before
have advanced. -/
theorem getElem?_run (nonces : ι → LocalNonce) (calls : List ι) (k : Nat) :
    (Service.run callOn nonces calls).1[k]? = calls[k]?.map fun i =>
      idOf ((nonces i).counter + UInt64.ofNat ((calls.take k).count i)) := by
  induction calls generalizing nonces k with
  | nil => rfl
  | cons j calls ih =>
      cases k with
      | zero => simp [Service.run, callOn, nextId]
      | succ k =>
          rw [Service.run, List.getElem?_cons_succ, List.getElem?_cons_succ, ih]
          congr 1
          funext i
          congr 1
          by_cases hi : i = j
          · subst hi
            simp [callOn, nextId, UInt64.ofNat_add, UInt64.add_assoc, UInt64.add_comm]
          · simp [callOn, Function.update_of_ne hi, Ne.symm hi]

/-- A generator that is called has a first call, which returns the first identifier. -/
theorem first_id {calls : List ι} {i : ι} (hi : i ∈ calls) :
    ∃ k : Nat, calls[k]? = some i ∧ (idsOf calls)[k]? = some (idOf 1) := by
  rcases List.eq_append_cons_of_mem hi with ⟨before, after, hcalls, hnew⟩
  have hfirst : calls[before.length]? = some i := by
    rw [hcalls, List.getElem?_append_right le_rfl, Nat.sub_self]
    rfl
  have htake : calls.take before.length = before := by
    rw [hcalls]
    exact List.take_left
  have hcount : before.count i = 0 := List.count_eq_zero.mpr hnew
  refine ⟨before.length, hfirst, ?_⟩
  rw [idsOf, getElem?_run, hfirst, Option.map_some, htake, hcount]
  rfl

/-- The calls of one generator return its identifiers in order. -/
theorem ids_of_one {calls : List ι} (hone : ∀ i ∈ calls, ∀ j ∈ calls, i = j) {k : Nat}
    (hk : k < calls.length) : (idsOf calls)[k]? = some (idOf (1 + UInt64.ofNat k)) := by
  have hget := List.getElem?_eq_getElem hk
  have hcount : (calls.take k).count calls[k] = k := by
    have hall : ∀ i ∈ calls.take k, calls[k] = i := by
      intro i hi
      exact hone _ (List.getElem_mem hk) i (List.mem_of_mem_take hi)
    rw [List.count_eq_length.mpr hall, List.length_take_of_le hk.le]
  rw [idsOf, getElem?_run, hget, Option.map_some, hcount]
  rfl

/-- Fewer than 2^64 calls of generators return different identifiers when they are all
calls of one generator, and only then; a correlation id always belongs to one message
id. -/
theorem unique_iff (calls : List ι) (hcalls : calls.length < 2 ^ 64) :
    (idsOf calls).Nodup ∧ Function.Injective correlationId ↔
      ∀ i ∈ calls, ∀ j ∈ calls, i = j := by
  constructor
  · rintro ⟨hnodup, _⟩ i hi j hj
    rcases first_id hi with ⟨k, hk, hid⟩
    rcases first_id hj with ⟨k', hk', hid'⟩
    have hlt : k < (idsOf calls).length := (List.getElem?_eq_some_iff.mp hid).1
    have hsame : k = k' := (List.getElem?_inj hlt hnodup).mp (hid.trans hid'.symm)
    rw [hsame, hk', Option.some_inj] at hk
    exact hk.symm
  · intro hone
    refine ⟨?_, correlationId_involutive.injective⟩
    have hlength : (idsOf calls).length = calls.length := Service.length_answers _ _
    rw [List.nodup_iff_getElem?_ne_getElem?]
    intro k k' hlt hk' heq
    rw [hlength] at hk'
    rw [ids_of_one hone (hlt.trans hk'), ids_of_one hone hk', Option.some_inj] at heq
    have hcounter : UInt64.ofNat k = UInt64.ofNat k' := add_left_cancel (idOf_injective heq)
    have hsize : k' < UInt64.size := hk'.trans hcalls
    have hnat := congrArg UInt64.toNat hcounter
    rw [UInt64.toNat_ofNat_of_lt' (hlt.trans hsize), UInt64.toNat_ofNat_of_lt' hsize] at hnat
    exact hlt.ne hnat

/-- Three calls of one generator. -/
theorem unique_three :
    (idsOf [0, 0, 0]).Nodup ∧ Function.Injective correlationId :=
  (unique_iff [0, 0, 0] (by decide)).mpr (by simp)

end LocalNonce

/-- An end of a channel, which has a generator of its own. -/
structure ChannelEnd where
  channel : Nat
  isA : Bool
deriving DecidableEq, Repr

/-- The two ends of a channel return the same first identifier. -/
theorem LocalNonce.channel_ids_collide :
    ¬ ∀ calls : List ChannelEnd, calls.length < 2 ^ 64 → (idsOf calls).Nodup := by
  intro h
  have hnodup := h [⟨0, true⟩, ⟨0, false⟩] (by decide)
  have hids : idsOf [(⟨0, true⟩ : ChannelEnd), ⟨0, false⟩] = [idOf 1, idOf 1] := rfl
  rw [hids] at hnodup
  exact (List.nodup_cons.mp hnodup).1 (List.mem_singleton_self _)

end Aicl.CoreRust

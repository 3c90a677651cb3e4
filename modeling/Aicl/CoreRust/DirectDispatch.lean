import Aicl.CoreRust.PacketRoundTrip

/-!
# Direct dispatch

{lit}`DispatchTable` of {lit}`core-rust/src/local_path.rs`, which looks at one byte of a
frame, with {lit}`encode_reuse`, which writes every frame into the same buffer, and the
accessors of {lit}`BorrowedView`.  Handlers are functions that may change the world
outside.

Main results:

- Theorem {lit}`BorrowedView.shows_of_toPacket`: a borrowed view shows the packet that is
  read from it.
- Theorem {lit}`DispatchTable.handlerAt_register`: what one registration changes.
- Theorem {lit}`LocalService.serves`: over any run, table and buffer answer as a directory
  of opcodes that encodes afresh and decodes first.
-/

namespace Aicl.CoreRust

open Isa.Frame
open Outcome (failIf index slice)

/-! ## The borrowed view -/

namespace BorrowedView

/-- {lit}`raw`. -/
def raw (v : BorrowedView) : Bytes := v.data

/-- {lit}`flags`. -/
def flags (v : BorrowedView) : AiclResult UInt16 := wordU16 v.data 6

/-- {lit}`message_id`. -/
def messageId (v : BorrowedView) : AiclResult Id16 := idAt v.data 8

/-- {lit}`correlation_id`. -/
def correlationId (v : BorrowedView) : AiclResult Id16 := idAt v.data 24

/-- {lit}`deadline_ms`. -/
def deadlineMs (v : BorrowedView) : AiclResult UInt32 := wordU32 v.data 40

/-- {lit}`payload`. -/
def payload (v : BorrowedView) : AiclResult Bytes :=
  slice v.data v.payloadOffset (v.payloadOffset + v.payloadLength)

/-- {lit}`total_size`. -/
def totalSize (v : BorrowedView) : Nat :=
  v.payloadOffset + v.payloadLength + if v.hasTrailer then 4 else 0

/-- The accessors of the view return the fields of the packet. -/
structure Shows (v : BorrowedView) (pkt : AiclPacket) : Prop where
  opcode : v.opcode = .ok pkt.opcode.toU8
  flags : v.flags = .ok pkt.flags.bits
  messageId : ∃ id, v.messageId = .ok id ∧ pkt.messageId = some id
  correlationId : v.correlationId = .ok pkt.correlationId
  deadlineMs : v.deadlineMs = .ok pkt.deadlineMs
  payload : v.payload = .ok (Isa.Frame.payload v.data)

/-- A borrowed view shows the packet that is read from it. -/
theorem shows_of_toPacket {crc32 : Bytes → UInt32} {codec : AiclCodec} {data : Bytes}
    {v : BorrowedView} {pkt : AiclPacket} (hview : codec.decodeBorrowed crc32 data = .ok v)
    (hpkt : v.toPacket = .ok pkt) : v.Shows pkt := by
  have hborrowed : codec.decodeBorrowedToPacket crc32 data = .ok pkt := by
    rw [AiclCodec.decodeBorrowedToPacket, hview]
    exact hpkt
  have ⟨hok, opcode, ts, ⟨byte, b, post, hpayload, hb, hop⟩, heq⟩ :=
    decodeBorrowedToPacket_eq_ok_iff.mp hborrowed
  have ⟨_, hv⟩ := (@decodeBorrowed_sat crc32 codec data).of_eq_ok hview
  have hlen := hok.prelude.length_le
  simp only [headerSize] at hlen
  have hbyte : opcode.toU8 = byte := (AiclOpcode.toU8_of_fromU8 byte opcode hop).1
  subst hv heq
  constructor
  · rw [packetOf, hbyte]
    exact index_opcode hpayload hb
  · exact wordU16_eq (by simp only [borrowedOf]; omega)
  · exact ⟨_, idAt_eq (by simp only [borrowedOf]; omega), rfl⟩
  · exact idAt_eq (by simp only [borrowedOf]; omega)
  · exact wordU32_eq (by simp only [borrowedOf]; omega)
  · exact slice_payload hok.complete

end BorrowedView

/-! ## The table -/

/-- {lit}`DispatchHandler`: it takes a frame and returns one, and may change the world. -/
abbrev DispatchHandler (σ : Type) := Bytes → σ → AiclResult Bytes × σ

/-- {lit}`DispatchTable`: a place for a handler for each opcode byte. -/
structure DispatchTable (σ : Type) where
  handlers : Vector (Option (DispatchHandler σ)) 256

variable {σ : Type}

namespace DispatchTable

/-- {lit}`DispatchTable::new`. -/
def new : DispatchTable σ := ⟨.replicate 256 none⟩

/-- {lit}`register`. -/
def register (self : DispatchTable σ) (opcode : AiclOpcode) (handler : DispatchHandler σ) :
    DispatchTable σ :=
  ⟨self.handlers.set opcode.toU8.toNat (some handler) opcode.toU8.toNat_lt⟩

/-- The place of an opcode byte. -/
def handlerAt (self : DispatchTable σ) (byte : UInt8) : Option (DispatchHandler σ) :=
  self.handlers.get ⟨byte.toNat, byte.toNat_lt⟩

/-- The error for an opcode byte without a handler. -/
def noHandlerFor (byte : UInt8) : AiclError :=
  .new .unknownOpcode s!"no handler for opcode 0x{hexUpper 2 byte.toNat}"

/-- {lit}`dispatch`. -/
def dispatch (self : DispatchTable σ) (wire : Bytes) (world : σ) : AiclResult Bytes × σ :=
  if wire.length ≤ headerSize then (.err (.new .truncated "no opcode byte"), world)
  else
    match index wire headerSize with
    | .ok opcodeByte =>
        match self.handlerAt opcodeByte with
        | some handler => handler wire world
        | none => (.err (noHandlerFor opcodeByte), world)
    | .err e => (.err e, world)
    | .panic => (.panic, world)

/-- {lit}`has_handler`. -/
def hasHandler (self : DispatchTable σ) (opcode : AiclOpcode) : Bool :=
  (self.handlerAt opcode.toU8).isSome

/-- A new table has no handlers. -/
@[simp] theorem handlerAt_new (byte : UInt8) : (new : DispatchTable σ).handlerAt byte = none :=
  Vector.get_replicate 256 none _

/-- A registration changes the place of its opcode byte, and no other one. -/
theorem handlerAt_register (self : DispatchTable σ) (opcode : AiclOpcode)
    (handler : DispatchHandler σ) (byte : UInt8) :
    (self.register opcode handler).handlerAt byte =
      if opcode.toU8 = byte then some handler else self.handlerAt byte := by
  simp only [register, handlerAt, Vector.get_eq_getElem, Vector.getElem_set, UInt8.toNat_inj]

/-- What is dispatched on is the byte behind the header. -/
theorem dispatch_of_index (self : DispatchTable σ) {wire : Bytes} {byte : UInt8}
    (h : (index wire headerSize : AiclResult UInt8) = .ok byte) (world : σ) :
    self.dispatch wire world =
      match self.handlerAt byte with
      | some handler => handler wire world
      | none => (.err (noHandlerFor byte), world) := by
  have hlong : ¬ wire.length ≤ headerSize := by
    intro hshort
    rw [Outcome.index_eq_panic_iff.mpr hshort] at h
    cases h
  rw [dispatch, if_neg hlong, h]

end DispatchTable

/-! ## The buffer -/

/-- {lit}`encode_reuse`: the buffer, cleared and written, and the result. -/
def AiclCodec.encodeReuse (crc32 : Bytes → UInt32) (codec : AiclCodec) (uuidV4 : Id16)
    (pkt : AiclPacket) (_buf : Bytes) : Bytes × AiclResult Unit :=
  codec.encodeInto crc32 uuidV4 pkt []

/-- The byte behind the header of a frame is the opcode of its packet. -/
theorem index_encode {crc32 : Bytes → UInt32} {codec : AiclCodec} {uuidV4 : Id16}
    {pkt : AiclPacket} {wire : Bytes} (h : codec.encode crc32 uuidV4 pkt = .ok wire) :
    (index wire headerSize : AiclResult UInt8) = .ok pkt.opcode.toU8 := by
  have hlen := (headerOf uuidV4 pkt).bytes_length crc32
  rw [(encode_eq_ok_iff.mp h).2, index, List.getElem?_append_right (by rw [hlen, headerSize]), hlen]
  rfl

/-- The byte behind the header of a frame that is read is the opcode of its packet. -/
theorem index_decodeToPacket {crc32 : Bytes → UInt32} {codec : AiclCodec} {wire : Bytes}
    {pkt : AiclPacket} (h : codec.decodeToPacket crc32 wire = .ok pkt) :
    (index wire headerSize : AiclResult UInt8) = .ok pkt.opcode.toU8 := by
  have ⟨_, opcode, ts, ⟨byte, hpayload, hop⟩, heq⟩ := decodeToPacket_eq_ok_iff.mp h
  have hbyte : opcode.toU8 = byte := (AiclOpcode.toU8_of_fromU8 byte opcode hop).1
  rw [heq, packetOf, hbyte]
  exact index_opcode (List.append_nil _).symm hpayload

/-! ## Service -/

/-- A table, the buffer that frames are written into, and the world of the handlers. -/
structure LocalService (σ : Type) where
  table : DispatchTable σ := .new
  buf : Bytes := []
  world : σ

/-- What is done with a table: a handler is registered or looked for, a packet is written
into the buffer and dispatched from there, or a frame is dispatched. -/
inductive DispatchCall (σ : Type) where
  | register (opcode : AiclOpcode) (handler : DispatchHandler σ)
  | hasHandler (opcode : AiclOpcode)
  | packet (uuidV4 : Id16) (pkt : AiclPacket)
  | frame (wire : Bytes)

/-- What a caller sees. -/
inductive DispatchAnswer where
  | registered
  | found (found : Bool)
  | response (result : AiclResult Bytes)
deriving DecidableEq, Repr

/-- One call. -/
def LocalService.call (crc32 : Bytes → UInt32) (codec : AiclCodec) (s : LocalService σ) :
    DispatchCall σ → DispatchAnswer × LocalService σ
  | .register opcode handler =>
      (.registered, { s with table := s.table.register opcode handler })
  | .hasHandler opcode => (.found (s.table.hasHandler opcode), s)
  | .packet uuidV4 pkt =>
      match codec.encodeReuse crc32 uuidV4 pkt s.buf with
      | (buf, .ok ()) =>
          let (result, world) := s.table.dispatch buf s.world
          (.response result, { s with buf, world })
      | (buf, .err e) => (.response (.err e), { s with buf })
      | (buf, .panic) => (.response .panic, { s with buf })
  | .frame wire =>
      let (result, world) := s.table.dispatch wire s.world
      (.response result, { s with world })

/-- What the table is for: a directory of handlers, the latest registration first. -/
structure Directory (σ : Type) where
  registrations : List (AiclOpcode × DispatchHandler σ) := []
  world : σ

namespace Directory

/-- The handler that was registered last for an opcode; opcodes are the same when their
bytes are. -/
def handlerFor (d : Directory σ) (byte : UInt8) : Option (DispatchHandler σ) :=
  (d.registrations.find? fun e => e.1.toU8 == byte).map Prod.snd

/-- A frame goes to the handler of the opcode of its packet. -/
def handle (d : Directory σ) (pkt : AiclPacket) (wire : Bytes) : DispatchAnswer × Directory σ :=
  match d.handlerFor pkt.opcode.toU8 with
  | some handler =>
      let (result, world) := handler wire d.world
      (.response result, { d with world })
  | none => (.response (.err (DispatchTable.noHandlerFor pkt.opcode.toU8)), d)

/-- The abstract meaning of the calls: every packet gets a frame of its own, and every
frame is decoded. -/
def call (crc32 : Bytes → UInt32) (codec : AiclCodec) (d : Directory σ) :
    DispatchCall σ → DispatchAnswer × Directory σ
  | .register opcode handler =>
      (.registered, { d with registrations := (opcode, handler) :: d.registrations })
  | .hasHandler opcode => (.found (d.handlerFor opcode.toU8).isSome, d)
  | .packet uuidV4 pkt =>
      match codec.encode crc32 uuidV4 pkt with
      | .ok wire => d.handle pkt wire
      | .err e => (.response (.err e), d)
      | .panic => (.response .panic, d)
  | .frame wire =>
      match codec.decodeToPacket crc32 wire with
      | .ok pkt => d.handle pkt wire
      | .err e => (.response (.err e), d)
      | .panic => (.response .panic, d)

end Directory

/-- The frames that are dispatched are ones that the codec reads. -/
def DispatchCall.ReadsFrames (crc32 : Bytes → UInt32) (codec : AiclCodec) : DispatchCall σ → Prop
  | .frame wire => (codec.decodeToPacket crc32 wire).isOk = true
  | _ => True

/-- The table has the handlers of the directory, in the same world. -/
structure LocalService.Represents (s : LocalService σ) (d : Directory σ) : Prop where
  handlers : ∀ byte, s.table.handlerAt byte = d.handlerFor byte
  world : s.world = d.world

namespace LocalService.Represents

variable {crc32 : Bytes → UInt32} {codec : AiclCodec} {s : LocalService σ} {d : Directory σ}

/-- A registration keeps the relation. -/
theorem register (h : s.Represents d) (opcode : AiclOpcode) (handler : DispatchHandler σ) :
    ({ s with table := s.table.register opcode handler } : LocalService σ).Represents
      { d with registrations := (opcode, handler) :: d.registrations } := by
  refine ⟨fun byte => ?_, h.world⟩
  rw [DispatchTable.handlerAt_register, Directory.handlerFor, List.find?_cons]
  by_cases hbyte : opcode.toU8 = byte
  · simp [hbyte]
  · have hother : (opcode.toU8 == byte) = false := beq_false_of_ne hbyte
    simp only [if_neg hbyte, hother]
    exact h.handlers byte

/-- A frame with the opcode byte of a packet is handled as the directory says. -/
theorem dispatch (h : s.Represents d) {pkt : AiclPacket} {wire : Bytes}
    (hbyte : (index wire headerSize : AiclResult UInt8) = .ok pkt.opcode.toU8) (buf : Bytes) :
    DispatchAnswer.response (s.table.dispatch wire s.world).1 = (d.handle pkt wire).1 ∧
      ({ s with buf, world := (s.table.dispatch wire s.world).2 } : LocalService σ).Represents
        (d.handle pkt wire).2 := by
  rw [DispatchTable.dispatch_of_index _ hbyte, h.handlers, h.world, Directory.handle]
  cases d.handlerFor pkt.opcode.toU8 with
  | none => exact ⟨rfl, h.handlers, rfl⟩
  | some handler => exact ⟨rfl, h.handlers, rfl⟩

/-- One call. -/
theorem call (h : s.Represents d) (c : DispatchCall σ) (hc : c.ReadsFrames crc32 codec) :
    (s.call crc32 codec c).1 = (d.call crc32 codec c).1 ∧
      (s.call crc32 codec c).2.Represents (d.call crc32 codec c).2 := by
  cases c with
  | register opcode handler => exact ⟨rfl, h.register opcode handler⟩
  | hasHandler opcode =>
      have hfound := congrArg Option.isSome (h.handlers opcode.toU8)
      exact ⟨congrArg DispatchAnswer.found hfound, h⟩
  | packet uuidV4 pkt =>
      simp only [LocalService.call, Directory.call, AiclCodec.encodeReuse, AiclCodec.encode]
      rcases hinto : codec.encodeInto crc32 uuidV4 pkt [] with ⟨buf, result⟩
      cases result with
      | ok u =>
          have hencode : codec.encode crc32 uuidV4 pkt = .ok buf := by
            rw [AiclCodec.encode, hinto]
          exact h.dispatch (index_encode hencode) buf
      | err e => exact ⟨rfl, h.handlers, h.world⟩
      | panic => exact ⟨rfl, h.handlers, h.world⟩
  | frame wire =>
      obtain ⟨pkt, hpkt⟩ := Outcome.isOk_iff.mp hc
      simp only [LocalService.call, Directory.call, hpkt]
      exact h.dispatch (index_decodeToPacket hpkt) s.buf

end LocalService.Represents

/-- In every run of registrations, of packets that are written into the same buffer and
dispatched from it, and of frames that the codec reads, the table answers as a directory
that encodes every packet afresh, decodes every frame, and gives it to the handler that
was registered last for its opcode; and the handlers leave the same world. -/
theorem LocalService.serves (crc32 : Bytes → UInt32) (codec : AiclCodec) (buf : Bytes) (world : σ)
    (calls : List (DispatchCall σ)) (hcalls : ∀ c ∈ calls, c.ReadsFrames crc32 codec) :
    (Service.run (LocalService.call crc32 codec) { buf, world } calls).1 =
        (Service.run (Directory.call crc32 codec) { world } calls).1 ∧
      (Service.run (LocalService.call crc32 codec) { buf, world } calls).2.world =
        (Service.run (Directory.call crc32 codec) { world } calls).2.world := by
  have hstart : Represents ({ buf, world } : LocalService σ) { world } :=
    ⟨fun byte => DispatchTable.handlerAt_new byte, rfl⟩
  have ⟨hanswers, hend⟩ := Service.run_simulates_of_forall
    (fun s d c hc h => Represents.call h c hc) hcalls hstart
  exact ⟨hanswers, hend.world⟩

/-- A handler is replaced by another one before requests without operands arrive. -/
def replacedHandler : List (DispatchCall Nat) :=
  [.register .nop fun wire served => (.ok wire, served + 1),
    .register .nop fun _ served => (.ok [], served + 10),
    .frame looseNop, .packet .zero encryptedNop]

/-- The second handler serves both requests. -/
theorem LocalService.serves_replacedHandler :
    (Service.run (LocalService.call Crc32.ieee .new) { buf := [0xFF], world := 0 }
        replacedHandler).1 =
        (Service.run (Directory.call Crc32.ieee .new) { world := 0 } replacedHandler).1 ∧
      (Service.run (LocalService.call Crc32.ieee .new) { buf := [0xFF], world := 0 }
        replacedHandler).2.world =
        (Service.run (Directory.call Crc32.ieee .new) { world := 0 } replacedHandler).2.world := by
  apply LocalService.serves Crc32.ieee .new [0xFF] 0 replacedHandler
  have hread : (AiclCodec.new.decodeToPacket Crc32.ieee looseNop).isOk = true := by decide +kernel
  simp [replacedHandler, DispatchCall.ReadsFrames, hread]

/-- The answers of that run. -/
example : (Service.run (LocalService.call Crc32.ieee .new) { buf := [0xFF], world := 0 }
    replacedHandler).1 = [.registered, .registered, .response (.ok []), .response (.ok [])] := by
  decide +kernel

end Aicl.CoreRust

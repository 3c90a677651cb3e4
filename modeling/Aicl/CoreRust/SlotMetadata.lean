import Aicl.CoreRust.LocalRingRuns
import Aicl.CoreRust.PacketRoundTrip

/-!
# Slot metadata of packets

{lit}`encode_to_ring` and {lit}`push_fast` of {lit}`core-rust/src/local_path.rs` push the
frame of a packet, and {lit}`push` copies three facts about it into the slot header: its
length, the byte after its header, and the byte at offset 6.  A pop copies the slot header
into its borrow, which keeps the copy whatever happens to the slot afterwards.

Main results:

- Theorem {lit}`LocalRing.described_run`: in every run, the borrow of a pop has the slot
  header of the frame that was pushed.
- Theorem {lit}`LocalRing.metadata_iff`: when this slot header describes the packet.
-/

namespace Aicl.CoreRust

open Isa.Frame (field)

/-! ## Pushing packets -/

section Push

variable (crc32 : Bytes → UInt32) (codec : AiclCodec) (uuidV4 : Id16) (pkt : AiclPacket)
  (ring : LocalRingBuffer)

/-- {lit}`encode_to_ring_fast`, which clears the scratch buffer, with what it leaves there. -/
def AiclCodec.encodeToRingFast (_scratch : Bytes) : Bytes × AiclResult LocalRingBuffer :=
  match codec.encodeInto crc32 uuidV4 pkt [] with
  | (scratch, .ok ()) => (scratch, ring.push scratch)
  | (scratch, .err e) => (scratch, .err e)
  | (scratch, .panic) => (scratch, .panic)

/-- {lit}`encode_to_ring`, with a scratch buffer of its own. -/
def AiclCodec.encodeToRing : AiclResult LocalRingBuffer :=
  match codec.encodeInto crc32 uuidV4 pkt [] with
  | (scratch, .ok ()) => ring.push scratch
  | (_, .err e) => .err e
  | (_, .panic) => .panic

/-- {lit}`push_fast`. -/
def LocalRingBuffer.pushFast (scratch : Bytes) : Bytes × AiclResult LocalRingBuffer :=
  codec.encodeToRingFast crc32 uuidV4 pkt ring scratch

/-- The frame of a packet is pushed. -/
theorem encodeToRing_eq :
    codec.encodeToRing crc32 uuidV4 pkt ring =
      (codec.encode crc32 uuidV4 pkt).bind fun frame => ring.push frame := by
  unfold AiclCodec.encodeToRing AiclCodec.encode
  cases codec.encodeInto crc32 uuidV4 pkt [] with
  | mk scratch result =>
      cases result with
      | ok u => rfl
      | err e => rfl
      | panic => rfl

/-- The scratch buffer does not matter for what is pushed. -/
theorem pushFast_eq (scratch : Bytes) :
    (ring.pushFast crc32 codec uuidV4 pkt scratch).2 =
      codec.encodeToRing crc32 uuidV4 pkt ring := by
  unfold LocalRingBuffer.pushFast AiclCodec.encodeToRingFast AiclCodec.encodeToRing
  cases codec.encodeInto crc32 uuidV4 pkt [] with
  | mk scratch result =>
      cases result with
      | ok u => rfl
      | err e => rfl
      | panic => rfl

end Push

/-! ## The slot header of a frame -/

/-- {lit}`opcode`. -/
def RingBorrow.opcode (b : RingBorrow) : UInt8 := b.slotHdr.opcode

/-- {lit}`payload_len`. -/
def RingBorrow.payloadLen (b : RingBorrow) : UInt32 := b.slotHdr.payloadLen

/-- The first byte of a field. -/
theorem getD_of_field {data : Bytes} {a b : Nat} {x : UInt8} {xs : Bytes}
    (h : field data a b = x :: xs) : data.getD a 0 = x := by
  have hfirst : (field data a b)[0]? = some x := by
    rw [h]
    rfl
  have hpos : 0 < b - a := by
    by_contra hzero
    have hempty : b - a = 0 := Nat.eq_zero_of_not_pos hzero
    rw [field, hempty] at h
    cases h
  rw [field, List.getElem?_take_of_lt hpos, List.getElem?_drop, Nat.add_zero] at hfirst
  rw [List.getD_eq_getElem?_getD, hfirst]
  rfl

/-- The slot header of the frame of a packet: the byte at offset 6 is the high byte of the
flags. -/
theorem ofFrame_encode {crc32 : Bytes → UInt32} {codec : AiclCodec} {uuidV4 : Id16}
    {pkt : AiclPacket} {frame : Bytes} (hencode : codec.encode crc32 uuidV4 pkt = .ok frame) :
    SlotHeader.ofFrame frame =
      .new (UInt32.ofNat frame.length) pkt.opcode.toU8
        (UInt8.ofNat (pkt.flags.bits.toNat / 256)) := by
  rcases encode_eq_ok_iff.mp hencode with ⟨_, rfl⟩
  have hlength : ((headerOf uuidV4 pkt).bytes crc32).length = headerSize :=
    Isa.Frame.Header.bytes_length crc32 _
  have hlong : headerSize < ((headerOf uuidV4 pkt).bytes crc32 ++ payloadBytes pkt).length := by
    rw [List.length_append, hlength, payloadBytes, List.length_cons]
    exact Nat.lt_add_of_pos_right (Nat.succ_pos _)
  have hopcode : ((headerOf uuidV4 pkt).bytes crc32 ++ payloadBytes pkt).getD headerSize 0 =
      pkt.opcode.toU8 := by
    rw [List.getD_eq_getElem?_getD, List.getElem?_append_right hlength.le, hlength, Nat.sub_self]
    rfl
  have hflags : ((headerOf uuidV4 pkt).bytes crc32 ++ payloadBytes pkt).getD 6 0 =
      UInt8.ofNat (pkt.flags.bits.toNat / 256) := by
    apply getD_of_field
    rw [Isa.Frame.field_flags]
    rfl
  have hsix : 6 < headerSize := by decide
  rw [SlotHeader.ofFrame, if_pos hlong, if_pos (hsix.trans hlong), hopcode, hflags]

/-! ## What is left when borrows are not read -/

namespace LocalRing

/-- A consumer that drops its borrow at once. -/
def Consumer.forget : Consumer → Consumer
  | .idle _ => .idle none
  | consumer => consumer

/-- Borrows are forgotten once. -/
@[simp] theorem Consumer.forget_forget (c : Consumer) : c.forget.forget = c.forget := by
  cases c with
  | idle held => rfl
  | acquired slotIdx => rfl
  | headerRead b => rfl

/-- A consumer that forgets holds nothing. -/
@[simp] theorem Consumer.held_forget (c : Consumer) : c.forget.held = none := by
  cases c with
  | idle held => rfl
  | acquired slotIdx => rfl
  | headerRead b => rfl

/-- The state without the borrow that the consumer holds, and without the reads. -/
def blind (s : State) : State := { s with consumer := s.consumer.forget, reads := [] }

@[simp] theorem blind_blind (s : State) : blind (blind s) = blind s := by
  simp only [blind, Consumer.forget_forget]

/-- The counter of the producer has not wrapped around, or did so at a multiple of the
capacity. -/
def Unwrapped (s : State) : Prop :=
  s.pushed.length < 2 ^ 64 ∨ s.ring.header.capacity.toNat ∣ 2 ^ 64

variable {s t : State} {a : Action}

/-- A borrow and the reads may be forgotten. -/
theorem Inv.blind (h : Inv s) : Inv (blind s) := by
  have hconsumer : ConsumerKnows s.ring s.pushed s.popped s.consumer.forget := by
    have hknows := h.consumer
    cases hplace : s.consumer with
    | idle held => trivial
    | acquired slotIdx => rwa [hplace] at hknows
    | headerRead b => rwa [hplace] at hknows
  have hreads : ∀ k bs, (k, bs) ∈ ([] : List (Nat × Bytes)) → s.pushed[k]? = some bs :=
    fun k bs hk => absurd hk List.not_mem_nil
  exact ⟨⟨h.region, h.tail_eq, h.head_eq, h.popped_le, h.inFlight, h.full, hconsumer, hreads⟩,
    h.producer⟩

/-- A step is one of the ring without borrows, or changes only a borrow or the reads. -/
theorem step_blind (hstep : step s a = some t) :
    blind t = blind s ∨ ∃ u, step (blind s) a = some u ∧ blind u = blind t := by
  cases steps_of_step hstep with
  | reserve hplace hreserve =>
      refine .inr ⟨_, ?_, blind_blind _⟩
      simp only [step, blind, hplace, hreserve]
  | refuse hplace => exact .inl rfl
  | writeSlotHeader hplace =>
      refine .inr ⟨_, ?_, blind_blind _⟩
      simp only [step, blind, hplace]
  | writeData hplace =>
      refine .inr ⟨_, ?_, blind_blind _⟩
      simp only [step, blind, hplace]
  | commit hplace =>
      refine .inr ⟨_, ?_, blind_blind _⟩
      simp only [step, blind, hplace]
  | acquire hplace hacquire =>
      refine .inr ⟨_, ?_, blind_blind _⟩
      simp only [step, blind, hplace, Consumer.forget, hacquire]
  | empty hplace hacquire =>
      refine .inl ?_
      simp only [blind, hplace, Consumer.forget]
  | readSlotHeader hplace =>
      refine .inr ⟨_, ?_, blind_blind _⟩
      simp only [step, blind, hplace, Consumer.forget]
  | @release b hplace =>
      refine .inr ⟨{ blind s with
        ring := s.ring.release, consumer := .idle (some b), popped := s.popped + 1 }, ?_, rfl⟩
      simp only [step, blind, hplace, Consumer.forget]
  | read hplace => exact .inl rfl
  | drop hplace =>
      refine .inl ?_
      simp only [blind, hplace, Consumer.forget]

/-- Without borrows, the slot of a push is free. -/
theorem Inv.slotFree_blind (h : Inv (LocalRing.blind s)) (hwrap : Unwrapped s) {slotIdx : UInt64}
    (hidx : slotIdx = UInt64.ofNat s.pushed.length)
    (hroom : s.pushed.length < s.popped + s.ring.header.capacity.toNat) :
    SlotFree (LocalRing.blind s) slotIdx := by
  constructor
  · intro n hn
    rw [hidx]
    exact pending_apart h.toStored hroom hwrap hn
  · intro b hb
    have hnone : (LocalRing.blind s).consumer.held = none := Consumer.held_forget _
    rw [hnone] at hb
    cases hb

/-- Without borrows, every write of a push goes into a free slot. -/
theorem Inv.writesFree_blind (h : Inv (LocalRing.blind s)) (hwrap : Unwrapped s) (a : Action) :
    WritesFree (LocalRing.blind s) a := by
  have hproducer : ProducerKnows s.ring s.pushed s.popped s.producer := h.producer
  cases a with
  | writeSlotHeader =>
      simp only [WritesFree]
      split
      · next slotIdx data hplace =>
          have hreserved : s.producer = .reserved slotIdx data := hplace
          rw [hreserved] at hproducer
          exact h.slotFree_blind hwrap hproducer.1 hproducer.2.1
      · trivial
  | writeData =>
      simp only [WritesFree]
      split
      · next slotIdx data hplace =>
          have hwritten : s.producer = .headerWritten slotIdx data := hplace
          rw [hwritten] at hproducer
          exact h.slotFree_blind hwrap hproducer.1 hproducer.2.1
      · trivial
  | _ => trivial

/-- Every step keeps what is known without borrows. -/
theorem Inv.step_blind (h : Inv (LocalRing.blind s)) (hwrap : Unwrapped s)
    (hstep : LocalRing.step s a = some t) : Inv (LocalRing.blind t) := by
  rcases LocalRing.step_blind hstep with hsame | ⟨u, hu, hblind⟩
  · rw [hsame]
    exact h
  · rw [← hblind]
    exact (h.step (h.writesFree_blind hwrap a) hu).blind

/-! ## Borrows keep their slot header -/

/-- A borrow with the slot header of a frame. -/
structure Describes (b : RingBorrow) (data : Bytes) : Prop where
  slotHdr_eq : b.slotHdr = SlotHeader.ofFrame data
  length_eq : b.payloadLen.toNat = data.length

section Described

variable (pushed : List Bytes) (popped : Nat)

/-- The borrow of the consumer has the slot header of the frame of its pop. -/
def Described : Consumer → Prop
  | .idle (some b) => 0 < popped ∧ ∃ data, pushed[popped - 1]? = some data ∧ Describes b data
  | .headerRead b => ∃ data, pushed[popped]? = some data ∧ Describes b data
  | _ => True

end Described

/-- More frames leave the slot headers. -/
theorem Described.push {pushed : List Bytes} {popped : Nat} {c : Consumer}
    (h : Described pushed popped c) (data : Bytes) : Described (pushed ++ [data]) popped c := by
  cases c with
  | idle held =>
      cases held with
      | none => trivial
      | some b =>
          rcases h with ⟨hpos, bs, hbs, hdescribes⟩
          exact ⟨hpos, bs, getElem?_pushed hbs data, hdescribes⟩
  | acquired slotIdx => trivial
  | headerRead b =>
      rcases h with ⟨bs, hbs, hdescribes⟩
      exact ⟨bs, getElem?_pushed hbs data, hdescribes⟩

/-- The slot header of a pending frame is read. -/
theorem Stored.borrow_describes (h : Stored s) {data : Bytes}
    (hdata : s.pushed[s.popped]? = some data) :
    Describes (s.ring.borrow (UInt64.ofNat s.popped)) data := by
  have hheader : s.ring.readSlotHeader (UInt64.ofNat s.popped) = SlotHeader.ofFrame data := by
    rw [LocalRingBuffer.readSlotHeader, (h.full s.popped data le_rfl hdata).header,
      SlotHeader.ofBytes_toBytes]
  exact ⟨hheader, (h.borrow_shows hdata).length_eq⟩

/-- Every step keeps the slot headers of borrows. -/
theorem Described.step (h : Described s.pushed s.popped s.consumer) (hinv : Inv (blind s))
    (hstep : LocalRing.step s a = some t) : Described t.pushed t.popped t.consumer := by
  cases steps_of_step hstep with
  | reserve hplace hreserve => exact h
  | refuse hplace => exact h
  | writeSlotHeader hplace => exact h
  | writeData hplace => exact h
  | commit hplace => exact h.push _
  | acquire hplace hacquire => trivial
  | empty hplace hacquire => trivial
  | readSlotHeader hplace =>
      have hknows : ConsumerKnows s.ring s.pushed s.popped s.consumer.forget := hinv.consumer
      rw [hplace] at hknows
      rcases hknows with ⟨hindex, hlt⟩
      have hdata := List.getElem?_eq_getElem hlt
      rw [hindex]
      exact ⟨_, hdata, hinv.toStored.borrow_describes hdata⟩
  | release hplace =>
      rw [hplace] at h
      exact ⟨Nat.succ_pos _, h⟩
  | read hplace => exact h
  | drop hplace => trivial

/-- A counter that has not wrapped around had not before. -/
theorem Unwrapped.of_step (hstep : LocalRing.step s a = some t) (h : Unwrapped t) : Unwrapped s := by
  cases steps_of_step hstep with
  | commit hplace =>
      rcases h with hlt | hdvd
      · rw [List.length_append] at hlt
        exact .inl ((Nat.le_add_right _ _).trans_lt hlt)
      · exact .inr hdvd
  | _ => exact h

/-- What is known until the counter wraps around. -/
def Known (s : State) : Prop :=
  Unwrapped s → Inv (blind s) ∧ Described s.pushed s.popped s.consumer

/-- Every step keeps what is known. -/
theorem Known.step (h : Known s) (hstep : LocalRing.step s a = some t) : Known t := by
  intro hwrap
  have hbefore := hwrap.of_step hstep
  rcases h hbefore with ⟨hinv, hdescribed⟩
  exact ⟨hinv.step_blind hbefore hstep, hdescribed.step hinv hstep⟩

variable {capacity slotSize : UInt64} {ring : LocalRingBuffer}

/-- In every run of a new ring whose region did not overflow, until the counter of the producer
wraps around at a number that the capacity does not divide, the borrow of a pop has the slot
header of the frame that was pushed. -/
theorem described_run (hnew : LocalRingBuffer.new capacity slotSize = .ok ring)
    (hfits : RingHeader.SIZE.toNat + capacity.toNat * slotSize.toNat < 2 ^ 64)
    {actions : List Action} (hrun : Machine.run step (start ring) actions = some s)
    (hwrap : Unwrapped s) : Described s.pushed s.popped s.consumer := by
  have hstart : Known (start ring) := fun _ => ⟨(Inv.start hnew hfits).blind, trivial⟩
  have hknown : Known s := Machine.invariant_of_steps (fun s a t h => h.step) hstart hrun
  exact (hknown hwrap).2

/-! ## Metadata of packets -/

/-- What a borrow says about the packet in its slot. -/
structure MetadataOf (b : RingBorrow) (pkt : AiclPacket) (frame : Bytes) : Prop where
  payloadLen : b.payloadLen.toNat = frame.length
  opcode : b.opcode = pkt.opcode.toU8
  flagsLo : b.slotHdr.flagsLo = pkt.flags.bits.toUInt8

/-- The slot header of a frame says what its packet is, but for the flags. -/
theorem Describes.metadataOf_iff {crc32 : Bytes → UInt32} {codec : AiclCodec} {uuidV4 : Id16}
    {pkt : AiclPacket} {frame : Bytes} {b : RingBorrow} (h : Describes b frame)
    (hencode : codec.encode crc32 uuidV4 pkt = .ok frame) :
    MetadataOf b pkt frame ↔ (pkt.flags.bits >>> 8).toUInt8 = pkt.flags.bits.toUInt8 := by
  have hslot := h.slotHdr_eq.trans (ofFrame_encode hencode)
  have hhigh : UInt8.ofNat (pkt.flags.bits.toNat / 256) = (pkt.flags.bits >>> 8).toUInt8 := by
    apply UInt8.toNat_inj.mp
    rw [UInt8.toNat_ofNat', UInt16.toNat_toUInt8, UInt16.toNat_shiftRight]
    congr 1
    exact (Nat.shiftRight_eq_div_pow _ 8).symm
  constructor
  · intro hmeta
    have hflags := hmeta.flagsLo
    rw [hslot] at hflags
    exact hhigh.symm.trans hflags
  · intro hsame
    constructor
    · exact h.length_eq
    · rw [RingBorrow.opcode, hslot]
      rfl
    · rw [hslot]
      exact hhigh.trans hsame

/-- A borrow of a pop in any run of a new ring, while the region of the ring and the counter of
the producer have not overflown: it describes the packet whose frame was pushed exactly when
the bytes of its flags are equal.  The borrow yields that frame while no push writes into a
borrowed slot. -/
theorem metadata_iff (crc32 : Bytes → UInt32) (codec : AiclCodec) (uuidV4 : Id16)
    (pkt : AiclPacket) (frame : Bytes) (hencode : codec.encode crc32 uuidV4 pkt = .ok frame)
    (hnew : LocalRingBuffer.new capacity slotSize = .ok ring)
    (hfits : RingHeader.SIZE.toNat + capacity.toNat * slotSize.toNat < 2 ^ 64)
    (actions : List Action) (hrun : Machine.run step (start ring) actions = some s)
    (hwrap : Unwrapped s) (b : RingBorrow) (hheld : s.consumer = .idle (some b))
    (hpushed : s.pushed[s.popped - 1]? = some frame) :
    (MetadataOf b pkt frame ↔ (pkt.flags.bits >>> 8).toUInt8 = pkt.flags.bits.toUInt8) ∧
      (Machine.Along step WritesFree (start ring) actions → b.data s.ring = frame) := by
  have hdescribed := described_run hnew hfits hrun hwrap
  rw [hheld] at hdescribed
  rcases hdescribed with ⟨_, data, hdata, hdescribes⟩
  rw [hpushed] at hdata
  cases hdata
  refine ⟨hdescribes.metadataOf_iff hencode, fun hfree => ?_⟩
  have hinv : Inv s :=
    Machine.invariant (fun _ _ _ h hfree hstep => h.step hfree hstep) (.start hnew hfits) hfree hrun
  have hconsumer := hinv.consumer
  rw [hheld] at hconsumer
  rcases hconsumer with ⟨_, data, hdata, hshows⟩
  rw [hpushed] at hdata
  cases hdata
  exact hshows.data_eq

/-- A packet without operands. -/
def bare (flags : AiclFlags) : AiclPacket where
  opcode := .nop
  flags := flags
  messageId := some .zero
  correlationId := .zero
  deadlineMs := 0
  operands := []
  sorted := AiclPacket.sorted_nil

/-- The frame of such a packet. -/
def bareFrame (flags : AiclFlags) : Bytes :=
  (headerOf .zero (bare flags)).bytes Crc32.ieee ++ payloadBytes (bare flags)

/-- Its push and its pop. -/
def barePushPop (flags : AiclFlags) : List Action :=
  [.push (bareFrame flags), .writeSlotHeader, .writeData, .commit, .tryPop, .readSlotHeader, .release]

/-- The slot header of a packet without flags describes it. -/
theorem metadata_no_flags :
    ∃ s b, Machine.run step (start oneSlotRing) (barePushPop ⟨0⟩) = some s ∧
      s.consumer = .idle (some b) ∧ MetadataOf b (bare ⟨0⟩) (bareFrame ⟨0⟩) := by
  have hencode : AiclCodec.new.encode Crc32.ieee .zero (bare ⟨0⟩) = .ok (bareFrame ⟨0⟩) :=
    encode_eq_ok_iff.mpr ⟨by decide, rfl⟩
  have hnew : LocalRingBuffer.new 1 256 = .ok oneSlotRing := rfl
  exact ⟨_, _, rfl, rfl, (metadata_iff _ _ _ _ _ hencode hnew (by decide) (barePushPop ⟨0⟩) rfl
    (.inl (by decide)) _ rfl rfl).1.mpr rfl⟩

/-- The slot header of a request has the high byte of its flags, which says that it is none. -/
theorem metadata_request :
    AiclCodec.new.encode Crc32.ieee .zero (bare .request) = .ok (bareFrame .request) ∧
    ∃ s b, Machine.run step (start oneSlotRing) (barePushPop .request) = some s ∧
      s.consumer = .idle (some b) ∧ b.data s.ring = bareFrame .request ∧
        b.slotHdr.flagsLo = 0 ∧ ¬ MetadataOf b (bare .request) (bareFrame .request) := by
  refine ⟨encode_eq_ok_iff.mpr ⟨by decide, rfl⟩, _, _, rfl, rfl, by decide +kernel, by decide, ?_⟩
  intro hmeta
  exact absurd hmeta.flagsLo (by decide)

end LocalRing

end Aicl.CoreRust

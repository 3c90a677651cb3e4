import Aicl.CoreRust.LocalPath
import Aicl.CoreRust.LocalRingQueue
import Aicl.CoreRust.SessionRuns
import Aicl.CoreRust.SlotMetadata

/-!
# The local channel

{lit}`LocalChannel` of {lit}`core-rust/src/local_path.rs`: two ends over two local rings.
The ends are called one after the other, in any order, and a view that borrows from a
ring is read before the next call.  The buffer pool of an end is left out, because no
method uses it.

Main results:

- Theorem {lit}`LocalRing.Queued.push_cases` and {lit}`LocalRing.Queued.tryPop_cases`: what
  {lit}`push` and {lit}`try_pop` do to a ring that holds a queue.
- Theorem {lit}`ChannelPair.Inv.step`: one call of one end.
- Theorem {lit}`ChannelPair.delivers`: in each direction nothing is lost, duplicated or
  reordered, and what an end answers is a function of the packets in transit.
-/

namespace Aicl.CoreRust

/-! ## A ring that holds a queue -/

namespace LocalRing.Queued

variable {capacity slotSize : UInt64} {calls : Nat} {ring : LocalRingBuffer} {queue : List Bytes}

/-- A push appends, or finds the frame too large, or finds the ring full. -/
theorem push_cases (h : Queued capacity slotSize (calls + 1) ring queue) (data : Bytes) :
    (queue.length < capacity.toNat ∧ data.length ≤ slotSize.toNat - 8 ∧
        ∃ ring', ring.push data = .ok ring' ∧
          Queued capacity slotSize calls ring' (queue ++ [data])) ∨
      ¬ (queue.length < capacity.toNat ∧ data.length ≤ slotSize.toNat - 8) ∧
        ∃ e, ring.push data = .err e := by
  have hreserve := h.reserve_eq
  have hsize := h.slotCapacity_eq
  by_cases hfull : capacity.toNat ≤ queue.length
  · rw [if_pos hfull] at hreserve
    have hpush : ring.push data = .err (.new .backpressure "ring buffer full") := by
      rw [LocalRingBuffer.push, LocalRingBuffer.reserve, hreserve]
      rfl
    exact .inr ⟨fun hroom => absurd hroom.1 (Nat.not_lt_of_le hfull), _, hpush⟩
  · rw [if_neg hfull] at hreserve
    have hroom : queue.length < capacity.toNat := Nat.lt_of_not_le hfull
    by_cases hlarge : ring.slotCapacity.toNat < data.length
    · have hpush : ring.push data = .err (.new .payloadTooLarge
          s!"payload {data.length} > slot capacity {ring.slotCapacity}") := by
        rw [LocalRingBuffer.push, LocalRingBuffer.reserve, hreserve, Outcome.failIf, if_pos hlarge]
        rfl
      exact .inr ⟨fun hfits => absurd hfits.2 (by omega), _, hpush⟩
    · have hfits : (limits capacity slotSize).fits data = true := by
        apply decide_eq_true
        omega
      have hpush : ring.push data = .ok
          ((ring.writeSlotHeader ring.header.tail data).writeData ring.header.tail data).commit := by
        rw [LocalRingBuffer.push, LocalRingBuffer.reserve, hreserve, Outcome.failIf_of_not hlarge]
        rfl
      have hnext := (h.serve_push data).2
      rw [LocalRingBuffer.serve_push_of_push hpush, BoundedQueue.call_push_ok hroom hfits] at hnext
      exact .inl ⟨hroom, by omega, _, hpush, hnext⟩

/-- A pop takes the oldest frame, or finds the ring empty. -/
theorem tryPop_cases (h : Queued capacity slotSize (calls + 1) ring queue) :
    (queue = [] ∧ ring.tryPop = none) ∨
      ∃ data rest b ring', queue = data :: rest ∧ ring.tryPop = some (b, ring') ∧
        b.data ring' = data ∧ Queued capacity slotSize calls ring' rest := by
  have ⟨hanswer, hnext⟩ := h.serve_pop
  cases hpop : ring.tryPop with
  | none =>
      have hacquire : ring.header.acquire = none := by
        cases hacquire : ring.header.acquire with
        | none => rfl
        | some slotIdx =>
            rw [LocalRingBuffer.tryPop, hacquire] at hpop
            cases hpop
      rw [LocalRingBuffer.serve_pop_empty hacquire] at hanswer
      cases queue with
      | nil => exact .inl ⟨rfl, rfl⟩
      | cons data rest => cases hanswer
  | some popped =>
      rw [LocalRingBuffer.serve_pop_of_tryPop hpop] at hanswer hnext
      cases queue with
      | nil => cases hanswer
      | cons data rest =>
          injection hanswer with hanswer
          injection hanswer with hdata
          exact .inr ⟨data, rest, popped.1, popped.2, rfl, rfl, hdata, hnext⟩

/-- A frame that fits in a slot is shorter than a mebibyte. -/
theorem fits_lt (h : Queued capacity slotSize calls ring queue) {n : Nat}
    (hn : n ≤ slotSize.toNat - 8) : n < 2 ^ 20 := by
  have hregion := h.region
  have hlow := hregion.slotSize_ge
  have hhigh := hregion.slotSize_le
  rw [h.slotSize_eq] at hlow hhigh
  omega

end LocalRing.Queued

/-! ## Packets -/

/-- A frame that fits in a slot is read back as its packet. -/
theorem AiclPacket.Carriable.decode {crc32 : Bytes → UInt32} {uuidV4 : Id16} {pkt : AiclPacket}
    (h : pkt.Carriable) {frame : Bytes}
    (hencode : AiclCodec.new.encode crc32 uuidV4 pkt = .ok frame) (hlength : frame.length < 2 ^ 20) :
    AiclCodec.new.decodeToPacket crc32 frame = .ok (pkt.stamped uuidV4) := by
  rw [← AiclPacket.encode_stamped] at hencode
  refine (h.spellable uuidV4).decode (.inl ?_) hencode
  have hframe := (encode_eq_ok_iff.mp hencode).2
  rw [hframe, List.length_append, payloadBytes_length (h.spellable uuidV4).noVendor] at hlength
  have hmax : 2 ^ 20 ≤ maxPayloadSize := by decide
  omega

/-! ## Channels -/

/-- The rings of a process, by number. -/
abbrev Rings := Nat → LocalRingBuffer

/-- One end of a channel: the numbers of its rings, its scratch buffers and its
generator of message ids. -/
structure LocalChannel where
  outgoing : Nat
  incoming : Nat
  decodeScratch : Bytes
  encodeScratch : Bytes
  nonce : LocalNonce
deriving DecidableEq, Repr

namespace LocalChannel

/-- One end of a new channel. -/
def newEnd (outgoing incoming : Nat) : LocalChannel := ⟨outgoing, incoming, [], [], .new⟩

/-- {lit}`new`, over two new rings. -/
def new (slotSize slotCount : UInt64) (aToB bToA : Nat) (rings : Rings) :
    AiclResult ((LocalChannel × LocalChannel) × Rings) := do
  let first ← LocalRingBuffer.new slotCount slotSize
  let second ← LocalRingBuffer.new slotCount slotSize
  pure ((newEnd aToB bToA, newEnd bToA aToB),
    Function.update (Function.update rings aToB first) bToA second)

section Codec

variable (crc32 : Bytes → UInt32)

/-- {lit}`send`. -/
def send (c : LocalChannel) (uuidV4 : Id16) (pkt : AiclPacket) (codec : AiclCodec) (rings : Rings) :
    AiclResult Unit × LocalChannel × Rings :=
  let pushed := (rings c.outgoing).pushFast crc32 codec uuidV4 pkt c.encodeScratch
  let c' := { c with encodeScratch := pushed.1 }
  match pushed.2 with
  | .ok ring => (.ok (), c', Function.update rings c.outgoing ring)
  | .err e => (.err e, c', rings)
  | .panic => (.panic, c', rings)

/-- {lit}`try_recv_zero_copy`. -/
def tryRecvZeroCopy (c : LocalChannel) (codec : AiclCodec) (rings : Rings) :
    AiclResult BorrowedView × Rings :=
  match (rings c.incoming).tryPop with
  | none => (.err (.new .empty "no data"), rings)
  | some (borrow, ring) =>
      (codec.decodeBorrowed crc32 (borrow.data ring), Function.update rings c.incoming ring)

/-- {lit}`recv`. -/
def recv (c : LocalChannel) (codec : AiclCodec) (rings : Rings) :
    AiclResult PacketView × LocalChannel × Rings :=
  match (rings c.incoming).tryPop with
  | none => (.err (.new .empty "no data"), c, rings)
  | some (borrow, ring) =>
      let c := { c with decodeScratch := borrow.data ring }
      (codec.decode crc32 c.decodeScratch, c, Function.update rings c.incoming ring)

end Codec

/-- {lit}`next_message_id`. -/
def nextMessageId (c : LocalChannel) : Id16 × LocalChannel :=
  (c.nonce.nextId.1, { c with nonce := c.nonce.nextId.2 })

/-- {lit}`pending`. -/
def pending (c : LocalChannel) (rings : Rings) : UInt64 := (rings c.incoming).header.pendingSlots

/-- {lit}`available`. -/
def available (c : LocalChannel) (rings : Rings) : UInt64 := (rings c.outgoing).header.freeSlots

variable {crc32 : Bytes → UInt32} {c : LocalChannel} {rings : Rings} {uuidV4 : Id16}
  {pkt : AiclPacket} {codec : AiclCodec}

/-- A send whose frame is pushed. -/
theorem send_of_push {frame : Bytes} {ring : LocalRingBuffer}
    (hencode : codec.encode crc32 uuidV4 pkt = .ok frame)
    (hpush : (rings c.outgoing).push frame = .ok ring) :
    ∃ scratch, c.send crc32 uuidV4 pkt codec rings =
      (.ok (), { c with encodeScratch := scratch }, Function.update rings c.outgoing ring) := by
  have hring : ((rings c.outgoing).pushFast crc32 codec uuidV4 pkt c.encodeScratch).2 = .ok ring := by
    rw [pushFast_eq, encodeToRing_eq, hencode]
    exact hpush
  refine ⟨((rings c.outgoing).pushFast crc32 codec uuidV4 pkt c.encodeScratch).1, ?_⟩
  simp only [send, hring]

/-- A send whose packet is refused, by the encoder or by the ring. -/
theorem send_of_refused
    (hrefused : ∀ frame, codec.encode crc32 uuidV4 pkt = .ok frame →
      ∃ e, (rings c.outgoing).push frame = .err e) :
    ∃ result scratch, result ≠ .ok () ∧
      c.send crc32 uuidV4 pkt codec rings = (result, { c with encodeScratch := scratch }, rings) := by
  have hpush := pushFast_eq crc32 codec uuidV4 pkt (rings c.outgoing) c.encodeScratch
  rw [encodeToRing_eq] at hpush
  have hring : ∀ ring, ((rings c.outgoing).pushFast crc32 codec uuidV4 pkt c.encodeScratch).2 ≠
      .ok ring := by
    intro ring hring
    rw [hpush] at hring
    rcases Outcome.bind_eq_ok_iff.mp hring with ⟨frame, hencode, hok⟩
    rcases hrefused frame hencode with ⟨e, herr⟩
    rw [herr] at hok
    cases hok
  cases hresult : ((rings c.outgoing).pushFast crc32 codec uuidV4 pkt c.encodeScratch).2 with
  | ok ring => exact absurd hresult (hring ring)
  | err e =>
      refine ⟨.err e, ((rings c.outgoing).pushFast crc32 codec uuidV4 pkt c.encodeScratch).1, ?_, ?_⟩
      · exact nofun
      · simp only [send, hresult]
  | panic =>
      refine ⟨.panic, ((rings c.outgoing).pushFast crc32 codec uuidV4 pkt c.encodeScratch).1, ?_, ?_⟩
      · exact nofun
      · simp only [send, hresult]

/-- Nothing is received from an empty ring. -/
theorem recv_of_empty (hpop : (rings c.incoming).tryPop = none) :
    c.recv crc32 codec rings = (.err (.new .empty "no data"), c, rings) ∧
      c.tryRecvZeroCopy crc32 codec rings = (.err (.new .empty "no data"), rings) := by
  simp only [recv, tryRecvZeroCopy, hpop, and_self]

/-- What is popped is decoded. -/
theorem recv_of_pop {b : RingBorrow} {ring : LocalRingBuffer}
    (hpop : (rings c.incoming).tryPop = some (b, ring)) :
    c.recv crc32 codec rings =
        (codec.decode crc32 (b.data ring), { c with decodeScratch := b.data ring },
          Function.update rings c.incoming ring) ∧
      c.tryRecvZeroCopy crc32 codec rings =
        (codec.decodeBorrowed crc32 (b.data ring), Function.update rings c.incoming ring) := by
  simp only [recv, tryRecvZeroCopy, hpop, and_self]

end LocalChannel

/-! ## Both ends -/

/-- What is called at an end. -/
inductive ChannelCall where
  | send (uuidV4 : Id16) (pkt : AiclPacket)
  | recv
  | tryRecvZeroCopy
  | nextMessageId

/-- Both ends and the rings between them, with the packets for which {lit}`send` returned
{lit}`Ok` and those of the views that were received. -/
structure ChannelPair where
  ends : Peer → LocalChannel
  rings : Rings
  sent : Peer → List AiclPacket
  received : Peer → List AiclPacket

namespace ChannelPair

/-- The two ends of a new channel. -/
def start (ends : LocalChannel × LocalChannel) (rings : Rings) : ChannelPair where
  ends
    | .a => ends.1
    | .b => ends.2
  rings
  sent _ := []
  received _ := []

variable (crc32 : Bytes → UInt32)

/-- One call. -/
def step (s : ChannelPair) : Peer × ChannelCall → Option ChannelPair
  | (x, .send uuidV4 pkt) =>
      let r := (s.ends x).send crc32 uuidV4 pkt .new s.rings
      some
        { s with
          ends := Function.update s.ends x r.2.1
          rings := r.2.2
          sent := match r.1 with
            | .ok () => Function.update s.sent x (s.sent x ++ [pkt.stamped uuidV4])
            | _ => s.sent }
  | (x, .recv) =>
      let r := (s.ends x).recv crc32 .new s.rings
      some
        { s with
          ends := Function.update s.ends x r.2.1
          rings := r.2.2
          received := Function.update s.received x
            (s.received x ++ (r.1 >>= PacketView.toPacket).toOption.toList) }
  | (x, .tryRecvZeroCopy) =>
      let r := (s.ends x).tryRecvZeroCopy crc32 .new s.rings
      some
        { s with
          rings := r.2
          received := Function.update s.received x
            (s.received x ++ (r.1 >>= BorrowedView.toPacket).toOption.toList) }
  | (x, .nextMessageId) =>
      some { s with ends := Function.update s.ends x (s.ends x).nextMessageId.2 }

/-- Only packets are sent that a frame can spell. -/
def SendsCarriable : Peer × ChannelCall → Prop
  | (_, .send _ pkt) => pkt.Carriable
  | _ => True

open SessionPair (Carrying)
open LocalRing (Queued)

/-- An end has the rings of its side. -/
def IsEnd (x : Peer) (c : LocalChannel) : Prop := c.outgoing = x.queue ∧ c.incoming = x.other.queue

/-- Between calls, with as many calls left before a counter could wrap around: each ring
holds the frames of the packets in transit. -/
structure Inv (slotSize slotCount : UInt64) (calls : Nat) (s : ChannelPair) : Prop where
  ends : ∀ x, IsEnd x (s.ends x)
  carries : ∀ x : Peer, ∃ queue, Queued slotCount slotSize calls (s.rings x.queue) queue ∧
    Carrying crc32 slotCount.toNat queue (s.sent x) (s.received x.other)

variable {crc32} {slotSize slotCount : UInt64} {calls : Nat} {s t : ChannelPair} {x : Peer}

/-- An end that keeps its rings is still an end. -/
theorem Inv.ends_update (h : Inv crc32 slotSize slotCount calls s) {c : LocalChannel}
    (hc : c.outgoing = (s.ends x).outgoing ∧ c.incoming = (s.ends x).incoming) :
    ∀ y, IsEnd y (Function.update s.ends x c y) := by
  have hend : IsEnd x c := ⟨hc.1.trans (h.ends x).1, hc.2.trans (h.ends x).2⟩
  exact (Function.forall_update_iff s.ends fun y c => IsEnd y c).mpr ⟨hend, fun y _ => h.ends y⟩

/-- What the standard decoder reads, the borrowed one reads as well. -/
theorem decodeBorrowed_of_decode {frame : Bytes} {pkt : AiclPacket}
    (h : AiclCodec.new.decodeToPacket crc32 frame = .ok pkt) :
    AiclCodec.new.decodeBorrowedToPacket crc32 frame = .ok pkt := by
  rcases decodeToPacket_eq_ok_iff.mp h with ⟨hvalid, opcode, ts, hc, hpkt⟩
  exact decodeBorrowedToPacket_eq_ok_iff.mpr
    ⟨⟨hvalid.prelude, hvalid.complete⟩, opcode, ts, hc.startsWith, hpkt⟩

/-- The directions that a call does not concern have fewer calls left. -/
theorem Inv.carries_less (h : Inv crc32 slotSize slotCount (calls + 1) s) (y : Peer) :
    ∃ queue, Queued slotCount slotSize calls (s.rings y.queue) queue ∧
      Carrying crc32 slotCount.toNat queue (s.sent y) (s.received y.other) := by
  rcases h.carries y with ⟨queue, hqueued, hcarries⟩
  exact ⟨queue, hqueued.less, hcarries⟩

/-- What a send does: the frame is in the ring, or nothing has changed there. -/
theorem Inv.send_cases (h : Inv crc32 slotSize slotCount (calls + 1) s) {queue : List Bytes}
    (hqueued : Queued slotCount slotSize (calls + 1) (s.rings x.queue) queue) (uuidV4 : Id16)
    (pkt : AiclPacket) :
    (∃ frame scratch ring, AiclCodec.new.encode crc32 uuidV4 pkt = .ok frame ∧
        queue.length < slotCount.toNat ∧ frame.length ≤ slotSize.toNat - 8 ∧
        (s.ends x).send crc32 uuidV4 pkt .new s.rings =
          (.ok (), { s.ends x with encodeScratch := scratch },
            Function.update s.rings x.queue ring) ∧
        Queued slotCount slotSize calls ring (queue ++ [frame])) ∨
      (∃ result scratch, result ≠ .ok () ∧ (s.ends x).send crc32 uuidV4 pkt .new s.rings =
          (result, { s.ends x with encodeScratch := scratch }, s.rings)) ∧
        ∀ frame, AiclCodec.new.encode crc32 uuidV4 pkt = .ok frame →
          ¬ (queue.length < slotCount.toNat ∧ frame.length ≤ slotSize.toNat - 8) := by
  have hout := (h.ends x).1
  by_cases hroom : ∃ frame, AiclCodec.new.encode crc32 uuidV4 pkt = .ok frame ∧
      queue.length < slotCount.toNat ∧ frame.length ≤ slotSize.toNat - 8
  · rcases hroom with ⟨frame, hencode, hroom⟩
    rcases hqueued.push_cases frame with ⟨hlt, hle, ring, hpush, hnext⟩ | ⟨hno, _⟩
    · rw [← hout] at hpush
      rcases LocalChannel.send_of_push hencode hpush with ⟨scratch, hsend⟩
      have hupdate : Function.update s.rings (s.ends x).outgoing ring =
          Function.update s.rings x.queue ring := by rw [hout]
      rw [hupdate] at hsend
      exact .inl ⟨frame, scratch, ring, hencode, hlt, hle, hsend, hnext⟩
    · exact absurd hroom hno
  · have hno : ∀ frame, AiclCodec.new.encode crc32 uuidV4 pkt = .ok frame →
        ¬ (queue.length < slotCount.toNat ∧ frame.length ≤ slotSize.toNat - 8) :=
      fun frame hencode hfits => hroom ⟨frame, hencode, hfits⟩
    refine .inr ⟨LocalChannel.send_of_refused ?_, hno⟩
    intro frame hencode
    rw [hout]
    rcases hqueued.push_cases frame with ⟨hlt, hle, _⟩ | ⟨_, herr⟩
    · exact absurd ⟨hlt, hle⟩ (hno frame hencode)
    · exact herr

/-- A send keeps the invariant. -/
theorem Inv.send (h : Inv crc32 slotSize slotCount (calls + 1) s) {uuidV4 : Id16} {pkt : AiclPacket}
    (hpkt : pkt.Carriable) (hstep : ChannelPair.step crc32 s (x, .send uuidV4 pkt) = some t) :
    Inv crc32 slotSize slotCount calls t := by
  rcases h.carries x with ⟨queue, hqueued, hcarries⟩
  rcases h.send_cases hqueued uuidV4 pkt with
    ⟨frame, scratch, ring, hencode, hroom, hfits, hsend, hnext⟩ | ⟨⟨result, scratch, hno, hsend⟩, _⟩
  · simp only [ChannelPair.step, hsend] at hstep
    cases hstep
    refine ⟨h.ends_update ⟨rfl, rfl⟩, fun y => ?_⟩
    dsimp only
    by_cases hy : y = x
    · subst hy
      refine ⟨queue ++ [frame], ?_, ?_⟩
      · rw [Function.update_self]
        exact hnext
      · rw [Function.update_self]
        exact hcarries.send hroom (hpkt.decode hencode (hqueued.fits_lt hfits))
    · rw [Function.update_of_ne (Peer.queue_ne hy), Function.update_of_ne hy]
      exact h.carries_less y
  · cases result with
    | ok u => exact absurd rfl hno
    | err e =>
        simp only [ChannelPair.step, hsend] at hstep
        cases hstep
        exact ⟨h.ends_update ⟨rfl, rfl⟩, h.carries_less⟩
    | panic =>
        simp only [ChannelPair.step, hsend] at hstep
        cases hstep
        exact ⟨h.ends_update ⟨rfl, rfl⟩, h.carries_less⟩

/-- What the two ways to receive do: both find the same packet, or no data. -/
theorem Inv.recv_cases (h : Inv crc32 slotSize slotCount (calls + 1) s) (x : Peer) {queue : List Bytes}
    (hqueued : Queued slotCount slotSize (calls + 1) (s.rings x.other.queue) queue)
    (hcarries : Carrying crc32 slotCount.toNat queue (s.sent x.other) (s.received x)) :
    (queue = [] ∧
        (s.ends x).recv crc32 .new s.rings = (.err (.new .empty "no data"), s.ends x, s.rings) ∧
          (s.ends x).tryRecvZeroCopy crc32 .new s.rings =
            (.err (.new .empty "no data"), s.rings)) ∨
      ∃ frame rest pkt ring, queue = frame :: rest ∧
        Queued slotCount slotSize calls ring rest ∧
        Carrying crc32 slotCount.toNat rest (s.sent x.other) (s.received x ++ [pkt]) ∧
        AiclCodec.new.decodeToPacket crc32 frame = .ok pkt ∧
        (s.ends x).recv crc32 .new s.rings =
          (AiclCodec.new.decode crc32 frame, { s.ends x with decodeScratch := frame },
            Function.update s.rings x.other.queue ring) ∧
        (s.ends x).tryRecvZeroCopy crc32 .new s.rings =
          (AiclCodec.new.decodeBorrowed crc32 frame,
            Function.update s.rings x.other.queue ring) := by
  have hin := (h.ends x).2
  rcases hqueued.tryPop_cases with ⟨hempty, hpop⟩ | ⟨frame, rest, b, ring, hqueue, hpop, hdata, hnext⟩
  · rw [← hin] at hpop
    exact .inl ⟨hempty, LocalChannel.recv_of_empty hpop⟩
  · rw [← hin] at hpop
    subst hqueue
    rcases hcarries.recv with ⟨pkt, hdecode, hrest⟩
    have hrecv := @LocalChannel.recv_of_pop crc32 (s.ends x) s.rings .new b ring hpop
    have hupdate : Function.update s.rings (s.ends x).incoming ring =
        Function.update s.rings x.other.queue ring := by rw [hin]
    rw [hdata, hupdate] at hrecv
    exact .inr ⟨frame, rest, pkt, ring, rfl, hnext, hrest, hdecode, hrecv⟩

/-- A packet that was taken from a ring has been received. -/
theorem Inv.taken (h : Inv crc32 slotSize slotCount (calls + 1) s) {ring : LocalRingBuffer}
    {rest : List Bytes} {pkt : AiclPacket} {ends : Peer → LocalChannel}
    (hends : ∀ y, IsEnd y (ends y)) (hnext : Queued slotCount slotSize calls ring rest)
    (hrest : Carrying crc32 slotCount.toNat rest (s.sent x.other) (s.received x ++ [pkt])) :
    Inv crc32 slotSize slotCount calls
      { s with
        ends
        rings := Function.update s.rings x.other.queue ring
        received := Function.update s.received x (s.received x ++ [pkt]) } := by
  refine ⟨hends, fun y => ?_⟩
  dsimp only
  by_cases hy : y = x.other
  · subst hy
    refine ⟨rest, ?_, ?_⟩
    · rw [Function.update_self]
      exact hnext
    · rw [Peer.other_other, Function.update_self]
      exact hrest
  · have hother : y.other ≠ x := fun heq => hy (heq ▸ (Peer.other_other y).symm)
    rw [Function.update_of_ne (Peer.queue_ne hy), Function.update_of_ne hother]
    exact h.carries_less y

/-- A receive keeps the invariant. -/
theorem Inv.recv (h : Inv crc32 slotSize slotCount (calls + 1) s)
    (hstep : ChannelPair.step crc32 s (x, .recv) = some t) :
    Inv crc32 slotSize slotCount calls t := by
  rcases h.carries x.other with ⟨queue, hqueued, hcarries⟩
  rw [Peer.other_other] at hcarries
  rcases h.recv_cases x hqueued hcarries with
    ⟨_, hrecv, _⟩ | ⟨frame, rest, pkt, ring, _, hnext, hrest, hdecode, hrecv, _⟩
  · simp only [ChannelPair.step, hrecv, Outcome.err_bind, Outcome.toOption, Option.toList_none,
      List.append_nil, Function.update_eq_self] at hstep
    cases hstep
    exact ⟨h.ends, h.carries_less⟩
  · have hview : (AiclCodec.new.decode crc32 frame >>= PacketView.toPacket) = .ok pkt := hdecode
    simp only [ChannelPair.step, hrecv, hview, Outcome.toOption, Option.toList_some] at hstep
    cases hstep
    exact h.taken (h.ends_update ⟨rfl, rfl⟩) hnext hrest

/-- A receive without a copy keeps the invariant. -/
theorem Inv.tryRecvZeroCopy (h : Inv crc32 slotSize slotCount (calls + 1) s)
    (hstep : ChannelPair.step crc32 s (x, .tryRecvZeroCopy) = some t) :
    Inv crc32 slotSize slotCount calls t := by
  rcases h.carries x.other with ⟨queue, hqueued, hcarries⟩
  rw [Peer.other_other] at hcarries
  rcases h.recv_cases x hqueued hcarries with
    ⟨_, _, hrecv⟩ | ⟨frame, rest, pkt, ring, _, hnext, hrest, hdecode, _, hrecv⟩
  · simp only [ChannelPair.step, hrecv, Outcome.err_bind, Outcome.toOption, Option.toList_none,
      List.append_nil, Function.update_eq_self] at hstep
    cases hstep
    exact ⟨h.ends, h.carries_less⟩
  · have hview : (AiclCodec.new.decodeBorrowed crc32 frame >>= BorrowedView.toPacket) = .ok pkt :=
      decodeBorrowed_of_decode hdecode
    simp only [ChannelPair.step, hrecv, hview, Outcome.toOption, Option.toList_some] at hstep
    cases hstep
    exact h.taken h.ends hnext hrest

/-- A call keeps the invariant. -/
theorem Inv.step (h : Inv crc32 slotSize slotCount (calls + 1) s) {i : Peer × ChannelCall}
    (hcarriable : SendsCarriable i) (hstep : ChannelPair.step crc32 s i = some t) :
    Inv crc32 slotSize slotCount calls t := by
  rcases i with ⟨x, call⟩
  cases call with
  | send uuidV4 pkt => exact h.send hcarriable hstep
  | recv => exact h.recv hstep
  | tryRecvZeroCopy => exact h.tryRecvZeroCopy hstep
  | nextMessageId =>
      cases hstep
      exact ⟨h.ends_update ⟨rfl, rfl⟩, h.carries_less⟩

/-! ## Runs -/

/-- What holds in one direction, with the packets in transit: they are what was sent and
not received, the counters count them, both ways to receive find the oldest of them, and
a send succeeds exactly when there is room for its frame. -/
structure Delivers (crc32 : Bytes → UInt32) (slotSize slotCount : UInt64) (s : ChannelPair)
    (x : Peer) (transit : List AiclPacket) : Prop where
  conserved : s.sent x = s.received x.other ++ transit
  pending : ((s.ends x.other).pending s.rings).toNat = transit.length
  available : ((s.ends x).available s.rings).toNat + transit.length = slotCount.toNat
  recv : (((s.ends x.other).recv crc32 .new s.rings).1 >>= PacketView.toPacket) =
    Outcome.okOr transit.head? (.new .empty "no data")
  zeroCopy : (((s.ends x.other).tryRecvZeroCopy crc32 .new s.rings).1 >>= BorrowedView.toPacket) =
    Outcome.okOr transit.head? (.new .empty "no data")
  send_iff : ∀ uuidV4 pkt, ((s.ends x).send crc32 uuidV4 pkt .new s.rings).1 = .ok () ↔
    ∃ frame, AiclCodec.new.encode crc32 uuidV4 pkt = .ok frame ∧
      transit.length < slotCount.toNat ∧ frame.length ≤ slotSize.toNat - 8
  refused : ∀ uuidV4 pkt, ((s.ends x).send crc32 uuidV4 pkt .new s.rings).1 ≠ .ok () →
    ((s.ends x).send crc32 uuidV4 pkt .new s.rings).2.2 = s.rings

/-- What the invariant says about one direction. -/
theorem Inv.direction (h : Inv crc32 slotSize slotCount (calls + 1) s) (x : Peer) :
    ∃ transit, Delivers crc32 slotSize slotCount s x transit := by
  rcases h.carries x with ⟨queue, hqueued, hcarries⟩
  have ⟨transit, hsent, hframes⟩ := hcarries.pending
  have hlength : queue.length = transit.length := hframes.length_eq
  have hpending : (s.rings x.queue).header.pendingSlots.toNat = queue.length :=
    hqueued.pendingSlots_eq
  have hrecv := h.recv_cases x.other ((Peer.other_other x).symm ▸ hqueued)
    ((Peer.other_other x).symm ▸ hcarries)
  have hsend := h.send_cases hqueued
  refine ⟨transit, hsent, ?_, ?_, ?_, ?_, ?_, ?_⟩
  · rw [LocalChannel.pending, (h.ends x.other).2, Peer.other_other, hpending, hlength]
  · rw [LocalChannel.available, (h.ends x).1, ← hlength, ← hpending]
    exact hqueued.freeSlots_add
  · rcases hrecv with ⟨hempty, hrecv, _⟩ | ⟨frame, rest, pkt, ring, hqueue, _, _, hdecode, hrecv, _⟩
    · subst hempty
      cases hframes
      rw [hrecv]
      rfl
    · subst hqueue
      cases hframes with
      | cons hfirst hrest =>
          rw [hrecv]
          exact hfirst
  · rcases hrecv with ⟨hempty, _, hrecv⟩ | ⟨frame, rest, pkt, ring, hqueue, _, _, hdecode, _, hrecv⟩
    · subst hempty
      cases hframes
      rw [hrecv]
      rfl
    · subst hqueue
      cases hframes with
      | cons hfirst hrest =>
          rw [hrecv]
          exact decodeBorrowed_of_decode hfirst
  · intro uuidV4 pkt
    rcases hsend uuidV4 pkt with
      ⟨frame, scratch, ring, hencode, hroom, hfits, hok, _⟩ | ⟨⟨result, scratch, hno, hfail⟩, hroom⟩
    · rw [hok]
      exact ⟨fun _ => ⟨frame, hencode, hlength ▸ hroom, hfits⟩, fun _ => rfl⟩
    · rw [hfail]
      refine ⟨fun hok => absurd hok hno, ?_⟩
      rintro ⟨frame, hencode, hlt, hfits⟩
      exact absurd ⟨hlength ▸ hlt, hfits⟩ (hroom frame hencode)
  · intro uuidV4 pkt hfail
    rcases hsend uuidV4 pkt with ⟨frame, scratch, ring, _, _, _, hok, _⟩ | ⟨⟨result, scratch, _, hno⟩, _⟩
    · rw [hok] at hfail
      exact absurd rfl hfail
    · rw [hno]

/-- A new channel. -/
theorem Inv.start {ends : LocalChannel × LocalChannel} {rings rings' : Rings}
    (hnew : LocalChannel.new slotSize slotCount Peer.a.queue Peer.b.queue rings = .ok (ends, rings'))
    (hfits : RingHeader.SIZE.toNat + slotCount.toNat * slotSize.toNat < 2 ^ 64)
    (hcalls : calls < 2 ^ 64) : Inv crc32 slotSize slotCount calls (start ends rings') := by
  rcases Outcome.bind_eq_ok_iff.mp hnew with ⟨first, hfirst, hrest⟩
  rcases Outcome.bind_eq_ok_iff.mp hrest with ⟨second, hsecond, hpair⟩
  cases hpair
  have hempty : Carrying crc32 slotCount.toNat [] [] [] := ⟨Nat.zero_le _, [], rfl, .nil⟩
  constructor
  · intro x
    cases x with
    | a => exact ⟨rfl, rfl⟩
    | b => exact ⟨rfl, rfl⟩
  · intro x
    cases x with
    | a => exact ⟨[], .start hfirst hfits hcalls, hempty⟩
    | b => exact ⟨[], .start hsecond hfits hcalls, hempty⟩

/-- A run keeps the invariant for the calls that are left. -/
theorem Inv.run {cs : List (Peer × ChannelCall)} (hsends : ∀ i ∈ cs, SendsCarriable i)
    (h : Inv crc32 slotSize slotCount (cs.length + calls) s)
    (hrun : Machine.run (ChannelPair.step crc32) s cs = some t) : Inv crc32 slotSize slotCount calls t := by
  induction cs generalizing s with
  | nil =>
      cases hrun
      rwa [List.length_nil, Nat.zero_add] at h
  | cons i cs ih =>
      rcases Machine.run_cons_eq_some_iff.mp hrun with ⟨u, hstep, hrest⟩
      rw [List.length_cons, Nat.add_right_comm] at h
      have hnext := h.step (hsends i List.mem_cons_self) hstep
      exact ih (fun j hj => hsends j (List.mem_cons_of_mem i hj)) hnext hrest

/-- Fewer than 2^64 calls of the two ends of a channel whose rings fit in the address
space, in any order, deliver every packet that was sent, in the order of the sends. -/
theorem delivers (crc32 : Bytes → UInt32) (slotSize slotCount : UInt64) (rings rings' : Rings)
    (ends : LocalChannel × LocalChannel)
    (hnew : LocalChannel.new slotSize slotCount Peer.a.queue Peer.b.queue rings = .ok (ends, rings'))
    (hfits : RingHeader.SIZE.toNat + slotCount.toNat * slotSize.toNat < 2 ^ 64)
    (calls : List (Peer × ChannelCall)) (hcalls : calls.length + 1 < 2 ^ 64)
    (hcarriable : ∀ x uuidV4 pkt, (x, ChannelCall.send uuidV4 pkt) ∈ calls → pkt.Carriable)
    (s : ChannelPair) (hrun : Machine.run (ChannelPair.step crc32) (start ends rings') calls = some s) (x : Peer) :
    ∃ transit, Delivers crc32 slotSize slotCount s x transit := by
  have hsends : ∀ i ∈ calls, SendsCarriable i := by
    rintro ⟨y, call⟩ hmem
    cases call with
    | send uuidV4 pkt => exact hcarriable y uuidV4 pkt hmem
    | recv => trivial
    | tryRecvZeroCopy => trivial
    | nextMessageId => trivial
  have hstart : Inv crc32 slotSize slotCount (calls.length + 1) (start ends rings') :=
    .start hnew hfits hcalls
  exact (hstart.run hsends hrun).direction x

/-- One packet from one end to the other. -/
def sendBare : List (Peer × ChannelCall) := [(.a, .send .zero (LocalRing.bare ⟨0⟩)), (.b, .recv)]

/-- Two rings with one slot. -/
def twoRings : Rings :=
  Function.update (Function.update (fun _ => LocalRing.oneSlotRing) 0 LocalRing.oneSlotRing) 1
    LocalRing.oneSlotRing

/-- A packet without operands passes through a channel with one slot each way. -/
theorem delivers_bare :
    ∃ s, Machine.run (step Crc32.ieee) (start (.newEnd 0 1, .newEnd 1 0) twoRings) sendBare = some s ∧
      ∃ transit, Delivers Crc32.ieee 256 1 s .a transit := by
  have hring : LocalRingBuffer.new 1 256 = .ok LocalRing.oneSlotRing := rfl
  have hbare : (LocalRing.bare ⟨0⟩).Carriable := ⟨trivial, fun _ hop => absurd hop List.not_mem_nil, rfl⟩
  refine ⟨_, rfl, delivers Crc32.ieee 256 1 (fun _ => LocalRing.oneSlotRing) twoRings _ ?_ (by decide)
    sendBare (by decide) ?_ _ rfl .a⟩
  · rw [LocalChannel.new, hring]
    rfl
  · intro x uuidV4 pkt hmem
    simp only [sendBare, List.mem_cons, Prod.mk.injEq, ChannelCall.send.injEq, reduceCtorEq, and_false,
      List.not_mem_nil, or_false] at hmem
    rw [hmem.2.2]
    exact hbare

end ChannelPair

end Aicl.CoreRust

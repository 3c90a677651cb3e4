import Aicl.CoreRust.PacketRoundTrip
import Aicl.CoreRust.Transport

/-!
# Sessions of the Rust core

{lit}`AiclSession` of {lit}`core-rust/src/session.rs`, over any transport.  An
operation gives its result, the session it leaves and the world of the transport.
The id that a packet without one is sent under comes from a generator and is an
argument.

Main results:

- Theorem {lit}`AiclSession.sendPacket_cases`: what a send over a channel does.
- Theorem {lit}`AiclSession.recvPacket_cases`: what a receive from a channel does.
-/

namespace Aicl.CoreRust

/-- Session state machine. -/
inductive SessionState where
  | init | handshakeSent | established | closing | closed
deriving DecidableEq, Repr

/-- A session over a transport. -/
structure AiclSession (τ : Type) where
  id : Id16
  state : SessionState
  codec : AiclCodec
  transport : τ
  seqSent : UInt64
  seqReceived : UInt64
deriving DecidableEq, Repr

namespace AiclSession

variable {ω τ : Type} [Transport ω τ]

/-- {lit}`new`, with the id that the generator gave. -/
def new (id : Id16) (transport : τ) : AiclSession τ where
  id
  state := .init
  codec := .new
  transport
  seqSent := 0
  seqReceived := 0

/-- {lit}`is_open`. -/
def isOpen (s : AiclSession τ) : Bool :=
  s.state = .init ∨ s.state = .handshakeSent ∨ s.state = .established

/-- The checks that {lit}`send_packet` and {lit}`recv_packet` start with. -/
def checkOpen (s : AiclSession τ) : AiclResult Unit := do
  Outcome.failIf (s.state = .closed)
    (.new .sessionClosed s!"session {hexSlice (s.id.bytes.take 4)} closed")
  Outcome.failIf (¬ Transport.isOpen s.transport)
    (.new .transportClosed s!"transport closed for session {hexSlice (s.id.bytes.take 4)}")

section Operations

variable (crc32 : Bytes → UInt32)

/-- {lit}`send_packet`. -/
def sendPacket (uuidV4 : Id16) (s : AiclSession τ) (pkt : AiclPacket) (world : ω) :
    AiclResult Unit × AiclSession τ × ω :=
  match (do s.checkOpen; s.codec.encode crc32 uuidV4 pkt) with
  | .ok wire =>
      match Transport.send s.transport wire world with
      | (.ok _, transport, world) =>
          (.ok (), { s with transport := transport, seqSent := s.seqSent + 1 }, world)
      | (.err e, transport, world) => (.err e, { s with transport := transport }, world)
      | (.panic, transport, world) => (.panic, { s with transport := transport }, world)
  | .err e => (.err e, s, world)
  | .panic => (.panic, s, world)

/-- What {lit}`recv_packet` does with what it received. -/
def readWire (s : AiclSession τ) (n : Nat) (wire : Bytes) : AiclResult AiclPacket := do
  Outcome.failIf (n = 0) (.new .truncated "recv returned 0 bytes")
  let view ← s.codec.decodeOwned crc32 (wire.take n)
  view.toPacket

/-- {lit}`recv_packet`. -/
def recvPacket (s : AiclSession τ) (world : ω) : AiclResult AiclPacket × AiclSession τ × ω :=
  match s.checkOpen with
  | .ok () =>
      match Transport.recv s.transport [] world with
      | (.ok n, wire, transport, world) =>
          match s.readWire crc32 n wire with
          | .ok pkt =>
              (.ok pkt, { s with transport := transport, seqReceived := s.seqReceived + 1 }, world)
          | .err e => (.err e, { s with transport := transport }, world)
          | .panic => (.panic, { s with transport := transport }, world)
      | (.err e, _, transport, world) => (.err e, { s with transport := transport }, world)
      | (.panic, _, transport, world) => (.panic, { s with transport := transport }, world)
  | .err e => (.err e, s, world)
  | .panic => (.panic, s, world)

end Operations

/-- {lit}`close`. -/
def close (s : AiclSession τ) (world : ω) : AiclResult Unit × AiclSession τ × ω :=
  match Transport.close s.transport world with
  | (.ok (), transport, world) => (.ok (), { s with state := .closed, transport := transport }, world)
  | (.err e, transport, world) => (.err e, { s with state := .closing, transport := transport }, world)
  | (.panic, transport, world) => (.panic, { s with state := .closing, transport := transport }, world)

/-! ## Reading what was received -/

/-- The packet that a session reads from a frame. -/
def readFrame (crc32 : Bytes → UInt32) (frame : Bytes) : Option AiclPacket :=
  (AiclCodec.new.decodeToPacket crc32 frame).toOption

variable {crc32 : Bytes → UInt32}

/-- A received frame is decoded by the codec of the session; an empty one is no
frame. -/
theorem readWire_eq_ok_iff {s : AiclSession τ} {wire : Bytes} {pkt : AiclPacket} :
    s.readWire crc32 wire.length wire = .ok pkt ↔ s.codec.decodeToPacket crc32 wire = .ok pkt := by
  have hdecode : (do
      let view ← s.codec.decodeOwned crc32 (wire.take wire.length)
      view.toPacket) = s.codec.decodeToPacket crc32 wire := by
    rw [List.take_length]
    rfl
  rw [readWire, hdecode, Outcome.bind_eq_ok_iff]
  constructor
  · intro ⟨_, _, hok⟩
    exact hok
  · intro hok
    have hlength := (decodeToPacket_eq_ok_iff.mp hok).1.prelude.length_le
    have hne : wire.length ≠ 0 := by
      intro hzero
      rw [hzero] at hlength
      exact absurd hlength (by decide)
    exact ⟨(), Outcome.failIf_eq_ok_iff.mpr hne, hok⟩

/-! ## Sessions over channels -/

variable {s : AiclSession InProcChannel} {queues : Queues}

/-- The checks pass on an open channel that the session has not closed. -/
theorem checkOpen_eq_ok_iff : s.checkOpen = .ok () ↔ s.state ≠ .closed ∧ s.transport.opened := by
  rw [checkOpen, Outcome.bind_eq_ok_iff]
  simp [Transport.isOpen]

/-- A send that does not succeed changes nothing: the session or its channel is
closed, the packet cannot be encoded, or the outgoing queue is full.  One that
succeeds put the encoded packet into that queue. -/
theorem sendPacket_cases (crc32 : Bytes → UInt32) (uuidV4 : Id16) (s : AiclSession InProcChannel)
    (pkt : AiclPacket) (queues : Queues) :
    ((s.checkOpen ≠ .ok () ∨ (∀ frame, s.codec.encode crc32 uuidV4 pkt ≠ .ok frame) ∨
          s.transport.cap ≤ (queues s.transport.outgoing).length) ∧
        (s.sendPacket crc32 uuidV4 pkt queues).1 ≠ .ok () ∧
          (s.sendPacket crc32 uuidV4 pkt queues).2 = (s, queues)) ∨
      ∃ frame, s.codec.encode crc32 uuidV4 pkt = .ok frame ∧
        (queues s.transport.outgoing).length < s.transport.cap ∧
          s.sendPacket crc32 uuidV4 pkt queues =
            (.ok (), { s with seqSent := s.seqSent + 1 },
              Function.update queues s.transport.outgoing
                (queues s.transport.outgoing ++ [frame])) := by
  unfold sendPacket
  cases hopen : s.checkOpen with
  | err e => exact .inl ⟨.inl fun h => (nomatch h), fun h => (nomatch h), rfl⟩
  | panic => exact .inl ⟨.inl fun h => (nomatch h), fun h => (nomatch h), rfl⟩
  | ok u =>
      cases hencode : s.codec.encode crc32 uuidV4 pkt with
      | err e => exact .inl ⟨.inr (.inl fun _ h => (nomatch h)), fun h => (nomatch h), rfl⟩
      | panic => exact .inl ⟨.inr (.inl fun _ h => (nomatch h)), fun h => (nomatch h), rfl⟩
      | ok wire =>
          have hopened := (checkOpen_eq_ok_iff.mp hopen).2
          rcases InProcChannel.send_cases s.transport wire queues with
            ⟨hfull, e, hsend⟩ | ⟨hroom, hsend⟩
          · left
            simp only [Outcome.ok_bind, Transport.send, hsend]
            refine ⟨.inr (.inr (hfull.resolve_left (not_not.mpr hopened))), ?_⟩
            exact ⟨fun h => (nomatch h), trivial⟩
          · right
            refine ⟨wire, rfl, hroom, ?_⟩
            simp only [Outcome.ok_bind, Transport.send, hsend]

/-- A receive that takes nothing fails and changes nothing: the session or its channel
is closed, or the incoming queue is empty.  One that takes a frame returns what the
codec reads from it. -/
theorem recvPacket_cases (crc32 : Bytes → UInt32) (s : AiclSession InProcChannel) (queues : Queues) :
    ((s.checkOpen ≠ .ok () ∨ queues s.transport.incoming = []) ∧
        (∀ pkt, (s.recvPacket crc32 queues).1 ≠ .ok pkt) ∧
          (s.recvPacket crc32 queues).2 = (s, queues)) ∨
      ∃ frame rest, queues s.transport.incoming = frame :: rest ∧
        (s.recvPacket crc32 queues).2.2 = Function.update queues s.transport.incoming rest ∧
          ((∃ pkt, s.codec.decodeToPacket crc32 frame = .ok pkt ∧
              (s.recvPacket crc32 queues).1 = .ok pkt ∧
                (s.recvPacket crc32 queues).2.1 = { s with seqReceived := s.seqReceived + 1 }) ∨
            (∀ pkt, s.codec.decodeToPacket crc32 frame ≠ .ok pkt) ∧
              (∀ pkt, (s.recvPacket crc32 queues).1 ≠ .ok pkt) ∧
                (s.recvPacket crc32 queues).2.1 = s) := by
  unfold recvPacket
  cases hopen : s.checkOpen with
  | err e => exact .inl ⟨.inl fun h => (nomatch h), fun pkt h => (nomatch h), rfl⟩
  | panic => exact .inl ⟨.inl fun h => (nomatch h), fun pkt h => (nomatch h), rfl⟩
  | ok u =>
      cases hqueue : queues s.transport.incoming with
      | nil =>
          left
          simp only [Transport.recv, InProcChannel.recv_nil hqueue]
          exact ⟨.inr trivial, fun pkt h => (nomatch h), trivial⟩
      | cons frame rest =>
          right
          refine ⟨frame, rest, rfl, ?_⟩
          simp only [Transport.recv, InProcChannel.recv_cons hqueue, List.nil_append]
          cases hread : s.readWire crc32 frame.length frame with
          | ok pkt => exact ⟨rfl, .inl ⟨pkt, readWire_eq_ok_iff.mp hread, rfl, rfl⟩⟩
          | err e =>
              refine ⟨rfl, .inr ⟨fun pkt hdecode => ?_, fun pkt h => (nomatch h), rfl⟩⟩
              rw [readWire_eq_ok_iff.mpr hdecode] at hread
              cases hread
          | panic =>
              refine ⟨rfl, .inr ⟨fun pkt hdecode => ?_, fun pkt h => (nomatch h), rfl⟩⟩
              rw [readWire_eq_ok_iff.mpr hdecode] at hread
              cases hread

/-- A receive of a session whose codec is the usual one returns what is read from the
frame that it takes. -/
theorem recvPacket_takes (crc32 : Bytes → UInt32) (hcodec : s.codec = .new) (queues : Queues) :
    ((s.recvPacket crc32 queues).1.toOption = none ∧ (s.recvPacket crc32 queues).2 = (s, queues)) ∨
      ∃ frame rest received, queues s.transport.incoming = frame :: rest ∧
        (s.recvPacket crc32 queues).1.toOption = readFrame crc32 frame ∧
          (s.recvPacket crc32 queues).2 =
            ({ s with seqReceived := received },
              Function.update queues s.transport.incoming rest) := by
  rcases recvPacket_cases crc32 s queues with
    ⟨_, hfail, hkeep⟩ | ⟨frame, rest, hqueue, hqueues, hread⟩
  · exact .inl ⟨Outcome.toOption_eq_none_iff.mpr hfail, hkeep⟩
  · right
    rcases hread with ⟨pkt, hdecode, hok, hsession⟩ | ⟨hbad, hfail, hsession⟩
    · refine ⟨frame, rest, s.seqReceived + 1, hqueue, ?_, Prod.ext hsession hqueues⟩
      rw [Outcome.toOption_eq_some_iff.mpr hok, readFrame, ← hcodec,
        Outcome.toOption_eq_some_iff.mpr hdecode]
    · refine ⟨frame, rest, s.seqReceived, hqueue, ?_, Prod.ext hsession hqueues⟩
      rw [Outcome.toOption_eq_none_iff.mpr hfail, readFrame, ← hcodec,
        Outcome.toOption_eq_none_iff.mpr hbad]

end AiclSession

end Aicl.CoreRust

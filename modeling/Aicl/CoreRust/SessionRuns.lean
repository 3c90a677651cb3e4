import Aicl.CoreRust.Session
import Aicl.Foundation.Machine

/-!
# Runs of a pair of sessions

Two sessions over the ends of one {lit}`InProcChannel::pair`, whose operations come
in any order.  In each direction the packets that were sent are those that were
received and then those that the queue carries.

Main results:

- Theorem {lit}`SessionPair.Inv.step`: one operation of one end.
- Theorem {lit}`SessionPair.reliable`: the pair is a reliable, ordered and bounded
  channel for packets whose payload length is not cut to 32 bits.
- Theorem {lit}`SessionPair.reorders_cut`: a packet of four gibibytes is sent and
  never received.
-/

namespace Aicl.CoreRust

/-! ## Packets -/

/-- A packet that a frame can spell: it has a message id and an assigned opcode, its
flags announce no trailer, and it holds no vendor operand. -/
structure AiclPacket.Spellable (pkt : AiclPacket) : Prop where
  messageId : pkt.messageId.isSome
  opcode : pkt.opcode.Assigned
  noVendor : ∀ op ∈ pkt.operands, op.All Operand.NotVendor
  noTrailer : pkt.flags.bits &&& 0x0100 = 0

/-- The encoder sees the true size of the payload, or refuses what is left of it after
the cast to 32 bits. -/
def AiclPacket.SizeSeen (pkt : AiclPacket) : Prop :=
  pkt.payloadSize ≤ maxPayloadSize ∨ maxPayloadSize < pkt.payloadSize % 2 ^ 32

/-- What the encoder writes for such packets is read back. -/
theorem AiclPacket.Spellable.decode {crc32 : Bytes → UInt32} {uuidV4 : Id16} {pkt : AiclPacket}
    (h : pkt.Spellable) (hsize : pkt.SizeSeen) {frame : Bytes}
    (hencode : AiclCodec.new.encode crc32 uuidV4 pkt = .ok frame) :
    AiclCodec.new.decodeToPacket crc32 frame = .ok pkt := by
  apply decodeToPacket_of_keeps h.messageId h.opcode h.noVendor hencode h.noTrailer
  have hlimit := (encode_eq_ok_iff.mp hencode).1
  have hcut : (headerOf uuidV4 pkt).payloadLen = pkt.payloadSize % 2 ^ 32 := by
    rw [headerOf, UInt32.toNat_ofNat', payloadBytes_length h.noVendor]
  rw [hcut] at hlimit
  rcases hsize with hsize | hsize
  · exact hsize
  · exact absurd hlimit (Nat.not_le.mpr hsize)

/-- A packet with the id that it is sent under. -/
def AiclPacket.stamped (uuidV4 : Id16) (pkt : AiclPacket) : AiclPacket :=
  { pkt with messageId := some (pkt.messageId.getD uuidV4) }

/-- The encoder gives a packet its id. -/
theorem AiclPacket.encode_stamped {crc32 : Bytes → UInt32} {uuidV4 : Id16} {pkt : AiclPacket}
    (codec : AiclCodec) :
    codec.encode crc32 uuidV4 (pkt.stamped uuidV4) = codec.encode crc32 uuidV4 pkt := rfl

/-- A packet that a frame can spell once it has an id. -/
structure AiclPacket.Carriable (pkt : AiclPacket) : Prop where
  opcode : pkt.opcode.Assigned
  noVendor : ∀ op ∈ pkt.operands, op.All Operand.NotVendor
  noTrailer : pkt.flags.bits &&& 0x0100 = 0

/-- With its id it can be spelled. -/
theorem AiclPacket.Carriable.spellable {pkt : AiclPacket} (h : pkt.Carriable) (uuidV4 : Id16) :
    (pkt.stamped uuidV4).Spellable :=
  ⟨rfl, h.opcode, h.noVendor, h.noTrailer⟩

/-! ## The pair -/

/-- The two ends. -/
inductive Peer where
  | a | b
deriving DecidableEq, Repr

namespace Peer

/-- The other end. -/
def other : Peer → Peer
  | a => b
  | b => a

/-- The number of the queue that an end writes to. -/
def queue : Peer → Nat
  | a => 0
  | b => 1

/-- The queues of the two ends differ. -/
theorem queue_ne {x y : Peer} (h : x ≠ y) : x.queue ≠ y.queue := by
  cases x <;> cases y <;> simp_all [queue]

/-- An end is the other end of its other end. -/
@[simp] theorem other_other (x : Peer) : x.other.other = x := by
  cases x <;> rfl

/-- The channel of an end. -/
def channel (cap : Nat) : Peer → InProcChannel
  | a => (InProcChannel.pair cap a.queue b.queue).1
  | b => (InProcChannel.pair cap a.queue b.queue).2

end Peer

/-- What is called at an end. -/
inductive SessionCall where
  | send (uuidV4 : Id16) (pkt : AiclPacket)
  | recv
  | close

/-- Both sessions and the queues between them, with the packets for which
{lit}`send_packet` returned {lit}`Ok` and those that {lit}`recv_packet` returned. -/
structure SessionPair where
  session : Peer → AiclSession InProcChannel
  queues : Queues
  sent : Peer → List AiclPacket
  received : Peer → List AiclPacket

namespace SessionPair

/-- Two new sessions over a new channel. -/
def start (cap : Nat) (id : Peer → Id16) : SessionPair where
  session x := .new (id x) (x.channel cap)
  queues _ := []
  sent _ := []
  received _ := []

variable (crc32 : Bytes → UInt32)

/-- One operation. -/
def step (s : SessionPair) : Peer × SessionCall → Option SessionPair
  | (x, .send uuidV4 pkt) =>
      let r := (s.session x).sendPacket crc32 uuidV4 pkt s.queues
      some
        { s with
          session := Function.update s.session x r.2.1
          queues := r.2.2
          sent := match r.1 with
            | .ok () => Function.update s.sent x (s.sent x ++ [pkt])
            | _ => s.sent }
  | (x, .recv) =>
      let r := (s.session x).recvPacket crc32 s.queues
      some
        { s with
          session := Function.update s.session x r.2.1
          queues := r.2.2
          received := match r.1 with
            | .ok pkt => Function.update s.received x (s.received x ++ [pkt])
            | _ => s.received }
  | (x, .close) =>
      let r := (s.session x).close s.queues
      some { s with session := Function.update s.session x r.2.1, queues := r.2.2 }

/-- A send that does not succeed leaves the queues and the sessions with their
sequence counters. -/
def FailedSendKeeps (s : SessionPair) : Peer × SessionCall → Prop
  | (x, .send uuidV4 pkt) =>
      ((s.session x).sendPacket crc32 uuidV4 pkt s.queues).1 ≠ .ok () →
        step crc32 s (x, .send uuidV4 pkt) = some s
  | _ => True

/-- Only packets are sent that a frame can spell and whose size the encoder sees. -/
def SendsSeen : Peer × SessionCall → Prop
  | (_, .send _ pkt) => pkt.Spellable ∧ pkt.SizeSeen
  | _ => True

/-! ## The invariant -/

/-- A queue carries what was sent and not received, within its capacity. -/
structure Carrying (cap : Nat) (queue : List Bytes) (sent received : List AiclPacket) : Prop where
  bounded : queue.length ≤ cap
  pending : ∃ pending, sent = received ++ pending ∧
    List.Forall₂ (fun frame pkt => AiclCodec.new.decodeToPacket crc32 frame = .ok pkt) queue pending

/-- A session with its end of the channel. -/
def IsEnd (cap : Nat) (x : Peer) (session : AiclSession InProcChannel) : Prop :=
  session.codec = .new ∧ ∃ opened, session.transport = ⟨x.queue, x.other.queue, cap, opened⟩

/-- What holds between operations. -/
structure Inv (cap : Nat) (s : SessionPair) : Prop where
  ends : ∀ x, IsEnd cap x (s.session x)
  carries : ∀ x : Peer, Carrying crc32 cap (s.queues x.queue) (s.sent x) (s.received x.other)

variable {crc32} {cap : Nat} {s t : SessionPair}

namespace Carrying

variable {queue rest : List Bytes} {frame : Bytes} {sent received : List AiclPacket} {pkt : AiclPacket}

/-- A packet goes in at the end. -/
theorem send (h : Carrying crc32 cap queue sent received) (hroom : queue.length < cap)
    (hframe : AiclCodec.new.decodeToPacket crc32 frame = .ok pkt) :
    Carrying crc32 cap (queue ++ [frame]) (sent ++ [pkt]) received := by
  have ⟨pending, hsent, hpending⟩ := h.pending
  constructor
  · rw [List.length_append]
    exact hroom
  · refine ⟨pending ++ [pkt], ?_, List.rel_append hpending (.cons hframe .nil)⟩
    rw [hsent, List.append_assoc]

/-- A packet comes out at the front, and it is the next one. -/
theorem recv (h : Carrying crc32 cap (frame :: rest) sent received) :
    ∃ pkt, AiclCodec.new.decodeToPacket crc32 frame = .ok pkt ∧
      Carrying crc32 cap rest sent (received ++ [pkt]) := by
  have ⟨pending, hsent, hpending⟩ := h.pending
  cases hpending with
  | @cons _ pkt _ pending hframe hrest =>
      refine ⟨pkt, hframe, Nat.le_of_succ_le h.bounded, pending, ?_, hrest⟩
      rw [hsent, List.append_assoc]
      rfl

/-- What came out is the beginning of what went in. -/
theorem isPrefix (h : Carrying crc32 cap queue sent received) : received <+: sent := by
  have ⟨pending, hsent, _⟩ := h.pending
  exact ⟨pending, hsent.symm⟩

end Carrying

/-- A session that keeps its codec and its channel is still an end. -/
theorem Inv.ends_update (h : Inv crc32 cap s) {x : Peer} {session : AiclSession InProcChannel}
    (hsession : IsEnd cap x session) : ∀ y, IsEnd cap y (Function.update s.session x session y) :=
  (Function.forall_update_iff s.session fun y session => IsEnd cap y session).mpr
    ⟨hsession, fun y _ => h.ends y⟩

/-- New sessions. -/
theorem Inv.start (cap : Nat) (id : Peer → Id16) : Inv crc32 cap (start cap id) where
  ends x := by
    cases x
    · exact ⟨rfl, true, rfl⟩
    · exact ⟨rfl, true, rfl⟩
  carries _ := ⟨Nat.zero_le cap, [], rfl, .nil⟩

/-- A send that does not succeed is as if it had not been made. -/
theorem failedSendKeeps (crc32 : Bytes → UInt32) (s : SessionPair) (i : Peer × SessionCall) :
    FailedSendKeeps crc32 s i := by
  rcases i with ⟨x, call⟩
  cases call with
  | recv => trivial
  | close => trivial
  | send uuidV4 pkt =>
      intro hfail
      rcases AiclSession.sendPacket_cases crc32 uuidV4 (s.session x) pkt s.queues with
        ⟨_, _, hkeep⟩ | ⟨frame, _, _, hsend⟩
      · simp only [step, hkeep, Function.update_eq_self]
      · rw [hsend] at hfail
        exact absurd rfl hfail

/-- A send keeps the invariant. -/
theorem Inv.send (h : Inv crc32 cap s) {x : Peer} {uuidV4 : Id16} {pkt : AiclPacket}
    (hpkt : pkt.Spellable) (hsize : pkt.SizeSeen)
    (hstep : SessionPair.step crc32 s (x, .send uuidV4 pkt) = some t) : Inv crc32 cap t := by
  rcases AiclSession.sendPacket_cases crc32 uuidV4 (s.session x) pkt s.queues with
    ⟨_, hfail, _⟩ | ⟨frame, hencode, hroom, hsend⟩
  · rw [failedSendKeeps crc32 s (x, .send uuidV4 pkt) hfail] at hstep
    cases hstep
    exact h
  · have ⟨hcodec, opened, hchannel⟩ := h.ends x
    rw [hcodec] at hencode
    have hout : (s.session x).transport.outgoing = x.queue := by rw [hchannel]
    have hcap : (s.session x).transport.cap = cap := by rw [hchannel]
    rw [hout, hcap] at hroom
    simp only [SessionPair.step, hsend, hout] at hstep
    cases hstep
    refine ⟨h.ends_update ⟨hcodec, opened, hchannel⟩, ?_⟩
    intro y
    dsimp only
    by_cases hy : y = x
    · rw [hy, Function.update_self, Function.update_self]
      exact (h.carries x).send hroom (hpkt.decode hsize hencode)
    · rw [Function.update_of_ne hy, Function.update_of_ne (Peer.queue_ne hy)]
      exact h.carries y

/-- A receive keeps the invariant. -/
theorem Inv.recv (h : Inv crc32 cap s) {x : Peer}
    (hstep : SessionPair.step crc32 s (x, .recv) = some t) : Inv crc32 cap t := by
  have ⟨hcodec, opened, hchannel⟩ := h.ends x
  have hin : (s.session x).transport.incoming = x.other.queue := by rw [hchannel]
  rcases AiclSession.recvPacket_cases crc32 (s.session x) s.queues with
    ⟨_, hfail, hkeep⟩ | ⟨frame, rest, hqueue, hqueues, hread⟩
  · simp only [SessionPair.step, hkeep, Function.update_eq_self] at hstep
    cases hstep
    exact h
  · rw [hin] at hqueue hqueues
    have hcarries := h.carries x.other
    rw [hqueue, Peer.other_other] at hcarries
    have ⟨pkt, hframe, hnext⟩ := hcarries.recv
    rw [← hcodec] at hframe
    rcases hread with ⟨pkt', hdecode, hok, hsession⟩ | ⟨hbad, _⟩
    · rw [hframe] at hdecode
      cases hdecode
      simp only [SessionPair.step, hok, hsession, hqueues] at hstep
      cases hstep
      refine ⟨h.ends_update ⟨hcodec, opened, hchannel⟩, ?_⟩
      intro y
      dsimp only
      by_cases hy : y = x.other
      · rw [hy, Function.update_self, Peer.other_other, Function.update_self]
        exact hnext
      · have hother : y.other ≠ x := fun heq => hy (heq ▸ (Peer.other_other y).symm)
        rw [Function.update_of_ne (Peer.queue_ne hy), Function.update_of_ne hother]
        exact h.carries y
    · exact absurd hframe (hbad pkt)

/-- A close keeps the invariant. -/
theorem Inv.close (h : Inv crc32 cap s) {x : Peer}
    (hstep : SessionPair.step crc32 s (x, .close) = some t) : Inv crc32 cap t := by
  have ⟨hcodec, opened, hchannel⟩ := h.ends x
  cases hstep
  refine ⟨h.ends_update ⟨hcodec, false, ?_⟩, h.carries⟩
  simp only [AiclSession.close, Transport.close, InProcChannel.close, hchannel]

/-- An operation keeps the invariant. -/
theorem Inv.step (h : Inv crc32 cap s) {i : Peer × SessionCall} (hseen : SendsSeen i)
    (hstep : SessionPair.step crc32 s i = some t) : Inv crc32 cap t := by
  rcases i with ⟨x, call⟩
  cases call with
  | send uuidV4 pkt => exact h.send hseen.1 hseen.2 hstep
  | recv => exact h.recv hstep
  | close => exact h.close hstep

variable (crc32) (cap) in
/-- The pair is a reliable, ordered and bounded channel for packets whose size the
encoder sees, and a send that does not succeed changes nothing. -/
theorem reliable (id : Peer → Id16) (calls : List (Peer × SessionCall))
    (hspell : ∀ x uuidV4 pkt, (x, SessionCall.send uuidV4 pkt) ∈ calls → pkt.Spellable)
    (hseen : ∀ x uuidV4 pkt, (x, SessionCall.send uuidV4 pkt) ∈ calls → pkt.SizeSeen) :
    (∀ s, Machine.run (SessionPair.step crc32) (.start cap id) calls = some s →
        ∀ x : Peer, s.received x.other <+: s.sent x ∧ (s.queues x.queue).length ≤ cap) ∧
      Machine.Along (SessionPair.step crc32) (FailedSendKeeps crc32) (.start cap id) calls := by
  have hsends : ∀ i ∈ calls, SendsSeen i := by
    intro i hmem
    rcases i with ⟨x, call⟩
    cases call with
    | send uuidV4 pkt => exact ⟨hspell x uuidV4 pkt hmem, hseen x uuidV4 pkt hmem⟩
    | recv => trivial
    | close => trivial
  have hp : Machine.Along (SessionPair.step crc32) (fun _ i => SendsSeen i) (.start cap id) calls :=
    Machine.along_of_forall hsends _
  have hkeep : ∀ s i t, Inv crc32 cap s → SendsSeen i → SessionPair.step crc32 s i = some t →
      Inv crc32 cap t := fun s i t hs hi hstep => hs.step hi hstep
  constructor
  · intro s hrun x
    have hs := Machine.invariant hkeep (Inv.start cap id) hp hrun
    exact ⟨(hs.carries x).isPrefix, (hs.carries x).bounded⟩
  · apply Machine.Along.of_invariant hkeep _ (Inv.start cap id) hp
    intro s i _ _
    exact failedSendKeeps crc32 s i

/-- A request with one byte string of zeros. -/
def zeros (n : Nat) : AiclPacket where
  opcode := .nop
  flags := .request
  messageId := some .zero
  correlationId := .zero
  deadlineMs := 0
  operands := [.bytes (List.replicate n 0)]
  sorted := List.forall_mem_singleton.mpr (.of_leaf trivial trivial)

/-- A frame can spell these requests. -/
theorem zeros_spellable (n : Nat) : (zeros n).Spellable where
  messageId := rfl
  opcode := trivial
  noVendor := List.forall_mem_singleton.mpr (.of_leaf trivial trivial)
  noTrailer := show AiclFlags.request.bits &&& 0x0100 = 0 by decide

/-- The opcode, the operand count, the tag and the length come before the zeros. -/
theorem zeros_payloadSize (n : Nat) : (zeros n).payloadSize = 3 + (encodeLen n).length + n := by
  have hcount : (encodeLen 1).length = 1 := by decide
  simp only [AiclPacket.payloadSize, zeros, List.length_cons, List.length_nil, wireSizes, wireSize,
    Nat.zero_add, hcount, List.length_replicate]
  omega

/-- Two requests pass through a channel with room for one. -/
def twoRequests : List (Peer × SessionCall) :=
  [(.a, .send .zero (zeros 1)), (.a, .send .zero (zeros 2)), (.b, .recv),
    (.a, .send .zero (zeros 2)), (.b, .recv)]

/-- The requests that are sent there. -/
theorem eq_zeros_of_mem_twoRequests {x : Peer} {uuidV4 : Id16} {pkt : AiclPacket}
    (h : (x, SessionCall.send uuidV4 pkt) ∈ twoRequests) : pkt = zeros 1 ∨ pkt = zeros 2 := by
  simp only [twoRequests, List.mem_cons, Prod.mk.injEq, SessionCall.send.injEq, reduceCtorEq,
    and_false, List.not_mem_nil, or_false, false_or] at h
  rcases h with h | h | h
  · exact .inl h.2.2
  · exact .inr h.2.2
  · exact .inr h.2.2

/-- They come out in order. -/
theorem reliable_twoRequests :
    (∀ s, Machine.run (SessionPair.step Crc32.ieee) (.start 1 fun _ => .zero) twoRequests = some s →
        ∀ x : Peer, s.received x.other <+: s.sent x ∧ (s.queues x.queue).length ≤ 1) ∧
      Machine.Along (SessionPair.step Crc32.ieee) (FailedSendKeeps Crc32.ieee)
        (.start 1 fun _ => .zero) twoRequests := by
  apply reliable Crc32.ieee 1 (fun _ => .zero) twoRequests
  · intro x uuidV4 pkt hmem
    rcases eq_zeros_of_mem_twoRequests hmem with rfl | rfl
    · exact zeros_spellable 1
    · exact zeros_spellable 2
  · intro x uuidV4 pkt hmem
    rcases eq_zeros_of_mem_twoRequests hmem with rfl | rfl
    · exact .inl (by decide)
    · exact .inl (by decide)

/-- The frame of such a request. -/
def zerosFrame (n : Nat) : Bytes :=
  (headerOf .zero (zeros n)).bytes Crc32.ieee ++ payloadBytes (zeros n)

/-- A small request is sent and read back. -/
theorem readFrame_small :
    AiclCodec.new.encode Crc32.ieee .zero (zeros 0) = .ok (zerosFrame 0) ∧
      AiclSession.readFrame Crc32.ieee (zerosFrame 0) = some (zeros 0) := by
  have hencode : AiclCodec.new.encode Crc32.ieee .zero (zeros 0) = .ok (zerosFrame 0) :=
    encode_eq_ok_iff.mpr ⟨by decide, rfl⟩
  have hdecode := (zeros_spellable 0).decode (.inl (by decide)) hencode
  exact ⟨hencode, Outcome.toOption_eq_some_iff.mpr hdecode⟩

/-- The encoder takes the length of a payload over four gibibytes for four bytes, so
that the request is sent; it is not read back. -/
theorem readFrame_bulk :
    AiclCodec.new.encode Crc32.ieee .zero (zeros (2 ^ 32)) = .ok (zerosFrame (2 ^ 32)) ∧
      AiclSession.readFrame Crc32.ieee (zerosFrame (2 ^ 32)) ≠ some (zeros (2 ^ 32)) := by
  have hspell := zeros_spellable (2 ^ 32)
  have hdigits : (encodeLen (2 ^ 32)).length = 1 := by decide
  have hcut : (headerOf .zero (zeros (2 ^ 32))).payloadLen = 4 := by
    rw [headerOf, UInt32.toNat_ofNat', payloadBytes_length hspell.noVendor, zeros_payloadSize,
      hdigits]
    rfl
  have hlimit : 4 ≤ AiclCodec.new.maxPayload := by decide
  have hencode : AiclCodec.new.encode Crc32.ieee .zero (zeros (2 ^ 32)) =
      .ok (zerosFrame (2 ^ 32)) := encode_eq_ok_iff.mpr ⟨hcut.trans_le hlimit, rfl⟩
  refine ⟨hencode, fun hread => ?_⟩
  have hsize := (keeps_of_decodeToPacket hspell.noVendor hencode
    (Outcome.toOption_eq_some_iff.mp hread)).2
  rw [zeros_payloadSize] at hsize
  have hmax : maxPayloadSize < 2 ^ 32 := by decide
  omega

/-- An end that nobody has closed. -/
structure IsOpenEnd (cap : Nat) (x : Peer) (session : AiclSession InProcChannel) : Prop where
  codec : session.codec = .new
  state : session.state = .init
  transport : session.transport = ⟨x.queue, x.other.queue, cap, true⟩

/-- The checks pass at such an end. -/
theorem IsOpenEnd.checkOpen {x : Peer} {session : AiclSession InProcChannel}
    (h : IsOpenEnd cap x session) : session.checkOpen = .ok () := by
  apply AiclSession.checkOpen_eq_ok_iff.mpr
  rw [h.state, h.transport]
  exact ⟨by decide, rfl⟩

/-- The ends are open still when one of them has counted a packet. -/
theorem IsOpenEnd.update {x : Peer} {session : AiclSession InProcChannel}
    (hs : ∀ y, IsOpenEnd cap y (s.session y)) (h : IsOpenEnd cap x session) :
    ∀ y, IsOpenEnd cap y (Function.update s.session x session y) :=
  (Function.forall_update_iff s.session fun y session => IsOpenEnd cap y session).mpr
    ⟨h, fun y _ => hs y⟩

/-- A send at an open end with room. -/
theorem step_send {x : Peer} (hs : ∀ y, IsOpenEnd cap y (s.session y)) {uuidV4 : Id16}
    {pkt : AiclPacket} {frame : Bytes} (hencode : AiclCodec.new.encode crc32 uuidV4 pkt = .ok frame)
    (hroom : (s.queues x.queue).length < cap) :
    ∃ t, SessionPair.step crc32 s (x, .send uuidV4 pkt) = some t ∧
      (∀ y, IsOpenEnd cap y (t.session y)) ∧ t.queues x.queue = s.queues x.queue ++ [frame] ∧
        t.sent = Function.update s.sent x (s.sent x ++ [pkt]) ∧ t.received = s.received := by
  have h := hs x
  rcases AiclSession.sendPacket_cases crc32 uuidV4 (s.session x) pkt s.queues with
    ⟨hrefused, _⟩ | ⟨frame', hencode', _, hsend⟩
  · rw [h.codec, h.transport] at hrefused
    rcases hrefused with hclosed | hnone | hfull
    · exact absurd h.checkOpen hclosed
    · exact absurd hencode (hnone frame)
    · exact absurd hroom (Nat.not_lt.mpr hfull)
  · rw [h.codec, hencode] at hencode'
    cases hencode'
    have hout : (s.session x).transport.outgoing = x.queue := by rw [h.transport]
    simp only [SessionPair.step, hsend, hout]
    refine ⟨_, rfl, IsOpenEnd.update hs ⟨h.codec, h.state, h.transport⟩, ?_, rfl, rfl⟩
    exact Function.update_self x.queue (s.queues x.queue ++ [frame]) s.queues

/-- A receive at an open end with a frame: what comes out is what the session reads
from the frame. -/
theorem step_recv (crc32 : Bytes → UInt32) {x : Peer} (hs : ∀ y, IsOpenEnd cap y (s.session y)) {frame : Bytes}
    {rest : List Bytes} (hqueue : s.queues x.other.queue = frame :: rest) :
    ∃ t, SessionPair.step crc32 s (x, .recv) = some t ∧
      (∀ y, IsOpenEnd cap y (t.session y)) ∧ t.queues x.other.queue = rest ∧ t.sent = s.sent ∧
        t.received = Function.update s.received x
          (s.received x ++ (AiclSession.readFrame crc32 frame).toList) := by
  have h := hs x
  have hin : (s.session x).transport.incoming = x.other.queue := by rw [h.transport]
  rcases AiclSession.recvPacket_cases crc32 (s.session x) s.queues with
    ⟨hrefused, _⟩ | ⟨frame', rest', hqueue', hqueues, hread⟩
  · rw [hin, hqueue] at hrefused
    rcases hrefused with hclosed | hempty
    · exact absurd h.checkOpen hclosed
    · cases hempty
  · rw [hin] at hqueue' hqueues
    rw [hqueue] at hqueue'
    cases hqueue'
    rw [AiclSession.readFrame, ← h.codec]
    rcases hread with ⟨pkt, hdecode, hok, hsession⟩ | ⟨hbad, hfail, hsession⟩
    · rw [Outcome.toOption_eq_some_iff.mpr hdecode]
      simp only [SessionPair.step, hok, hsession, hqueues]
      refine ⟨_, rfl, IsOpenEnd.update hs ⟨h.codec, h.state, h.transport⟩, ?_, rfl, rfl⟩
      exact Function.update_self x.other.queue rest s.queues
    · rw [Outcome.toOption_eq_none_iff.mpr hbad, Option.toList_none, List.append_nil]
      simp only [SessionPair.step, hsession, hqueues]
      refine ⟨_, rfl, IsOpenEnd.update hs h, ?_, rfl, (Function.update_eq_self x s.received).symm⟩
      exact Function.update_self x.other.queue rest s.queues

/-- A packet that is sent through an empty queue: what comes out is what the other
end reads from its frame. -/
theorem send_recv (hs : ∀ x, IsOpenEnd cap x (s.session x)) (hqueue : s.queues Peer.a.queue = [])
    (hcap : 0 < cap) {pkt : AiclPacket} {frame : Bytes}
    (hencode : AiclCodec.new.encode crc32 .zero pkt = .ok frame) :
    ∃ t, Machine.run (SessionPair.step crc32) s [(.a, .send .zero pkt), (.b, .recv)] = some t ∧
      (∀ x, IsOpenEnd cap x (t.session x)) ∧ t.queues Peer.a.queue = [] ∧
        t.sent .a = s.sent .a ++ [pkt] ∧
          t.received .b = s.received .b ++ (AiclSession.readFrame crc32 frame).toList := by
  have hroom : (s.queues Peer.a.queue).length < cap := by
    rw [hqueue]
    exact hcap
  rcases step_send hs hencode hroom with ⟨u, hsend, hu, huqueue, husent, hureceived⟩
  rw [hqueue, List.nil_append] at huqueue
  rcases step_recv crc32 (x := .b) hu huqueue with ⟨t, hrecv, ht, htqueue, htsent, htreceived⟩
  refine ⟨t, ?_, ht, htqueue, ?_, ?_⟩
  · simp only [Machine.run, hsend, hrecv, Option.bind_some]
  · rw [htsent, husent, Function.update_self]
  · rw [htreceived, hureceived, Function.update_self]

/-- The large request and a small one are sent and received, one after the other. -/
def bulkFirst : List (Peer × SessionCall) :=
  [(.a, .send .zero (zeros (2 ^ 32))), (.b, .recv)] ++ [(.a, .send .zero (zeros 0)), (.b, .recv)]

/-- A frame can spell the packets that are sent there. -/
theorem bulkFirst_spellable {x : Peer} {uuidV4 : Id16} {pkt : AiclPacket}
    (h : (x, SessionCall.send uuidV4 pkt) ∈ bulkFirst) : pkt.Spellable := by
  simp only [bulkFirst, List.cons_append, List.nil_append, List.mem_cons, Prod.mk.injEq,
    SessionCall.send.injEq, reduceCtorEq, and_false, List.not_mem_nil, or_false, false_or] at h
  rcases h with h | h
  · rw [h.2.2]
    exact zeros_spellable (2 ^ 32)
  · rw [h.2.2]
    exact zeros_spellable 0

/-- The large request and the small one differ. -/
theorem zeros_zero_ne : zeros 0 ≠ zeros (2 ^ 32) := by
  intro heq
  have hsize := congrArg AiclPacket.payloadSize heq
  have hdigits : (encodeLen 0).length = 1 := by decide
  rw [zeros_payloadSize, zeros_payloadSize, hdigits] at hsize
  omega

/-- The request of four gibibytes is sent; whatever is received for it, the order of
the channel is broken at the latest by the next request. -/
theorem reorders_cut :
    ¬ ∀ (crc32 : Bytes → UInt32) (cap : Nat) (id : Peer → Id16) (calls : List (Peer × SessionCall)),
      (∀ x uuidV4 pkt, (x, SessionCall.send uuidV4 pkt) ∈ calls → pkt.Spellable) →
        (∀ s, Machine.run (SessionPair.step crc32) (.start cap id) calls = some s →
            ∀ x : Peer, s.received x.other <+: s.sent x ∧ (s.queues x.queue).length ≤ cap) ∧
          Machine.Along (SessionPair.step crc32) (FailedSendKeeps crc32) (.start cap id) calls := by
  intro h
  have hstart : ∀ x, IsOpenEnd 1 x ((SessionPair.start 1 fun _ => .zero).session x) := by
    intro x
    cases x
    · exact ⟨rfl, rfl, rfl⟩
    · exact ⟨rfl, rfl, rfl⟩
  -- the large request goes through first
  rcases send_recv hstart rfl Nat.one_pos readFrame_bulk.1 with
    ⟨s, hrun, hs, hqueue, hsent, hreceived⟩
  have hfirst := ((h Crc32.ieee 1 (fun _ => .zero) _ fun x uuidV4 pkt hmem =>
    bulkFirst_spellable (List.mem_append_left _ hmem)).1 s hrun .a).1
  -- and then the small one
  rcases send_recv hs hqueue Nat.one_pos readFrame_small.1 with
    ⟨t, hrun', _, _, hsent', hreceived'⟩
  have hboth : Machine.run (SessionPair.step Crc32.ieee) (.start 1 fun _ => .zero) bulkFirst =
      some t := by
    rw [bulkFirst, Machine.run_append, hrun]
    exact hrun'
  have hsecond := ((h Crc32.ieee 1 (fun _ => .zero) bulkFirst fun x uuidV4 pkt hmem =>
    bulkFirst_spellable hmem).1 t hboth .a).1
  rw [readFrame_small.2] at hreceived'
  rw [Peer.other, hreceived, hsent] at hfirst
  rw [Peer.other, hreceived', hsent', hreceived, hsent] at hsecond
  cases hread : AiclSession.readFrame Crc32.ieee (zerosFrame (2 ^ 32)) with
  | some pkt =>
      rw [hread] at hfirst
      have heq : pkt = zeros (2 ^ 32) := (List.cons_prefix_cons.mp hfirst).1
      exact readFrame_bulk.2 (heq ▸ hread)
  | none =>
      rw [hread] at hsecond
      exact zeros_zero_ne (List.cons_prefix_cons.mp hsecond).1

end SessionPair

end Aicl.CoreRust

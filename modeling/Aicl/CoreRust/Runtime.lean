import Aicl.CoreRust.Gate
import Aicl.CoreRust.Session

/-!
# The runtime of the Rust core

{lit}`AiclRuntime` of {lit}`core-rust/src/runtime.rs`: a gate and the sessions by
their ids.  The endpoint registry is left out, because neither
{lit}`dispatch_packet` nor {lit}`tick` looks at it.  A dispatch has two halves, a
send and a receive, and a tick polls one session after the other; between these
steps the other ends of the transports may act.

Main results:

- Theorem {lit}`AiclRuntime.dispatchPacket_of_sent`: a dispatch is its two halves.
- Theorem {lit}`AiclRuntime.dispatchSend_cases`: what the first half does over
  channels.
- Theorem {lit}`AiclRuntime.poll_cases`: what a poll does to a channel.
-/

namespace Aicl.CoreRust

/-- Identifiers are compared byte by byte. -/
instance : LinearOrder Id16 :=
  let order := LinearOrder.lift' (fun id : Id16 => id.bytes.map UInt8.toNat) fun _ _ h =>
    Id16.ext_bytes (List.map_injective_iff.mpr (fun _ _ => UInt8.toNat_inj.mp) h)
  { order with
    toDecidableEq := inferInstance
    compare_eq_compareOfLessAndEq a b := by
      rw [order.compare_eq_compareOfLessAndEq]
      congr! }

/-- Runtime over transports of one kind: the sessions are in the order of their ids. -/
@[ext]
structure AiclRuntime (τ : Type) where
  gate : AiclGate
  sessions : List (Id16 × AiclSession τ)
  codec : AiclCodec
  sorted : SortedMap.Sorted sessions

namespace AiclRuntime

variable {ω τ : Type} [Transport ω τ]

/-- {lit}`new`. -/
def new : AiclRuntime τ where
  gate := .new
  sessions := []
  codec := .new
  sorted := List.Pairwise.nil

/-- The session with an id. -/
def session? (rt : AiclRuntime τ) (id : Id16) : Option (AiclSession τ) :=
  Dict.get? id rt.sessions

/-- A session is put in, or changed in place. -/
def setSession (rt : AiclRuntime τ) (id : Id16) (session : AiclSession τ) : AiclRuntime τ :=
  { rt with
    sessions := SortedMap.insert id session rt.sessions
    sorted := SortedMap.insert_sorted id session rt.sorted }

/-- The sessions that do not meet a condition are taken out. -/
def removeSessions (rt : AiclRuntime τ) (keep : Id16 × AiclSession τ → Bool) : AiclRuntime τ :=
  { rt with
    sessions := rt.sessions.filter keep
    sorted := List.Pairwise.filter keep rt.sorted }

/-- {lit}`create_session`, with the id that the generator gave. -/
def createSession (rt : AiclRuntime τ) (id : Id16) (transport : τ) :
    AiclResult Id16 × AiclRuntime τ :=
  (.ok id, rt.setSession id (.new id transport))

/-- {lit}`close_session`. -/
def closeSession (rt : AiclRuntime τ) (id : Id16) (world : ω) :
    AiclResult Unit × AiclRuntime τ × ω :=
  match rt.session? id with
  | none => (.err (.new .sessionClosed "session not found"), rt, world)
  | some session =>
      let r := session.close world
      (r.1, rt.removeSessions fun e => e.1 ≠ id, r.2.2)

/-! ## Dispatch -/

/-- The target of a packet: its first reference. -/
def target (pkt : AiclPacket) : Option UInt16 :=
  pkt.operands.findSome? fun op =>
    match op with
    | .ref idx => some idx
    | _ => none

/-- The session that packets are forwarded to: the first open one. -/
def found (rt : AiclRuntime τ) : Option (Id16 × AiclSession τ) :=
  rt.sessions.find? fun e => e.2.isOpen

/-- What {lit}`dispatch_packet` does before it sends: the gate and the search for a
session. -/
def route (rt : AiclRuntime τ) (pkt : AiclPacket) : AiclResult (Id16 × AiclSession τ) := do
  let _ ← rt.gate.checkAndValidate pkt
  match target pkt, rt.found with
  | some _, some entry => .ok entry
  | targetCap, _ =>
      .err (.new .noHandler s!"no handler for capability {targetCap.getD 0}")

section Operations

variable (crc32 : Bytes → UInt32)

/-- {lit}`dispatch_packet`. -/
def dispatchPacket (uuidV4 : Id16) (rt : AiclRuntime τ) (pkt : AiclPacket) (world : ω) :
    AiclResult AiclPacket × AiclRuntime τ × ω :=
  match rt.route pkt with
  | .ok (sid, session) =>
      match session.sendPacket crc32 uuidV4 { pkt with correlationId := sid } world with
      | (.ok (), session, world) =>
          let r := session.recvPacket crc32 world
          (r.1, rt.setSession sid r.2.1, r.2.2)
      | (.err e, session, world) => (.err e, rt.setSession sid session, world)
      | (.panic, session, world) => (.panic, rt.setSession sid session, world)
  | .err e => (.err e, rt, world)
  | .panic => (.panic, rt, world)

/-- The first half of a dispatch: up to the send. -/
def dispatchSend (uuidV4 : Id16) (rt : AiclRuntime τ) (pkt : AiclPacket) (world : ω) :
    AiclResult Id16 × AiclRuntime τ × ω :=
  match rt.route pkt with
  | .ok (sid, session) =>
      let r := session.sendPacket crc32 uuidV4 { pkt with correlationId := sid } world
      (r.1 >>= fun _ => .ok sid, rt.setSession sid r.2.1, r.2.2)
  | .err e => (.err e, rt, world)
  | .panic => (.panic, rt, world)

/-- The second half of a dispatch, and a receive at a session. -/
def recvPacket (rt : AiclRuntime τ) (sid : Id16) (session : AiclSession τ) (world : ω) :
    AiclResult AiclPacket × AiclRuntime τ × ω :=
  let r := session.recvPacket crc32 world
  (r.1, rt.setSession sid r.2.1, r.2.2)

/-! ## Ticks -/

/-- What {lit}`tick` does with a frame: the packet is decoded and dropped, and one
event is counted. -/
def drain (codec : AiclCodec) (buf : Bytes) : AiclResult Nat :=
  match (do let view ← codec.decode crc32 buf; view.toPacket) with
  | .ok _ => .ok 1
  | .err _ => .ok 1
  | .panic => .panic

/-- One round of the loop of {lit}`tick`: the events and the session. -/
def poll (codec : AiclCodec) (session : AiclSession τ) (world : ω) :
    AiclResult Nat × AiclSession τ × ω :=
  if session.isOpen then
    match Transport.recv session.transport [] world with
    | (.ok n, buf, transport, world) =>
        (if 0 < n then drain crc32 codec buf else .ok 0, { session with transport }, world)
    | (.err _, _, transport, world) => (.ok 0, { session with transport }, world)
    | (.panic, _, transport, world) => (.panic, { session with transport }, world)
  else (.ok 0, session, world)

/-- The loop of {lit}`tick` over the ids of the sessions. -/
def pollAll (rt : AiclRuntime τ) (events : Nat) (world : ω) :
    List Id16 → AiclResult Nat × AiclRuntime τ × ω
  | [] => (.ok events, rt, world)
  | sid :: sids =>
      match rt.session? sid with
      | none => pollAll rt events world sids
      | some session =>
          match poll crc32 rt.codec session world with
          | (.ok n, session, world) => pollAll (rt.setSession sid session) (events + n) world sids
          | (.err e, session, world) => (.err e, rt.setSession sid session, world)
          | (.panic, session, world) => (.panic, rt.setSession sid session, world)

/-- The closed sessions are taken out. -/
def expire (rt : AiclRuntime τ) : AiclRuntime τ :=
  rt.removeSessions fun e => e.2.state ≠ .closed

/-- {lit}`tick`: every session that was taken out is an event. -/
def tick (rt : AiclRuntime τ) (world : ω) : AiclResult Nat × AiclRuntime τ × ω :=
  let closed := rt.sessions.filter fun e => e.2.state = .closed
  pollAll crc32 rt.expire closed.length world (rt.expire.sessions.map Prod.fst)

end Operations

/-! ## The sessions of a runtime -/

variable {rt : AiclRuntime τ} {sid : Id16} {session : AiclSession τ}

/-- The session that was put in. -/
theorem session?_setSession (rt : AiclRuntime τ) (sid : Id16) (session : AiclSession τ) (id : Id16) :
    (rt.setSession sid session).session? id = if id = sid then some session else rt.session? id :=
  SortedMap.get?_insert sid id session rt.sessions

/-- The session that was put in, under its id. -/
@[simp] theorem session?_setSession_self (rt : AiclRuntime τ) (sid : Id16)
    (session : AiclSession τ) : (rt.setSession sid session).session? sid = some session := by
  rw [session?_setSession, if_pos rfl]

/-- Runtimes with the same sessions under every id. -/
theorem eq_of_session? {rt rt' : AiclRuntime τ} (hgate : rt.gate = rt'.gate)
    (hcodec : rt.codec = rt'.codec) (h : ∀ id, rt.session? id = rt'.session? id) : rt = rt' :=
  AiclRuntime.ext hgate (SortedMap.eq_of_get?_eq rt.sorted rt'.sorted h) hcodec

/-- Putting in what is there changes nothing. -/
theorem setSession_of_session? (h : rt.session? sid = some session) :
    rt.setSession sid session = rt := by
  refine eq_of_session? rfl rfl ?_
  intro id
  rw [session?_setSession]
  by_cases hid : id = sid
  · rw [if_pos hid, hid, h]
  · rw [if_neg hid]

/-- The session that is put in last stays. -/
theorem setSession_setSession (rt : AiclRuntime τ) (sid : Id16) (session session' : AiclSession τ) :
    (rt.setSession sid session).setSession sid session' = rt.setSession sid session' := by
  refine eq_of_session? rfl rfl ?_
  intro id
  simp only [session?_setSession]
  by_cases hid : id = sid
  · rw [if_pos hid, if_pos hid]
  · rw [if_neg hid, if_neg hid, if_neg hid]

/-- A session under an id is an entry. -/
theorem mem_of_session? (h : rt.session? sid = some session) : (sid, session) ∈ rt.sessions :=
  Dict.mem_of_get? h

/-- An entry is found under its id. -/
theorem session?_of_mem (h : (sid, session) ∈ rt.sessions) : rt.session? sid = some session :=
  SortedMap.get?_of_mem rt.sorted h

/-- The session that packets are forwarded to is the session with its id. -/
theorem session?_of_found (h : rt.found = some (sid, session)) : rt.session? sid = some session :=
  session?_of_mem (List.mem_of_find?_eq_some h)

/-- What all sessions meet they meet still when one that meets it is put in. -/
theorem forall_setSession {P : AiclSession τ → Prop} (h : ∀ e ∈ rt.sessions, P e.2)
    (hsession : P session) : ∀ e ∈ (rt.setSession sid session).sessions, P e.2 := by
  intro e he
  rcases SortedMap.mem_insert he with heq | hmem
  · rw [heq]
    exact hsession
  · exact h e hmem

/-- What all sessions meet those that stay meet. -/
theorem forall_removeSessions {P : AiclSession τ → Prop} (h : ∀ e ∈ rt.sessions, P e.2)
    (keep : Id16 × AiclSession τ → Bool) : ∀ e ∈ (rt.removeSessions keep).sessions, P e.2 :=
  fun e he => h e (List.mem_filter.mp he).1

/-- A packet is forwarded when the gate admits it, it has a target and a session is
open. -/
theorem route_eq_ok_iff {pkt : AiclPacket} {entry : Id16 × AiclSession τ} :
    rt.route pkt = .ok entry ↔
      (rt.gate.checkAndValidate pkt).isOk ∧ (target pkt).isSome ∧ rt.found = some entry := by
  unfold route
  cases hgate : rt.gate.checkAndValidate pkt with
  | err e => simp [Outcome.isOk]
  | panic => simp [Outcome.isOk]
  | ok decision =>
      cases htarget : target pkt <;> cases hfound : rt.found <;> simp [Outcome.isOk]

/-! ## The halves of a dispatch -/

variable {crc32 : Bytes → UInt32} {uuidV4 : Id16} {pkt : AiclPacket} {world : ω}

/-- A dispatch whose packet was sent ends with a receive at the same session. -/
theorem dispatchPacket_of_sent {rt' : AiclRuntime τ} {world' : ω}
    (h : rt.dispatchSend crc32 uuidV4 pkt world = (.ok sid, rt', world')) :
    ∃ session, rt'.session? sid = some session ∧
      rt.dispatchPacket crc32 uuidV4 pkt world = rt'.recvPacket crc32 sid session world' := by
  unfold dispatchSend at h
  unfold dispatchPacket
  cases hroute : rt.route pkt with
  | err e => simp only [hroute, Prod.mk.injEq, reduceCtorEq, false_and] at h
  | panic => simp only [hroute, Prod.mk.injEq, reduceCtorEq, false_and] at h
  | ok entry =>
      rcases entry with ⟨id, session⟩
      simp only [hroute] at h
      rcases hsend : session.sendPacket crc32 uuidV4 { pkt with correlationId := id } world with
        ⟨result, sent, after⟩
      cases result with
      | err e => simp only [hsend, Outcome.err_bind, Prod.mk.injEq, reduceCtorEq, false_and] at h
      | panic => simp only [hsend, Outcome.panic_bind, Prod.mk.injEq, reduceCtorEq, false_and] at h
      | ok u =>
          simp only [hsend, Outcome.ok_bind, Prod.mk.injEq, Outcome.ok.injEq] at h
          rcases h with ⟨rfl, rfl, rfl⟩
          refine ⟨sent, session?_setSession_self rt id sent, ?_⟩
          simp only [hsend, recvPacket, setSession_setSession]

/-- A dispatch whose packet was not sent ends there. -/
theorem dispatchPacket_of_not_sent (h : ∀ sid, (rt.dispatchSend crc32 uuidV4 pkt world).1 ≠ .ok sid) :
    (∀ answer, (rt.dispatchPacket crc32 uuidV4 pkt world).1 ≠ .ok answer) ∧
      (rt.dispatchPacket crc32 uuidV4 pkt world).2 = (rt.dispatchSend crc32 uuidV4 pkt world).2 := by
  unfold dispatchSend at h ⊢
  unfold dispatchPacket
  cases hroute : rt.route pkt with
  | err e =>
      constructor
      · intro answer h
        cases h
      · rfl
  | panic =>
      constructor
      · intro answer h
        cases h
      · rfl
  | ok entry =>
      rcases entry with ⟨id, session⟩
      simp only [hroute] at h ⊢
      rcases hsend : session.sendPacket crc32 uuidV4 { pkt with correlationId := id } world with
        ⟨result, sent, after⟩
      cases result with
      | err e =>
          constructor
          · intro answer h
            cases h
          · rfl
      | panic =>
          constructor
          · intro answer h
            cases h
          · rfl
      | ok u =>
          rw [hsend] at h
          exact absurd rfl (h id)

/-! ## Runtimes over channels -/

section Channels

variable (crc32) (uuidV4) {queues : Queues}

/-- The first half of a dispatch either changes nothing and gives no session, or it
puts a frame with the id of the session as correlation id into the queue of the
first open session. -/
theorem dispatchSend_cases (rt : AiclRuntime InProcChannel) (pkt : AiclPacket) (queues : Queues) :
    ((∀ sid, (rt.dispatchSend crc32 uuidV4 pkt queues).1 ≠ .ok sid) ∧
        (rt.dispatchSend crc32 uuidV4 pkt queues).2 = (rt, queues)) ∨
      ∃ sid session frame, rt.route pkt = .ok (sid, session) ∧
        session.codec.encode crc32 uuidV4 { pkt with correlationId := sid } = .ok frame ∧
          (queues session.transport.outgoing).length < session.transport.cap ∧
            rt.dispatchSend crc32 uuidV4 pkt queues =
              (.ok sid, rt.setSession sid { session with seqSent := session.seqSent + 1 },
                Function.update queues session.transport.outgoing
                  (queues session.transport.outgoing ++ [frame])) := by
  unfold dispatchSend
  cases hroute : rt.route pkt with
  | err e => exact .inl ⟨fun sid h => (nomatch h), rfl⟩
  | panic => exact .inl ⟨fun sid h => (nomatch h), rfl⟩
  | ok entry =>
      rcases entry with ⟨sid, session⟩
      dsimp only
      rcases session.sendPacket_cases crc32 uuidV4 { pkt with correlationId := sid } queues with
        ⟨_, hfail, hkeep⟩ | ⟨frame, hencode, hroom, hsend⟩
      · left
        have hfound := session?_of_found (route_eq_ok_iff.mp hroute).2.2
        rw [hkeep, setSession_of_session? hfound]
        refine ⟨fun id hid => ?_, rfl⟩
        rcases Outcome.bind_eq_ok_iff.mp hid with ⟨u, hok, _⟩
        exact hfail hok
      · right
        refine ⟨sid, session, frame, rfl, hencode, hroom, ?_⟩
        rw [hsend]
        rfl

/-- Closing a session takes sessions out and leaves the queues. -/
theorem closeSession_cases (rt : AiclRuntime InProcChannel) (id : Id16) (queues : Queues) :
    (rt.closeSession id queues).2 = (rt, queues) ∨
      (rt.closeSession id queues).2 = (rt.removeSessions fun e => e.1 ≠ id, queues) := by
  unfold closeSession
  cases rt.session? id with
  | none => exact .inl rfl
  | some session => exact .inr rfl

/-- A poll takes the first frame from the queue of an open session, or changes
nothing. -/
theorem poll_cases (codec : AiclCodec) (session : AiclSession InProcChannel) (queues : Queues) :
    ((¬ session.isOpen ∨ queues session.transport.incoming = []) ∧
        poll crc32 codec session queues = (.ok 0, session, queues)) ∨
      ∃ frame rest, session.isOpen ∧ queues session.transport.incoming = frame :: rest ∧
        (poll crc32 codec session queues).2 =
          (session, Function.update queues session.transport.incoming rest) := by
  unfold poll
  by_cases hopen : session.isOpen
  · rw [if_pos hopen]
    cases hqueue : queues session.transport.incoming with
    | nil =>
        left
        simp only [Transport.recv, InProcChannel.recv_nil hqueue]
        exact ⟨.inr trivial, trivial⟩
    | cons frame rest =>
        right
        simp only [Transport.recv, InProcChannel.recv_cons hqueue]
        exact ⟨frame, rest, hopen, rfl, rfl⟩
  · rw [if_neg hopen]
    exact .inl ⟨.inl hopen, rfl⟩

end Channels

end AiclRuntime

end Aicl.CoreRust

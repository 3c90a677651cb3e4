import Aicl.CoreRust.Runtime
import Aicl.Foundation.Machine

/-!
# Runs of a runtime over channels

A runtime whose sessions are over channels, the queues, and whoever holds the other
ends.  The halves of a dispatch and the rounds of a tick are steps of their own; the
other ends act at any time, the runtime does one thing after the other.

Main results:

- Theorem {lit}`RuntimeRun.run_dispatch` and {lit}`RuntimeRun.run_tick`: the steps
  without anything between them are {lit}`dispatch_packet` and {lit}`tick`.
- Theorem {lit}`RuntimeRun.effect_of_step`: what a step can do.
- Theorem {lit}`RuntimeRun.account_iff`: every packet that went into a queue is in it
  or was returned, once and in order, exactly when no tick finds a packet.
- Theorem {lit}`RuntimeRun.tick_loses`: a tick that finds a packet loses it.
-/

namespace Aicl.CoreRust

/-- What the runtime is in the middle of. -/
inductive RuntimeTask where
  | idle
  | dispatching (sid : Id16)
  | ticking (left : List Id16)
deriving DecidableEq, Repr

/-- Steps of the runtime and of those that hold other ends.  What a peer sends may
answer a request, which is given by its number. -/
inductive RuntimeCall where
  | createSession (id : Id16) (c : InProcChannel)
  | closeSession (id : Id16)
  | configure (gate : AiclGate) (codec : AiclCodec)
  | recv (sid : Id16)
  | dispatch (uuidV4 : Id16) (pkt : AiclPacket)
  | finish
  | tick
  | poll
  | peerSend (c : InProcChannel) (frame : Bytes) (answers : Option Nat)
  | peerRecv (c : InProcChannel)

/-- A frame that went into a queue. -/
structure SentFrame where
  bytes : Bytes
  answers : Option Nat
deriving DecidableEq, Repr

/-- The runtime and the queues, with what went into each queue, the packets that
receives returned from it, and the message ids of the packets that were
dispatched. -/
structure RuntimeRun where
  runtime : AiclRuntime InProcChannel
  queues : Queues
  task : RuntimeTask
  sent : Nat → List SentFrame
  returned : Nat → List AiclPacket
  requests : List Id16

namespace RuntimeRun

/-- A new runtime. -/
def start : RuntimeRun where
  runtime := .new
  queues _ := []
  task := .idle
  sent _ := []
  returned _ := []
  requests := []

/-- The queues after a send: what is new in them was sent. -/
def put (s : RuntimeRun) (queues : Queues) (answers : Option Nat) : RuntimeRun :=
  { s with
    queues
    sent := fun n => s.sent n ++ ((queues n).drop (s.queues n).length).map fun bytes =>
      { bytes, answers } }

variable (crc32 : Bytes → UInt32)

/-- A receive at a session. -/
def receive (s : RuntimeRun) (sid : Id16) (session : AiclSession InProcChannel) : RuntimeRun :=
  let r := s.runtime.recvPacket crc32 sid session s.queues
  { s with
    runtime := r.2.1
    queues := r.2.2
    returned := Function.update s.returned session.transport.incoming
      (s.returned session.transport.incoming ++ r.1.toOption.toList) }

/-- The first half of a dispatch. -/
def dispatch (s : RuntimeRun) (uuidV4 : Id16) (pkt : AiclPacket) : RuntimeRun :=
  let r := s.runtime.dispatchSend crc32 uuidV4 pkt s.queues
  match r.1 with
  | .ok sid =>
      { s.put r.2.2 none with
        runtime := r.2.1
        task := .dispatching sid
        requests := s.requests ++ [pkt.messageId.getD uuidV4] }
  | _ => { s.put r.2.2 none with runtime := r.2.1 }

/-- One round of a tick. -/
def poll (s : RuntimeRun) (sid : Id16) (left : List Id16) (session : AiclSession InProcChannel) :
    RuntimeRun :=
  let r := AiclRuntime.poll crc32 s.runtime.codec session s.queues
  { s with
    runtime := s.runtime.setSession sid r.2.1
    queues := r.2.2
    task := match r.1 with
      | .ok _ => .ticking left
      | _ => .idle }

/-- One step.  The two queues of an end are different ones, as those of a pair are,
and a queue that a session reads is read by nobody else. -/
def step (s : RuntimeRun) : RuntimeCall → Option RuntimeRun
  | .createSession id c =>
      if s.task = .idle ∧ c.outgoing ≠ c.incoming then
        some { s with runtime := (s.runtime.createSession id c).2 }
      else none
  | .closeSession id =>
      if s.task = .idle then
        let r := s.runtime.closeSession id s.queues
        some { s with runtime := r.2.1, queues := r.2.2 }
      else none
  | .configure gate codec =>
      if s.task = .idle then some { s with runtime := { s.runtime with gate, codec } } else none
  | .recv sid =>
      if s.task = .idle then (s.runtime.session? sid).map (s.receive crc32 sid) else none
  | .dispatch uuidV4 pkt => if s.task = .idle then some (s.dispatch crc32 uuidV4 pkt) else none
  | .finish =>
      match s.task with
      | .dispatching sid =>
          (s.runtime.session? sid).map fun session =>
            { s.receive crc32 sid session with task := .idle }
      | _ => none
  | .tick =>
      if s.task = .idle then
        some
          { s with
            runtime := s.runtime.expire
            task := .ticking (s.runtime.expire.sessions.map Prod.fst) }
      else none
  | .poll =>
      match s.task with
      | .ticking (sid :: left) => (s.runtime.session? sid).map (s.poll crc32 sid left)
      | .ticking [] => some { s with task := .idle }
      | _ => none
  | .peerSend c frame answers => some (s.put (c.send frame s.queues).2.2 answers)
  | .peerRecv c =>
      if ∀ e ∈ s.runtime.sessions, e.2.transport.incoming ≠ c.incoming then
        let r := c.recv [] s.queues
        some
          { s with
            queues := r.2.2.2
            returned := Function.update s.returned c.incoming
              (s.returned c.incoming ++ ((s.queues c.incoming).head?.bind
                (AiclSession.readFrame crc32)).toList) }
      else none

/-! ## Steps without anything between them -/

variable {crc32} in
/-- The rounds of a tick are the loop of {lit}`tick`. -/
theorem run_pollAll {ids : List Id16} {s : RuntimeRun} (htask : s.task = .ticking ids)
    (hids : ∀ id ∈ ids, (s.runtime.session? id).isSome) (events : Nat) :
    ∃ rounds t, Machine.run (step crc32) s (List.replicate rounds .poll) = some t ∧
      t.task = .idle ∧
        (t.runtime, t.queues) =
          (AiclRuntime.pollAll crc32 s.runtime events s.queues ids).2 := by
  induction ids generalizing s events with
  | nil =>
      refine ⟨1, { s with task := .idle }, ?_, rfl, rfl⟩
      simp only [List.replicate_one, Machine.run, step, htask, Option.bind_some]
  | cons id left ih =>
      rcases Option.isSome_iff_exists.mp (hids id List.mem_cons_self) with ⟨session, hsession⟩
      have hstep : step crc32 s .poll = some (s.poll crc32 id left session) := by
        simp only [step, htask, hsession, Option.map_some]
      rcases hpoll : AiclRuntime.poll crc32 s.runtime.codec session s.queues with
        ⟨result, polled, queues⟩
      cases result with
      | ok n =>
          have hleft : (s.poll crc32 id left session).task = .ticking left := by
            simp only [poll, hpoll]
          have hkept : ∀ k ∈ left,
              ((s.poll crc32 id left session).runtime.session? k).isSome := by
            intro k hk
            simp only [poll, AiclRuntime.session?_setSession]
            split
            · rfl
            · exact hids k (List.mem_cons_of_mem _ hk)
          rcases ih hleft hkept (events + n) with ⟨rounds, t, hrun, hidle, heq⟩
          refine ⟨rounds + 1, t, ?_, hidle, ?_⟩
          · rw [List.replicate_succ, Machine.run, hstep]
            exact hrun
          · rw [heq]
            simp only [AiclRuntime.pollAll, hsession, hpoll, poll]
      | err e =>
          refine ⟨1, s.poll crc32 id left session, ?_, ?_, ?_⟩
          · simp only [List.replicate_one, Machine.run, hstep, Option.bind_some]
          · simp only [poll, hpoll]
          · simp only [AiclRuntime.pollAll, hsession, hpoll, poll]
      | panic =>
          refine ⟨1, s.poll crc32 id left session, ?_, ?_, ?_⟩
          · simp only [List.replicate_one, Machine.run, hstep, Option.bind_some]
          · simp only [poll, hpoll]
          · simp only [AiclRuntime.pollAll, hsession, hpoll, poll]

/-- A tick and its rounds are {lit}`tick`. -/
theorem run_tick {s : RuntimeRun} (hidle : s.task = .idle) :
    ∃ rounds t, Machine.run (step crc32) s (.tick :: List.replicate rounds .poll) = some t ∧
      t.task = .idle ∧ (t.runtime, t.queues) = (s.runtime.tick crc32 s.queues).2 := by
  have hids : ∀ id ∈ s.runtime.expire.sessions.map Prod.fst,
      (s.runtime.expire.session? id).isSome := by
    intro id hid
    rcases List.mem_map.mp hid with ⟨entry, hentry, heq⟩
    rw [← heq, AiclRuntime.session?_of_mem hentry]
    rfl
  rcases run_pollAll
      (s := { s with
        runtime := s.runtime.expire
        task := .ticking (s.runtime.expire.sessions.map Prod.fst) }) rfl hids
      (s.runtime.sessions.filter fun e => e.2.state = .closed).length with
    ⟨rounds, t, hrun, hdone, heq⟩
  refine ⟨rounds, t, ?_, hdone, heq⟩
  rw [Machine.run, step, if_pos hidle]
  exact hrun

/-- The halves of a dispatch are {lit}`dispatch_packet`. -/
theorem run_dispatch {s : RuntimeRun} (hidle : s.task = .idle) (uuidV4 : Id16) (pkt : AiclPacket) :
    ∃ rest t, (rest = [] ∨ rest = [.finish]) ∧
      Machine.run (step crc32) s (.dispatch uuidV4 pkt :: rest) = some t ∧ t.task = .idle ∧
        (t.runtime, t.queues) = (s.runtime.dispatchPacket crc32 uuidV4 pkt s.queues).2 := by
  have hstep : step crc32 s (.dispatch uuidV4 pkt) = some (s.dispatch crc32 uuidV4 pkt) := by
    rw [step, if_pos hidle]
  by_cases hsent : ∃ sid, (s.runtime.dispatchSend crc32 uuidV4 pkt s.queues).1 = .ok sid
  · rcases hsent with ⟨sid, hok⟩
    have hsend : s.runtime.dispatchSend crc32 uuidV4 pkt s.queues = (.ok sid, _, _) :=
      Prod.ext hok rfl
    rcases AiclRuntime.dispatchPacket_of_sent hsend with ⟨session, hsession, heq⟩
    refine ⟨[.finish],
      { (s.dispatch crc32 uuidV4 pkt).receive crc32 sid session with task := .idle }, .inr rfl,
      ?_, rfl, ?_⟩
    · rw [Machine.run, hstep, Option.bind_some, Machine.run, step]
      simp only [dispatch, hok, hsession, Option.map_some, Option.bind_some, Machine.run]
    · rw [heq]
      simp only [receive, dispatch, hok]
      rfl
  · rw [not_exists] at hsent
    refine ⟨[], s.dispatch crc32 uuidV4 pkt, .inl rfl, ?_, ?_, ?_⟩
    · rw [Machine.run, hstep, Option.bind_some, Machine.run]
    · simp only [dispatch]
      exact hidle
    · rw [(AiclRuntime.dispatchPacket_of_not_sent hsent).2]
      simp only [dispatch]
      rfl

/-! ## The account of the queues -/

/-- The packets in a list of frames, as sessions read them. -/
def packets (frames : List Bytes) : List AiclPacket :=
  frames.filterMap (AiclSession.readFrame crc32)

/-- Every packet that went into a queue was returned or is in it. -/
def Account (s : RuntimeRun) : Prop :=
  ∀ n, packets crc32 ((s.sent n).map SentFrame.bytes) = s.returned n ++ packets crc32 (s.queues n)

/-- The packet that the next round of a tick finds. -/
def nextPolled (s : RuntimeRun) : Option AiclPacket :=
  match s.task with
  | .ticking (sid :: _) =>
      (s.runtime.session? sid).bind fun session =>
        if session.isOpen then
          (s.queues session.transport.incoming).head?.bind (AiclSession.readFrame crc32)
        else none
  | _ => none

/-- A tick finds no packet. -/
def TickSafe (s : RuntimeRun) : RuntimeCall → Prop
  | .poll => s.nextPolled crc32 = none
  | _ => True

variable {crc32} {s t : RuntimeRun} {sid : Id16} {session : AiclSession InProcChannel}

/-- The packets of a list in two parts. -/
theorem packets_append (crc32 : Bytes → UInt32) (frames added : List Bytes) :
    packets crc32 (frames ++ added) = packets crc32 frames ++ packets crc32 added :=
  List.filterMap_append

/-- The packet of the first frame comes first. -/
theorem packets_cons (crc32 : Bytes → UInt32) (frame : Bytes) (rest : List Bytes) :
    packets crc32 (frame :: rest) =
      (AiclSession.readFrame crc32 frame).toList ++ packets crc32 rest := by
  rw [packets, List.filterMap_cons]
  cases AiclSession.readFrame crc32 frame <;> rfl

/-- A send appends its frame to a queue, or nothing. -/
theorem send_appends (c : InProcChannel) (bytes : Bytes) (queues : Queues) (n : Nat) :
    ∃ added, (added = [] ∨ added = [bytes]) ∧ queues n ++ added = (c.send bytes queues).2.2 n := by
  rcases c.send_cases bytes queues with ⟨_, e, hsend⟩ | ⟨_, hsend⟩
  · rw [hsend]
    exact ⟨[], .inl rfl, List.append_nil _⟩
  · rw [hsend]
    by_cases hn : n = c.outgoing
    · refine ⟨[bytes], .inr rfl, ?_⟩
      rw [hn]
      exact (Function.update_self c.outgoing (queues c.outgoing ++ [bytes]) queues).symm
    · refine ⟨[], .inl rfl, ?_⟩
      rw [List.append_nil]
      exact (Function.update_of_ne hn (queues c.outgoing ++ [bytes]) queues).symm

/-- A send appends to queues. -/
theorem send_grows (c : InProcChannel) (bytes : Bytes) (queues : Queues) (n : Nat) :
    queues n <+: (c.send bytes queues).2.2 n := by
  rcases send_appends c bytes queues n with ⟨added, _, hadded⟩
  exact ⟨added, hadded⟩

/-- Where nothing is new nothing was sent. -/
theorem put_self (s : RuntimeRun) (answers : Option Nat) : s.put s.queues answers = s := by
  simp only [RuntimeRun.put, List.drop_length, List.map_nil, List.append_nil]

/-- What is new in a queue was sent. -/
theorem put_sent {queues : Queues} {answers : Option Nat} {n : Nat} {added : List Bytes}
    (hadded : s.queues n ++ added = queues n) :
    (s.put queues answers).sent n = s.sent n ++ added.map fun bytes => ⟨bytes, answers⟩ := by
  simp only [RuntimeRun.put, ← hadded, List.drop_left]

/-- The bytes of what was sent. -/
theorem put_bytes {queues : Queues} {answers : Option Nat} {n : Nat} {added : List Bytes}
    (hadded : s.queues n ++ added = queues n) :
    ((s.put queues answers).sent n).map SentFrame.bytes =
      (s.sent n).map SentFrame.bytes ++ added := by
  rw [put_sent hadded, List.map_append, List.map_map]
  exact congrArg _ (List.map_id added)

/-- What is new in the queues is accounted for as sent. -/
theorem Account.put (h : s.Account crc32) {queues : Queues} (hgrows : ∀ n, s.queues n <+: queues n)
    (answers : Option Nat) : (s.put queues answers).Account crc32 := by
  intro n
  rcases hgrows n with ⟨added, hadded⟩
  rw [put_bytes hadded, packets_append, h n, List.append_assoc, ← packets_append, hadded]
  rfl

/-- What is taken from a queue is accounted for when it is returned. -/
theorem Account.take (h : s.Account crc32) {m : Nat} {frame : Bytes} {rest : List Bytes}
    (hqueue : s.queues m = frame :: rest) (hqueues : t.queues = Function.update s.queues m rest)
    (hreturned : t.returned = Function.update s.returned m
      (s.returned m ++ (AiclSession.readFrame crc32 frame).toList))
    (hsent : t.sent = s.sent) : t.Account crc32 := by
  intro n
  have hold := h n
  rw [hsent, hqueues, hreturned]
  by_cases hn : n = m
  · rw [hn, hqueue, packets_cons] at hold
    rw [hn, Function.update_self, Function.update_self, hold, List.append_assoc]
  · rw [Function.update_of_ne hn, Function.update_of_ne hn]
    exact hold

/-- A step that leaves queues and history is accounted for. -/
theorem Account.congr (h : s.Account crc32) (hqueues : t.queues = s.queues)
    (hreturned : t.returned = s.returned) (hsent : t.sent = s.sent) : t.Account crc32 := by
  intro n
  rw [hsent, hqueues, hreturned]
  exact h n

/-! ## The sessions of a run -/

/-- A session over a channel with two queues that reads frames as new sessions do. -/
structure Regular (session : AiclSession InProcChannel) : Prop where
  codec : session.codec = .new
  apart : session.transport.outgoing ≠ session.transport.incoming

/-- All sessions of the runtime are regular. -/
def AllRegular (s : RuntimeRun) : Prop :=
  ∀ e ∈ s.runtime.sessions, Regular e.2

/-- The session with an id is regular. -/
theorem AllRegular.of_session? (h : s.AllRegular) (hsession : s.runtime.session? sid = some session) :
    Regular session :=
  h (sid, session) (AiclRuntime.mem_of_session? hsession)

variable (crc32) in
/-- What a receive does: nothing, or it takes a frame and returns what is read from it. -/
theorem receive_cases (s : RuntimeRun) (sid : Id16) (hcodec : session.codec = .new) :
    (s.receive crc32 sid session = { s with runtime := s.runtime.setSession sid session }) ∨
      ∃ frame rest received, s.queues session.transport.incoming = frame :: rest ∧
        s.receive crc32 sid session =
          { s with
            runtime := s.runtime.setSession sid { session with seqReceived := received }
            queues := Function.update s.queues session.transport.incoming rest
            returned := Function.update s.returned session.transport.incoming
              (s.returned session.transport.incoming ++
                (AiclSession.readFrame crc32 frame).toList) } := by
  rcases AiclSession.recvPacket_takes crc32 hcodec s.queues with
    ⟨hnone, hkeep⟩ | ⟨frame, rest, received, hqueue, hread, hpop⟩
  · left
    simp only [receive, AiclRuntime.recvPacket, hnone, hkeep, Option.toList_none, List.append_nil,
      Function.update_eq_self]
  · right
    refine ⟨frame, rest, received, hqueue, ?_⟩
    simp only [receive, AiclRuntime.recvPacket, hread, hpop]

variable (crc32) in
/-- What the first half of a dispatch does: nothing, or it puts a frame into the queue
of the first open session. -/
theorem dispatch_cases (s : RuntimeRun) (uuidV4 : Id16) (pkt : AiclPacket) :
    s.dispatch crc32 uuidV4 pkt = s ∨
      ∃ sid session frame, s.runtime.route pkt = .ok (sid, session) ∧
        session.codec.encode crc32 uuidV4 { pkt with correlationId := sid } = .ok frame ∧
          (s.queues session.transport.outgoing).length < session.transport.cap ∧
            s.dispatch crc32 uuidV4 pkt =
              { s.put (Function.update s.queues session.transport.outgoing
                  (s.queues session.transport.outgoing ++ [frame])) none with
                runtime := s.runtime.setSession sid { session with seqSent := session.seqSent + 1 }
                task := .dispatching sid
                requests := s.requests ++ [pkt.messageId.getD uuidV4] } := by
  rcases AiclRuntime.dispatchSend_cases crc32 uuidV4 s.runtime pkt s.queues with
    ⟨hfail, hkeep⟩ | ⟨sid, session, frame, hroute, hencode, hroom, hsend⟩
  · left
    simp only [dispatch, hkeep, put_self]
  · right
    refine ⟨sid, session, frame, hroute, hencode, hroom, ?_⟩
    simp only [dispatch, hsend]

variable (crc32) in
/-- What a round of a tick does: nothing to the queues, or it takes a frame. -/
theorem poll_cases (s : RuntimeRun) (left : List Id16) (hsession : s.runtime.session? sid = some session) :
    ∃ task, (∀ sid, task ≠ .dispatching sid) ∧
      (s.poll crc32 sid left session = { s with task } ∨
        ∃ frame rest, session.isOpen ∧ s.queues session.transport.incoming = frame :: rest ∧
          s.poll crc32 sid left session =
            { s with
              queues := Function.update s.queues session.transport.incoming rest
              task }) := by
  refine ⟨(s.poll crc32 sid left session).task, ?_, ?_⟩
  · intro id
    rw [poll]
    cases (AiclRuntime.poll crc32 s.runtime.codec session s.queues).1 <;> simp
  rcases AiclRuntime.poll_cases crc32 s.runtime.codec session s.queues with
    ⟨_, hkeep⟩ | ⟨frame, rest, hopen, hqueue, htake⟩
  · left
    simp only [poll, hkeep, AiclRuntime.setSession_of_session? hsession]
  · right
    refine ⟨frame, rest, hopen, hqueue, ?_⟩
    simp only [poll, htake, AiclRuntime.setSession_of_session? hsession]

/-- What a step can do. -/
inductive Effect (crc32 : Bytes → UInt32) (s : RuntimeRun) : RuntimeCall → RuntimeRun → Prop where
  /-- Nothing. -/
  | same (i : RuntimeCall) : Effect crc32 s i s
  /-- Only sessions come or go, and the task of the runtime goes on. -/
  | quiet (i : RuntimeCall) (runtime : AiclRuntime InProcChannel) (task : RuntimeTask)
      (hregular : s.AllRegular → ∀ e ∈ runtime.sessions, Regular e.2)
      (hafter : ∀ sid, task ≠ .dispatching sid) : Effect crc32 s i { s with runtime, task }
  /-- A dispatch puts its frame into the queue of the first open session. -/
  | dispatched (uuidV4 : Id16) (pkt : AiclPacket) (sid : Id16) (session : AiclSession InProcChannel)
      (frame : Bytes) (hroute : s.runtime.route pkt = .ok (sid, session))
      (hencode : session.codec.encode crc32 uuidV4 { pkt with correlationId := sid } = .ok frame)
      (hroom : (s.queues session.transport.outgoing).length < session.transport.cap) :
      Effect crc32 s (.dispatch uuidV4 pkt)
        { s.put (Function.update s.queues session.transport.outgoing
            (s.queues session.transport.outgoing ++ [frame])) none with
          runtime := s.runtime.setSession sid { session with seqSent := session.seqSent + 1 }
          task := .dispatching sid
          requests := s.requests ++ [pkt.messageId.getD uuidV4] }
  /-- A peer sends. -/
  | peerSent (c : InProcChannel) (frame : Bytes) (answers : Option Nat) :
      Effect crc32 s (.peerSend c frame answers) (s.put (c.send frame s.queues).2.2 answers)
  /-- A receive takes a frame and returns what is read from it; while a dispatch waits,
  the frame is not for its session. -/
  | took (i : RuntimeCall) (runtime : AiclRuntime InProcChannel) (task : RuntimeTask) (m : Nat)
      (frame : Bytes) (rest : List Bytes) (hqueue : s.queues m = frame :: rest)
      (hregular : s.AllRegular → ∀ e ∈ runtime.sessions, Regular e.2)
      (hafter : ∀ sid, task = .dispatching sid →
        task = s.task ∧ runtime = s.runtime ∧
          ∀ e ∈ s.runtime.sessions, e.2.transport.incoming ≠ m) :
      Effect crc32 s i
        { s with
          runtime
          task
          queues := Function.update s.queues m rest
          returned := Function.update s.returned m
            (s.returned m ++ (AiclSession.readFrame crc32 frame).toList) }
  /-- A round of a tick takes a frame. -/
  | dropped (sid : Id16) (left : List Id16) (session : AiclSession InProcChannel)
      (task : RuntimeTask) (frame : Bytes) (rest : List Bytes)
      (htask : s.task = .ticking (sid :: left))
      (hsession : s.runtime.session? sid = some session) (hopen : session.isOpen)
      (hqueue : s.queues session.transport.incoming = frame :: rest)
      (hafter : ∀ sid, task ≠ .dispatching sid) :
      Effect crc32 s .poll
        { s with queues := Function.update s.queues session.transport.incoming rest, task }

/-- A receive in a task that does not wait for an answer afterwards. -/
theorem Effect.receive (i : RuntimeCall) (h : s.AllRegular)
    (hsession : s.runtime.session? sid = some session) {task : RuntimeTask}
    (hafter : ∀ sid, task ≠ .dispatching sid) :
    Effect crc32 s i { s.receive crc32 sid session with task } := by
  have hregular := h.of_session? hsession
  rcases receive_cases crc32 s sid hregular.codec with hkeep | ⟨frame, rest, received, hqueue, htake⟩
  · rw [hkeep, AiclRuntime.setSession_of_session? hsession]
    exact .quiet i s.runtime task (fun h => h) hafter
  · rw [htake]
    apply Effect.took i _ task _ frame rest hqueue
    · intro h
      exact AiclRuntime.forall_setSession h ⟨hregular.codec, hregular.apart⟩
    · intro id hid
      exact absurd hid (hafter id)

/-- A round of a tick does one of these things. -/
theorem effect_of_poll (hstep : RuntimeRun.step crc32 s .poll = some t) :
    Effect crc32 s .poll t := by
  simp only [RuntimeRun.step] at hstep
  cases htask : s.task with
  | idle => simp only [htask, reduceCtorEq] at hstep
  | dispatching id => simp only [htask, reduceCtorEq] at hstep
  | ticking ids =>
      cases ids with
      | nil =>
          simp only [htask] at hstep
          cases hstep
          apply Effect.quiet _ s.runtime .idle (fun h => h)
          simp
      | cons id left =>
          simp only [htask] at hstep
          rcases Option.map_eq_some_iff.mp hstep with ⟨session, hsession, rfl⟩
          rcases poll_cases crc32 s left hsession with
            ⟨task, hafter, hkeep | ⟨frame, rest, hopen, hqueue, htake⟩⟩
          · rw [hkeep]
            exact .quiet _ s.runtime task (fun h => h) hafter
          · rw [htake]
            exact .dropped id left session task frame rest htask hsession hopen hqueue hafter

/-- A receive of the peer takes a frame, if there is one. -/
theorem effect_of_peerRecv {c : InProcChannel}
    (hstep : RuntimeRun.step crc32 s (.peerRecv c) = some t) : Effect crc32 s (.peerRecv c) t := by
  rw [RuntimeRun.step, Option.ite_none_right_eq_some] at hstep
  rcases hstep with ⟨hother, hstep⟩
  cases hstep
  cases hqueue : s.queues c.incoming with
  | nil =>
      simp only [InProcChannel.recv_nil hqueue, List.head?_nil, Option.bind_none,
        Option.toList_none, List.append_nil, Function.update_eq_self]
      exact .same _
  | cons frame rest =>
      simp only [InProcChannel.recv_cons hqueue, List.head?_cons, Option.bind_some]
      apply Effect.took _ s.runtime s.task c.incoming frame rest hqueue (fun h => h)
      intro id _
      exact ⟨rfl, rfl, hother⟩

/-- Every step does one of these things. -/
theorem effect_of_step (h : s.AllRegular) {i : RuntimeCall}
    (hstep : RuntimeRun.step crc32 s i = some t) : Effect crc32 s i t := by
  cases i with
  | createSession id c =>
      rw [RuntimeRun.step, Option.ite_none_right_eq_some] at hstep
      rcases hstep with ⟨⟨hidle, hapart⟩, hstep⟩
      cases hstep
      apply Effect.quiet _ (s.runtime.createSession id c).2 s.task
      · exact fun h => AiclRuntime.forall_setSession h ⟨rfl, hapart⟩
      · simp [hidle]
  | closeSession id =>
      rw [RuntimeRun.step, Option.ite_none_right_eq_some] at hstep
      rcases hstep with ⟨hidle, hstep⟩
      cases hstep
      rcases AiclRuntime.closeSession_cases s.runtime id s.queues with hclose | hclose
      · simp only [hclose]
        exact .same _
      · simp only [hclose]
        apply Effect.quiet _ (s.runtime.removeSessions fun e => e.1 ≠ id) s.task
        · exact fun h => AiclRuntime.forall_removeSessions h _
        · simp [hidle]
  | configure gate codec =>
      rw [RuntimeRun.step, Option.ite_none_right_eq_some] at hstep
      rcases hstep with ⟨hidle, hstep⟩
      cases hstep
      apply Effect.quiet _ { s.runtime with gate, codec } s.task
      · exact fun h => h
      · simp [hidle]
  | recv id =>
      rw [RuntimeRun.step, Option.ite_none_right_eq_some] at hstep
      rcases hstep with ⟨hidle, hstep⟩
      rcases Option.map_eq_some_iff.mp hstep with ⟨session, hsession, hreceive⟩
      have htask : t = { s.receive crc32 id session with task := s.task } := hreceive.symm
      rw [htask]
      apply Effect.receive _ h hsession
      simp [hidle]
  | dispatch uuidV4 pkt =>
      rw [RuntimeRun.step, Option.ite_none_right_eq_some] at hstep
      rcases hstep with ⟨hidle, hstep⟩
      cases hstep
      rcases dispatch_cases crc32 s uuidV4 pkt with
        hkeep | ⟨id, session, frame, hroute, hencode, hroom, hput⟩
      · rw [hkeep]
        exact .same _
      · rw [hput]
        exact .dispatched uuidV4 pkt id session frame hroute hencode hroom
  | finish =>
      simp only [RuntimeRun.step] at hstep
      cases htask : s.task with
      | idle => simp only [htask, reduceCtorEq] at hstep
      | ticking left => simp only [htask, reduceCtorEq] at hstep
      | dispatching id =>
          simp only [htask] at hstep
          rcases Option.map_eq_some_iff.mp hstep with ⟨session, hsession, rfl⟩
          apply Effect.receive _ h hsession
          simp
  | tick =>
      rw [RuntimeRun.step, Option.ite_none_right_eq_some] at hstep
      rcases hstep with ⟨hidle, hstep⟩
      cases hstep
      apply Effect.quiet
      · exact fun h => AiclRuntime.forall_removeSessions h _
      · simp
  | poll => exact effect_of_poll hstep
  | peerSend c frame answers =>
      cases hstep
      exact .peerSent c frame answers
  | peerRecv c => exact effect_of_peerRecv hstep

/-- A step keeps sessions regular. -/
theorem AllRegular.step (h : s.AllRegular) {i : RuntimeCall}
    (hstep : RuntimeRun.step crc32 s i = some t) : t.AllRegular := by
  cases effect_of_step h hstep with
  | same => exact h
  | quiet _ runtime task hregular => exact hregular h
  | dispatched uuidV4 pkt sid session frame hroute =>
      have hsession := AiclRuntime.session?_of_found (AiclRuntime.route_eq_ok_iff.mp hroute).2.2
      have hregular := h.of_session? hsession
      exact AiclRuntime.forall_setSession h ⟨hregular.codec, hregular.apart⟩
  | peerSent => exact h
  | took _ runtime task m frame rest _ hregular => exact hregular h
  | dropped => exact h

/-! ## The account of a run -/

/-- What the next round of a tick finds. -/
theorem nextPolled_eq {left : List Id16} {frame : Bytes} {rest : List Bytes}
    (htask : s.task = .ticking (sid :: left)) (hsession : s.runtime.session? sid = some session)
    (hopen : session.isOpen) (hqueue : s.queues session.transport.incoming = frame :: rest) :
    s.nextPolled crc32 = AiclSession.readFrame crc32 frame := by
  simp only [nextPolled, htask, hsession, Option.bind_some, hopen, if_true, hqueue,
    List.head?_cons]

/-- A step is accounted for unless a tick finds a packet. -/
theorem Account.step (h : s.Account crc32) (hregular : s.AllRegular) {i : RuntimeCall}
    (hsafe : s.TickSafe crc32 i) (hstep : RuntimeRun.step crc32 s i = some t) :
    t.Account crc32 := by
  cases effect_of_step hregular hstep with
  | same => exact h
  | quiet => exact h
  | dispatched uuidV4 pkt sid session frame =>
      exact h.put (InProcChannel.prefix_update s.queues session.transport.outgoing [frame]) none
  | peerSent c frame answers => exact h.put (send_grows c frame s.queues) answers
  | took _ runtime task m frame rest hqueue => exact h.take hqueue rfl rfl rfl
  | dropped sid left session task frame rest htask hsession hopen hqueue =>
      rw [TickSafe, nextPolled_eq htask hsession hopen hqueue] at hsafe
      refine h.take hqueue rfl ?_ rfl
      rw [hsafe, Option.toList_none, List.append_nil, Function.update_eq_self]

/-- A tick that finds a packet is not accounted for. -/
theorem Account.not_of_nextPolled (h : s.Account crc32) {pkt : AiclPacket}
    (hfound : s.nextPolled crc32 = some pkt) :
    ∃ t, RuntimeRun.step crc32 s .poll = some t ∧ ¬ t.Account crc32 := by
  unfold nextPolled at hfound
  cases htask : s.task with
  | idle => simp only [htask, reduceCtorEq] at hfound
  | dispatching id => simp only [htask, reduceCtorEq] at hfound
  | ticking ids =>
      cases ids with
      | nil => simp only [htask, reduceCtorEq] at hfound
      | cons id left =>
          simp only [htask] at hfound
          rcases Option.bind_eq_some_iff.mp hfound with ⟨session, hsession, hfound⟩
          rcases Option.ite_none_right_eq_some.mp hfound with ⟨hopen, hfound⟩
          rcases Option.bind_eq_some_iff.mp hfound with ⟨frame, hhead, hread⟩
          rcases List.head?_eq_some_iff.mp hhead with ⟨rest, hqueue⟩
          refine ⟨s.poll crc32 id left session, ?_, fun haccount => ?_⟩
          · simp only [RuntimeRun.step, htask, hsession, Option.map_some]
          · rcases AiclRuntime.poll_cases crc32 s.runtime.codec session s.queues with
              ⟨hnone, _⟩ | ⟨frame', rest', _, hqueue', htake⟩
            · rw [hqueue] at hnone
              rcases hnone with hclosed | hempty
              · exact hclosed hopen
              · cases hempty
            · rw [hqueue] at hqueue'
              cases hqueue'
              have hbefore := h session.transport.incoming
              have hafter := haccount session.transport.incoming
              simp only [poll, htake, Function.update_self] at hafter
              rw [hafter, hqueue, packets_cons, hread] at hbefore
              have hlength := congrArg List.length hbefore
              simp only [List.length_append, Option.toList_some, List.length_singleton] at hlength
              omega

/-- Every state that a step leads to is accounted for. -/
def StepAccounted (crc32 : Bytes → UInt32) (s : RuntimeRun) (i : RuntimeCall) : Prop :=
  ∀ t, step crc32 s i = some t → t.Account crc32

/-- What holds between steps while no tick finds a packet. -/
structure Accounted (crc32 : Bytes → UInt32) (s : RuntimeRun) : Prop where
  regular : s.AllRegular
  account : s.Account crc32

/-- A new runtime. -/
theorem Accounted.start (crc32 : Bytes → UInt32) : Accounted crc32 start where
  regular := fun _ he => nomatch he
  account := fun _ => rfl

/-- The account is kept at a step exactly when the step is no tick that finds a packet. -/
theorem Accounted.step_iff (h : Accounted crc32 s) (i : RuntimeCall) :
    s.TickSafe crc32 i ↔ s.StepAccounted crc32 i := by
  constructor
  · intro hsafe t hstep
    exact h.account.step h.regular hsafe hstep
  · intro haccount
    cases i with
    | poll =>
        cases hfound : s.nextPolled crc32 with
        | none => exact hfound
        | some pkt =>
            rcases h.account.not_of_nextPolled hfound with ⟨t, hstep, hlost⟩
            exact absurd (haccount t hstep) hlost
    | _ => trivial

/-- Every packet that went into a queue was returned, once and in order, or is in the
queue, in every state of a run, exactly when no tick of the run finds a packet. -/
theorem account_iff (crc32 : Bytes → UInt32) (calls : List RuntimeCall) :
    Machine.Along (step crc32) (StepAccounted crc32) start calls ↔
      Machine.Along (step crc32) (TickSafe crc32) start calls := by
  have hkeep : ∀ s i t, Accounted crc32 s → TickSafe crc32 s i → step crc32 s i = some t →
      Accounted crc32 t := by
    intro s i t h hsafe hstep
    exact ⟨h.regular.step hstep, h.account.step h.regular hsafe hstep⟩
  have hiff : ∀ s i, Accounted crc32 s → (TickSafe crc32 s i ↔ StepAccounted crc32 s i) :=
    fun s i h => h.step_iff i
  exact (Machine.along_congr_of_invariant hkeep hiff (Accounted.start crc32)).symm

/-! ## A tick between a send and a receive -/

/-- An id that the generator can give. -/
def uuid : Id16 := ⟨[0, 0, 0, 0, 0, 0, 0x40, 0, 0x80, 0, 0, 0, 0, 0, 0, 0], rfl⟩

/-- Without operands no map is unsorted. -/
theorem sorted_nil : ∀ op ∈ ([] : List Operand), op.All Operand.MapSorted :=
  List.forall_mem_nil _

/-- An answer without outputs to the request with a message id. -/
def emptyAnswer (messageId : Id16) : AiclPacket where
  opcode := .return_
  flags := .response
  messageId := some .zero
  correlationId := messageId
  deadlineMs := 0
  operands := []
  sorted := sorted_nil

/-- The frame of that answer. -/
def answerFrame (messageId : Id16) : Bytes :=
  (headerOf .zero (emptyAnswer messageId)).bytes Crc32.ieee ++ payloadBytes (emptyAnswer messageId)

/-- Sessions read the answer from it. -/
theorem readFrame_answerFrame (messageId : Id16) :
    AiclSession.readFrame Crc32.ieee (answerFrame messageId) = some (emptyAnswer messageId) := by
  have hlimit : (headerOf .zero (emptyAnswer messageId)).payloadLen ≤ AiclCodec.new.maxPayload :=
    show 2 ≤ AiclCodec.new.maxPayload by decide
  have hencode : AiclCodec.new.encode Crc32.ieee .zero (emptyAnswer messageId) =
      .ok (answerFrame messageId) := encode_eq_ok_iff.mpr ⟨hlimit, rfl⟩
  apply Outcome.toOption_eq_some_iff.mpr
  have hassigned : (emptyAnswer messageId).opcode.Assigned := trivial
  apply decodeToPacket_of_keeps rfl hassigned (by simp [emptyAnswer]) hencode
  · exact show AiclFlags.response.bits &&& 0x0100 = 0 by decide
  · exact show 2 ≤ maxPayloadSize by decide

/-- A session is created, the other end of its channel sends, and the runtime ticks. -/
def tickFirst : List RuntimeCall :=
  [.createSession uuid (InProcChannel.pair 1 0 1).1,
    .peerSend (InProcChannel.pair 1 0 1).2 (answerFrame .zero) none, .tick, .poll]

/-- The tick finds the packet, drops it and counts an event. -/
theorem tick_loses :
    ¬ ∀ (crc32 : Bytes → UInt32) (calls : List RuntimeCall),
      Machine.Along (step crc32) (StepAccounted crc32) start calls := by
  intro h
  have hend : (Machine.run (step Crc32.ieee) start tickFirst).map
      (fun t => (t.sent 1, t.returned 1, t.queues 1)) =
        some ([⟨answerFrame .zero, none⟩], [], []) := rfl
  rcases Option.map_eq_some_iff.mp hend with ⟨t, hrun, heq⟩
  have haccount : t.Account Crc32.ieee := by
    apply Machine.invariant _ (fun _ => rfl) (h Crc32.ieee tickFirst) hrun
    intro s i u _ hp hstep
    exact hp u hstep
  have hlost := haccount 1
  simp only [Prod.mk.injEq] at heq
  rw [heq.1, heq.2.1, heq.2.2, List.map_singleton, packets_cons, readFrame_answerFrame] at hlost
  cases hlost

end RuntimeRun

end Aicl.CoreRust

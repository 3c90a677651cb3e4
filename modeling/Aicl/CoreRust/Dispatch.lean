import Aicl.CoreRust.RuntimeRuns

/-!
# Requests and answers

Whether what a dispatch returns answers the packet that was dispatched.  A dispatch
sends and then takes the frame that is next in the queue; the frame may be the
answer to an earlier request that came late.

Main results:

- Theorem {lit}`RuntimeRun.Inv.step`: a frame that waits for a dispatch answers it.
- Theorem {lit}`RuntimeRun.correlates`: when packets carry the id of the session and
  no packet is in its queue before the request or ahead of the answer, requests and
  answers correlate.
- Theorem {lit}`RuntimeRun.returns_late`: an answer that came late is returned for the
  next request.
-/

namespace Aicl.CoreRust

namespace RuntimeRun

/-! ## What correlates -/

/-- The number of the last request. -/
def current (s : RuntimeRun) : Nat :=
  s.requests.length - 1

/-- The session at which a dispatch waits. -/
def waiting (s : RuntimeRun) : Option (Id16 × AiclSession InProcChannel) :=
  match s.task with
  | .dispatching sid => (s.runtime.session? sid).map fun session => (sid, session)
  | _ => none

/-- The frames in a queue, with what they answer. -/
def pending (s : RuntimeRun) (n : Nat) : List SentFrame :=
  (s.sent n).drop ((s.sent n).length - (s.queues n).length)

variable (crc32 : Bytes → UInt32)

/-- The packet at the front of a queue. -/
def frontPacket (s : RuntimeRun) (n : Nat) : Option AiclPacket :=
  (s.queues n).head?.bind (AiclSession.readFrame crc32)

/-- A peer sets the correlation id of an answer to the message id of the request that it
answers. -/
def AnswersCorrelate (s : RuntimeRun) : RuntimeCall → Prop
  | .peerSend _ frame (some k) =>
      ∀ answer ∈ AiclSession.readFrame crc32 frame, s.requests[k]? = some answer.correlationId
  | _ => True

/-- The frame that a dispatch puts into a queue has the correlation id of the packet, and
what the dispatch returns is the answer to that packet. -/
def DispatchRight (s : RuntimeRun) : RuntimeCall → Prop
  | .dispatch uuidV4 pkt =>
      ∀ n frame, (s.dispatch crc32 uuidV4 pkt).queues n = s.queues n ++ [frame] →
        Isa.Frame.field frame 24 40 = pkt.correlationId.bytes
  | .finish =>
      ∀ e ∈ s.waiting, ∀ answer,
        (s.runtime.recvPacket crc32 e.1 e.2 s.queues).1 = .ok answer →
          (∃ f ∈ (s.pending e.2.transport.incoming).head?,
            AiclSession.readFrame crc32 f.bytes = some answer ∧ f.answers = some s.current) ∧
            s.requests[s.current]? = some answer.correlationId
  | _ => True

/-- A packet that is dispatched carries the id of the session and finds no packet at the
front of its queue; while the dispatch waits, the first packet in the queue is an answer
to it. -/
def DispatchSafe (s : RuntimeRun) : RuntimeCall → Prop
  | .dispatch uuidV4 pkt =>
      ∀ e ∈ (s.runtime.route pkt).toOption,
        (e.2.codec.encode crc32 uuidV4 { pkt with correlationId := e.1 }).isOk →
          (s.queues e.2.transport.outgoing).length < e.2.transport.cap →
            pkt.correlationId = e.1 ∧ (s.frontPacket crc32 e.2.transport.incoming).isNone
  | .peerSend c frame answers =>
      ∀ e ∈ s.waiting, s.queues e.2.transport.incoming = [] →
        (c.send frame s.queues).2.2 e.2.transport.incoming = [frame] →
          (AiclSession.readFrame crc32 frame).isSome → answers = some s.current
  | _ => True

instance (s : RuntimeRun) : DecidablePred (AnswersCorrelate crc32 s) := fun i => by
  cases i with
  | peerSend c frame answers => cases answers <;> (unfold AnswersCorrelate; infer_instance)
  | _ => exact .isTrue trivial

instance (s : RuntimeRun) : DecidablePred (DispatchSafe crc32 s) := fun i => by
  cases i with
  | dispatch uuidV4 pkt => unfold DispatchSafe; infer_instance
  | peerSend c frame answers => unfold DispatchSafe; infer_instance
  | _ => exact .isTrue trivial

/-! ## The invariant -/

/-- The frames in a queue are the last ones that went into it. -/
def Recorded (s : RuntimeRun) : Prop :=
  ∀ n, s.queues n <:+ (s.sent n).map SentFrame.bytes

/-- Every frame that answers a request has its message id as correlation id. -/
def Correlated (s : RuntimeRun) : Prop :=
  ∀ n, ∀ f ∈ s.sent n, ∀ k, f.answers = some k →
    ∀ answer ∈ AiclSession.readFrame crc32 f.bytes, s.requests[k]? = some answer.correlationId

/-- A packet at the front of the queue of a session is an answer to the last request. -/
def WaitsAt (s : RuntimeRun) (session : AiclSession InProcChannel) : Prop :=
  ∀ f ∈ (s.pending session.transport.incoming).head?,
    (AiclSession.readFrame crc32 f.bytes).isSome → f.answers = some s.current

/-- While a dispatch waits, the packet at the front of the queue of its session is an
answer to it. -/
def WaitsRight (s : RuntimeRun) : Prop :=
  ∀ sid, s.task = .dispatching sid →
    ∃ session, s.runtime.session? sid = some session ∧ s.WaitsAt crc32 session

/-- What holds between steps. -/
structure Inv (s : RuntimeRun) : Prop where
  regular : s.AllRegular
  recorded : s.Recorded
  correlated : s.Correlated crc32
  waitsRight : s.WaitsRight crc32

variable {crc32} {s t : RuntimeRun} {sid : Id16} {session : AiclSession InProcChannel}

/-- The frames in a queue are those with what they answer. -/
theorem Recorded.pending_map (h : s.Recorded) (n : Nat) :
    (s.pending n).map SentFrame.bytes = s.queues n := by
  have hdrop := List.suffix_iff_eq_drop.mp (h n)
  rw [List.length_map] at hdrop
  rw [pending, List.map_drop]
  exact hdrop.symm

/-- A queue that is as it was holds what it held. -/
theorem pending_congr {n : Nat} (hsent : t.sent n = s.sent n) (hqueues : t.queues n = s.queues n) :
    t.pending n = s.pending n := by
  rw [pending, pending, hsent, hqueues]

/-- What is new in a queue comes after what it held. -/
theorem Recorded.pending_put (h : s.Recorded) {queues : Queues} {answers : Option Nat} {n : Nat}
    {added : List Bytes} (hadded : s.queues n ++ added = queues n) :
    (s.put queues answers).pending n =
      s.pending n ++ added.map fun bytes => ⟨bytes, answers⟩ := by
  have hle := (h n).length_le
  rw [List.length_map] at hle
  have hgap : (s.sent n).length + added.length - ((s.queues n).length + added.length) =
      (s.sent n).length - (s.queues n).length := Nat.add_sub_add_right _ _ _
  rw [pending, put_sent hadded, List.length_append, List.length_map]
  rw [show (s.put queues answers).queues n = s.queues n ++ added from hadded.symm,
    List.length_append, hgap, List.drop_append_of_le_length (Nat.sub_le _ _)]
  rfl

/-- A send is recorded. -/
theorem Recorded.put (h : s.Recorded) {queues : Queues} (hgrows : ∀ n, s.queues n <+: queues n)
    (answers : Option Nat) : (s.put queues answers).Recorded := by
  intro n
  rcases hgrows n with ⟨added, hadded⟩
  rw [put_bytes hadded, show (s.put queues answers).queues n = s.queues n ++ added from hadded.symm]
  rcases h n with ⟨gone, hgone⟩
  refine ⟨gone, ?_⟩
  rw [← hgone, List.append_assoc]

/-- What was taken is not in the queue any more. -/
theorem Recorded.take (h : s.Recorded) {m : Nat} {frame : Bytes} {rest : List Bytes}
    (hqueue : s.queues m = frame :: rest) (hqueues : t.queues = Function.update s.queues m rest)
    (hsent : t.sent = s.sent) : t.Recorded := by
  intro n
  rw [hsent, hqueues]
  by_cases hn : n = m
  · rw [hn, Function.update_self]
    have hold := h m
    rw [hqueue] at hold
    exact (List.suffix_cons frame rest).trans hold
  · rw [Function.update_of_ne hn]
    exact h n

/-- A send is correlated when what it puts in is. -/
theorem Correlated.put (h : s.Correlated crc32) {queues : Queues}
    (hgrows : ∀ n, s.queues n <+: queues n) {answers : Option Nat}
    (hnew : ∀ k, answers = some k → ∀ n added, s.queues n ++ added = queues n → ∀ bytes ∈ added,
      ∀ answer ∈ AiclSession.readFrame crc32 bytes, s.requests[k]? = some answer.correlationId) :
    (s.put queues answers).Correlated crc32 := by
  intro n f hf k hk
  rcases hgrows n with ⟨added, hadded⟩
  rw [put_sent hadded] at hf
  rcases List.mem_append.mp hf with hold | hadd
  · exact h n f hold k hk
  · rcases List.mem_map.mp hadd with ⟨bytes, hbytes, rfl⟩
    exact hnew k hk n added hadded bytes hbytes

/-- One more request leaves the numbers of the others. -/
theorem Correlated.request (h : s.Correlated crc32) (hsent : t.sent = s.sent) {messageId : Id16}
    (hrequests : t.requests = s.requests ++ [messageId]) : t.Correlated crc32 := by
  intro n f hf k hk answer hanswer
  rw [hsent] at hf
  have hold := h n f hf k hk answer hanswer
  have hlt := (List.getElem?_eq_some_iff.mp hold).1
  rw [hrequests, List.getElem?_append_left hlt]
  exact hold

/-- What a peer puts in is its frame. -/
theorem eq_of_send {c : InProcChannel} {frame bytes : Bytes} {queues : Queues} {n : Nat}
    {added : List Bytes} (hadded : queues n ++ added = (c.send frame queues).2.2 n)
    (hbytes : bytes ∈ added) : bytes = frame := by
  rcases send_appends c frame queues n with ⟨added', hcases, hadded'⟩
  rw [List.append_cancel_left (hadded.trans hadded'.symm)] at hbytes
  rcases hcases with hnil | hframe
  · rw [hnil] at hbytes
    cases hbytes
  · rw [hframe] at hbytes
    exact List.mem_singleton.mp hbytes

/-- The packet at the front of a queue. -/
theorem Recorded.frontPacket_eq (h : s.Recorded) {n : Nat} {f : SentFrame}
    (hf : f ∈ (s.pending n).head?) :
    s.frontPacket crc32 n = AiclSession.readFrame crc32 f.bytes := by
  rw [frontPacket, ← h.pending_map n, List.head?_map, Option.mem_def.mp hf]
  rfl

/-- A queue that is as it was waits for the same answer. -/
theorem WaitsAt.congr (h : s.WaitsAt crc32 session)
    (hpending : t.pending session.transport.incoming = s.pending session.transport.incoming)
    (hrequests : t.requests = s.requests) : t.WaitsAt crc32 session := by
  rw [WaitsAt, hpending, current, hrequests]
  exact h

/-- A dispatch that finds no packet in front waits for the answer. -/
theorem Recorded.waitsAt (h : s.Recorded)
    (hfront : (s.frontPacket crc32 session.transport.incoming).isNone)
    (hpending : t.pending session.transport.incoming = s.pending session.transport.incoming) :
    t.WaitsAt crc32 session := by
  intro f hf hread
  rw [hpending] at hf
  rw [h.frontPacket_eq hf] at hfront
  rw [Option.isNone_iff_eq_none.mp hfront] at hread
  cases hread

/-- A dispatch waits still when a peer sends. -/
theorem WaitsAt.put (h : s.WaitsAt crc32 session) (hrecorded : s.Recorded) {c : InProcChannel}
    {frame : Bytes} {answers : Option Nat}
    (hsafe : s.queues session.transport.incoming = [] →
      (c.send frame s.queues).2.2 session.transport.incoming = [frame] →
        (AiclSession.readFrame crc32 frame).isSome → answers = some s.current) :
    (s.put (c.send frame s.queues).2.2 answers).WaitsAt crc32 session := by
  rcases send_appends c frame s.queues session.transport.incoming with ⟨added, hcases, hadded⟩
  intro f hf hread
  rw [hrecorded.pending_put hadded] at hf
  cases hpending : s.pending session.transport.incoming with
  | cons g gs =>
      rw [hpending] at hf
      apply h f _ hread
      rw [hpending]
      exact hf
  | nil =>
      have hempty : s.queues session.transport.incoming = [] := by
        rw [← hrecorded.pending_map, hpending]
        rfl
      rw [hpending] at hf
      rw [hempty, List.nil_append] at hadded
      rcases hcases with hnil | hframe
      · rw [hnil] at hf
        cases hf
      · rw [hframe] at hf hadded
        cases hf
        exact hsafe hempty hadded.symm hread

/-- A step keeps the invariant when the peers set correlation ids. -/
theorem Inv.step (h : Inv crc32 s) {i : RuntimeCall} (hpeer : s.AnswersCorrelate crc32 i)
    (hsafe : s.DispatchSafe crc32 i) (hstep : RuntimeRun.step crc32 s i = some t) :
    Inv crc32 t := by
  have hregular := h.regular.step hstep
  cases effect_of_step h.regular hstep with
  | same => exact h
  | quiet i runtime task _ hafter =>
      refine ⟨hregular, h.recorded, h.correlated, ?_⟩
      intro sid htask
      exact absurd htask (hafter sid)
  | dispatched uuidV4 pkt sid session frame hroute hencode hroom =>
      have hgrows := InProcChannel.prefix_update s.queues session.transport.outgoing [frame]
      have hsession := AiclRuntime.session?_of_found (AiclRuntime.route_eq_ok_iff.mp hroute).2.2
      have hapart := (h.regular.of_session? hsession).apart
      have hput := @Correlated.put _ _ h.correlated _ hgrows none (fun k hk => nomatch hk)
      refine ⟨hregular, h.recorded.put hgrows none, hput.request rfl rfl, ?_⟩
      intro id hid
      cases hid
      refine ⟨_, AiclRuntime.session?_setSession_self s.runtime sid _, ?_⟩
      have hentry := hsafe (sid, session) (Outcome.toOption_eq_some_iff.mpr hroute)
        (Outcome.isOk_iff.mpr ⟨frame, hencode⟩) hroom
      have hadded : s.queues session.transport.incoming ++ [] =
          Function.update s.queues session.transport.outgoing
            (s.queues session.transport.outgoing ++ [frame]) session.transport.incoming := by
        rw [List.append_nil, Function.update_of_ne hapart.symm]
      apply h.recorded.waitsAt hentry.2
      exact (h.recorded.pending_put hadded).trans (List.append_nil _)
  | peerSent c frame answers =>
      have hgrows := send_grows c frame s.queues
      have hput : (s.put (c.send frame s.queues).2.2 answers).Correlated crc32 := by
        apply h.correlated.put hgrows
        intro k hk n added hadded bytes hbytes
        rw [hk, AnswersCorrelate, ← eq_of_send hadded hbytes] at hpeer
        exact hpeer
      refine ⟨hregular, h.recorded.put hgrows answers, hput, ?_⟩
      intro id hid
      rcases h.waitsRight id hid with ⟨session, hsession, hwaits⟩
      have hwaiting : s.waiting = some (id, session) := by
        rw [waiting, show s.task = .dispatching id from hid]
        simp only [hsession, Option.map_some]
      exact ⟨session, hsession, hwaits.put h.recorded (hsafe (id, session) hwaiting)⟩
  | took i runtime task m frame rest hqueue _ hafter =>
      refine ⟨hregular, h.recorded.take hqueue rfl rfl, h.correlated, ?_⟩
      intro sid htask
      rcases hafter sid htask with ⟨hsame, hruntime, hother⟩
      rcases h.waitsRight sid (hsame ▸ htask) with ⟨session, hsession, hwaits⟩
      have hne := hother _ (AiclRuntime.mem_of_session? hsession)
      refine ⟨session, hruntime ▸ hsession, hwaits.congr ?_ rfl⟩
      exact pending_congr rfl (Function.update_of_ne hne rest s.queues)
  | dropped sid left session task frame rest htask hsession hopen hqueue hafter =>
      refine ⟨hregular, h.recorded.take hqueue rfl rfl, h.correlated, ?_⟩
      intro sid htask
      exact absurd htask (hafter sid)

/-- A new runtime. -/
theorem Inv.start (crc32 : Bytes → UInt32) : Inv crc32 start where
  regular := fun _ he => nomatch he
  recorded := fun _ => List.suffix_refl _
  correlated := fun _ _ hf => nomatch hf
  waitsRight := fun _ htask => nomatch htask

/-! ## Requests and their answers -/

/-- The frame of a dispatch has the correlation id that the packet is sent with. -/
theorem dispatch_right (crc32 : Bytes → UInt32) {uuidV4 : Id16} {pkt : AiclPacket}
    (hsafe : s.DispatchSafe crc32 (.dispatch uuidV4 pkt)) :
    s.DispatchRight crc32 (.dispatch uuidV4 pkt) := by
  intro n frame hframe
  rcases dispatch_cases crc32 s uuidV4 pkt with
    hkeep | ⟨sid, session, sent, hroute, hencode, hroom, hput⟩
  · rw [hkeep, List.self_eq_append_right] at hframe
    cases hframe
  · have hentry := hsafe (sid, session) (Outcome.toOption_eq_some_iff.mpr hroute)
      (Outcome.isOk_iff.mpr ⟨sent, hencode⟩) hroom
    rw [hput] at hframe
    dsimp only [RuntimeRun.put] at hframe
    by_cases hn : n = session.transport.outgoing
    · rw [hn, Function.update_self] at hframe
      cases List.append_cancel_left hframe
      rw [(encode_eq_ok_iff.mp hencode).2, Isa.Frame.field_correlationId, hentry.1]
      rfl
    · rw [Function.update_of_ne hn, List.self_eq_append_right] at hframe
      cases hframe

/-- What a dispatch returns is the answer that waits for it. -/
theorem Inv.finish_right (h : Inv crc32 s) : s.DispatchRight crc32 .finish := by
  intro e he answer hok
  rcases e with ⟨sid, session⟩
  cases htask : s.task with
  | idle => simp only [waiting, htask, Option.mem_def, reduceCtorEq] at he
  | ticking left => simp only [waiting, htask, Option.mem_def, reduceCtorEq] at he
  | dispatching id =>
      simp only [waiting, htask, Option.mem_def] at he
      rcases Option.map_eq_some_iff.mp he with ⟨session', hsession, heq⟩
      cases heq
      rcases h.waitsRight sid htask with ⟨session', hsession', hwaits⟩
      rw [hsession] at hsession'
      cases hsession'
      have hanswer : (session.recvPacket crc32 s.queues).1.toOption = some answer :=
        Outcome.toOption_eq_some_iff.mpr hok
      rcases AiclSession.recvPacket_takes crc32 (h.regular.of_session? hsession).codec s.queues with
        ⟨hnone, _⟩ | ⟨frame, rest, received, hqueue, hread, _⟩
      · rw [hnone] at hanswer
        cases hanswer
      · rw [hanswer] at hread
        -- the frame that is taken is the first one that waits
        have hbytes := h.recorded.pending_map session.transport.incoming
        rw [hqueue] at hbytes
        rcases List.map_eq_cons_iff.mp hbytes with ⟨f, fs, hpending, hframe, _⟩
        have hf : f ∈ (s.pending session.transport.incoming).head? := by
          rw [hpending]
          rfl
        rw [← hframe] at hread
        have hanswers := hwaits f hf (Option.isSome_iff_exists.mpr ⟨answer, hread.symm⟩)
        refine ⟨⟨f, hf, hread.symm, hanswers⟩, ?_⟩
        apply h.correlated session.transport.incoming f _ s.current hanswers answer hread.symm
        exact List.mem_of_mem_drop (List.mem_of_mem_head? hf)

/-- What a step that is safe does is right. -/
theorem Inv.right (h : Inv crc32 s) {i : RuntimeCall} (hsafe : s.DispatchSafe crc32 i) :
    s.DispatchRight crc32 i := by
  cases i with
  | dispatch uuidV4 pkt => exact dispatch_right crc32 hsafe
  | finish => exact h.finish_right
  | _ => trivial

/-- When packets carry the id of the session and no packet is in its queue before the
request or ahead of the answer, the frames carry the correlation ids of the packets and
what is returned answers them. -/
theorem correlates (crc32 : Bytes → UInt32) (calls : List RuntimeCall)
    (hpeers : Machine.Along (step crc32) (AnswersCorrelate crc32) start calls)
    (hsafe : Machine.Along (step crc32) (DispatchSafe crc32) start calls) :
    Machine.Along (step crc32) (DispatchRight crc32) start calls := by
  have hkeep : ∀ s i t, Inv crc32 s → AnswersCorrelate crc32 s i ∧ DispatchSafe crc32 s i →
      step crc32 s i = some t → Inv crc32 t := by
    intro s i t h hi hstep
    exact h.step hi.1 hi.2 hstep
  have hright : ∀ s i, Inv crc32 s → AnswersCorrelate crc32 s i ∧ DispatchSafe crc32 s i →
      DispatchRight crc32 s i := by
    intro s i h hi
    exact h.right hi.2
  exact Machine.Along.of_invariant hkeep hright (Inv.start crc32) (hpeers.and hsafe)

/-- A call of the first capability, with the id of the session as correlation id. -/
def request (messageId : Id16) : AiclPacket where
  opcode := .call
  flags := .request
  messageId := some messageId
  correlationId := uuid
  deadlineMs := 0
  operands := [.ref 1]
  sorted := List.forall_mem_singleton.mpr (.of_leaf trivial trivial)

/-- A runtime with a capability and a session. -/
def withSession : List RuntimeCall :=
  [.configure (AiclGate.new.registerCapability ⟨"echo", .function, none⟩).2 .new,
    .createSession uuid (InProcChannel.pair 1 0 1).1]

/-- A request is answered while it waits. -/
def answered : List RuntimeCall :=
  withSession ++ [.dispatch .zero (request .zero),
    .peerSend (InProcChannel.pair 1 0 1).2 (answerFrame .zero) (some 0), .finish]

/-- The answer is returned. -/
theorem correlates_answered :
    Machine.Along (step Crc32.ieee) (DispatchRight Crc32.ieee) start answered :=
  correlates Crc32.ieee answered (by decide +kernel) (by decide +kernel)

/-- A request finds no answer, which comes after that; then another one is made. -/
def answeredLate : List RuntimeCall :=
  withSession ++ [.dispatch .zero (request .zero), .finish,
    .peerSend (InProcChannel.pair 1 0 1).2 (answerFrame .zero) (some 0),
    .peerRecv (InProcChannel.pair 1 0 1).2,
    .dispatch .zero (request ⟨List.replicate 16 1, List.length_replicate⟩)]

/-- What a dispatch is about to return: whether it is a packet, what the frames in the
queue answer, and the number of the request. -/
def outlook (s : RuntimeRun) : Option (Bool × List (Option Nat) × Nat) :=
  s.waiting.map fun e =>
    ((s.runtime.recvPacket Crc32.ieee e.1 e.2 s.queues).1.isOk,
      (s.pending e.2.transport.incoming).map SentFrame.answers, s.current)

/-- The answer to the first request is returned for the second one. -/
theorem returns_late :
    ¬ ∀ (crc32 : Bytes → UInt32) (calls : List RuntimeCall),
      Machine.Along (step crc32) (AnswersCorrelate crc32) start calls →
        Machine.Along (step crc32) (DispatchRight crc32) start calls := by
  intro h
  have hright := h Crc32.ieee (answeredLate ++ [.finish]) (by decide +kernel)
  have hend : (Machine.run (step Crc32.ieee) start answeredLate).bind outlook =
      some (true, [some 0], 1) := by decide +kernel
  rcases Option.bind_eq_some_iff.mp hend with ⟨t, hrun, hview⟩
  rcases Option.map_eq_some_iff.mp hview with ⟨e, hwaiting, heq⟩
  simp only [Prod.mk.injEq] at heq
  rcases Outcome.isOk_iff.mp heq.1 with ⟨answer, hok⟩
  have hfinish := ((Machine.along_append.mp hright).2 t hrun).1
  rcases (hfinish e hwaiting answer hok).1 with ⟨f, hf, _, hanswers⟩
  -- the frame answers the request with number 0, the dispatch made number 1
  have hmem : f.answers ∈ (t.pending e.2.transport.incoming).map SentFrame.answers :=
    List.mem_map_of_mem (List.mem_of_mem_head? hf)
  rw [heq.2.1, hanswers, heq.2.2] at hmem
  exact absurd hmem (by decide)

end RuntimeRun

end Aicl.CoreRust

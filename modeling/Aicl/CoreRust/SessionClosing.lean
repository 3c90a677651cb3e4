import Aicl.CoreRust.EncodedSizes

/-!
# Closing a session

A session over a transport that may answer anything at each call, and any sequence of
sends, receives and closes.  {lit}`close` takes two steps with the transport between
them; when the transport fails, the session stays in the state of the first step,
which the other operations do not look at.

Main results:

- Theorem {lit}`WatchedSession.step_iff`: when one operation heeds a close.
- Theorem {lit}`WatchedSession.closed_of_close_ok`: closed means closed as long as the
  transport closes.
- Theorem {lit}`WatchedSession.along_closedMeansClosed_iff`: the runs in which closed
  means closed.
-/

namespace Aicl.CoreRust

/-! ## Transports that answer anything -/

/-- What a transport answers when it is asked. -/
structure Answers where
  isOpen : Bool
  send : AiclResult Nat
  recv : AiclResult Nat × Bytes
  close : AiclResult Unit

/-- A transport that gives its answers and lists what it was given to send. -/
instance : Transport (List Bytes) Answers where
  send answers bytes sent := (answers.send, answers, sent ++ [bytes])
  recv answers out sent := (answers.recv.1, out ++ answers.recv.2, answers, sent)
  close answers sent := (answers.close, answers, sent)
  isOpen answers := answers.isOpen

/-- The order in which a session goes through its states. -/
def SessionState.place : SessionState → Nat
  | .init => 0
  | .handshakeSent => 1
  | .established => 2
  | .closing => 3
  | .closed => 4

/-- A closed session is at the last place. -/
theorem SessionState.place_le (state : SessionState) : state.place ≤ SessionState.closed.place := by
  cases state <;> decide

/-- Only the closed state is at the last place. -/
theorem SessionState.place_le_closing {state : SessionState} (h : state ≠ .closed) :
    state.place ≤ SessionState.closing.place := by
  cases state with
  | closed => exact absurd rfl h
  | _ => decide

namespace AiclSession

variable {crc32 : Bytes → UInt32} {uuidV4 : Id16} {pkt : AiclPacket} {s : AiclSession Answers}
  {sent : List Bytes}

/-- The checks of a session find out whether it is closed or its transport is. -/
theorem checkOpen_decides :
    s.checkOpen.Decides (¬ (s.state = .closed ∨ s.transport.isOpen = false)) := by
  unfold checkOpen
  refine Outcome.Decides.congr (P := ¬ s.state = .closed ∧ ¬ ¬ Transport.isOpen s.transport)
    (Outcome.Decides.bind (Outcome.failIf_decides _ _) fun _ => Outcome.failIf_decides _ _) ?_
  simp [Transport.isOpen]

/-- A packet does not reach the transport exactly when the checks fail or the encoder
refuses it. -/
theorem sendPacket_sent_iff :
    (s.sendPacket crc32 uuidV4 pkt sent).2.2 = sent ↔
      (s.state = .closed ∨ s.transport.isOpen = false) ∨
        s.codec.maxPayload < pkt.writtenSize % 2 ^ 32 := by
  have hchecks := @checkOpen_decides s
  have hencode := encode_eq crc32 s.codec uuidV4 pkt
  rw [headerOf_payloadLen] at hencode
  unfold sendPacket
  cases hopen : s.checkOpen with
  | ok u =>
      rw [hopen] at hchecks
      rw [or_iff_right hchecks, Outcome.ok_bind, hencode]
      by_cases hrefused : s.codec.maxPayload < pkt.writtenSize % 2 ^ 32
      · rw [if_pos hrefused]
        exact iff_of_true rfl hrefused
      · rw [if_neg hrefused]
        refine iff_of_false ?_ hrefused
        simp only [Transport.send]
        cases s.transport.send <;> simp
  | err e =>
      rw [hopen] at hchecks
      exact iff_of_true rfl (.inl (not_not.mp hchecks))
  | panic =>
      rw [hopen] at hchecks
      exact hchecks.elim

/-- What is received is decoded by the codec of the session, when it is a valid
frame. -/
theorem readWire_answers_iff {n : Nat} {wire : Bytes} :
    (∃ pkt, s.readWire crc32 n wire = .ok pkt) ↔ Valid crc32 s.codec (wire.take n) := by
  have hdecode : (do
      let view ← s.codec.decodeOwned crc32 (wire.take n)
      view.toPacket) = s.codec.decodeToPacket crc32 (wire.take n) := rfl
  rw [readWire, hdecode]
  constructor
  · rintro ⟨pkt, hok⟩
    rcases Outcome.bind_eq_ok_iff.mp hok with ⟨_, _, hread⟩
    exact (decodeToPacket_eq_ok_iff.mp hread).1
  · intro hvalid
    rcases hvalid.carries with ⟨opcode, ts, hcarries⟩
    have hlength := hvalid.prelude.length_le
    have hne : n ≠ 0 := by
      intro hzero
      rw [hzero, List.take_zero] at hlength
      exact absurd hlength (by decide)
    refine ⟨packetOf opcode (wire.take n) ts, Outcome.bind_eq_ok_iff.mpr ⟨(), ?_, ?_⟩⟩
    · exact Outcome.failIf_eq_ok_iff.mpr hne
    · exact decodeToPacket_of_valid hvalid hcarries

/-- No packet is received exactly when the checks fail or the transport gives no
valid frame. -/
theorem recvPacket_none_iff :
    (∀ pkt, (s.recvPacket crc32 sent).1 ≠ .ok pkt) ↔
      (s.state = .closed ∨ s.transport.isOpen = false) ∨
        ∀ n, s.transport.recv.1 = .ok n → ¬ Valid crc32 s.codec (s.transport.recv.2.take n) := by
  have hchecks := @checkOpen_decides s
  unfold recvPacket
  cases hopen : s.checkOpen with
  | ok u =>
      rw [hopen] at hchecks
      rw [or_iff_right hchecks]
      simp only [Transport.recv, List.nil_append]
      cases hrecv : s.transport.recv.1 with
      | ok n =>
          have hread := @readWire_answers_iff crc32 s n s.transport.recv.2
          simp only [Outcome.ok.injEq, forall_eq', ← hread, not_exists]
          cases s.readWire crc32 n s.transport.recv.2 <;> simp
      | err e => simp
      | panic => simp
  | err e =>
      rw [hopen] at hchecks
      exact iff_of_true (fun _ h => nomatch h) (.inl (not_not.mp hchecks))
  | panic =>
      rw [hopen] at hchecks
      exact hchecks.elim

/-- A send keeps the state of the session. -/
theorem sendPacket_state : (s.sendPacket crc32 uuidV4 pkt sent).2.1.state = s.state := by
  unfold sendPacket
  split
  · split <;> simp_all
  · rfl
  · rfl

/-- A receive keeps the state of the session. -/
theorem recvPacket_state : (s.recvPacket crc32 sent).2.1.state = s.state := by
  unfold recvPacket
  split
  · split
    · split <;> simp_all
    · simp_all
    · simp_all
  · rfl
  · rfl

/-- What a close does to the state of the session. -/
theorem close_state (s : AiclSession Answers) (sent : List Bytes) :
    (s.close sent).2.1.state = if s.transport.close = .ok () then .closed else .closing := by
  unfold close
  simp only [Transport.close]
  cases s.transport.close <;> simp

end AiclSession

/-! ## A session that is watched -/

/-- A session, what reached its transport, and whether {lit}`close` was called. -/
structure WatchedSession where
  session : AiclSession Answers
  sent : List Bytes
  closeCalled : Bool

namespace WatchedSession

/-- A session whose {lit}`close` was not called. -/
def watch (session : AiclSession Answers) : WatchedSession where
  session
  sent := []
  closeCalled := false

/-- The session before a call during which the transport gives these answers. -/
def asked (s : WatchedSession) (answers : Answers) : AiclSession Answers :=
  { s.session with transport := answers }

variable (crc32 : Bytes → UInt32)

/-- One operation; none when the program stops in it. -/
def step (s : WatchedSession) : SessionCall × Answers → Option WatchedSession
  | (.send uuidV4 pkt, answers) =>
      match (s.asked answers).sendPacket crc32 uuidV4 pkt s.sent with
      | (.panic, _, _) => none
      | (_, session, sent) => some { s with session := session, sent := sent }
  | (.recv, answers) =>
      match (s.asked answers).recvPacket crc32 s.sent with
      | (.panic, _, _) => none
      | (_, session, sent) => some { s with session := session, sent := sent }
  | (.close, answers) =>
      match (s.asked answers).close s.sent with
      | (.panic, _, _) => none
      | (_, session, sent) => some { session, sent, closeCalled := true }

/-- Nothing passes through the session: no packet reaches the transport, and none is
received. -/
def NothingPasses (s : WatchedSession) : SessionCall × Answers → Prop
  | (.send uuidV4 pkt, answers) =>
      ((s.asked answers).sendPacket crc32 uuidV4 pkt s.sent).2.2 = s.sent
  | (.recv, answers) => ∀ pkt, ((s.asked answers).recvPacket crc32 s.sent).1 ≠ .ok pkt
  | (.close, _) => True

/-- Closed means closed: nothing passes after {lit}`close` was called, and the state
only moves forward. -/
def ClosedMeansClosed (s : WatchedSession) (i : SessionCall × Answers) : Prop :=
  (s.closeCalled = true → NothingPasses crc32 s i) ∧
    ∀ t, step crc32 s i = some t → s.session.state.place ≤ t.session.state.place

/-- The session is closed, its transport is, or a send is refused and a receive gets
no valid frame. -/
def Idle (s : WatchedSession) : SessionCall × Answers → Prop
  | (.send _ pkt, answers) =>
      (s.session.state = .closed ∨ answers.isOpen = false) ∨
        s.session.codec.maxPayload < pkt.writtenSize % 2 ^ 32
  | (.recv, answers) =>
      (s.session.state = .closed ∨ answers.isOpen = false) ∨
        ∀ n, answers.recv.1 = .ok n → ¬ Valid crc32 s.session.codec (answers.recv.2.take n)
  | (.close, _) => True

/-- A closed session is closed again without an error of the transport. -/
def ClosesAgain (s : WatchedSession) : SessionCall × Answers → Prop
  | (.close, answers) => s.session.state = .closed → ∀ e, answers.close ≠ .err e
  | _ => True

variable {crc32} {s t : WatchedSession}

/-- Nothing passes exactly in an idle session. -/
theorem nothingPasses_iff (i : SessionCall × Answers) :
    NothingPasses crc32 s i ↔ Idle crc32 s i := by
  have ⟨call, answers⟩ := i
  cases call with
  | send uuidV4 pkt => exact AiclSession.sendPacket_sent_iff
  | recv => exact AiclSession.recvPacket_none_iff
  | close => rfl

/-- What an operation does to the state of a session, and to what is known of it. -/
theorem step_spec {i : SessionCall × Answers} (h : step crc32 s i = some t) :
    (t.session.state, t.closeCalled) = match i with
      | (.close, answers) => (if answers.close = .ok () then .closed else .closing, true)
      | _ => (s.session.state, s.closeCalled) := by
  have ⟨call, answers⟩ := i
  cases call with
  | send uuidV4 pkt =>
      have hstate := @AiclSession.sendPacket_state crc32 uuidV4 pkt (s.asked answers) s.sent
      simp only [step] at h
      split at h
      next => cases h
      next heq =>
        rw [heq] at hstate
        cases h
        exact Prod.ext hstate rfl
  | recv =>
      have hstate := @AiclSession.recvPacket_state crc32 (s.asked answers) s.sent
      simp only [step] at h
      split at h
      next => cases h
      next heq =>
        rw [heq] at hstate
        cases h
        exact Prod.ext hstate rfl
  | close =>
      have hstate := AiclSession.close_state (s.asked answers) s.sent
      simp only [step] at h
      split at h
      next => cases h
      next heq =>
        rw [heq] at hstate
        cases h
        exact Prod.ext hstate rfl

/-- A close that the transport fails is a step. -/
theorem step_close_err {answers : Answers} {e : AiclError} (h : answers.close = .err e) :
    ∃ t, step crc32 s (.close, answers) = some t := by
  simp only [step, AiclSession.close, Transport.close, asked, h]
  exact ⟨_, rfl⟩

/-- The state moves forward exactly when a closed session is not left closing. -/
theorem forward_iff (i : SessionCall × Answers) :
    (∀ t, step crc32 s i = some t → s.session.state.place ≤ t.session.state.place) ↔
      ClosesAgain s i := by
  have ⟨call, answers⟩ := i
  cases call with
  | close =>
      constructor
      · intro hforward hclosed e herr
        have ⟨t, hstep⟩ := @step_close_err crc32 s answers e herr
        have hplace := hforward t hstep
        have hstate := congrArg Prod.fst (step_spec hstep)
        simp only [herr, reduceCtorEq, if_false] at hstate
        rw [hclosed, hstate] at hplace
        exact absurd hplace (by decide)
      · intro hagain t hstep
        have hstate := congrArg Prod.fst (step_spec hstep)
        simp only at hstate
        rw [hstate]
        by_cases hok : answers.close = .ok ()
        · rw [if_pos hok]
          exact SessionState.place_le _
        · rw [if_neg hok]
          apply SessionState.place_le_closing
          intro hclosed
          cases hanswer : answers.close with
          | ok u => exact hok hanswer
          | err e => exact hagain hclosed e hanswer
          | panic => simp [step, AiclSession.close, Transport.close, asked, hanswer] at hstep
  | _ =>
      apply iff_of_true _ trivial
      intro t hstep
      exact Nat.le_of_eq (congrArg (fun r => SessionState.place r.1) (step_spec hstep).symm)

/-- One operation heeds a close exactly when it finds an idle session and does not
leave a closed session closing. -/
theorem step_iff (i : SessionCall × Answers) :
    ClosedMeansClosed crc32 s i ↔ (s.closeCalled = true → Idle crc32 s i) ∧ ClosesAgain s i := by
  unfold ClosedMeansClosed
  rw [nothingPasses_iff, forward_iff]

/-- A close does not fail in the transport. -/
def CloseOk : SessionCall × Answers → Prop
  | (.close, answers) => ∀ e, answers.close ≠ .err e
  | _ => True

/-- A session whose {lit}`close` was called is closed. -/
def Inv (s : WatchedSession) : Prop :=
  s.closeCalled = true → s.session.state = .closed

/-- One operation keeps the invariant when the transport closes. -/
theorem Inv.step (h : Inv s) {i : SessionCall × Answers} (hok : CloseOk i)
    (hstep : step crc32 s i = some t) : Inv t := by
  have hspec := step_spec hstep
  have ⟨call, answers⟩ := i
  cases call with
  | close =>
      intro _
      have hstate := congrArg Prod.fst hspec
      cases hanswer : answers.close with
      | ok u =>
          simp only [hanswer, if_true] at hstate
          exact hstate
      | err e => exact absurd hanswer (hok e)
      | panic => simp [WatchedSession.step, AiclSession.close, Transport.close, asked, hanswer] at hstep
  | _ =>
      have hstate := congrArg Prod.fst hspec
      have hcalled := congrArg Prod.snd hspec
      simp only at hstate hcalled
      unfold Inv
      rw [hstate, hcalled]
      exact h

/-- A session whose {lit}`close` was called is idle, when the invariant holds. -/
theorem Inv.idle (h : Inv s) (hcalled : s.closeCalled = true) (i : SessionCall × Answers) :
    Idle crc32 s i := by
  have ⟨call, answers⟩ := i
  cases call with
  | close => trivial
  | _ => exact .inl (.inl (h hcalled))

/-- Closed means closed as long as the transport closes. -/
theorem closed_of_close_ok (session : AiclSession Answers) {calls : List (SessionCall × Answers)}
    (hok : ∀ i ∈ calls, CloseOk i) :
    Machine.Along (step crc32) (ClosedMeansClosed crc32) (watch session) calls := by
  have hstart : Inv (watch session) := fun hcalled => nomatch hcalled
  apply Machine.Along.of_invariant (fun s i t hs hi hstep => hs.step hi hstep) _ hstart
    (Machine.along_of_forall hok _)
  intro s i hs hi
  refine (step_iff i).mpr ⟨fun hcalled => hs.idle hcalled i, ?_⟩
  have ⟨call, answers⟩ := i
  cases call with
  | close => exact fun _ => hi
  | _ => trivial

/-- Closed means closed in a run of a session exactly when each operation after a
close finds the session closed, the transport closed, or nothing to pass on, and no
close of a closed session fails in the transport. -/
theorem along_closedMeansClosed_iff (crc32 : Bytes → UInt32) (session : AiclSession Answers)
    (calls : List (SessionCall × Answers)) :
    Machine.Along (step crc32) (ClosedMeansClosed crc32) (watch session) calls ↔
      Machine.Along (step crc32)
        (fun s i => (s.closeCalled = true → Idle crc32 s i) ∧ ClosesAgain s i)
        (watch session) calls :=
  Machine.along_congr (fun _ i => step_iff i) (watch session) calls

/-- A transport that stays open and fails to close. -/
def stuck : Answers where
  isOpen := true
  send := .ok 0
  recv := (.ok 0, [])
  close := .err (.new .transportClosed "close failed")

/-- When the transport fails to close, a packet is sent after {lit}`close`. -/
theorem closing_sends :
    ¬ ∀ (crc32 : Bytes → UInt32) (session : AiclSession Answers)
      (calls : List (SessionCall × Answers)),
      Machine.Along (step crc32) (ClosedMeansClosed crc32) (watch session) calls := by
  intro h
  have ⟨_, hrest⟩ := h Crc32.ieee (.new .zero stuck)
    [(.close, stuck), (.send .zero (SessionPair.zeros 0), stuck)]
  have ⟨⟨hnothing, _⟩, _⟩ := hrest _ rfl
  rcases (nothingPasses_iff _).mp (hnothing rfl) with (hclosed | hshut) | hrefused
  · cases hclosed
  · cases hshut
  · exact absurd hrefused (by decide)

end WatchedSession

end Aicl.CoreRust

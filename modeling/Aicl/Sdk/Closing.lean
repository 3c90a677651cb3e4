import Aicl.Foundation.Service
import Aicl.Sdk.Exchange

/-!
# After the runtime is closed

{lit}`AICLRuntime.close` forgets the models that were replaced under the name of their
capability, but all of its models share its transport, which it closes.

Main results:

- Theorem {lit}`refused_callOver`: a call over a closed transport sends nothing.
- Theorem {lit}`ClientState.closed_is_silent`: after {lit}`close` nothing is sent any more,
  and every connection, call and stream is refused.
-/

namespace Aicl.Sdk

/-! ## Closed transports -/

/-- An exception that is raised without asking the other side. -/
def IsLocal (e : SdkError) : Prop :=
  e = .transportError "Model is closed" ∨ e = .transportError "Transport is closed" ∨
    e = .cancelledError "Operation cancelled" ∨ e = .structError

/-- Nothing is sent, and such an exception is raised. -/
def Refused {α : Type} (x : Exchange α) : Prop :=
  ∃ e, IsLocal e ∧ x = .lift (.err (.sdk e))

section

variable {χ α β δ : Type} {env : Setting α δ}

/-- A computation that returns, or raises such an exception. -/
def RaisesLocally (x : SdkResult α) : Prop := x.Sat (fun _ => True) IsLocal

/-- What comes behind such a computation is refused, or the computation itself. -/
theorem Refused.bind {x : SdkResult α} {f : α → Exchange β} (hx : RaisesLocally x)
    (hf : ∀ a, x = .ok a → Refused (f a)) : Refused (unsent x >>= f) := by
  cases x with
  | ok a => exact hf a rfl
  | err e => exact ⟨e, hx, rfl⟩
  | panic => exact hx.elim

/-- A look at a token. -/
theorem raisesLocally_checkToken (cancelled : Bool) : RaisesLocally (checkToken cancelled) := by
  cases cancelled with
  | true => exact .inr (.inr (.inl rfl))
  | false => exact trivial

/-- Encoding an instruction. -/
theorem raisesLocally_encodeInstruction (text : α → Utf8String) (instruction msgId : Utf8String)
    (kwargs : List (Utf8String × α)) :
    RaisesLocally (encodeInstruction text instruction msgId kwargs) := by
  unfold encodeInstruction
  by_cases hlong : 2 ^ 32 ≤ (payloadOf text instruction kwargs).length
  · simp only [Outcome.failIf, if_pos hlong]
    exact .inr (.inr (.inr rfl))
  · simp only [Outcome.failIf, if_neg hlong]
    exact trivial

/-- The native path of a closed transport. -/
theorem refused_exchange {transport : NativeTransport} (h : transport.closed = true)
    (crc32 : Bytes → UInt32) (cancelled : Bool) (wire : Bytes) :
    transport.exchange crc32 cancelled wire =
      .lift (.err (.sdk (.transportError "Transport is closed"))) := by
  have hcheck : transport.checkOpen = .err (.transportError "Transport is closed") := by
    rw [NativeTransport.checkOpen, Outcome.failIf, if_pos h]
  unfold NativeTransport.exchange
  rw [hcheck]
  rfl

/-- A request over a closed transport. -/
theorem refused_send {transport : HttpTransport} (h : transport.closed = true) (wire : Bytes)
    (reply : HttpReply) :
    transport.send wire reply = .lift (.err (.sdk (.transportError "Transport is closed"))) := by
  have hcheck : transport.checkOpen = .err (.transportError "Transport is closed") := by
    rw [HttpTransport.checkOpen, Outcome.failIf, if_pos h]
  unfold HttpTransport.send
  rw [hcheck]
  rfl

/-- A call over a closed transport. -/
theorem refused_callWith (env : Setting α δ) {transport : SdkTransport} (h : transport.closed = true)
    (messageId : Utf8String) (args : CallArgs α) :
    Refused (ModelObject.callWith env transport messageId args) := by
  unfold ModelObject.callWith
  refine Refused.bind (raisesLocally_checkToken _) fun _ _ => ?_
  refine Refused.bind (raisesLocally_encodeInstruction _ _ _ _) fun wire _ => ?_
  refine Refused.bind (raisesLocally_checkToken _) fun _ _ => ?_
  cases transport with
  | native t =>
      simp only [refused_exchange h]
      exact ⟨_, .inr (.inl rfl), rfl⟩
  | http t =>
      simp only [refused_send h]
      exact ⟨_, .inr (.inl rfl), rfl⟩

/-- A stream over a closed transport. -/
theorem refused_streamWith {transport : SdkTransport} (h : transport.closed = true)
    (messageId : Utf8String) (args : CallArgs α) :
    Refused (ModelObject.streamWith env transport messageId args) := by
  unfold ModelObject.streamWith
  refine Refused.bind (raisesLocally_encodeInstruction _ _ _ _) fun wire _ => ?_
  refine Refused.bind (raisesLocally_checkToken _) fun _ _ => ?_
  cases transport with
  | native t =>
      simp only [refused_exchange h]
      exact ⟨_, .inr (.inl rfl), rfl⟩
  | http t =>
      simp only [refused_send h]
      exact ⟨_, .inr (.inl rfl), rfl⟩

/-- A call of a model, closed or not. -/
theorem refused_callOver (env : Setting α δ) {transport : SdkTransport} (h : transport.closed = true)
    (object : ModelObject χ) (args : CallArgs α) :
    Refused (object.callOver env transport args).1 := by
  unfold ModelObject.callOver
  cases object.closed with
  | true => exact ⟨_, .inl rfl, rfl⟩
  | false =>
      have ⟨e, he, hcall⟩ := refused_callWith env h object.nextMessageId.1 args
      refine ⟨e, he, ?_⟩
      simp only [Bool.false_eq_true, if_false, hcall]
      rfl

end

namespace ClientState

variable {χ α δ : Type} [DecidableEq χ]

/-- The answers of a closed runtime. -/
def Quiet : ClientCall χ α → ClientAnswer χ δ → Prop
  | .connect _, answer => ∃ e, answer = .connected (.err e)
  | .call _ _, answer => answer = .noModel ∨ ∃ e, IsLocal e ∧ answer = .result (.err (.sdk e))
  | .stream _ _, answer => answer = .noModel ∨ ∃ e, IsLocal e ∧ answer = .chunk (.err (.sdk e))
  | .closeModel _, answer => answer = .done
  | .close, answer => answer = .done

/-- Runtime and transport are closed, and this is what was sent. -/
structure Closed (sent : List (Nat × Sent)) (s : ClientState χ) : Prop where
  runtime : s.runtime.closed = true
  transport : s.runtime.transport.closed = true
  sent_eq : s.sent = sent

/-- A closed runtime connects nothing. -/
theorem run_of_closed (lower : List χ → List χ) {r : Runtime χ SdkTransport}
    (h : r.closed = true) (c : ConnectCall χ) :
    ∃ e, r.run lower c = .err e := by
  have hconnect : ∀ capability name,
      r.connect lower capability name = .err (.aiclError "Runtime is closed") := by
    intro capability name
    rw [Runtime.connect, Outcome.failIf, if_pos h]
    rfl
  cases c with
  | connect capability name => exact ⟨_, hconnect capability name⟩
  | connectAny capabilities name =>
      cases capabilities with
      | nil => exact ⟨_, rfl⟩
      | cons first rest =>
          refine ⟨.aiclError "Runtime is closed", ?_⟩
          simp only [Runtime.run, Runtime.connectAny, Runtime.connectFirst, hconnect,
            RuntimeError.isCapabilityError, Bool.false_eq_true, if_false]

omit [DecidableEq χ] in
/-- Closing closes the transport. -/
theorem closed_close (s : ClientState χ) :
    Closed s.sent ({ s with runtime := s.runtime.close SdkTransport.close } : ClientState χ) := by
  refine ⟨rfl, ?_, rfl⟩
  simp only [Runtime.close]
  cases s.runtime.transport with
  | native t => rfl
  | http t => rfl

omit [DecidableEq χ] in
/-- An exchange that is refused leaves runtime and log alone. -/
theorem Closed.after {β : Type} {sent : List (Nat × Sent)} {s : ClientState χ} (h : Closed sent s)
    (model : Nat) {exchange : Exchange β × ModelObject χ} (hrefused : Refused exchange.1) :
    Closed sent (s.after model exchange) := by
  have ⟨e, _, hexchange⟩ := hrefused
  refine ⟨h.runtime, h.transport, ?_⟩
  rw [ClientState.after, hexchange]
  exact (List.append_nil _).trans h.sent_eq

/-- A closed runtime stays closed, sends nothing, and refuses what it is asked. -/
theorem Closed.step (lower : List χ → List χ) (env : Setting α δ) {sent : List (Nat × Sent)}
    {s : ClientState χ} (h : Closed sent s) (c : ClientCall χ α) :
    Quiet c (s.step lower env c).1 ∧ Closed sent (s.step lower env c).2 := by
  cases c with
  | connect c =>
      have ⟨e, he⟩ := run_of_closed lower h.runtime c
      simp only [ClientState.step, he]
      exact ⟨⟨e, rfl⟩, h⟩
  | call model args =>
      simp only [ClientState.step]
      cases s.runtime.objects[model]? with
      | none => exact ⟨.inl rfl, h⟩
      | some object =>
          have hrefused := refused_callOver env h.transport object args
          have ⟨e, he, hexchange⟩ := hrefused
          have hresult := congrArg Logged.result hexchange
          exact ⟨.inr ⟨e, he, congrArg ClientAnswer.result hresult⟩, h.after model hrefused⟩
  | stream model args =>
      simp only [ClientState.step]
      cases s.runtime.objects[model]? with
      | none => exact ⟨.inl rfl, h⟩
      | some object =>
          have hrefused : Refused (object.streamOver env s.runtime.transport args).1 :=
            refused_streamWith h.transport _ args
          have ⟨e, he, hexchange⟩ := hrefused
          have hresult := congrArg Logged.result hexchange
          exact ⟨.inr ⟨e, he, congrArg ClientAnswer.chunk hresult⟩, h.after model hrefused⟩
  | closeModel model => exact ⟨rfl, h.runtime, h.transport, h.sent_eq⟩
  | close =>
      have hclosed := closed_close s
      exact ⟨rfl, hclosed.runtime, hclosed.transport, h.sent_eq⟩

/-- Once the runtime was closed, whatever happened before, nothing is sent any more, and
every later connection, call and stream is refused without asking the other side: also
those of models that the runtime had forgotten and that are not closed themselves. -/
theorem closed_is_silent (lower : List χ → List χ) (env : Setting α δ)
    (capabilities : List (Capability χ)) (transport : SdkTransport)
    (before after : List (ClientCall χ α)) :
    let s := (Service.run (step lower env) (start capabilities transport) (before ++ [.close])).2
    (∀ e ∈ after.zip (Service.run (step lower env) s after).1, Quiet e.1 e.2) ∧
      (Service.run (step lower env) s after).2.sent = s.sent := by
  intro s
  have hclosed : Closed s.sent s := by
    have hs : s = ((Service.run (step lower env) (start capabilities transport) before).2.step
        lower env .close).2 := by
      simp only [s, Service.run_append]
      rfl
    rw [hs]
    exact closed_close (Service.run (step lower env) (start capabilities transport) before).2
  have hrun := Service.forall_entries_of_invariant (I := Closed s.sent) (P := Quiet)
    (fun t c ht => ht.step lower env c) hclosed after
  exact ⟨hrun.1, hrun.2.sent_eq⟩

end ClientState

end Aicl.Sdk

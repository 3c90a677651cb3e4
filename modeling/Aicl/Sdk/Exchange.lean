import Aicl.Foundation.Logged
import Aicl.Sdk.Runtime

/-!
# Calls and streams over both transports

Models of {lit}`aicl/sdk/model.py` over the transports of {lit}`aicl/sdk/transport.py`, with
calls and streams of any models between connections and closings.  What goes to the
native core or to the network is logged.  The other side of an HTTP exchange may do
anything; {lit}`json.loads` and the texts of numbers are parameters.

Main definitions:

- Definition {lit}`ModelObject.callOver`: a call and what it sends.
- Definition {lit}`ModelObject.streamOver`: a stream up to its only chunk.
- Definition {lit}`ClientState.step`: one step of a runtime and its models.
-/

namespace Aicl.Sdk

/-! ## Transports -/

/-- {lit}`HttpTransport`: what an exchange looks at; the timeout is the text of its number. -/
structure HttpTransport where
  timeoutText : String
  closed : Bool := false
deriving DecidableEq, Repr

/-- The transport of a runtime. -/
inductive SdkTransport where
  | native (transport : NativeTransport)
  | http (transport : HttpTransport)

/-- How {lit}`urlopen` ends. -/
inductive HttpReply where
  | body (data : Bytes)
  | urlError (text : String)
  | timeout
deriving DecidableEq, Repr

/-- An exception of a call or a stream. -/
inductive CallError where
  | sdk (e : SdkError)
  | httpCompatError (message : String)
  | timeoutError (message : String)
deriving DecidableEq, Repr

/-- What leaves the package: bytes for a native buffer, bytes for {lit}`aicl_decode`, the
body of a request. -/
inductive Sent where
  | buffer (data : Bytes)
  | decode (data : Bytes)
  | post (data : Bytes)
deriving DecidableEq, Repr

/-- A computation that sends something on its way. -/
abbrev Exchange (α : Type) := Logged Sent CallError α

/-- A computation that sends nothing. -/
def unsent {α : Type} : SdkResult α → Exchange α
  | .ok a => .lift (.ok a)
  | .err e => .lift (.err (.sdk e))
  | .panic => .lift .panic

/-- The check of every method. -/
def HttpTransport.checkOpen (self : HttpTransport) : SdkResult Unit :=
  Outcome.failIf (self.closed = true) (.transportError "Transport is closed")

/-- {lit}`close`. -/
def SdkTransport.close : SdkTransport → SdkTransport
  | .native t => .native { t with closed := true }
  | .http t => .http { t with closed := true }

/-- The flag of a transport. -/
def SdkTransport.closed : SdkTransport → Bool
  | .native t => t.closed
  | .http t => t.closed

section

variable (crc32 : Bytes → UInt32)

/-- The native path: a buffer, a look at the token, and a view of its bytes. -/
def NativeTransport.exchange (self : NativeTransport) (cancelled : Bool) (wire : Bytes) :
    Exchange AiclPacketView := do
  unsent self.checkOpen
  .tell (.buffer wire)
  let responseData ← unsent (nativeBuffer wire)
  unsent (checkToken cancelled)
  unsent self.checkOpen
  .tell (.decode responseData)
  unsent (self.decode crc32 responseData)

end

/-- {lit}`HttpTransport.send`. -/
def HttpTransport.send (self : HttpTransport) (wire : Bytes) (reply : HttpReply) :
    Exchange Bytes := do
  unsent self.checkOpen
  .tell (.post wire)
  match reply with
  | .body data => pure data
  | .urlError text => .lift (.err (.httpCompatError s!"HTTP request failed: {text}"))
  | .timeout =>
      .lift (.err (.timeoutError s!"HTTP request timed out after {self.timeoutText}s"))

/-- {lit}`HttpTransport.decode`. -/
def HttpTransport.decode {δ : Type} (self : HttpTransport) (loads : Bytes → Except String δ)
    (data : Bytes) : Exchange δ := do
  unsent self.checkOpen
  match loads data with
  | .ok value => pure value
  | .error text => .lift (.err (.httpCompatError s!"Invalid JSON response: {text}"))

/-! ## Calls and streams -/

/-- Where a call looks at its token. -/
inductive Checkpoint where
  | started | encoded | answered
deriving DecidableEq, Repr

/-- The arguments of a call or a stream: the token may be cancelled between its checks,
the other side may answer anything, and the timeout is the text of its number. -/
structure CallArgs (α : Type) where
  instruction : Utf8String
  kwargs : List (Utf8String × α)
  cancelled : Checkpoint → Bool := fun _ => false
  reply : HttpReply := .timeout
  timeoutText : String := "30.0"

/-- The data of a result or a chunk. -/
inductive ResponseData (δ : Type) where
  | view (opcode operands : Nat)
  | json (value : δ)
  | bytes (data : Bytes)
deriving DecidableEq, Repr

/-- {lit}`StructuredResult`, the latency apart. -/
structure CallResult (δ : Type) where
  data : ResponseData δ
  opcode : Nat := 0
  messageId : Utf8String

/-- {lit}`StreamChunk`. -/
structure StreamChunk (δ : Type) where
  data : ResponseData δ
  chunkIndex : Nat := 0
  isFinal : Bool := false
  messageId : Utf8String

/-- What the operations of a model depend on. -/
structure Setting (α δ : Type) where
  crc32 : Bytes → UInt32
  text : α → Utf8String
  loads : Bytes → Except String δ

/-- {lit}`except TimeoutError`. -/
def onTimeout {α : Type} (message : String) (x : Exchange α) : Exchange α where
  log := x.log
  result :=
    match x.result with
    | .err (.timeoutError _) => .err (.timeoutError message)
    | result => result

namespace ModelObject

variable {χ α δ : Type} (env : Setting α δ)

/-- {lit}`_next_message_id`. -/
def nextMessageId (self : ModelObject χ) : Utf8String × ModelObject χ :=
  let counter := self.messageCounter + 1
  (messageIdText counter, { self with messageCounter := counter })

/-- The exchange of {lit}`call`. -/
def callWith (transport : SdkTransport) (messageId : Utf8String) (args : CallArgs α) :
    Exchange (CallResult δ) := do
  unsent (checkToken (args.cancelled .started))
  let wire ← unsent (encodeInstruction env.text args.instruction messageId args.kwargs)
  unsent (checkToken (args.cancelled .encoded))
  match transport with
  | .native t =>
      let view ← t.exchange env.crc32 (args.cancelled .answered) wire
      pure { data := .view view.opcode view.operandCount, opcode := view.opcode, messageId }
  | .http t =>
      let responseData ← t.send wire args.reply
      unsent (checkToken (args.cancelled .answered))
      let decoded ← t.decode env.loads responseData
      pure { data := .json decoded, messageId }

/-- {lit}`call`: an exception becomes the data of the result. -/
def callOver (self : ModelObject χ) (transport : SdkTransport) (args : CallArgs α) :
    Exchange (CallResult δ) × ModelObject χ :=
  if self.closed then (unsent (.err (.transportError "Model is closed")), self)
  else
    let (messageId, self) := self.nextMessageId
    (onTimeout s!"call() timed out after {args.timeoutText}s"
      (callWith env transport messageId args), self)

/-- The exchange of {lit}`stream`, up to its only chunk. -/
def streamWith (transport : SdkTransport) (messageId : Utf8String) (args : CallArgs α) :
    Exchange (StreamChunk δ) := do
  let wire ← unsent (encodeInstruction env.text args.instruction messageId args.kwargs)
  unsent (checkToken (args.cancelled .encoded))
  match transport with
  | .native t =>
      let view ← t.exchange env.crc32 false wire
      pure { data := .view view.opcode view.operandCount, isFinal := true, messageId }
  | .http t =>
      let response ← t.send wire args.reply
      pure { data := .bytes response, isFinal := true, messageId }

/-- {lit}`stream`, which does not ask whether the model is closed. -/
def streamOver (self : ModelObject χ) (transport : SdkTransport) (args : CallArgs α) :
    Exchange (StreamChunk δ) × ModelObject χ :=
  let (messageId, self) := self.nextMessageId
  (streamWith env transport messageId args, self)

end ModelObject

/-! ## Steps -/

/-- A runtime with its models, and what was sent for which model. -/
structure ClientState (χ : Type) where
  runtime : Runtime χ SdkTransport
  sent : List (Nat × Sent) := []

/-- What is done with a runtime and its models; models are known by their numbers. -/
inductive ClientCall (χ α : Type) where
  | connect (c : ConnectCall χ)
  | call (model : Nat) (args : CallArgs α)
  | stream (model : Nat) (args : CallArgs α)
  | closeModel (model : Nat)
  | close

/-- What a caller gets. -/
inductive ClientAnswer (χ δ : Type) where
  | connected (result : Outcome (RuntimeError χ) Nat)
  | result (result : Outcome CallError (CallResult δ))
  | chunk (result : Outcome CallError (StreamChunk δ))
  | noModel
  | done

namespace ClientState

section

variable {χ α δ : Type} [DecidableEq χ] (lower : List χ → List χ) (env : Setting α δ)

/-- What an exchange of a model leaves. -/
def after {β : Type} (s : ClientState χ) (model : Nat) (exchange : Exchange β × ModelObject χ) :
    ClientState χ where
  runtime := { s.runtime with objects := s.runtime.objects.set model exchange.2 }
  sent := s.sent ++ exchange.1.log.map fun sent => (model, sent)

/-- One step. -/
def step (s : ClientState χ) : ClientCall χ α → ClientAnswer χ δ × ClientState χ
  | .connect c =>
      match s.runtime.run lower c with
      | .ok (model, runtime) => (.connected (.ok model), { s with runtime })
      | .err e => (.connected (.err e), s)
      | .panic => (.connected .panic, s)
  | .call model args =>
      match s.runtime.objects[model]? with
      | some object =>
          let exchange := object.callOver env s.runtime.transport args
          (.result exchange.1.result, s.after model exchange)
      | none => (.noModel, s)
  | .stream model args =>
      match s.runtime.objects[model]? with
      | some object =>
          let exchange := object.streamOver env s.runtime.transport args
          (.chunk exchange.1.result, s.after model exchange)
      | none => (.noModel, s)
  | .closeModel model =>
      let objects := s.runtime.objects.modify model ModelObject.close
      (.done, { s with runtime := { s.runtime with objects } })
  | .close => (.done, { s with runtime := s.runtime.close SdkTransport.close })

/-- The state of a runtime that was just made. -/
def start (capabilities : List (Capability χ)) (transport : SdkTransport) : ClientState χ where
  runtime := { capabilities, transport }

end

end ClientState

end Aicl.Sdk

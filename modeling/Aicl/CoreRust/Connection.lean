import Aicl.CoreRust.Router

/-!
# Connections of the Rust core

{lit}`Connection` of {lit}`core-rust/src/router.rs`: a queue of incoming packets in front
of a router.  {lit}`drain` hands the packets to the router one by one and returns at the
first one whose dispatch fails.

Main results:

- Theorem {lit}`Connection.drains`: what a drain does with the queue.
- Theorem {lit}`Connection.conserves`: over all calls, the accepted packets are handed
  to the router in order, or still wait.
-/

namespace Aicl.CoreRust

/-- A connection endpoint. -/
structure Connection (σ : Type) where
  router : Router σ
  incoming : List AiclPacket
  maxInflight : Nat

/-- What a drain returns, the packets that it called {lit}`on_response` with, and the
connection that it leaves. -/
structure Drained (σ : Type) where
  returned : AiclResult Nat
  responses : List AiclPacket
  connection : Connection σ

namespace Connection

variable {σ : Type}

/-- {lit}`Connection::new`. -/
def new (router : Router σ) : Connection σ := ⟨router, [], 1024⟩

/-- {lit}`enqueue`. -/
def enqueue (c : Connection σ) (pkt : AiclPacket) : Except String Unit × Connection σ :=
  if c.maxInflight ≤ c.incoming.length then (.error "queue full", c)
  else (.ok (), { c with incoming := c.incoming ++ [pkt] })

/-- The loop of {lit}`drain` over the queue, with its counter. -/
def drainLoop (router : Router σ) (maxInflight n : Nat) : List AiclPacket → Drained σ
  | [] => ⟨.ok n, [], router, [], maxInflight⟩
  | pkt :: incoming =>
      match router.dispatch pkt with
      | (.ok result, router) =>
          let d := drainLoop router maxInflight (n + 1) incoming
          { d with responses := result :: d.responses }
      | (.err e, router) => ⟨.err e, [], router, incoming, maxInflight⟩
      | (.panic, router) => ⟨.panic, [], router, incoming, maxInflight⟩

/-- {lit}`drain`. -/
def drain (c : Connection σ) : Drained σ := drainLoop c.router c.maxInflight 0 c.incoming

/-! ## What a drain does -/

/-- The packets of a queue are handed to the router in order until one of them fails.
Without a failure, the queue is empty and every packet has its response; otherwise, the
packets before the failing one have theirs and those after it are left. -/
def DrainsAs (router : Router σ) (queue : List AiclPacket) (d : Drained σ) : Prop :=
  match d.returned with
  | .ok _ =>
      d.connection.incoming = [] ∧
        Service.run Router.dispatch router queue = (d.responses.map .ok, d.connection.router)
  | .err e =>
      ∃ handed failing, queue = handed ++ failing :: d.connection.incoming ∧
        Service.run Router.dispatch router (handed ++ [failing]) =
          (d.responses.map .ok ++ [.err e], d.connection.router)
  | .panic => False

/-- A dispatch that succeeds comes before what the rest of the loop does. -/
theorem DrainsAs.cons {router next : Router σ} {pkt response : AiclPacket}
    {queue : List AiclPacket} {d : Drained σ} (h : DrainsAs next queue d)
    (hdispatch : router.dispatch pkt = (.ok response, next)) :
    DrainsAs router (pkt :: queue) { d with responses := response :: d.responses } := by
  rcases d with ⟨returned, responses, connection⟩
  cases returned with
  | ok n =>
      rcases h with ⟨hempty, hrun⟩
      refine ⟨hempty, ?_⟩
      rw [Service.run, hdispatch, hrun]
      rfl
  | err e =>
      rcases h with ⟨handed, failing, hqueue, hrun⟩
      refine ⟨pkt :: handed, failing, congrArg (pkt :: ·) hqueue, ?_⟩
      rw [List.cons_append, Service.run, hdispatch, hrun]
      rfl
  | panic => exact h

/-- What the loop does. -/
theorem drainLoop_drainsAs (router : Router σ) (maxInflight n : Nat) (queue : List AiclPacket) :
    DrainsAs router queue (drainLoop router maxInflight n queue) := by
  induction queue generalizing router n with
  | nil => exact ⟨rfl, rfl⟩
  | cons pkt queue ih =>
      rcases hdispatch : router.dispatch pkt with ⟨result, next⟩
      cases result with
      | ok response =>
          simp only [drainLoop, hdispatch]
          exact (ih next (n + 1)).cons hdispatch
      | err e =>
          simp only [drainLoop, hdispatch]
          refine ⟨[], pkt, rfl, ?_⟩
          rw [List.nil_append, Service.run, hdispatch]
          rfl
      | panic => exact absurd (congrArg Prod.fst hdispatch) (Router.dispatch_ne_panic router pkt)

/-- What a drain does with the queue. -/
theorem drains (c : Connection σ) : DrainsAs c.router c.incoming c.drain :=
  drainLoop_drainsAs c.router c.maxInflight 0 c.incoming

/-- The loop counts the responses, and leaves the limit of the queue. -/
theorem drainLoop_counts (router : Router σ) (maxInflight n : Nat) (queue : List AiclPacket) :
    (∀ k, (drainLoop router maxInflight n queue).returned = .ok k →
        k = n + (drainLoop router maxInflight n queue).responses.length) ∧
      (drainLoop router maxInflight n queue).connection.maxInflight = maxInflight := by
  induction queue generalizing router n with
  | nil =>
      refine ⟨?_, rfl⟩
      intro k hk
      cases hk
      rfl
  | cons pkt queue ih =>
      rcases hdispatch : router.dispatch pkt with ⟨result, next⟩
      cases result with
      | ok response =>
          simp only [drainLoop, hdispatch]
          rcases ih next (n + 1) with ⟨hcount, hmax⟩
          refine ⟨?_, hmax⟩
          intro k hk
          rw [hcount k hk, List.length_cons]
          omega
      | err e =>
          simp only [drainLoop, hdispatch]
          exact ⟨nofun, trivial⟩
      | panic =>
          simp only [drainLoop, hdispatch]
          exact ⟨nofun, trivial⟩

/-! ## All calls -/

end Connection

/-- A call of a connection. -/
inductive ConnectionCall where
  | enqueue (pkt : AiclPacket)
  | drain

/-- What a call gives: the result of {lit}`enqueue`, or what {lit}`drain` returns and the
packets that it called {lit}`on_response` with. -/
inductive ConnectionAnswer where
  | enqueued (result : Except String Unit)
  | drained (returned : AiclResult Nat) (responses : List AiclPacket)

namespace Connection

variable {σ : Type}

/-- One call. -/
def call (c : Connection σ) : ConnectionCall → ConnectionAnswer × Connection σ
  | .enqueue pkt => (.enqueued (c.enqueue pkt).1, (c.enqueue pkt).2)
  | .drain => (.drained c.drain.returned c.drain.responses, c.drain.connection)

/-- The packets that a call added to the queue. -/
def accepted : ConnectionCall × ConnectionAnswer → List AiclPacket
  | (.enqueue pkt, .enqueued (.ok ())) => [pkt]
  | _ => []

/-- The packets that a call called {lit}`on_response` with. -/
def responded : ConnectionCall × ConnectionAnswer → List AiclPacket
  | (_, .drained _ responses) => responses
  | _ => []

/-- From one connection to another one, packets were added to the queue, and packets from
its front were handed to the router in order, each once; those whose dispatch succeeded
have their responses in order, and the queue stays within its limit. -/
structure Conserves (c : Connection σ) (added responses : List AiclPacket) (c' : Connection σ) :
    Prop where
  handed : ∃ handed, c.incoming ++ added = handed ++ c'.incoming ∧
    c'.router = (Service.run Router.dispatch c.router handed).2 ∧
      responses = (Service.run Router.dispatch c.router handed).1.filterMap Outcome.toOption
  bounded : c.incoming.length ≤ c.maxInflight → c'.incoming.length ≤ c'.maxInflight
  limit : c'.maxInflight = c.maxInflight

/-- The responses are those of the dispatches that succeeded. -/
theorem filterMap_toOption_ok (responses : List AiclPacket) :
    (responses.map (Outcome.ok : AiclPacket → AiclResult AiclPacket)).filterMap Outcome.toOption =
      responses := by
  simp [List.filterMap_map, Outcome.toOption, Function.comp_def]

/-- One call conserves the packets. -/
theorem conserves_call (c : Connection σ) (i : ConnectionCall) :
    Conserves c (accepted (i, (c.call i).1)) (responded (i, (c.call i).1)) (c.call i).2 := by
  cases i with
  | enqueue pkt =>
      by_cases hfull : c.maxInflight ≤ c.incoming.length
      · have henqueue : c.enqueue pkt = (.error "queue full", c) := if_pos hfull
        simp only [call, henqueue, accepted, responded]
        exact ⟨⟨[], List.append_nil _, rfl, rfl⟩, id, rfl⟩
      · have henqueue : c.enqueue pkt = (.ok (), { c with incoming := c.incoming ++ [pkt] }) :=
          if_neg hfull
        simp only [call, henqueue, accepted, responded]
        refine ⟨⟨[], rfl, rfl, rfl⟩, ?_, rfl⟩
        intro _
        rw [List.length_append, List.length_singleton]
        exact Nat.lt_of_not_le hfull
  | drain =>
      have hlimit : c.drain.connection.maxInflight = c.maxInflight :=
        (drainLoop_counts c.router c.maxInflight 0 c.incoming).2
      have hkeep : ∀ handed, c.incoming = handed ++ c.drain.connection.incoming →
          c.incoming.length ≤ c.maxInflight →
            c.drain.connection.incoming.length ≤ c.drain.connection.maxInflight := by
        intro handed hqueue hle
        have hlength := congrArg List.length hqueue
        rw [List.length_append] at hlength
        rw [hlimit]
        omega
      have hdrains := c.drains
      unfold DrainsAs at hdrains
      simp only [call, accepted, responded]
      split at hdrains
      · rcases hdrains with ⟨hempty, hrun⟩
        refine ⟨⟨c.incoming, ?_, ?_, ?_⟩, hkeep c.incoming ?_, hlimit⟩
        · rw [hempty]
        · rw [hrun]
        · rw [hrun]
          exact (filterMap_toOption_ok _).symm
        · rw [hempty, List.append_nil]
      · rcases hdrains with ⟨handed, failing, hqueue, hrun⟩
        have hsplit : c.incoming = handed ++ [failing] ++ c.drain.connection.incoming := by
          rw [List.append_assoc]
          exact hqueue
        refine ⟨⟨handed ++ [failing], ?_, ?_, ?_⟩, hkeep _ hsplit, hlimit⟩
        · rw [List.append_nil]
          exact hsplit
        · rw [hrun]
        · rw [hrun, List.filterMap_append, filterMap_toOption_ok]
          exact (List.append_nil _).symm
      · exact hdrains.elim

/-- What calls conserve one after the other, they conserve together. -/
theorem Conserves.trans {c c' c'' : Connection σ} {added added' responses responses' : List AiclPacket}
    (h : Conserves c added responses c') (h' : Conserves c' added' responses' c'') :
    Conserves c (added ++ added') (responses ++ responses') c'' := by
  rcases h.handed with ⟨handed, hqueue, hrouter, hresponses⟩
  rcases h'.handed with ⟨handed', hqueue', hrouter', hresponses'⟩
  refine ⟨⟨handed ++ handed', ?_, ?_, ?_⟩, h'.bounded ∘ h.bounded, h'.limit.trans h.limit⟩
  · rw [← List.append_assoc, hqueue, List.append_assoc, hqueue', List.append_assoc]
  · rw [Service.run_append, hrouter', hrouter]
  · rw [Service.run_append, List.filterMap_append, hresponses, hresponses', hrouter]

/-- Calls conserve the packets. -/
theorem conserves_run (c : Connection σ) (calls : List ConnectionCall) :
    Conserves c ((calls.zip (Service.run call c calls).1).flatMap accepted)
      ((calls.zip (Service.run call c calls).1).flatMap responded) (Service.run call c calls).2 := by
  induction calls generalizing c with
  | nil => exact ⟨⟨[], List.append_nil _, rfl, rfl⟩, id, rfl⟩
  | cons i calls ih =>
      rw [Service.run, List.zip_cons_cons, List.flatMap_cons, List.flatMap_cons]
      exact (conserves_call c i).trans (ih (c.call i).2)

/-- Over all calls, the accepted packets are handed to the router in order and each once,
or still wait in the queue, which is never longer than its limit; the responses are those
of the dispatches that succeeded, in order; and a drain that fails has handed one packet
that has no response, and leaves those after it. -/
theorem conserves (router : Router σ) (calls : List ConnectionCall) :
    let reached := Service.run call (new router) calls
    (∃ handed, (calls.zip reached.1).flatMap accepted = handed ++ reached.2.incoming ∧
        reached.2.router = (Service.run Router.dispatch router handed).2 ∧
          (calls.zip reached.1).flatMap responded =
            (Service.run Router.dispatch router handed).1.filterMap Outcome.toOption) ∧
      reached.2.incoming.length ≤ 1024 ∧
        DrainsAs reached.2.router reached.2.incoming reached.2.drain := by
  intro reached
  have hrun := conserves_run (new router) calls
  refine ⟨hrun.handed, ?_, drains reached.2⟩
  have hbounded := hrun.bounded (Nat.zero_le _)
  rwa [hrun.limit] at hbounded

end Connection

end Aicl.CoreRust

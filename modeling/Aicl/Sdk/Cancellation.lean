import Aicl.Foundation.Ledger
import Aicl.Foundation.Machine

/-!
# Cancellation tokens

{lit}`CancellationToken` of {lit}`aicl/sdk/_cancellation.py`, called by any number of
threads.  The steps of a thread are the acquisition of the lock, which is not
reentrant, and what happens between two looks at the token; a callback is a program
that may look at the token, call its methods, and end in an exception.

Main results:

- Theorem {lit}`TokenState.inv_step`: the threads and the ledger of callbacks after a
  step.
- Theorem {lit}`TokenState.notified_once_iff`: every callback runs exactly once, and no
  thread waits for itself, exactly when no callback calls {lit}`cancel` or
  {lit}`on_cancelled` and none breaks off the loop that runs the others.
-/

namespace Aicl.Sdk

/-! ## Callbacks and threads -/

/-- What a callback does with its token, up to its end. -/
inductive Callback where
  /-- The callback returns. -/
  | returns
  /-- It raises; {lit}`isException` tells an {lit}`Exception` from the other base
  exceptions, which {lit}`except Exception` lets through. -/
  | raises (isException : Bool)
  | isCancelled (next : Bool → Callback)
  | cancel (next : Callback)
  | onCancelled (callback next : Callback)

/-- A call of a method that takes the lock. -/
inductive TokenCall where
  | cancel
  | onCancelled (callback : Callback)

/-- A callback that was passed to {lit}`on_cancelled`, with the number of the call. -/
structure Registration where
  id : Nat
  callback : Callback

/-- An entry of the stack of a thread. -/
inductive TokenFrame where
  /-- Before {lit}`with self._lock`. -/
  | acquire (call : TokenCall)
  /-- After it. -/
  | holding (call : TokenCall)
  /-- At the {lit}`try` around a callback; the callbacks in the list come next.  The one
  in {lit}`on_cancelled` has nothing after it. -/
  | notify (rest : List Registration)
  | code (callback : Callback)

/-- A token and the threads that use it; {lit}`log` are the callbacks that were invoked,
in order, by the numbers of their registrations. -/
structure TokenState where
  cancelled : Bool := false
  event : Bool := false
  callbacks : List Registration := []
  lock : Option Nat := none
  registered : Nat := 0
  log : List Nat := []
  threads : Nat → List TokenFrame := fun _ => []

/-- What can happen: an idle thread begins a call or reads {lit}`is_cancelled`, or a
thread goes on. -/
inductive TokenAction where
  | call (thread : Nat) (call : TokenCall)
  | isCancelled (thread : Nat)
  | goOn (thread : Nat)

namespace TokenState

variable (s : TokenState)

/-- The stack of a thread changes. -/
def goTo (u : Nat) (stack : List TokenFrame) : TokenState :=
  { s with threads := Function.update s.threads u stack }

/-- A thread leaves the {lit}`with` block. -/
def release (u : Nat) (stack : List TokenFrame) : TokenState :=
  { s.goTo u stack with lock := none }

/-- {lit}`cancel`, with the lock. -/
def cancel (u : Nat) (stack : List TokenFrame) : TokenState :=
  if s.cancelled then s.release u stack
  else { s.goTo u (.notify s.callbacks :: stack) with cancelled := true, event := true }

/-- {lit}`on_cancelled`, with the lock. -/
def onCancelled (callback : Callback) (u : Nat) (stack : List TokenFrame) : TokenState :=
  if s.cancelled then
    { s.goTo u (.code callback :: .notify [] :: stack) with
      registered := s.registered + 1
      log := s.log ++ [s.registered] }
  else
    { s.release u stack with
      registered := s.registered + 1
      callbacks := s.callbacks ++ [⟨s.registered, callback⟩] }

/-- The next round of the loop over the callbacks. -/
def notify (u : Nat) (stack : List TokenFrame) : List Registration → TokenState
  | [] => s.release u stack
  | cb :: rest =>
      { s.goTo u (.code cb.callback :: .notify rest :: stack) with log := s.log ++ [cb.id] }

/-- A callback raises: an {lit}`Exception` ends at the {lit}`try`; any other one leaves the
{lit}`with` block and goes on in the callback that made the call, if there is one. -/
def raise (u : Nat) : (isException : Bool) → List TokenFrame → TokenState
  | true, stack => s.goTo u stack
  | false, .notify _ :: .code _ :: stack => s.release u (.code (.raises false) :: stack)
  | false, .notify _ :: stack => s.release u stack
  | false, stack => s.goTo u stack

/-- A thread goes on with a callback. -/
def runCallback (u : Nat) (stack : List TokenFrame) : Callback → TokenState
  | .returns => s.goTo u stack
  | .raises isException => s.raise u isException stack
  | .isCancelled next => s.goTo u (.code (next s.cancelled) :: stack)
  | .cancel next => s.goTo u (.acquire .cancel :: .code next :: stack)
  | .onCancelled callback next =>
      s.goTo u (.acquire (.onCancelled callback) :: .code next :: stack)

/-- A thread goes on; it waits while the lock that it wants is taken. -/
def goOn (u : Nat) : Option TokenState :=
  match s.threads u with
  | [] => none
  | .acquire call :: stack =>
      if s.lock = none then some { s.goTo u (.holding call :: stack) with lock := some u }
      else none
  | .holding .cancel :: stack => some (s.cancel u stack)
  | .holding (.onCancelled callback) :: stack => some (s.onCancelled callback u stack)
  | .notify rest :: stack => some (s.notify u stack rest)
  | .code callback :: stack => some (s.runCallback u stack callback)

/-- One action. -/
def step : TokenAction → Option TokenState
  | .call u call => if (s.threads u).isEmpty then some (s.goTo u [.acquire call]) else none
  | .isCancelled u => if (s.threads u).isEmpty then some s else none
  | .goOn u => s.goOn u

/-- {lit}`CancellationToken()`. -/
def start : TokenState := {}

/-! ## What is wanted -/

/-- The thread is about to acquire the lock. -/
def acquires (u : Nat) : Bool :=
  match s.threads u with
  | .acquire _ :: _ => true
  | _ => false

/-- The registrations that a frame will still invoke. -/
def waitingIn : TokenFrame → List Nat
  | .notify rest => rest.map Registration.id
  | _ => []

/-- The registrations that wait for their invocation: those in the list before the
cancellation, those that the holder of the lock has not come to after it. -/
def waiting : List Nat :=
  if s.cancelled then
    match s.lock with
    | some u => (s.threads u).flatMap waitingIn
    | none => []
  else s.callbacks.map Registration.id

/-- No thread tries to acquire the lock that it holds, every callback that does not wait
for its turn was invoked exactly once, none more often, and none before the
cancellation. -/
structure NotifiedOnce : Prop where
  no_self_acquire : ∀ u, s.acquires u = true → s.lock ≠ some u
  exactly_once : ∀ id < s.registered, id ∉ s.waiting → s.log.count id = 1
  at_most_once : ∀ id, s.log.count id ≤ 1
  not_before : s.cancelled = false → s.log = []

/-- The action is no call of {lit}`cancel` or {lit}`on_cancelled` by a callback, and no
exception that leaves the loop while callbacks are waiting behind it. -/
def Harmless : TokenAction → Bool
  | .goOn u =>
      match s.threads u with
      | .code (.cancel _) :: _ => false
      | .code (.onCancelled _ _) :: _ => false
      | .code (.raises false) :: .notify rest :: _ => rest.isEmpty
      | _ => true
  | _ => true

/-! ## The threads and the ledger -/

/-- The stack of a thread without the lock. -/
inductive Outside : List TokenFrame → Prop
  | idle : Outside []
  | waiting (call : TokenCall) : Outside [.acquire call]

/-- The stack of the thread with the lock.  After a call of a method by a callback it stays
as it is: the lock is taken. -/
inductive Inside : (cancelled : Bool) → List TokenFrame → Prop
  | entered {cancelled : Bool} (call : TokenCall) : Inside cancelled [.holding call]
  | between (rest : List Registration) : Inside true [.notify rest]
  | running (cb : Callback) (rest : List Registration) : Inside true [.code cb, .notify rest]
  | stuck (call : TokenCall) (cb : Callback) (rest : List Registration) :
      Inside true [.acquire call, .code cb, .notify rest]

/-- What holds after every run: where the threads are, and that every registration waits,
was invoked, or is in {lit}`lost`. -/
structure Inv (lost : List Nat) : Prop where
  outside : ∀ u, s.lock ≠ some u → Outside (s.threads u)
  inside : ∀ u, s.lock = some u → Inside s.cancelled (s.threads u)
  ledger : Ledger s.registered s.waiting s.log lost
  not_before : s.cancelled = false → s.log = []
  event_eq : s.event = s.cancelled

/-- No thread waits for itself and nothing is lost. -/
def Sound (lost : List Nat) : Prop :=
  (∀ u, s.acquires u = true → s.lock ≠ some u) ∧ lost = []

variable {s} {t : TokenState} {u : Nat} {lost lost' : List Nat}

/-- What waits after the cancellation, while a thread has the lock. -/
theorem waiting_of_held (hcancelled : s.cancelled = true) (hlock : s.lock = some u) :
    s.waiting = (s.threads u).flatMap waitingIn := by
  simp [waiting, hcancelled, hlock]

/-- What waits before the cancellation. -/
theorem waiting_of_active (hcancelled : s.cancelled = false) :
    s.waiting = s.callbacks.map Registration.id := by
  simp [waiting, hcancelled]

/-- When the lock is free nobody waits for himself. -/
theorem sound_of_free (hlock : s.lock = none) : s.Sound lost ↔ lost = [] := by
  simp [Sound, hlock]

/-- When it is taken, only its holder can. -/
theorem sound_of_held (hlock : s.lock = some u) :
    s.Sound lost ↔ s.acquires u = false ∧ lost = [] := by
  have hself : (∀ v, s.acquires v = true → s.lock ≠ some v) ↔ s.acquires u = false := by
    constructor
    · intro h
      by_contra hacquires
      exact h u (by simpa using hacquires) hlock
    · intro h v hv hlock'
      rw [hlock] at hlock'
      obtain rfl := Option.some.inj hlock'
      rw [h] at hv
      exact Bool.noConfusion hv
  rw [Sound, hself]

/-- While the holder goes on, only what is lost counts. -/
theorem sound_of_holding (hlock : s.lock = some u) (hgoes : s.acquires u = false) :
    s.Sound lost ↔ lost = [] := by
  rw [sound_of_held hlock, hgoes]
  exact and_iff_right rfl

/-- One thread at a time has the lock. -/
theorem holder_unique (hlock : s.lock = some u) (v : Nat) (hv : s.lock = some v) : v = u :=
  Option.some.inj (hv.symm.trans hlock)

/-- The threads without the lock stay where they are. -/
theorem Inv.outside_update (h : s.Inv lost) (hlock : ∀ v, s.lock = some v → v = u) {v : Nat}
    (hv : v ≠ u) (stack : List TokenFrame) : Outside (Function.update s.threads u stack v) := by
  rw [Function.update_of_ne hv]
  exact h.outside v fun hlocked => hv (hlock v hlocked)

/-- A thread that has the lock after the step. -/
theorem Inv.to_held (h : s.Inv lost) (hlock : ∀ v, s.lock = some v → v = u)
    {stack : List TokenFrame} (hthreads : t.threads = Function.update s.threads u stack)
    (hlock' : t.lock = some u) (hstack : Inside t.cancelled stack)
    (hledger : Ledger t.registered t.waiting t.log lost')
    (hbefore : t.cancelled = false → t.log = []) (hevent : t.event = t.cancelled) :
    t.Inv lost' where
  outside v hv := by
    rw [hthreads]
    refine h.outside_update hlock ?_ stack
    intro hvu
    exact hv (hvu ▸ hlock')
  inside v hv := by
    rw [hlock'] at hv
    obtain rfl := Option.some.inj hv
    rw [hthreads, Function.update_self]
    exact hstack
  ledger := hledger
  not_before := hbefore
  event_eq := hevent

/-- A thread that has left the {lit}`with` block. -/
theorem Inv.to_free (h : s.Inv lost) (hlock : s.lock = some u)
    (hthreads : t.threads = Function.update s.threads u []) (hlock' : t.lock = none)
    (hledger : Ledger t.registered t.waiting t.log lost')
    (hbefore : t.cancelled = false → t.log = []) (hevent : t.event = t.cancelled) :
    t.Inv lost' where
  outside v _ := by
    rw [hthreads]
    by_cases hv : v = u
    · rw [hv, Function.update_self]
      exact .idle
    · exact h.outside_update (holder_unique hlock) hv []
  inside v hv := by
    rw [hlock'] at hv
    cases hv
  ledger := hledger
  not_before := hbefore
  event_eq := hevent

/-! ## Steps -/

/-- After the action the threads are where they may be, and everything is in order if it
was before and the action is harmless. -/
def Leads (s : TokenState) (lost : List Nat) (action : TokenAction) (t : TokenState) : Prop :=
  ∃ lost', t.Inv lost' ∧ (t.Sound lost' ↔ s.Sound lost ∧ s.Harmless action = true)

/-- An idle thread begins a call. -/
theorem Inv.call (h : s.Inv lost) (hidle : s.threads u = []) (call : TokenCall) :
    s.Leads lost (.call u call) (s.goTo u [.acquire call]) := by
  have hother : ∀ v, s.lock = some v → (s.goTo u [.acquire call]).threads v = s.threads v := by
    intro v hv
    refine Function.update_of_ne ?_ _ _
    intro hvu
    have hinside := h.inside v hv
    rw [hvu, hidle] at hinside
    generalize s.cancelled = cancelled at hinside
    cases hinside
  have hwaiting : (s.goTo u [.acquire call]).waiting = s.waiting := by
    cases hlock : s.lock with
    | none => simp [waiting, goTo, hlock]
    | some v =>
        have hv := hother v hlock
        simp only [goTo] at hv
        simp [waiting, goTo, hlock, hv]
  refine ⟨lost, ⟨?_, ?_, ?_, h.not_before, h.event_eq⟩, ?_⟩
  · intro v hv
    by_cases hvu : v = u
    · simp only [goTo, hvu, Function.update_self]
      exact .waiting call
    · simp only [goTo, Function.update_of_ne hvu]
      exact h.outside v hv
  · intro v hv
    rw [hother v hv]
    exact h.inside v hv
  · rw [hwaiting]
    exact h.ledger
  · have hharmless : s.Harmless (.call u call) = true := rfl
    rw [and_iff_left hharmless]
    cases hlock : s.lock with
    | none => rw [sound_of_free hlock, sound_of_free (show (s.goTo u _).lock = none from hlock)]
    | some v =>
        rw [sound_of_held hlock, sound_of_held (show (s.goTo u _).lock = some v from hlock), acquires,
          acquires, hother v hlock]

/-- A thread gets the lock. -/
theorem Inv.acquire (h : s.Inv lost) {call : TokenCall} (hstack : s.threads u = [.acquire call])
    (hlock : s.lock = none) :
    s.Leads lost (.goOn u) { s.goTo u [.holding call] with lock := some u } := by
  have hwaiting :
      ({ s.goTo u [.holding call] with lock := some u } : TokenState).waiting = s.waiting := by
    simp [waiting, goTo, hlock, waitingIn]
  refine ⟨lost, h.to_held ?_ rfl rfl (.entered call) ?_ h.not_before h.event_eq, ?_⟩
  · intro v hv
    rw [hlock] at hv
    cases hv
  · rw [hwaiting]
    exact h.ledger
  · rw [sound_of_free hlock, sound_of_held rfl]
    simp [acquires, goTo, Harmless, hstack]

/-- With the lock and no callback on the stack, an action is harmless, and only what is
lost counts. -/
theorem sound_and_harmless_iff (hlock : s.lock = some u) {frame : TokenFrame}
    (hstack : s.threads u = [frame]) (hframe : (∃ call, frame = .holding call) ∨
      ∃ rest, frame = .notify rest) :
    s.Sound lost ∧ s.Harmless (.goOn u) = true ↔ lost = [] := by
  rw [sound_of_held hlock]
  rcases hframe with ⟨call, rfl⟩ | ⟨rest, rfl⟩ <;> simp [acquires, Harmless, hstack]

/-- {lit}`cancel` with the lock. -/
theorem Inv.cancel (h : s.Inv lost) (hlock : s.lock = some u)
    (hstack : s.threads u = [.holding .cancel]) : s.Leads lost (.goOn u) (s.cancel u []) := by
  have hsound := @sound_and_harmless_iff s u lost hlock _ hstack (.inl ⟨_, rfl⟩)
  have hledger := h.ledger
  unfold Leads
  rw [hsound]
  cases hcancelled : s.cancelled with
  | true =>
      have htarget : s.cancel u [] = s.release u [] := if_pos hcancelled
      rw [waiting_of_held hcancelled hlock, hstack] at hledger
      rw [htarget]
      refine ⟨lost, h.to_free hlock rfl rfl ?_ h.not_before h.event_eq, sound_of_free rfl⟩
      simpa [waiting, release, goTo, hcancelled, waitingIn] using hledger
  | false =>
      have htarget : s.cancel u [] =
          { s.goTo u [.notify s.callbacks] with cancelled := true, event := true } :=
        if_neg (by simp [hcancelled])
      rw [waiting_of_active hcancelled] at hledger
      rw [htarget]
      refine ⟨lost, h.to_held (holder_unique hlock) rfl hlock (.between s.callbacks) ?_ ?_ rfl, ?_⟩
      · simpa [waiting, goTo, hlock, waitingIn] using hledger
      · intro hactive
        cases hactive
      · exact sound_of_holding hlock (by simp [acquires, goTo])

/-- {lit}`on_cancelled` with the lock. -/
theorem Inv.onCancelled (h : s.Inv lost) (hlock : s.lock = some u) {callback : Callback}
    (hstack : s.threads u = [.holding (.onCancelled callback)]) :
    s.Leads lost (.goOn u) (s.onCancelled callback u []) := by
  have hsound := @sound_and_harmless_iff s u lost hlock _ hstack (.inl ⟨_, rfl⟩)
  have hledger := h.ledger.hold
  unfold Leads
  rw [hsound]
  cases hcancelled : s.cancelled with
  | true =>
      have htarget : s.onCancelled callback u [] =
          { s.goTo u [.code callback, .notify []] with
            registered := s.registered + 1
            log := s.log ++ [s.registered] } := if_pos hcancelled
      rw [waiting_of_held hcancelled hlock, hstack] at hledger
      rw [htarget]
      refine ⟨lost, h.to_held (holder_unique hlock) rfl hlock ?_ ?_ ?_ h.event_eq, ?_⟩
      · exact hcancelled.symm ▸ Inside.running callback []
      · have hinvoked := @Ledger.release _ _ _ [] _ _ hledger
        simpa [waiting, goTo, hcancelled, hlock, waitingIn] using hinvoked
      · intro hactive
        exact absurd (hactive.symm.trans hcancelled) Bool.false_ne_true
      · exact sound_of_holding hlock (by simp [acquires, goTo])
  | false =>
      have htarget : s.onCancelled callback u [] =
          { s.release u [] with
            registered := s.registered + 1
            callbacks := s.callbacks ++ [⟨s.registered, callback⟩] } :=
        if_neg (by simp [hcancelled])
      rw [waiting_of_active hcancelled] at hledger
      rw [htarget]
      refine ⟨lost, h.to_free hlock rfl rfl ?_ h.not_before h.event_eq, sound_of_free rfl⟩
      simpa [waiting, release, goTo, hcancelled] using hledger

/-- A round of the loop over the callbacks. -/
theorem Inv.notify (h : s.Inv lost) (hlock : s.lock = some u) (hcancelled : s.cancelled = true)
    {rest : List Registration} (hstack : s.threads u = [.notify rest]) :
    s.Leads lost (.goOn u) (s.notify u [] rest) := by
  have hsound := @sound_and_harmless_iff s u lost hlock _ hstack (.inr ⟨_, rfl⟩)
  have hledger := h.ledger
  rw [waiting_of_held hcancelled hlock, hstack] at hledger
  unfold Leads
  rw [hsound]
  cases rest with
  | nil =>
      refine ⟨lost, h.to_free hlock rfl rfl ?_ h.not_before h.event_eq, sound_of_free rfl⟩
      simpa [waiting, TokenState.notify, release, goTo, hcancelled, waitingIn] using hledger
  | cons cb rest =>
      refine ⟨lost, h.to_held (holder_unique hlock) rfl hlock ?_ ?_ ?_ h.event_eq, ?_⟩
      · exact hcancelled.symm ▸ Inside.running cb.callback rest
      · have hinvoked := @Ledger.release _ _ _ [] _ _ hledger
        simpa [waiting, TokenState.notify, goTo, hcancelled, hlock, waitingIn] using hinvoked
      · intro hactive
        exact absurd (hactive.symm.trans hcancelled) Bool.false_ne_true
      · exact sound_of_holding hlock (by simp [TokenState.notify, acquires, goTo])

section Running

variable {cb : Callback} {rest : List Registration}

/-- A callback goes on with its program, or its thread with the loop. -/
theorem Inv.goTo (h : s.Inv lost) (hlock : s.lock = some u) (hcancelled : s.cancelled = true)
    (hstack : s.threads u = [.code cb, .notify rest]) {stack : List TokenFrame}
    (hinside : Inside true stack) (hwaiting : stack.flatMap waitingIn = rest.map Registration.id) :
    (s.goTo u stack).Inv lost := by
  have hledger := h.ledger
  rw [waiting_of_held hcancelled hlock, hstack] at hledger
  refine h.to_held (holder_unique hlock) rfl hlock (hcancelled.symm ▸ hinside) ?_ h.not_before
    h.event_eq
  simpa [waiting, TokenState.goTo, hcancelled, hlock, waitingIn, hwaiting] using hledger

/-- When the next thing on the stack is no acquisition, a step that is harmless changes
nothing. -/
theorem sound_goTo_iff (hlock : s.lock = some u) (hstack : s.threads u = [.code cb, .notify rest])
    (hharmless : s.Harmless (.goOn u) = true) {stack : List TokenFrame}
    (hacquires : (s.goTo u stack).acquires u = false) :
    (s.goTo u stack).Sound lost ↔ s.Sound lost ∧ s.Harmless (.goOn u) = true := by
  have hlock' : (s.goTo u stack).lock = some u := hlock
  rw [sound_of_held hlock, sound_of_held hlock', hharmless, hacquires]
  simp [acquires, hstack]

/-- A callback calls a method of its token and waits for itself. -/
theorem Inv.stuck (h : s.Inv lost) (hlock : s.lock = some u) (hcancelled : s.cancelled = true)
    (hstack : s.threads u = [.code cb, .notify rest]) (hharmless : s.Harmless (.goOn u) = false)
    (call : TokenCall) (next : Callback) :
    s.Leads lost (.goOn u) (s.goTo u [.acquire call, .code next, .notify rest]) := by
  refine ⟨lost, h.goTo hlock hcancelled hstack (.stuck call next rest) (by simp [waitingIn]), ?_⟩
  refine Iff.trans (sound_of_held (u := u) ?_) ?_
  · exact hlock
  · simp [acquires, TokenState.goTo, hharmless]

/-- A callback goes on. -/
theorem Inv.runCallback (h : s.Inv lost) (hlock : s.lock = some u)
    (hcancelled : s.cancelled = true) (hstack : s.threads u = [.code cb, .notify rest]) :
    s.Leads lost (.goOn u) (s.runCallback u [.notify rest] cb) := by
  cases cb with
  | returns =>
      exact ⟨lost, h.goTo hlock hcancelled hstack (.between rest) (by simp [waitingIn]),
        sound_goTo_iff hlock hstack (by simp [Harmless, hstack]) (by simp [acquires, TokenState.goTo])⟩
  | raises isException =>
      cases isException with
      | true =>
          exact ⟨lost, h.goTo hlock hcancelled hstack (.between rest) (by simp [waitingIn]),
            sound_goTo_iff hlock hstack (by simp [Harmless, hstack])
              (by simp [acquires, TokenState.goTo])⟩
      | false =>
          -- the callbacks behind it will never run
          have hledger := h.ledger
          rw [waiting_of_held hcancelled hlock, hstack] at hledger
          refine ⟨lost ++ rest.map Registration.id,
            h.to_free hlock rfl rfl ?_ h.not_before h.event_eq, ?_⟩
          · have habandoned := @Ledger.abandon _ [] _ _ _ hledger
            simpa [waiting, TokenState.runCallback, raise, release, TokenState.goTo, hcancelled,
              waitingIn] using habandoned
          · refine Iff.trans (sound_of_free rfl) ?_
            rw [sound_of_held hlock]
            simp [acquires, Harmless, hstack]
  | isCancelled next =>
      exact ⟨lost, h.goTo hlock hcancelled hstack (.running _ rest) (by simp [waitingIn]),
        sound_goTo_iff hlock hstack (by simp [Harmless, hstack]) (by simp [acquires, TokenState.goTo])⟩
  | cancel next =>
      exact h.stuck hlock hcancelled hstack (by simp [Harmless, hstack]) .cancel next
  | onCancelled callback next =>
      exact h.stuck hlock hcancelled hstack (by simp [Harmless, hstack]) (.onCancelled callback) next

end Running

/-- A thread with the lock goes on. -/
theorem Inv.goOn_inside (h : s.Inv lost) (hlock : s.lock = some u) (hstep : s.goOn u = some t) :
    s.Leads lost (.goOn u) t := by
  have hinside := h.inside u hlock
  generalize hstack : s.threads u = stack at hinside
  generalize hcancelled : s.cancelled = cancelled at hinside
  unfold goOn at hstep
  rw [hstack] at hstep
  cases hinside with
  | entered call =>
      cases call with
      | cancel => exact Option.some.inj hstep ▸ h.cancel hlock hstack
      | onCancelled callback => exact Option.some.inj hstep ▸ h.onCancelled hlock hstack
  | between rest => exact Option.some.inj hstep ▸ h.notify hlock hcancelled hstack
  | running cb rest => exact Option.some.inj hstep ▸ h.runCallback hlock hcancelled hstack
  | stuck call cb rest => simp [hlock] at hstep

/-- A thread without the lock goes on. -/
theorem Inv.goOn_outside (h : s.Inv lost) (hlock : s.lock ≠ some u) (hstep : s.goOn u = some t) :
    s.Leads lost (.goOn u) t := by
  have houtside := h.outside u hlock
  generalize hstack : s.threads u = stack at houtside
  unfold goOn at hstep
  rw [hstack] at hstep
  cases houtside with
  | idle => cases hstep
  | waiting call =>
      by_cases hfree : s.lock = none
      · simp only [hfree, if_true] at hstep
        exact Option.some.inj hstep ▸ h.acquire hstack hfree
      · simp [hfree] at hstep

/-- The thread with the lock can always go on, unless it waits for itself. -/
theorem Inv.goOn_isSome (h : s.Inv lost) (hlock : s.lock = some u) (hself : s.acquires u = false) :
    (s.goOn u).isSome = true := by
  have hinside := h.inside u hlock
  generalize hstack : s.threads u = stack at hinside
  generalize s.cancelled = cancelled at hinside
  rw [acquires, hstack] at hself
  rw [goOn, hstack]
  cases hinside with
  | entered call => cases call <;> rfl
  | between rest => rfl
  | running cb rest => rfl
  | stuck call cb rest => cases hself

/-- What one action does. -/
theorem inv_step (h : s.Inv lost) {action : TokenAction} (hstep : s.step action = some t) :
    s.Leads lost action t := by
  cases action with
  | call u call =>
      simp only [step, Option.ite_none_right_eq_some, List.isEmpty_iff] at hstep
      exact Option.some.inj hstep.2 ▸ h.call hstep.1 call
  | isCancelled u =>
      simp only [step, Option.ite_none_right_eq_some] at hstep
      have hsame := Option.some.inj hstep.2
      exact ⟨lost, hsame ▸ h, by simp [← hsame, Harmless]⟩
  | goOn u =>
      by_cases hlock : s.lock = some u
      · exact h.goOn_inside hlock hstep
      · exact h.goOn_outside hlock hstep

/-! ## Runs -/

/-- Nothing happened yet. -/
theorem inv_start : start.Inv [] where
  outside _ _ := .idle
  inside u hu := by cases hu
  ledger := Ledger.empty
  not_before _ := rfl
  event_eq := rfl

/-- After a run everything is in order if it was before and all its actions were
harmless. -/
theorem inv_run (h : s.Inv lost) {actions : List TokenAction}
    (hrun : Machine.run step s actions = some t) :
    ∃ lost', t.Inv lost' ∧ (t.Sound lost' ↔ s.Sound lost ∧
      Machine.Along step (fun s action => s.Harmless action = true) s actions) := by
  refine Machine.exists_beside Sound (fun s action t lost h hstep => ?_) h hrun
  exact inv_step h hstep

/-- With the ledger, what is wanted is that nobody waits for himself and nothing is
lost. -/
theorem Inv.notifiedOnce_iff (h : s.Inv lost) : s.NotifiedOnce ↔ s.Sound lost := by
  constructor
  · intro hnotified
    exact ⟨hnotified.no_self_acquire, h.ledger.settled_iff.mp hnotified.exactly_once⟩
  · intro hsound
    constructor
    · exact hsound.1
    · exact h.ledger.settled_iff.mpr hsound.2
    · exact h.ledger.count_le_one
    · exact h.not_before

/-- After any calls by any threads, in any order of their steps: every callback that does not
wait for its turn was invoked exactly once, none before the cancellation, and no thread is
about to acquire the lock that it holds, exactly when every step on the way was
harmless. -/
theorem notified_once_iff (actions : List TokenAction)
    (hrun : Machine.run step start actions = some t) :
    t.NotifiedOnce ↔
      Machine.Along step (fun s action => s.Harmless action = true) start actions := by
  obtain ⟨lost, hinv, hsound⟩ := inv_run inv_start hrun
  rw [hinv.notifiedOnce_iff, hsound, sound_of_free rfl]
  simp

/-- A thread registers a callback that raises, another one cancels. -/
def registerAndCancel : List TokenAction :=
  .call 0 (.onCancelled (.raises true)) :: (List.replicate 2 (.goOn 0) ++
    (.call 1 .cancel :: List.replicate 5 (.goOn 1)))

/-- The error of the callback goes nowhere, and the callback has run once. -/
theorem notified_once_registerAndCancel :
    ∃ t, Machine.run step start registerAndCancel = some t ∧ t.NotifiedOnce := by
  have hruns : (Machine.run step start registerAndCancel).isSome = true := by decide +kernel
  obtain ⟨t, hrun⟩ := Option.isSome_iff_exists.mp hruns
  exact ⟨t, hrun, (notified_once_iff registerAndCancel hrun).mpr (by decide +kernel)⟩

/-- A thread registers a callback that cancels the token again, and cancels it. -/
def cancelAgain : List TokenAction :=
  .call 0 (.onCancelled (.cancel .returns)) :: (List.replicate 2 (.goOn 0) ++
    (.call 0 .cancel :: List.replicate 4 (.goOn 0)))

/-- The thread waits for the lock that it holds. -/
theorem cancelAgain_hangs : ¬ ∀ (actions : List TokenAction) (t : TokenState),
    Machine.run step start actions = some t → t.NotifiedOnce := by
  intro h
  have hruns : ((Machine.run step start cancelAgain).map fun t => (t.acquires 0, t.lock)) =
      some (true, some 0) := by decide +kernel
  obtain ⟨t, hrun, ht⟩ := Option.map_eq_some_iff.mp hruns
  obtain ⟨hacquires, hlock⟩ := Prod.mk.inj ht
  exact (h cancelAgain t hrun).no_self_acquire 0 hacquires hlock

end TokenState

end Aicl.Sdk

import Aicl.CoreRust.ViewAccess
import Aicl.Foundation.Cells
import Aicl.Foundation.Ledger
import Aicl.Foundation.Machine
import Aicl.Sdk.Model

/-!
# Views behind the native transport

{lit}`NativeTransport` and {lit}`AiclPacketView` of {lit}`aicl/sdk/transport.py` over
{lit}`AiclContext` of {lit}`aicl/sdk/_ffi.py`, with the views that {lit}`aicl_decode`
leaks and {lit}`aicl_pkt_view_free` takes back.  Addresses are not given out again,
so a view that is freed twice shows in the list of the frees.

Main results:

- Theorem {lit}`NativeState.decode_result`: the memory apart, a decoding is what it
  is without it.
- Theorem {lit}`NativeState.ledger_step`: what one action does to the ledger of views.
- Theorem {lit}`NativeState.freed_once_iff`: every view is freed exactly once exactly
  when no frame was sent.
-/

namespace Aicl.Sdk

open CoreRust (AiclCodec AiclErrorCode PacketView aiclDecode aiclPktViewOpcode aiclPktViewFlags
  aiclPktViewOperandCount)

/-! ## Memory -/

/-- The views that the core holds for Python, and the calls of
{lit}`aicl_pkt_view_free` with an address. -/
structure NativeMemory where
  views : Cells PacketView := []
  frees : List Nat := []

/-- {lit}`aicl_pkt_view_free`: nothing happens to a null pointer. -/
def NativeMemory.pktViewFree (memory : NativeMemory) : Option Nat → NativeMemory
  | none => memory
  | some address => { views := memory.views.free address, frees := memory.frees ++ [address] }

/-- {lit}`*view_out = leaked`: the pointer that is written. -/
def NativeMemory.leak (memory : NativeMemory) : Option PacketView → Option Nat × NativeMemory
  | none => (none, memory)
  | some view => (some memory.views.length, { memory with views := memory.views.alloc view })

section

variable (crc32 : Bytes → UInt32)

/-- {lit}`AiclContext.decode`: the pointer to the view, or an exception. -/
def contextDecode (ctx : AiclCodec) (data : Bytes) (memory : NativeMemory) :
    SdkResult (Option Nat × Option PacketView) × NativeMemory :=
  match aiclDecode crc32 (some ctx) (some data) true with
  | .ok (status, view) =>
      let (pointer, memory) := memory.leak view
      (checkStatus status "decode failed" >>= fun _ => pure (pointer, view), memory)
  | .panic => (.panic, memory)

/-- A Python object {lit}`AiclPacketView`, with what it holds on to. -/
structure ViewObject where
  viewPtr : Option Nat
  ctx : AiclCodec
  fields : AiclPacketView

/-- {lit}`AiclPacketView.__init__`: the fields are read through the pointer. -/
def ViewObject.init (pointer : Option Nat) (view : Option PacketView) (ctx : AiclCodec) :
    SdkResult ViewObject := do
  let opcode ← liftFfi (aiclPktViewOpcode view)
  let flags ← liftFfi (aiclPktViewFlags view)
  let operandCount ← liftFfi (aiclPktViewOperandCount view)
  pure { viewPtr := pointer, ctx, fields := { opcode, flags, operandCount } }

/-- {lit}`close`: the transport lets go of its context, which its views keep. -/
def NativeTransport.close (self : NativeTransport) : NativeTransport := { self with closed := true }

/-- A transport, the view objects that are still referenced, and the memory. -/
structure NativeState where
  transport : NativeTransport := {}
  objects : List ViewObject := []
  memory : NativeMemory := {}

namespace NativeState

/-- {lit}`NativeTransport.decode`: the new object, or an exception. -/
def decode (s : NativeState) (data : Bytes) : SdkResult ViewObject × NativeState :=
  match s.transport.checkOpen with
  | .ok _ =>
      let (result, memory) := contextDecode crc32 s.transport.ctx data s.memory
      (result >>= fun view => ViewObject.init view.1 view.2 s.transport.ctx, { s with memory })
  | .err e => (.err e, s)
  | .panic => (.panic, s)

/-- {lit}`NativeTransport.send`: the view is decoded and forgotten. -/
def send (s : NativeState) (data : Bytes) : SdkResult Unit × NativeState :=
  match s.transport.checkOpen with
  | .ok _ =>
      let (result, memory) := contextDecode crc32 s.transport.ctx data s.memory
      (result >>= fun _ => pure (), { s with memory })
  | .err e => (.err e, s)
  | .panic => (.panic, s)

/-- What happens to a transport and its views. -/
inductive Action where
  | decode (data : Bytes)
  | send (data : Bytes)
  | drop (object : Nat)
  | close

/-- One action.  After an exception everything goes on; a panic of the core is the end
of the process.  The finaliser of a dropped object frees its view. -/
def step (s : NativeState) : Action → Option NativeState
  | .decode data =>
      match s.decode crc32 data with
      | (.ok object, s) => some { s with objects := s.objects ++ [object] }
      | (.err _, s) => some s
      | (.panic, _) => none
  | .send data =>
      match s.send crc32 data with
      | (.ok _, s) => some s
      | (.err _, s) => some s
      | (.panic, _) => none
  | .drop i =>
      s.objects[i]?.map fun object =>
        { s with
          objects := s.objects.eraseIdx i
          memory := s.memory.pktViewFree object.viewPtr }
  | .close => some { s with transport := s.transport.close }

/-- A transport that was just made. -/
def start : NativeState := {}

/-! ## The ledger of views -/

/-- The views that objects refer to. -/
def held (s : NativeState) : List Nat := s.objects.filterMap ViewObject.viewPtr

/-- Where the views are; those in the last list belong to nobody. -/
def Accounts (s : NativeState) (lost : List Nat) : Prop :=
  Ledger s.memory.views.length s.held s.memory.frees lost

/-- Every view that no object refers to any more was freed exactly once, and no view
twice. -/
def FreedOnce (s : NativeState) : Prop :=
  (∀ address < s.memory.views.length, address ∉ s.held → s.memory.frees.count address = 1) ∧
    ∀ address, s.memory.frees.count address ≤ 1

/-- The action sends data that the codec of an open transport decodes. -/
def SendsFrame (s : NativeState) : Action → Bool
  | .send data => !s.transport.closed && (s.transport.ctx.decode crc32 data).isOk
  | _ => false

variable {crc32} {s t : NativeState} {lost : List Nat}

/-- What {lit}`AiclContext.decode` does: it returns a pointer to a new view, or it
raises an exception, or the core panics. -/
theorem contextDecode_cases (ctx : AiclCodec) (data : Bytes) (memory : NativeMemory) :
    (∃ view, ctx.decode crc32 data = .ok view ∧ contextDecode crc32 ctx data memory =
        (.ok (some memory.views.length, some view),
          { memory with views := memory.views.alloc view })) ∨
      ((ctx.decode crc32 data).isOk = false ∧
        ∃ result, contextDecode crc32 ctx data memory = (result, memory) ∧
          ∀ view, result = .ok view → view = (none, none)) := by
  unfold contextDecode aiclDecode
  cases hdecode : ctx.decode crc32 data with
  | ok view =>
      left
      refine ⟨view, rfl, ?_⟩
      simp only [hdecode]
      rfl
  | err e =>
      right
      refine ⟨rfl, _, by simp only [hdecode]; rfl, fun view hview => ?_⟩
      obtain ⟨_, _, hpure⟩ := Outcome.bind_eq_ok_iff.mp hview
      exact (Outcome.ok.inj hpure).symm
  | panic =>
      right
      refine ⟨rfl, .panic, by simp only [hdecode], fun view hview => ?_⟩
      cases hview

/-- The new object has the pointer that it was made with. -/
theorem viewPtr_init {pointer : Option Nat} {view : Option PacketView} {ctx : AiclCodec}
    {object : ViewObject} (h : ViewObject.init pointer view ctx = .ok object) :
    object.viewPtr = pointer := by
  unfold ViewObject.init at h
  obtain ⟨_, _, h⟩ := Outcome.bind_eq_ok_iff.mp h
  obtain ⟨_, _, h⟩ := Outcome.bind_eq_ok_iff.mp h
  obtain ⟨_, _, h⟩ := Outcome.bind_eq_ok_iff.mp h
  rw [← Outcome.ok.inj h]

/-- Making an object raises no exception. -/
theorem init_ne_err (pointer : Option Nat) (view : Option PacketView) (ctx : AiclCodec)
    (e : SdkError) : ViewObject.init pointer view ctx ≠ .err e := by
  unfold ViewObject.init
  cases aiclPktViewOpcode view with
  | ok opcode =>
      cases aiclPktViewFlags view with
      | ok flags =>
          cases aiclPktViewOperandCount view with
          | ok operandCount => simp [liftFfi]
          | err e => cases e
          | panic => simp [liftFfi]
      | err e => cases e
      | panic => simp [liftFfi]
  | err e => cases e
  | panic => simp [liftFfi]

/-- The memory apart, a decoding is what it is without it. -/
theorem decode_result (s : NativeState) (data : Bytes) :
    ((s.decode crc32 data).1 >>= fun object => pure object.fields) =
      s.transport.decode crc32 data := by
  unfold decode NativeTransport.decode
  cases hopen : s.transport.checkOpen with
  | ok _ =>
      simp only [Outcome.ok_bind, contextDecode]
      cases aiclDecode crc32 (some s.transport.ctx) (some data) true with
      | ok answer =>
          rcases answer with ⟨status, view⟩
          simp only [liftFfi, Outcome.ok_bind, Outcome.bind_assoc]
          cases checkStatus status "decode failed" with
          | ok _ =>
              simp only [Outcome.ok_bind, Outcome.pure_eq, ViewObject.init, Outcome.bind_assoc,
                liftFfi]
          | err e => rfl
          | panic => rfl
      | err e => cases e
      | panic => rfl
  | err e => rfl
  | panic => rfl

/-! ## Steps -/

/-- The view that an action loses. -/
def losesView (crc32 : Bytes → UInt32) (s : NativeState) (action : Action) : List Nat :=
  if SendsFrame crc32 s action then [s.memory.views.length] else []

/-- A decoding keeps the ledger. -/
theorem ledger_decode {data : Bytes} (h : s.Accounts lost)
    (hstep : step crc32 s (.decode data) = some t) : t.Accounts lost := by
  simp only [step, decode] at hstep
  cases hopen : s.transport.checkOpen with
  | err e =>
      simp only [hopen, Option.some.injEq] at hstep
      exact hstep ▸ h
  | panic => simp [hopen] at hstep
  | ok _ =>
      simp only [hopen] at hstep
      rcases @contextDecode_cases crc32 s.transport.ctx data s.memory with
        ⟨view, -, hcontext⟩ | ⟨-, result, hcontext, hnull⟩
      · rw [hcontext] at hstep
        simp only [Outcome.ok_bind] at hstep
        cases hinit : ViewObject.init (some s.memory.views.length) (some view) s.transport.ctx with
        | ok object =>
            simp only [hinit, Option.some.injEq] at hstep
            subst hstep
            have hheld := h.hold
            simpa [Accounts, held, List.filterMap_append, viewPtr_init hinit] using hheld
        | err e => exact absurd hinit (init_ne_err _ _ _ e)
        | panic => simp [hinit] at hstep
      · rw [hcontext] at hstep
        cases result with
        | err e =>
            simp only [Outcome.err_bind, Option.some.injEq] at hstep
            exact hstep ▸ h
        | panic => simp at hstep
        | ok view =>
            obtain rfl := hnull view rfl
            simp only [Outcome.ok_bind] at hstep
            cases hinit : ViewObject.init none none s.transport.ctx with
            | ok object =>
                simp only [hinit, Option.some.injEq] at hstep
                subst hstep
                simpa [Accounts, held, List.filterMap_append, viewPtr_init hinit] using h
            | err e => exact absurd hinit (init_ne_err _ _ _ e)
            | panic => simp [hinit] at hstep

/-- Sending loses the view of a frame. -/
theorem ledger_send {data : Bytes} (h : s.Accounts lost)
    (hstep : step crc32 s (.send data) = some t) :
    t.Accounts (lost ++ losesView crc32 s (.send data)) := by
  simp only [step, send] at hstep
  cases hclosed : s.transport.closed with
  | true =>
      have hopen : s.transport.checkOpen = .err (.transportError "Transport is closed") := by
        simp [NativeTransport.checkOpen, Outcome.failIf, hclosed]
      simp only [hopen, Option.some.injEq] at hstep
      subst hstep
      simpa [losesView, SendsFrame, hclosed] using h
  | false =>
      have hopen : s.transport.checkOpen = .ok () := by
        simp [NativeTransport.checkOpen, Outcome.failIf, hclosed]
      simp only [hopen] at hstep
      rcases @contextDecode_cases crc32 s.transport.ctx data s.memory with
        ⟨view, hdecode, hcontext⟩ | ⟨hdecode, result, hcontext, -⟩
      · rw [hcontext] at hstep
        simp only [Outcome.ok_bind, Outcome.pure_eq, Option.some.injEq] at hstep
        subst hstep
        have hlost := h.lose
        simpa [Accounts, held, losesView, SendsFrame, hclosed, hdecode, Outcome.isOk] using hlost
      · rw [hcontext] at hstep
        have hkeep : t = s := by
          cases result with
          | ok view => simpa using hstep.symm
          | err e => simpa using hstep.symm
          | panic => simp at hstep
        simpa [losesView, SendsFrame, hclosed, hdecode, hkeep] using h

/-- Dropping an object releases its view. -/
theorem ledger_drop {i : Nat} (h : s.Accounts lost)
    (hstep : step crc32 s (.drop i) = some t) : t.Accounts lost := by
  obtain ⟨object, hobject, rfl⟩ := Option.map_eq_some_iff.mp hstep
  obtain ⟨hi, rfl⟩ := List.getElem?_eq_some_iff.mp hobject
  have hsplit : s.objects = s.objects.take i ++ s.objects[i] :: s.objects.drop (i + 1) := by
    rw [List.getElem_cons_drop, List.take_append_drop]
  have herase : s.objects.eraseIdx i = s.objects.take i ++ s.objects.drop (i + 1) :=
    List.eraseIdx_eq_take_drop_succ _ _
  unfold Accounts held at h ⊢
  rw [hsplit, List.filterMap_append, List.filterMap_cons] at h
  simp only [herase, List.filterMap_append]
  cases hptr : s.objects[i].viewPtr with
  | none =>
      rw [hptr] at h
      exact h
  | some address =>
      rw [hptr] at h
      simpa [NativeMemory.pktViewFree] using h.release

/-- One action: the views that it loses stay lost, and all others are accounted for. -/
theorem ledger_step {action : Action} (h : s.Accounts lost)
    (hstep : step crc32 s action = some t) :
    t.Accounts (lost ++ losesView crc32 s action) := by
  cases action with
  | decode data => simpa [losesView, SendsFrame] using ledger_decode h hstep
  | send data => exact ledger_send h hstep
  | drop i => simpa [losesView, SendsFrame] using ledger_drop h hstep
  | close =>
      simp only [step, Option.some.injEq] at hstep
      subst hstep
      have hnone : losesView crc32 s .close = [] := by simp [losesView, SendsFrame]
      rw [hnone, List.append_nil]
      exact h

/-! ## Runs -/

/-- After any sequence of actions the views are accounted for, and none is lost exactly
when none was before and no frame was sent. -/
theorem ledger_run {actions : List Action} (h : s.Accounts lost)
    (hrun : Machine.run (step crc32) s actions = some t) :
    ∃ lost', t.Accounts lost' ∧ (lost' = [] ↔ lost = [] ∧
      Machine.Along (step crc32) (fun s action => SendsFrame crc32 s action = false) s actions) := by
  refine Machine.exists_beside (fun _ lost => lost = []) (fun s action t lost h hstep => ?_) h hrun
  refine ⟨_, ledger_step h hstep, ?_⟩
  by_cases hsends : SendsFrame crc32 s action <;> simp [losesView, hsends]

/-- A ledger without lost views. -/
theorem Accounts.freedOnce_iff (h : s.Accounts lost) : s.FreedOnce ↔ lost = [] := by
  refine Iff.trans ?_ h.settled_iff
  exact and_iff_left h.count_le_one

/-- After any sequence of decodings, sendings, drops of view objects and closings,
every view that no object refers to was freed exactly once, and none twice, exactly
when no frame was sent on the way. -/
theorem freed_once_iff (crc32 : Bytes → UInt32) (actions : List Action)
    (hrun : Machine.run (step crc32) start actions = some t) :
    t.FreedOnce ↔ Machine.Along (step crc32)
      (fun s action => SendsFrame crc32 s action = false) start actions := by
  obtain ⟨lost, haccounts, hiff⟩ := ledger_run (s := start) Ledger.empty hrun
  rw [haccounts.freedOnce_iff, hiff]
  simp

open CoreRust in
/-- A frame is decoded, the object is dropped, and the transport is closed. -/
def tidy : List Action :=
  [.decode (SessionPair.zerosFrame 0), .drop 0, .close]

/-- The view of a decoded frame is freed with its object. -/
theorem freed_once_tidy :
    ∃ t, Machine.run (step Crc32.ieee) start tidy = some t ∧ t.FreedOnce := by
  have hruns : (Machine.run (step Crc32.ieee) start tidy).isSome = true := by decide +kernel
  obtain ⟨t, hrun⟩ := Option.isSome_iff_exists.mp hruns
  exact ⟨t, hrun, (freed_once_iff Crc32.ieee tidy hrun).mpr (by decide +kernel)⟩

open CoreRust in
/-- The view of a frame that was sent is never freed. -/
theorem send_leaks : ¬ ∀ (actions : List Action) (t : NativeState),
    Machine.run (step Crc32.ieee) start actions = some t → t.FreedOnce := by
  intro h
  have hruns : ((Machine.run (step Crc32.ieee) start [.send (SessionPair.zerosFrame 0)]).map
      fun t => (t.memory.views.length, t.held, t.memory.frees)) = some (1, [], []) := by
    decide +kernel
  obtain ⟨t, hrun, ht⟩ := Option.map_eq_some_iff.mp hruns
  obtain ⟨hviews, hrest⟩ := Prod.mk.inj ht
  obtain ⟨hheld, hfrees⟩ := Prod.mk.inj hrest
  have honce := (h _ t hrun).1 0 (by omega) (by simp [hheld])
  simp [hfrees] at honce

end NativeState

end

end Aicl.Sdk

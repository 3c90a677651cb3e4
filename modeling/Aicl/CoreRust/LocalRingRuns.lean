import Aicl.CoreRust.LocalRing

/-!
# Runs of the local ring

One producer that pushes and one consumer that pops and reads what it popped, step
by step, in any order.  The steps are those of {lit}`push` and {lit}`try_pop` in
{lit}`core-rust/src/local_path.rs`: a counter that only its own party writes may
be read at any time, so reserving, committing, acquiring and releasing are one
step each.  {lit}`try_pop` gives the slot back before the frame in it is read.

Main results:

- Theorem {lit}`LocalRing.reads_pushed`: while no push writes into a slot that is
  pending or borrowed, every read shows the frame that was pushed.
- Theorem {lit}`LocalRing.pending_apart`: pending slots stay apart by themselves
  until the counter wraps around.
- Theorem {lit}`LocalRing.read_shows_later`: with one slot, a borrow shows the next
  frame.
-/

namespace Aicl.CoreRust

namespace LocalRing

/-! ## The two parties -/

/-- Where the producer is in {lit}`push`. -/
inductive Producer where
  | idle
  | reserved (slotIdx : UInt64) (data : Bytes)
  | headerWritten (slotIdx : UInt64) (data : Bytes)
  | dataWritten (data : Bytes)
deriving DecidableEq, Repr

/-- Where the consumer is: between calls with the borrow that it holds, or in
{lit}`try_pop`. -/
inductive Consumer where
  | idle (held : Option RingBorrow)
  | acquired (slotIdx : UInt64)
  | headerRead (borrow : RingBorrow)
deriving DecidableEq, Repr

/-- The borrow that the consumer may still read. -/
def Consumer.held : Consumer → Option RingBorrow
  | .idle held => held
  | _ => none

/-- The ring and both parties.  {lit}`pushed` are the frames of the pushes that
succeeded, {lit}`popped` is the number of pops that succeeded, and {lit}`reads` are the
reads of borrows, each with the number of its pop. -/
structure State where
  ring : LocalRingBuffer
  producer : Producer
  consumer : Consumer
  pushed : List Bytes
  popped : Nat
  reads : List (Nat × Bytes)
deriving DecidableEq, Repr

/-- The steps of {lit}`push`, of {lit}`try_pop` and of the holder of a borrow. -/
inductive Action where
  | push (data : Bytes)
  | writeSlotHeader | writeData | commit
  | tryPop
  | readSlotHeader | release
  | read
  | drop
deriving DecidableEq, Repr

/-- A ring that nobody has used. -/
def start (ring : LocalRingBuffer) : State := ⟨ring, .idle, .idle none, [], 0, []⟩

/-- One step.  A push that is refused and a pop that finds nothing end at once; a
new {lit}`try_pop` is the end of the borrow before it. -/
def step (s : State) : Action → Option State
  | .push data =>
      match s.producer with
      | .idle =>
          match s.ring.reserve data with
          | .ok slotIdx => some { s with producer := .reserved slotIdx data }
          | _ => some s
      | _ => none
  | .writeSlotHeader =>
      match s.producer with
      | .reserved slotIdx data =>
          some
            { s with
              ring := s.ring.writeSlotHeader slotIdx data
              producer := .headerWritten slotIdx data }
      | _ => none
  | .writeData =>
      match s.producer with
      | .headerWritten slotIdx data =>
          some { s with ring := s.ring.writeData slotIdx data, producer := .dataWritten data }
      | _ => none
  | .commit =>
      match s.producer with
      | .dataWritten data =>
          some { s with ring := s.ring.commit, producer := .idle, pushed := s.pushed ++ [data] }
      | _ => none
  | .tryPop =>
      match s.consumer with
      | .idle _ =>
          match s.ring.header.acquire with
          | some slotIdx => some { s with consumer := .acquired slotIdx }
          | none => some { s with consumer := .idle none }
      | _ => none
  | .readSlotHeader =>
      match s.consumer with
      | .acquired slotIdx => some { s with consumer := .headerRead (s.ring.borrow slotIdx) }
      | _ => none
  | .release =>
      match s.consumer with
      | .headerRead b =>
          some { s with ring := s.ring.release, consumer := .idle (some b), popped := s.popped + 1 }
      | _ => none
  | .read =>
      match s.consumer with
      | .idle (some b) => some { s with reads := s.reads ++ [(s.popped - 1, b.data s.ring)] }
      | _ => none
  | .drop =>
      match s.consumer with
      | .idle (some _) => some { s with consumer := .idle none }
      | _ => none

/-- What a step does, with what it found. -/
inductive Steps (s : State) : Action → State → Prop where
  | reserve {data : Bytes} {slotIdx : UInt64} (hplace : s.producer = .idle)
      (hreserve : s.ring.reserve data = .ok slotIdx) :
      Steps s (.push data) { s with producer := .reserved slotIdx data }
  | refuse {data : Bytes} (hplace : s.producer = .idle) : Steps s (.push data) s
  | writeSlotHeader {slotIdx : UInt64} {data : Bytes} (hplace : s.producer = .reserved slotIdx data) :
      Steps s .writeSlotHeader
        { s with
          ring := s.ring.writeSlotHeader slotIdx data
          producer := .headerWritten slotIdx data }
  | writeData {slotIdx : UInt64} {data : Bytes} (hplace : s.producer = .headerWritten slotIdx data) :
      Steps s .writeData
        { s with ring := s.ring.writeData slotIdx data, producer := .dataWritten data }
  | commit {data : Bytes} (hplace : s.producer = .dataWritten data) :
      Steps s .commit
        { s with ring := s.ring.commit, producer := .idle, pushed := s.pushed ++ [data] }
  | acquire {held : Option RingBorrow} {slotIdx : UInt64} (hplace : s.consumer = .idle held)
      (hacquire : s.ring.header.acquire = some slotIdx) :
      Steps s .tryPop { s with consumer := .acquired slotIdx }
  | empty {held : Option RingBorrow} (hplace : s.consumer = .idle held)
      (hacquire : s.ring.header.acquire = none) :
      Steps s .tryPop { s with consumer := .idle none }
  | readSlotHeader {slotIdx : UInt64} (hplace : s.consumer = .acquired slotIdx) :
      Steps s .readSlotHeader { s with consumer := .headerRead (s.ring.borrow slotIdx) }
  | release {b : RingBorrow} (hplace : s.consumer = .headerRead b) :
      Steps s .release
        { s with ring := s.ring.release, consumer := .idle (some b), popped := s.popped + 1 }
  | read {b : RingBorrow} (hplace : s.consumer = .idle (some b)) :
      Steps s .read { s with reads := s.reads ++ [(s.popped - 1, b.data s.ring)] }
  | drop {b : RingBorrow} (hplace : s.consumer = .idle (some b)) :
      Steps s .drop { s with consumer := .idle none }

/-- A step does what it found to do. -/
theorem steps_of_step {s t : State} {a : Action} (hstep : step s a = some t) : Steps s a t := by
  cases a with
  | push data =>
      simp only [step] at hstep
      split at hstep
      · next hplace =>
          split at hstep
          · next slotIdx hreserve =>
              cases hstep
              exact .reserve hplace hreserve
          · cases hstep
            exact .refuse hplace
      · cases hstep
  | writeSlotHeader =>
      simp only [step] at hstep
      split at hstep
      · next slotIdx data hplace =>
          cases hstep
          exact .writeSlotHeader hplace
      · cases hstep
  | writeData =>
      simp only [step] at hstep
      split at hstep
      · next slotIdx data hplace =>
          cases hstep
          exact .writeData hplace
      · cases hstep
  | commit =>
      simp only [step] at hstep
      split at hstep
      · next data hplace =>
          cases hstep
          exact .commit hplace
      · cases hstep
  | tryPop =>
      simp only [step] at hstep
      split at hstep
      · next held hplace =>
          split at hstep
          · next slotIdx hacquire =>
              cases hstep
              exact .acquire hplace hacquire
          · next hacquire =>
              cases hstep
              exact .empty hplace hacquire
      · cases hstep
  | readSlotHeader =>
      simp only [step] at hstep
      split at hstep
      · next slotIdx hplace =>
          cases hstep
          exact .readSlotHeader hplace
      · cases hstep
  | release =>
      simp only [step] at hstep
      split at hstep
      · next b hplace =>
          cases hstep
          exact .release hplace
      · cases hstep
  | read =>
      simp only [step] at hstep
      split at hstep
      · next b hplace =>
          cases hstep
          exact .read hplace
      · cases hstep
  | drop =>
      simp only [step] at hstep
      split at hstep
      · next b hplace =>
          cases hstep
          exact .drop hplace
      · cases hstep

/-! ## The steps of a call in a row -/

/-- A push that nobody disturbs is the function {lit}`push`. -/
theorem run_push {s : State} (hidle : s.producer = .idle) {data : Bytes} {ring : LocalRingBuffer}
    (hpush : s.ring.push data = .ok ring) :
    Machine.run step s [.push data, .writeSlotHeader, .writeData, .commit] =
      some { s with ring := ring, pushed := s.pushed ++ [data] } := by
  rcases Outcome.bind_eq_ok_iff.mp hpush with ⟨slotIdx, hreserve, hring⟩
  cases hring
  simp only [Machine.run, step, hidle, hreserve, Option.bind_some]

/-- A pop that nobody disturbs is the function {lit}`try_pop`. -/
theorem run_tryPop {s : State} {held : Option RingBorrow} (hidle : s.consumer = .idle held)
    {b : RingBorrow} {ring : LocalRingBuffer} (hpop : s.ring.tryPop = some (b, ring)) :
    Machine.run step s [.tryPop, .readSlotHeader, .release] =
      some { s with ring := ring, consumer := .idle (some b), popped := s.popped + 1 } := by
  rcases Option.bind_eq_some_iff.mp hpop with ⟨slotIdx, hacquire, hring⟩
  cases hring
  simp only [Machine.run, step, hidle, hacquire, Option.bind_some]

/-! ## Slots in use -/

/-- A slot that is neither pending nor borrowed. -/
def SlotFree (s : State) (slotIdx : UInt64) : Prop :=
  (∀ n < s.ring.header.pendingSlots.toNat,
    s.ring.slotPtr (s.ring.header.head + UInt64.ofNat n) ≠ s.ring.slotPtr slotIdx) ∧
  ∀ b ∈ s.consumer.held, b.dataStart ≠ s.ring.slotPtr slotIdx + SlotHeader.SIZE.toNat

/-- A write of a push goes into a free slot. -/
def WritesFree (s : State) : Action → Prop
  | .writeSlotHeader =>
      match s.producer with
      | .reserved slotIdx _ => SlotFree s slotIdx
      | _ => True
  | .writeData =>
      match s.producer with
      | .headerWritten slotIdx _ => SlotFree s slotIdx
      | _ => True
  | _ => True

instance (s : State) (slotIdx : UInt64) : Decidable (SlotFree s slotIdx) := by
  unfold SlotFree
  infer_instance

instance (s : State) (a : Action) : Decidable (WritesFree s a) := by
  unfold WritesFree
  split
  · split
    · infer_instance
    · infer_instance
  · split
    · infer_instance
    · infer_instance
  · infer_instance

/-! ## The invariant -/

/-- A slot with a whole frame. -/
structure Frame (ring : LocalRingBuffer) (slotIdx : UInt64) (data : Bytes) : Prop where
  size : SlotHeader.SIZE.toNat + data.length ≤ ring.header.slotSize.toNat
  header : Memory.load ring.slots (ring.slotPtr slotIdx) SlotHeader.SIZE.toNat =
    (SlotHeader.ofFrame data).toBytes
  payload : Memory.load ring.slots (ring.slotPtr slotIdx + SlotHeader.SIZE.toNat) data.length = data

/-- A borrow that shows a frame. -/
structure Shows (ring : LocalRingBuffer) (b : RingBorrow) (slotIdx : UInt64) (data : Bytes) : Prop where
  start_eq : b.dataStart = ring.slotPtr slotIdx + SlotHeader.SIZE.toNat
  length_eq : b.dataLen = data.length
  frame : Frame ring slotIdx data

/-- A borrow that shows a frame reads it. -/
theorem Shows.data_eq {ring : LocalRingBuffer} {b : RingBorrow} {slotIdx : UInt64} {data : Bytes}
    (h : Shows ring b slotIdx data) : b.data ring = data := by
  rw [RingBorrow.data, h.start_eq, h.length_eq]
  exact h.frame.payload

section Knows

variable (ring : LocalRingBuffer) (pushed : List Bytes) (popped : Nat)

/-- What the consumer knows: which frame its borrow shows. -/
def ConsumerKnows : Consumer → Prop
  | .idle none => True
  | .idle (some b) => 0 < popped ∧
      ∃ data, pushed[popped - 1]? = some data ∧ Shows ring b (UInt64.ofNat (popped - 1)) data
  | .acquired slotIdx => slotIdx = UInt64.ofNat popped ∧ popped < pushed.length
  | .headerRead b => ∃ data, pushed[popped]? = some data ∧ Shows ring b (UInt64.ofNat popped) data

/-- What the producer knows: that its slot is not pending, and what it has written. -/
def ProducerKnows : Producer → Prop
  | .idle => True
  | .reserved slotIdx data =>
      slotIdx = UInt64.ofNat pushed.length ∧
        pushed.length < popped + ring.header.capacity.toNat ∧
          SlotHeader.SIZE.toNat + data.length ≤ ring.header.slotSize.toNat
  | .headerWritten slotIdx data =>
      slotIdx = UInt64.ofNat pushed.length ∧
        pushed.length < popped + ring.header.capacity.toNat ∧
          SlotHeader.SIZE.toNat + data.length ≤ ring.header.slotSize.toNat ∧
            Memory.load ring.slots (ring.slotPtr slotIdx) SlotHeader.SIZE.toNat =
              (SlotHeader.ofFrame data).toBytes
  | .dataWritten data =>
      pushed.length < popped + ring.header.capacity.toNat ∧
        Frame ring (UInt64.ofNat pushed.length) data

end Knows

/-- The counters count, the slots of the pending frames hold them, and every read
showed the frame of its pop. -/
structure Stored (s : State) : Prop where
  region : s.ring.HasRegion
  tail_eq : s.ring.header.tail = UInt64.ofNat s.pushed.length
  head_eq : s.ring.header.head = UInt64.ofNat s.popped
  popped_le : s.popped ≤ s.pushed.length
  inFlight : s.pushed.length ≤ s.popped + s.ring.header.capacity.toNat
  full : ∀ n data, s.popped ≤ n → s.pushed[n]? = some data → Frame s.ring (UInt64.ofNat n) data
  consumer : ConsumerKnows s.ring s.pushed s.popped s.consumer
  reads : ∀ k bs, (k, bs) ∈ s.reads → s.pushed[k]? = some bs

/-- What holds between steps. -/
structure Inv (s : State) : Prop extends Stored s where
  producer : ProducerKnows s.ring s.pushed s.popped s.producer

/-! ## Counters -/

/-- The difference of two counters that are not a whole round apart. -/
theorem toNat_ofNat_sub {m n : Nat} (hle : m ≤ n) (hlt : n - m < 2 ^ 64) :
    (UInt64.ofNat n - UInt64.ofNat m).toNat = n - m := by
  rw [← UInt64.ofNat_sub hle]
  exact UInt64.toNat_ofNat_of_lt' hlt

variable {s : State}

namespace Stored

/-- The frames in the ring are fewer than a round of the counter. -/
theorem pending_lt (h : Stored s) : s.pushed.length - s.popped < 2 ^ 64 := by
  have hlt : s.ring.header.capacity.toNat < 2 ^ 64 := s.ring.header.capacity.toNat_lt
  have hle := h.inFlight
  omega

/-- The number of pending slots. -/
theorem pendingSlots_toNat (h : Stored s) :
    s.ring.header.pendingSlots.toNat = s.pushed.length - s.popped := by
  rw [RingHeader.pendingSlots, h.tail_eq, h.head_eq]
  exact toNat_ofNat_sub h.popped_le h.pending_lt

/-- A free slot is not the slot of a pending frame. -/
theorem slotPtr_ne (h : Stored s) {slotIdx : UInt64} (hfree : SlotFree s slotIdx) {n : Nat}
    (hlow : s.popped ≤ n) (hhigh : n < s.pushed.length) :
    s.ring.slotPtr (UInt64.ofNat n) ≠ s.ring.slotPtr slotIdx := by
  have hpending : n - s.popped < s.ring.header.pendingSlots.toNat := by
    rw [h.pendingSlots_toNat]
    omega
  have hne := hfree.1 _ hpending
  rwa [h.head_eq, ← UInt64.ofNat_add, Nat.add_sub_cancel' hlow] at hne

/-- What a successful {lit}`reserve` gives. -/
theorem of_reserve (h : Stored s) {data : Bytes} {slotIdx : UInt64}
    (hreserve : s.ring.reserve data = .ok slotIdx) :
    slotIdx = UInt64.ofNat s.pushed.length ∧
      s.pushed.length < s.popped + s.ring.header.capacity.toNat ∧
        SlotHeader.SIZE.toNat + data.length ≤ s.ring.header.slotSize.toNat := by
  have hsize := h.region.slotCapacity_toNat
  have hpending := h.pendingSlots_toNat
  rw [RingHeader.pendingSlots] at hpending
  unfold LocalRingBuffer.reserve at hreserve
  rcases Outcome.bind_eq_ok_iff.mp hreserve with ⟨index, hindex, hrest⟩
  rcases Outcome.bind_eq_ok_iff.mp hrest with ⟨_, hfits, hret⟩
  cases hret
  rw [Outcome.failIf_eq_ok_iff] at hfits
  rw [Outcome.okOr_eq_ok_iff, RingHeader.reserve] at hindex
  split at hindex
  · cases hindex
  · next hroom =>
      cases hindex
      rw [UInt64.le_iff_toNat_le, hpending] at hroom
      exact ⟨h.tail_eq, by omega, by omega⟩

/-- What a successful {lit}`acquire` gives. -/
theorem of_acquire (h : Stored s) {slotIdx : UInt64}
    (hacquire : s.ring.header.acquire = some slotIdx) :
    slotIdx = UInt64.ofNat s.popped ∧ s.popped < s.pushed.length := by
  unfold RingHeader.acquire at hacquire
  split at hacquire
  · cases hacquire
  · next hne =>
      cases hacquire
      refine ⟨h.head_eq, lt_of_le_of_ne h.popped_le ?_⟩
      intro heq
      rw [h.head_eq, h.tail_eq, heq] at hne
      exact hne rfl

end Stored

/-! ## Writes into a free slot -/

/-- A write into another slot leaves a frame. -/
theorem Frame.store {ring : LocalRingBuffer} (hregion : ring.HasRegion) {slotIdx other : UInt64}
    {data bs : Bytes} {pos : Nat} (h : Frame ring other data)
    (hne : ring.slotPtr other ≠ ring.slotPtr slotIdx) (hlow : ring.slotPtr slotIdx ≤ pos)
    (hhigh : pos + bs.length ≤ ring.slotPtr slotIdx + ring.header.slotSize.toNat) :
    Frame { ring with slots := Memory.store ring.slots pos bs } other data := by
  have hfit : pos + bs.length ≤ ring.slots.length := hhigh.trans (hregion.slot_le slotIdx)
  have hapart := hregion.slot_apart hne
  have hsize := h.size
  constructor
  · exact h.size
  · have hload : Memory.load (Memory.store ring.slots pos bs) (ring.slotPtr other)
        SlotHeader.SIZE.toNat = _ := Memory.load_store_of_disjoint hfit (by omega)
    exact hload.trans h.header
  · have hload : Memory.load (Memory.store ring.slots pos bs)
        (ring.slotPtr other + SlotHeader.SIZE.toNat) data.length = _ :=
      Memory.load_store_of_disjoint hfit (by omega)
    exact hload.trans h.payload

/-- A commit leaves a frame. -/
theorem Frame.commit {ring : LocalRingBuffer} {slotIdx : UInt64} {data : Bytes}
    (h : Frame ring slotIdx data) : Frame ring.commit slotIdx data :=
  ⟨h.size, h.header, h.payload⟩

/-- A release leaves a frame. -/
theorem Frame.release {ring : LocalRingBuffer} {slotIdx : UInt64} {data : Bytes}
    (h : Frame ring slotIdx data) : Frame ring.release slotIdx data :=
  ⟨h.size, h.header, h.payload⟩

/-- A borrow that shows a frame still shows it after a commit. -/
theorem Shows.commit {ring : LocalRingBuffer} {b : RingBorrow} {slotIdx : UInt64} {data : Bytes}
    (h : Shows ring b slotIdx data) : Shows ring.commit b slotIdx data :=
  ⟨h.start_eq, h.length_eq, h.frame.commit⟩

/-- A write into a free slot leaves the pending frames and the borrowed one. -/
theorem Stored.write (h : Stored s) {slotIdx : UInt64} (hfree : SlotFree s slotIdx) {bs : Bytes}
    {pos : Nat} (hlow : s.ring.slotPtr slotIdx ≤ pos)
    (hhigh : pos + bs.length ≤ s.ring.slotPtr slotIdx + s.ring.header.slotSize.toNat)
    (producer : Producer) :
    Stored
      { s with
        ring := { s.ring with slots := Memory.store s.ring.slots pos bs }
        producer := producer } := by
  have hregion := h.region
  have hfit : pos + bs.length ≤ s.ring.slots.length := hhigh.trans (hregion.slot_le slotIdx)
  have hconsumer := h.consumer
  constructor
  · exact ⟨hregion.capacity_pos, hregion.slotSize_ge, hregion.slotSize_le, hregion.fits,
      (Memory.length_store hfit).trans hregion.length_slots, hregion.slotSize_eq⟩
  · exact h.tail_eq
  · exact h.head_eq
  · exact h.popped_le
  · exact h.inFlight
  · intro n data hn hdata
    have hlt : n < s.pushed.length := (List.getElem?_eq_some_iff.mp hdata).1
    exact (h.full n data hn hdata).store hregion (h.slotPtr_ne hfree hn hlt) hlow hhigh
  · cases hplace : s.consumer with
    | acquired index =>
        rw [hplace] at hconsumer
        exact hconsumer
    | headerRead b =>
        rw [hplace] at hconsumer
        rcases hconsumer with ⟨data, hdata, hshows⟩
        have hlt : s.popped < s.pushed.length := (List.getElem?_eq_some_iff.mp hdata).1
        have hframe := hshows.frame.store hregion (h.slotPtr_ne hfree le_rfl hlt) hlow hhigh
        exact ⟨data, hdata, hshows.start_eq, hshows.length_eq, hframe⟩
    | idle held =>
        cases held with
        | none => trivial
        | some b =>
            rw [hplace] at hconsumer
            rcases hconsumer with ⟨hpos, data, hdata, hshows⟩
            have hne : s.ring.slotPtr (UInt64.ofNat (s.popped - 1)) ≠ s.ring.slotPtr slotIdx := by
              intro heq
              apply hfree.2 b (by rw [hplace]; exact rfl)
              rw [hshows.start_eq, heq]
            have hframe := hshows.frame.store hregion hne hlow hhigh
            exact ⟨hpos, data, hdata, hshows.start_eq, hshows.length_eq, hframe⟩
  · exact h.reads

/-! ## Steps -/

/-- A free slot gets its header. -/
theorem Inv.writeSlotHeader (h : Inv s) {slotIdx : UInt64} {data : Bytes}
    (hplace : s.producer = .reserved slotIdx data) (hfree : SlotFree s slotIdx) :
    Inv
      { s with
        ring := s.ring.writeSlotHeader slotIdx data
        producer := .headerWritten slotIdx data } := by
  have hknows := h.producer
  rw [hplace] at hknows
  rcases hknows with ⟨hidx, hroom, hsize⟩
  have hlength : (SlotHeader.ofFrame data).toBytes.length = SlotHeader.SIZE.toNat :=
    SlotHeader.length_toBytes _
  have hhigh : s.ring.slotPtr slotIdx + (SlotHeader.ofFrame data).toBytes.length ≤
      s.ring.slotPtr slotIdx + s.ring.header.slotSize.toNat := by omega
  have hload := Memory.load_store (hhigh.trans (h.region.slot_le slotIdx))
  rw [hlength] at hload
  exact ⟨h.toStored.write hfree le_rfl hhigh _, hidx, hroom, hsize, hload⟩

/-- A free slot gets its data. -/
theorem Inv.writeData (h : Inv s) {slotIdx : UInt64} {data : Bytes}
    (hplace : s.producer = .headerWritten slotIdx data) (hfree : SlotFree s slotIdx) :
    Inv { s with ring := s.ring.writeData slotIdx data, producer := .dataWritten data } := by
  have hknows := h.producer
  rw [hplace] at hknows
  rcases hknows with ⟨hidx, hroom, hsize, hheader⟩
  have hhigh : s.ring.slotPtr slotIdx + SlotHeader.SIZE.toNat + data.length ≤
      s.ring.slotPtr slotIdx + s.ring.header.slotSize.toNat := by omega
  have hfit := hhigh.trans (h.region.slot_le slotIdx)
  refine ⟨h.toStored.write hfree (Nat.le_add_right _ _) hhigh _, hroom, hsize, ?_, ?_⟩
  · rw [← hidx]
    exact (Memory.load_store_of_disjoint hfit (.inl le_rfl)).trans hheader
  · rw [← hidx]
    exact Memory.load_store hfit

/-- Frames stay where they are when another one is pushed. -/
theorem getElem?_pushed {pushed : List Bytes} {k : Nat} {bs : Bytes} (hk : pushed[k]? = some bs)
    (data : Bytes) : (pushed ++ [data])[k]? = some bs := by
  rw [List.getElem?_append_left (List.getElem?_eq_some_iff.mp hk).1]
  exact hk

/-- The frame becomes pending. -/
theorem Inv.commit (h : Inv s) {data : Bytes} (hplace : s.producer = .dataWritten data) :
    Inv { s with ring := s.ring.commit, producer := .idle, pushed := s.pushed ++ [data] } := by
  have hknows := h.producer
  rw [hplace] at hknows
  rcases hknows with ⟨hroom, hframe⟩
  have hlength : (s.pushed ++ [data]).length = s.pushed.length + 1 := List.length_append
  have hconsumer := h.consumer
  refine ⟨⟨h.region.commit, ?_, h.head_eq, ?_, ?_, ?_, ?_,
    fun k bs hk => getElem?_pushed (h.reads k bs hk) data⟩, trivial⟩
  · rw [hlength, UInt64.ofNat_add, ← h.tail_eq]
    rfl
  · exact h.popped_le.trans (hlength.symm ▸ Nat.le_succ _)
  · rw [hlength]
    exact hroom
  · intro n bs hn hbs
    by_cases hlast : n = s.pushed.length
    · rw [hlast, List.getElem?_concat_length] at hbs
      cases hbs
      rw [hlast]
      exact hframe.commit
    · have hlt : n < (s.pushed ++ [data]).length := (List.getElem?_eq_some_iff.mp hbs).1
      rw [List.getElem?_append_left (by omega)] at hbs
      exact (h.full n bs hn hbs).commit
  · cases hconsumed : s.consumer with
    | acquired index =>
        rw [hconsumed] at hconsumer
        exact ⟨hconsumer.1, hlength.symm ▸ Nat.lt_succ_of_lt hconsumer.2⟩
    | headerRead b =>
        rw [hconsumed] at hconsumer
        rcases hconsumer with ⟨bs, hbs, hshows⟩
        exact ⟨bs, getElem?_pushed hbs data, hshows.commit⟩
    | idle held =>
        cases held with
        | none => trivial
        | some b =>
            rw [hconsumed] at hconsumer
            rcases hconsumer with ⟨hpos, bs, hbs, hshows⟩
            exact ⟨hpos, bs, getElem?_pushed hbs data, hshows.commit⟩

/-- The consumer goes on. -/
theorem Inv.consume (h : Inv s) {consumer : Consumer}
    (hconsumer : ConsumerKnows s.ring s.pushed s.popped consumer) :
    Inv { s with consumer := consumer } :=
  ⟨⟨h.region, h.tail_eq, h.head_eq, h.popped_le, h.inFlight, h.full, hconsumer, h.reads⟩, h.producer⟩

/-- The borrow of a pending slot shows its frame. -/
theorem Stored.borrow_shows (h : Stored s) {data : Bytes} (hdata : s.pushed[s.popped]? = some data) :
    Shows s.ring (s.ring.borrow (UInt64.ofNat s.popped)) (UInt64.ofNat s.popped) data := by
  have hframe := h.full s.popped data le_rfl hdata
  refine ⟨rfl, ?_, hframe⟩
  have hsize := hframe.size
  have hslot := h.region.slotSize_le
  have hlen : data.length < 2 ^ 32 := by omega
  have hheader : s.ring.readSlotHeader (UInt64.ofNat s.popped) = SlotHeader.ofFrame data := by
    rw [LocalRingBuffer.readSlotHeader, hframe.header, SlotHeader.ofBytes_toBytes]
  rw [LocalRingBuffer.borrow, hheader]
  exact UInt32.toNat_ofNat_of_lt' hlen

/-- The slot goes back to the producer and the borrow to the caller. -/
theorem Inv.release (h : Inv s) {b : RingBorrow} (hplace : s.consumer = .headerRead b) :
    Inv { s with ring := s.ring.release, consumer := .idle (some b), popped := s.popped + 1 } := by
  have hconsumer := h.consumer
  rw [hplace] at hconsumer
  rcases hconsumer with ⟨data, hdata, hshows⟩
  have hlt : s.popped < s.pushed.length := (List.getElem?_eq_some_iff.mp hdata).1
  have hinFlight := h.inFlight
  refine ⟨⟨h.region.release, h.tail_eq, ?_, hlt, ?_, ?_, ?_, h.reads⟩, ?_⟩
  · rw [UInt64.ofNat_add, ← h.head_eq]
    rfl
  · exact hinFlight.trans (Nat.add_le_add_right (Nat.le_succ _) _)
  · intro n bs hn hbs
    exact (h.full n bs (Nat.le_of_succ_le hn) hbs).release
  · exact ⟨Nat.succ_pos _, data, hdata, hshows.start_eq, hshows.length_eq, hshows.frame.release⟩
  · have hmore : ∀ {n : Nat}, n < s.popped + s.ring.header.capacity.toNat →
        n < s.popped + 1 + s.ring.header.capacity.toNat := fun hn => by omega
    have hproducer := h.producer
    cases hplace' : s.producer with
    | idle => trivial
    | reserved index bs =>
        rw [hplace'] at hproducer
        exact ⟨hproducer.1, hmore hproducer.2.1, hproducer.2.2⟩
    | headerWritten index bs =>
        rw [hplace'] at hproducer
        exact ⟨hproducer.1, hmore hproducer.2.1, hproducer.2.2⟩
    | dataWritten bs =>
        rw [hplace'] at hproducer
        exact ⟨hmore hproducer.1, hproducer.2.release⟩

/-- A read shows the frame of its pop. -/
theorem Inv.read (h : Inv s) {b : RingBorrow} (hplace : s.consumer = .idle (some b)) :
    Inv { s with reads := s.reads ++ [(s.popped - 1, b.data s.ring)] } := by
  have hconsumer := h.consumer
  rw [hplace] at hconsumer
  rcases hconsumer with ⟨hpos, data, hdata, hshows⟩
  refine ⟨⟨h.region, h.tail_eq, h.head_eq, h.popped_le, h.inFlight, h.full, h.consumer, ?_⟩,
    h.producer⟩
  intro k bs hk
  rcases List.mem_append.mp hk with hk | hk
  · exact h.reads k bs hk
  · cases List.mem_singleton.mp hk
    rw [hshows.data_eq]
    exact hdata

/-- A step whose write, if it is one, goes into a free slot keeps the invariant. -/
theorem Inv.step (h : Inv s) {a : Action} {t : State} (hfree : WritesFree s a)
    (hstep : LocalRing.step s a = some t) : Inv t := by
  cases steps_of_step hstep with
  | reserve hplace hreserve =>
      exact ⟨⟨h.region, h.tail_eq, h.head_eq, h.popped_le, h.inFlight, h.full, h.consumer, h.reads⟩,
        h.toStored.of_reserve hreserve⟩
  | refuse hplace => exact h
  | writeSlotHeader hplace =>
      simp only [WritesFree, hplace] at hfree
      exact h.writeSlotHeader hplace hfree
  | writeData hplace =>
      simp only [WritesFree, hplace] at hfree
      exact h.writeData hplace hfree
  | commit hplace => exact h.commit hplace
  | acquire hplace hacquire => exact h.consume (h.toStored.of_acquire hacquire)
  | empty hplace hacquire => exact h.consume trivial
  | readSlotHeader hplace =>
      have hknows := h.consumer
      rw [hplace] at hknows
      rcases hknows with ⟨hindex, hlt⟩
      have hdata := List.getElem?_eq_getElem hlt
      rw [hindex]
      exact h.consume ⟨_, hdata, h.toStored.borrow_shows hdata⟩
  | release hplace => exact h.release hplace
  | read hplace => exact h.read hplace
  | drop hplace => exact h.consume trivial

/-! ## Runs -/

variable {ring : LocalRingBuffer} {capacity slotSize : UInt64}

/-- A new ring. -/
theorem Inv.start (hnew : LocalRingBuffer.new capacity slotSize = .ok ring)
    (hfits : RingHeader.SIZE.toNat + capacity.toNat * slotSize.toNat < 2 ^ 64) :
    Inv (start ring) := by
  have ⟨hregion, hheader⟩ := LocalRingBuffer.hasRegion_new hnew hfits
  refine ⟨⟨hregion, ?_, ?_, le_rfl, Nat.zero_le _, ?_, trivial, ?_⟩, trivial⟩
  · exact congrArg RingHeader.tail hheader
  · exact congrArg RingHeader.head hheader
  · exact fun n data _ hdata => absurd hdata (by simp [LocalRing.start])
  · exact fun k bs hk => absurd hk List.not_mem_nil

/-- On a ring whose region did not overflow, while every write of a push goes into a
slot that is neither pending nor borrowed: a read of the borrow of the k-th pop,
before the next pop, shows the frame of the k-th push. -/
theorem reads_pushed (hnew : LocalRingBuffer.new capacity slotSize = .ok ring)
    (hfits : RingHeader.SIZE.toNat + capacity.toNat * slotSize.toNat < 2 ^ 64)
    {actions : List Action} {s : State} (hfree : Machine.Along step WritesFree (start ring) actions)
    (hrun : Machine.run step (start ring) actions = some s) :
    ∀ k bs, (k, bs) ∈ s.reads → s.pushed[k]? = some bs := by
  have hinv : Inv s :=
    Machine.invariant (fun _ _ _ h hfree hstep => h.step hfree hstep) (.start hnew hfits) hfree hrun
  exact hinv.reads

/-- Pending slots stay apart from the slot of the next push by themselves, unless the
counter of the producer has wrapped around and the capacity does not divide its
range. -/
theorem pending_apart {s : State} (h : Stored s)
    (hroom : s.pushed.length < s.popped + s.ring.header.capacity.toNat)
    (hwrap : s.pushed.length < 2 ^ 64 ∨ s.ring.header.capacity.toNat ∣ 2 ^ 64) {n : Nat}
    (hn : n < s.ring.header.pendingSlots.toNat) :
    s.ring.slotPtr (s.ring.header.head + UInt64.ofNat n) ≠
      s.ring.slotPtr (UInt64.ofNat s.pushed.length) := by
  have hregion := h.region
  rw [h.pendingSlots_toNat] at hn
  rw [h.head_eq, ← UInt64.ofNat_add, hregion.slotPtr_eq, hregion.slotPtr_eq]
  intro heq
  have hmod := Nat.eq_of_mul_eq_mul_right (by have := hregion.slotSize_ge; omega) heq
  have hindex : ∀ k ≤ s.pushed.length, (UInt64.ofNat k).toNat % s.ring.header.capacity.toNat =
      k % s.ring.header.capacity.toNat := by
    intro k hk
    rw [UInt64.toNat_ofNat']
    rcases hwrap with hlt | hdvd
    · rw [Nat.mod_eq_of_lt (hk.trans_lt hlt)]
    · exact Nat.mod_mod_of_dvd k hdvd
  rw [hindex _ (by omega), hindex _ le_rfl] at hmod
  have hround : ∀ k, s.popped ≤ k ∧ k < s.popped + s.ring.header.capacity.toNat →
      k ∈ Finset.Ico s.popped (s.popped + s.ring.header.capacity.toNat) := by
    intro k hk
    rwa [Finset.mem_Ico]
  have hsame := Nat.mod_injOn_Ico s.popped s.ring.header.capacity.toNat
    (hround _ (by omega)) (hround _ ⟨h.popped_le, hroom⟩) hmod
  omega

/-! ## A ring with one slot -/

/-- A new ring with one slot. -/
def oneSlotRing : LocalRingBuffer where
  header := RingHeader.new 1 256
  slots := List.replicate 256 0
  regionSize := 448
  capacity := 1
  slotSize := 256

/-- A push, and its pop. -/
def pushPop : List Action :=
  [.push [1], .writeSlotHeader, .writeData, .commit, .tryPop, .readSlotHeader, .release]

/-- The frame is read and its borrow dropped before the next push writes. -/
theorem reads_pushed_dropped :
    ∃ s, Machine.run step (start oneSlotRing)
        (pushPop ++ [.push [2], .read, .drop, .writeSlotHeader, .writeData, .commit]) = some s ∧
      s.reads = [(0, [1])] ∧ ∀ k bs, (k, bs) ∈ s.reads → s.pushed[k]? = some bs := by
  have hnew : LocalRingBuffer.new 1 256 = .ok oneSlotRing := rfl
  have hfree : Machine.Along step WritesFree (start oneSlotRing)
      (pushPop ++ [.push [2], .read, .drop, .writeSlotHeader, .writeData, .commit]) := by decide
  exact ⟨_, rfl, rfl, reads_pushed hnew (by decide) hfree rfl⟩

/-- The slot is free once {lit}`try_pop` has returned: the next push writes over the
borrowed frame, and the borrow shows what it writes. -/
theorem read_shows_later :
    ¬ ∀ capacity slotSize ring actions s, LocalRingBuffer.new capacity slotSize = .ok ring →
      Machine.run step (start ring) actions = some s →
        ∀ k bs, (k, bs) ∈ s.reads → s.pushed[k]? = some bs := by
  intro h
  have hnew : LocalRingBuffer.new 1 256 = .ok oneSlotRing := rfl
  have hread := h 1 256 oneSlotRing
    (pushPop ++ [.push [2], .writeSlotHeader, .writeData, .commit, .read]) _ hnew rfl 0 [2]
  exact absurd (hread (by decide)) (by decide)

end LocalRing

end Aicl.CoreRust

import Aicl.Transport.SharedMemoryRing

/-!
# Runs of the shared-memory ring

One process pushes and another one pops, each access by access, in any order.  The
invariant of a run is the queue in the segment together with what each party
knows at its place in its call: the producer that its slot is free and which of
its writes are done, the consumer which message it looks at.

Main results:

- Theorem {lit}`SharedMemoryRing.Inv.step`: one step of one party.
- Theorem {lit}`SharedMemoryRing.fifo`: messages come out in the order in which they
  went in, the segment never holds more than its capacity, and refused calls
  leave it.
-/

namespace Aicl.Transport

/-! ## Single accesses -/

section Access

variable {α : Type} {buf data : Bytes} {off n : Nat}

/-- One access of a program that may raise. -/
abbrev Access.step (p : Access α) : Bytes → Option (Bytes × Access α) := Prog.step p

/-- The first access of a sequence. -/
theorem step_bind {β : Type} {buf' : Bytes} {p p' : Access α} {f : α → Access β}
    (h : Access.step p buf = some (buf', p')) :
    Access.step (p >>= f) buf = some (buf', p' >>= f) := by
  cases p with
  | ret result => cases h
  | access update next =>
      cases h
      rfl

/-- An assignment to a part of the segment. -/
theorem step_assign {inside : Bytes → Bool} {e : RingError} {f : Unit → Access α}
    (h : inside buf) :
    Access.step (assign inside off data e >>= f) buf = some (Memory.store buf off data, f ()) := by
  have hstep : Access.step (assign inside off data e >>= f) buf =
      some (if inside buf then Memory.store buf off data else buf,
        ExceptT.bindCont f (if inside buf then .ok () else .error e)) := rfl
  rw [hstep, if_pos h, if_pos h]
  rfl

/-- A byte of the segment. -/
theorem step_getByte {b : UInt8} {f : UInt8 → Access α} (h : buf[off]? = some b) :
    Access.step (getByte off >>= f) buf = some (buf, f b) := by
  simp only [Access.step, getByte, Prog.step, Bind.bind, ExceptT.bind, ExceptT.mk, Prog.bind, h]
  rfl

/-- A length field in the segment. -/
theorem step_unpackFrom {f : Nat → Access α} (h : off + 4 ≤ buf.length) :
    Access.step (unpackFrom off >>= f) buf =
      some (buf, f (BigEndian.ofBytes (Memory.load buf off 4))) := by
  have hstep : Access.step (unpackFrom off >>= f) buf =
      some (buf, ExceptT.bindCont f (if off + 4 ≤ buf.length then
        .ok (BigEndian.ofBytes (Memory.load buf off 4)) else .error .structError)) := rfl
  rw [hstep, if_pos h]
  rfl

end Access

namespace SharedMemoryRing

/-! ## The two parties -/

/-- The process that pushes. -/
abbrev producer : Party Bytes where
  Local := SharedMemoryRing
  Op := Bytes
  Res := Unit
  Err := RingError
  call r data := r.pushNowait data

/-- The process that pops. -/
abbrev consumer : Party Bytes where
  Local := SharedMemoryRing
  Op := Unit
  Res := Bytes
  Err := RingError
  call r _ := r.popNowait

/-- The producer inside a call, with the rest of its program. -/
abbrev pushing (own : SharedMemoryRing) (data : Bytes) (p : Access (SharedMemoryRing × Unit))
    (done : List (Bytes × Unit)) : Duplex.Side producer :=
  ⟨own, some (data, p), done⟩

/-- The consumer inside a call, with the rest of its program. -/
abbrev popping (own : SharedMemoryRing) (p : Access (SharedMemoryRing × Bytes))
    (done : List (Unit × Bytes)) : Duplex.Side consumer :=
  ⟨own, some ((), p), done⟩

/-- The segment and both processes. -/
abbrev RunState := Duplex.State producer consumer

/-- Both processes before their first call. -/
def start (buf : Bytes) (pusher popper : SharedMemoryRing) : RunState :=
  ⟨buf, .idle pusher, .idle popper⟩

/-- The messages that {lit}`push_nowait` accepted. -/
def sent (s : RunState) : List Bytes := s.left.settled.map Prod.fst

/-- The messages that {lit}`pop_nowait` returned. -/
def received (s : RunState) : List Bytes := s.right.settled.map Prod.snd

/-! ## The accesses of the calls -/

section Calls

variable {r : SharedMemoryRing} {buf data : Bytes} {off length : Nat}

/-- The producer finds its slot free. -/
theorem step_checkFree_of_free (h : buf[off]? = some 0) :
    Access.step (r.checkFree off data) buf = some (buf, r.writeMessage off data) :=
  step_getByte h

/-- The producer finds its slot in use. -/
theorem step_checkFree_of_used (h : buf[off]? = some 1) :
    Access.step (r.checkFree off data) buf = some (buf, throw .ringFull) :=
  step_getByte h

/-- The producer writes the length. -/
theorem step_writeMessage (h : off + slotLenOffset + 4 ≤ buf.length) :
    Access.step (r.writeMessage off data) buf =
      some (Memory.store buf (off + slotLenOffset) (packed data.length),
        if data.length < 2 ^ 32 then r.writeData off data else throw .structError) := by
  have hpack : Access.step (packInto (off + slotLenOffset) data.length) buf =
      some (Memory.store buf (off + slotLenOffset) (packed data.length),
        if data.length < 2 ^ 32 then return () else throw .structError) :=
    step_assign (decide_eq_true h)
  rw [writeMessage, step_bind hpack]
  split
  · rfl
  · rfl

/-- The producer writes the data. -/
theorem step_writeData (h : off + slotDataOffset + data.length ≤ buf.length) :
    Access.step (r.writeData off data) buf =
      some (Memory.store buf (off + slotDataOffset) data, r.publish off) := by
  apply step_assign
  rw [decide_eq_true_eq, Memory.load, List.length_take, List.length_drop]
  omega

/-- The producer sets the used byte. -/
theorem step_publish (h : off < buf.length) :
    Access.step (r.publish off) buf =
      some (Memory.store buf off [1], .ret (.ok ({ r with writeIdx := r.writeIdx + 1 }, ()))) :=
  step_assign (decide_eq_true h)

/-- The consumer finds its slot in use. -/
theorem step_checkUsed_of_used (h : buf[off]? = some 1) :
    Access.step (r.checkUsed off) buf = some (buf, r.readMessage off) :=
  step_getByte h

/-- The consumer finds its slot free. -/
theorem step_checkUsed_of_free (h : buf[off]? = some 0) :
    Access.step (r.checkUsed off) buf = some (buf, throw .ringEmpty) :=
  step_getByte h

/-- The consumer reads the length. -/
theorem step_readMessage (h : off + slotLenOffset + 4 ≤ buf.length) :
    Access.step (r.readMessage off) buf =
      some (buf, r.readData off (BigEndian.ofBytes (Memory.load buf (off + slotLenOffset) 4))) :=
  step_unpackFrom h

/-- The consumer reads the data. -/
theorem step_readData :
    Access.step (r.readData off length) buf =
      some (buf, r.release off (Memory.load buf (off + slotDataOffset) length)) := rfl

/-- The consumer clears the used byte. -/
theorem step_release (h : off < buf.length) :
    Access.step (r.release off data) buf =
      some (Memory.store buf off [0], .ret (.ok ({ r with readIdx := r.readIdx + 1 }, data))) :=
  step_assign (decide_eq_true h)

end Calls

/-! ## Where the producer is -/

variable {capacity slotSize : Nat}

/-- The places of {lit}`push_nowait` and what is known there.  {lit}`room` is the first
index whose slot is not free yet. -/
inductive Pushing (capacity slotSize room : Nat) (r : SharedMemoryRing) (buf : Bytes) :
    Option (Bytes × Access (SharedMemoryRing × Unit)) → Prop
  | idle : Pushing capacity slotSize room r buf none
  | started (data : Bytes) (hsize : slotDataOffset + data.length ≤ slotSize) :
      Pushing capacity slotSize room r buf
        (some (data, r.checkFree (slotStart capacity slotSize r.writeIdx) data))
  | free (data : Bytes) (hsize : slotDataOffset + data.length ≤ slotSize)
      (hroom : r.writeIdx < room) :
      Pushing capacity slotSize room r buf
        (some (data, r.writeMessage (slotStart capacity slotSize r.writeIdx) data))
  | lengthWritten (data : Bytes) (hfits : Fits slotSize data) (hroom : r.writeIdx < room)
      (hlength : Memory.load buf (slotStart capacity slotSize r.writeIdx + slotLenOffset) 4 =
        BigEndian.toBytes 4 data.length) :
      Pushing capacity slotSize room r buf
        (some (data, r.writeData (slotStart capacity slotSize r.writeIdx) data))
  | dataWritten (data : Bytes) (hfits : Fits slotSize data) (hroom : r.writeIdx < room)
      (hlength : Memory.load buf (slotStart capacity slotSize r.writeIdx + slotLenOffset) 4 =
        BigEndian.toBytes 4 data.length)
      (hdata : Memory.load buf (slotStart capacity slotSize r.writeIdx + slotDataOffset)
        data.length = data) :
      Pushing capacity slotSize room r buf
        (some (data, r.publish (slotStart capacity slotSize r.writeIdx)))
  | published (data : Bytes) :
      Pushing capacity slotSize room r buf
        (some (data, .ret (.ok ({ r with writeIdx := r.writeIdx + 1 }, ()))))
  | raised (data : Bytes) (e : RingError) :
      Pushing capacity slotSize room r buf (some (data, .ret (.error e)))

/-- The ring of a party has the shape of the segment. -/
def HasShape (capacity slotSize : Nat) (r : SharedMemoryRing) : Prop :=
  r.capacity = capacity ∧ r.slotSize = slotSize

/-- What the producer knows. -/
structure Pusher (capacity slotSize room : Nat) (buf : Bytes) (side : Duplex.Side producer) :
    Prop where
  shape : HasShape capacity slotSize side.own
  count : side.own.writeIdx = side.done.length
  place : Pushing capacity slotSize room side.own buf side.running

/-- A call of {lit}`push_nowait` is refused for its size or goes to its slot. -/
theorem pushNowait_of_shape (hcapacity : 0 < capacity) {r : SharedMemoryRing}
    (hshape : HasShape capacity slotSize r) (data : Bytes) :
    (∃ e, r.pushNowait data = throw e) ∨
      slotDataOffset + data.length ≤ slotSize ∧
        r.pushNowait data = r.checkFree (slotStart capacity slotSize r.writeIdx) data := by
  have hslot : r.slot r.writeIdx = .ok (slotStart capacity slotSize r.writeIdx) := by
    rw [slot, slotOffset, hshape.1, hshape.2, if_neg hcapacity.ne']
  rw [pushNowait_eq, hslot]
  dsimp only
  by_cases hsize : (data.length : Int) > (r.slotSize : Int) - slotDataOffset
  · rw [if_pos hsize]
    exact .inl ⟨_, rfl⟩
  · rw [if_neg hsize]
    refine .inr ⟨?_, rfl⟩
    rw [← hshape.2]
    simp only [slotDataOffset] at hsize ⊢
    omega

/-- What the producer knows outlives what the consumer does. -/
theorem Pushing.mono {room room' : Nat} {r : SharedMemoryRing} {buf buf' : Bytes}
    {running : Option (Bytes × Access (SharedMemoryRing × Unit))}
    (h : Pushing capacity slotSize room r buf running) (hroom : room ≤ room')
    (hkeep : ∀ pos n, 0 < pos → pos + n ≤ slotSize →
      Memory.load buf' (slotStart capacity slotSize r.writeIdx + pos) n =
        Memory.load buf (slotStart capacity slotSize r.writeIdx + pos) n) :
    Pushing capacity slotSize room' r buf' running := by
  cases h with
  | idle => exact .idle
  | started data hsize => exact .started data hsize
  | free data hsize hfree => exact .free data hsize (hfree.trans_le hroom)
  | lengthWritten data hfits hfree hlength =>
      have hsize := hfits.1
      simp only [slotDataOffset] at hsize
      refine .lengthWritten data hfits (hfree.trans_le hroom) ?_
      rw [hkeep _ _ (by decide) (by simp only [slotLenOffset]; omega)]
      exact hlength
  | dataWritten data hfits hfree hlength hdata =>
      have hsize := hfits.1
      simp only [slotDataOffset] at hsize
      refine .dataWritten data hfits (hfree.trans_le hroom) ?_ ?_
      · rw [hkeep _ _ (by decide) (by simp only [slotLenOffset]; omega)]
        exact hlength
      · rw [hkeep _ _ (by decide) (by simp only [slotDataOffset]; omega)]
        exact hdata
  | published data => exact .published data
  | raised data e => exact .raised data e

/-- What a step of the producer keeps: what it knows and the queue, where messages
are only added. -/
structure Pusher.Kept (capacity slotSize : Nat) (taken : List Bytes) (before : List Bytes)
    (next : Bytes × Duplex.Side producer) : Prop where
  pusher : Pusher capacity slotSize (taken.length + capacity) next.1 next.2
  queued : Queued capacity slotSize next.1 (next.2.settled.map Prod.fst) taken
  isPrefix : before <+: next.2.settled.map Prod.fst

section Pusher

variable {own : SharedMemoryRing} {done : List (Bytes × Unit)} {buf data : Bytes}
  {taken : List Bytes} {next : Bytes × Duplex.Side producer}

/-- The number of messages sent is the index of the producer. -/
theorem length_map_done (hcount : own.writeIdx = done.length) :
    (done.map Prod.fst).length = own.writeIdx := by
  rw [List.length_map]
  exact hcount.symm

/-- The producer looks at its slot. -/
theorem Pusher.look (hcapacity : 0 < capacity) (hshape : HasShape capacity slotSize own)
    (hcount : own.writeIdx = done.length)
    (hqueued : Queued capacity slotSize buf (done.map Prod.fst) taken)
    (hsize : slotDataOffset + data.length ≤ slotSize)
    (hstep : (pushing own data (own.checkFree (slotStart capacity slotSize own.writeIdx) data)
      done).step buf .go = some next) :
    Pusher.Kept capacity slotSize taken (done.map Prod.fst) next := by
  have hnext := length_map_done hcount
  by_cases hroom : own.writeIdx < taken.length + capacity
  · have hfree := hqueued.free _ hnext.le hroom
    rw [Duplex.Side.step_access rfl (step_checkFree_of_free hfree)] at hstep
    cases hstep
    exact ⟨⟨hshape, hcount, .free data hsize hroom⟩, hqueued, List.prefix_rfl⟩
  · -- the ring is full: the slot still holds the oldest message
    have hfull := hqueued.inFlight
    have hround : own.writeIdx = taken.length + capacity := by omega
    have holdest : taken.length < (done.map Prod.fst).length := by omega
    have hused := (hqueued.full taken.length _ le_rfl (List.getElem?_eq_getElem holdest)).used
    rw [← slotStart_add_capacity, ← hround] at hused
    rw [Duplex.Side.step_access rfl (step_checkFree_of_used hused)] at hstep
    cases hstep
    exact ⟨⟨hshape, hcount, .raised data _⟩, hqueued, List.prefix_rfl⟩

/-- The producer writes the length. -/
theorem Pusher.writeLength (hcapacity : 0 < capacity) (hshape : HasShape capacity slotSize own)
    (hcount : own.writeIdx = done.length)
    (hqueued : Queued capacity slotSize buf (done.map Prod.fst) taken)
    (hsize : slotDataOffset + data.length ≤ slotSize)
    (hroom : own.writeIdx < taken.length + capacity)
    (hstep : (pushing own data (own.writeMessage (slotStart capacity slotSize own.writeIdx) data)
      done).step buf .go = some next) :
    Pusher.Kept capacity slotSize taken (done.map Prod.fst) next := by
  have hnext := length_map_done hcount
  have hslot := slotStart_add_le_total slotSize hcapacity own.writeIdx
  have hbuf := hqueued.size
  simp only [slotDataOffset] at hsize
  have hfit : slotStart capacity slotSize own.writeIdx + slotLenOffset + 4 ≤ buf.length := by
    simp only [slotLenOffset]
    omega
  have hafter : Queued capacity slotSize
      (Memory.store buf (slotStart capacity slotSize own.writeIdx + slotLenOffset)
        (packed data.length)) (done.map Prod.fst) taken := by
    apply hqueued.store
    · rw [hnext]
      exact hroom
    · rw [hnext]
      exact Nat.lt_succ_self _
    · rw [hnext, length_packed, slotLenOffset]
      omega
  rw [Duplex.Side.step_access rfl (step_writeMessage hfit)] at hstep
  cases hstep
  by_cases hlong : data.length < 2 ^ 32
  · rw [if_pos hlong]
    refine ⟨⟨hshape, hcount, .lengthWritten data ⟨hsize, hlong⟩ hroom ?_⟩, hafter, List.prefix_rfl⟩
    have hpacked : packed data.length = BigEndian.toBytes 4 data.length := if_pos hlong
    rw [← length_packed data.length] at hfit
    have hload := Memory.load_store hfit
    rw [length_packed] at hload
    exact hload.trans hpacked
  · rw [if_neg hlong]
    exact ⟨⟨hshape, hcount, .raised data _⟩, hafter, List.prefix_rfl⟩

/-- The producer writes the data. -/
theorem Pusher.writeData (hcapacity : 0 < capacity) (hshape : HasShape capacity slotSize own)
    (hcount : own.writeIdx = done.length)
    (hqueued : Queued capacity slotSize buf (done.map Prod.fst) taken)
    (hfits : Fits slotSize data) (hroom : own.writeIdx < taken.length + capacity)
    (hlength : Memory.load buf (slotStart capacity slotSize own.writeIdx + slotLenOffset) 4 =
      BigEndian.toBytes 4 data.length)
    (hstep : (pushing own data (own.writeData (slotStart capacity slotSize own.writeIdx) data)
      done).step buf .go = some next) :
    Pusher.Kept capacity slotSize taken (done.map Prod.fst) next := by
  have hnext := length_map_done hcount
  have hslot := slotStart_add_le_total slotSize hcapacity own.writeIdx
  have hbuf := hqueued.size
  have hmsg := hfits.1
  have hfit : slotStart capacity slotSize own.writeIdx + slotDataOffset + data.length ≤
      buf.length := by
    omega
  have hafter : Queued capacity slotSize
      (Memory.store buf (slotStart capacity slotSize own.writeIdx + slotDataOffset) data)
        (done.map Prod.fst) taken := by
    apply hqueued.store
    · rw [hnext]
      exact hroom
    · rw [hnext, slotDataOffset]
      omega
    · rw [hnext]
      omega
  rw [Duplex.Side.step_access rfl (step_writeData hfit)] at hstep
  cases hstep
  refine ⟨⟨hshape, hcount, .dataWritten data hfits hroom ?_ (Memory.load_store hfit)⟩, hafter,
    List.prefix_rfl⟩
  have hbelow : slotStart capacity slotSize own.writeIdx + slotLenOffset + 4 ≤
      slotStart capacity slotSize own.writeIdx + slotDataOffset := le_rfl
  rw [Memory.load_store_of_disjoint hfit (.inl hbelow)]
  exact hlength

/-- The producer sets the used byte. -/
theorem Pusher.publish (hcapacity : 0 < capacity) (hshape : HasShape capacity slotSize own)
    (hcount : own.writeIdx = done.length)
    (hqueued : Queued capacity slotSize buf (done.map Prod.fst) taken)
    (hfits : Fits slotSize data) (hroom : own.writeIdx < taken.length + capacity)
    (hlength : Memory.load buf (slotStart capacity slotSize own.writeIdx + slotLenOffset) 4 =
      BigEndian.toBytes 4 data.length)
    (hdata : Memory.load buf (slotStart capacity slotSize own.writeIdx + slotDataOffset) data.length =
      data)
    (hstep : (pushing own data (own.publish (slotStart capacity slotSize own.writeIdx))
      done).step buf .go = some next) :
    Pusher.Kept capacity slotSize taken (done.map Prod.fst) next := by
  have hnext := length_map_done hcount
  have hslot := slotStart_add_le_total slotSize hcapacity own.writeIdx
  have hbuf := hqueued.size
  have hmsg := hfits.1
  simp only [slotDataOffset] at hmsg
  rw [← hnext] at hroom hlength hdata
  have hafter := hqueued.publish hroom hfits hlength hdata
  rw [hnext] at hafter
  have hfit : slotStart capacity slotSize own.writeIdx < buf.length := by omega
  rw [Duplex.Side.step_access rfl (step_publish hfit)] at hstep
  cases hstep
  have hsettled : (done ++ [(data, ())]).map Prod.fst = done.map Prod.fst ++ [data] := by
    rw [List.map_append]
    rfl
  constructor
  · exact ⟨hshape, hcount, .published data⟩
  · exact hsettled ▸ hafter
  · exact ⟨[data], hsettled.symm⟩

end Pusher

/-- A step of the producer. -/
theorem Pusher.step (hcapacity : 0 < capacity) {side : Duplex.Side producer} {buf : Bytes}
    {taken : List Bytes} {i : Duplex.SideStep Bytes} {next : Bytes × Duplex.Side producer}
    (h : Pusher capacity slotSize (taken.length + capacity) buf side)
    (hqueued : Queued capacity slotSize buf (side.settled.map Prod.fst) taken)
    (hstep : side.step buf i = some next) :
    Pusher.Kept capacity slotSize taken (side.settled.map Prod.fst) next := by
  rcases side with ⟨own, running, done⟩
  have ⟨hshape, hcount, hplace⟩ := h
  dsimp only at hshape hcount hplace
  cases i with
  | call data =>
      cases hplace with
      | idle =>
          cases hstep
          change Pusher.Kept capacity slotSize taken (done.map Prod.fst)
            (buf, pushing own data (own.pushNowait data) done)
          rcases pushNowait_of_shape hcapacity hshape data with ⟨e, hcall⟩ | ⟨hsize, hcall⟩
          · rw [hcall]
            exact ⟨⟨hshape, hcount, .raised data e⟩, hqueued, List.prefix_rfl⟩
          · rw [hcall]
            exact ⟨⟨hshape, hcount, .started data hsize⟩, hqueued, List.prefix_rfl⟩
      | _ => cases hstep
  | go =>
      cases hplace with
      | idle => cases hstep
      | started data hsize => exact Pusher.look hcapacity hshape hcount hqueued hsize hstep
      | free data hsize hroom =>
          exact Pusher.writeLength hcapacity hshape hcount hqueued hsize hroom hstep
      | lengthWritten data hfits hroom hlength =>
          exact Pusher.writeData hcapacity hshape hcount hqueued hfits hroom hlength hstep
      | dataWritten data hfits hroom hlength hdata =>
          exact Pusher.publish hcapacity hshape hcount hqueued hfits hroom hlength hdata hstep
      | published data =>
          cases hstep
          refine ⟨⟨hshape, ?_, .idle⟩, hqueued, List.prefix_rfl⟩
          rw [List.length_append, ← hcount]
          rfl
      | raised data e =>
          cases hstep
          exact ⟨⟨hshape, hcount, .idle⟩, hqueued, List.prefix_rfl⟩

/-! ## Where the consumer is -/

/-- The places of {lit}`pop_nowait` and what is known there. -/
inductive Popping (capacity slotSize : Nat) (accepted : List Bytes) (r : SharedMemoryRing) :
    Option (Unit × Access (SharedMemoryRing × Bytes)) → Prop
  | idle : Popping capacity slotSize accepted r none
  | started :
      Popping capacity slotSize accepted r
        (some ((), r.checkUsed (slotStart capacity slotSize r.readIdx)))
  | used (msg : Bytes) (hmsg : accepted[r.readIdx]? = some msg) :
      Popping capacity slotSize accepted r
        (some ((), r.readMessage (slotStart capacity slotSize r.readIdx)))
  | lengthRead (msg : Bytes) (hmsg : accepted[r.readIdx]? = some msg) :
      Popping capacity slotSize accepted r
        (some ((), r.readData (slotStart capacity slotSize r.readIdx) msg.length))
  | dataRead (msg : Bytes) (hmsg : accepted[r.readIdx]? = some msg) :
      Popping capacity slotSize accepted r
        (some ((), r.release (slotStart capacity slotSize r.readIdx) msg))
  | released (msg : Bytes) :
      Popping capacity slotSize accepted r
        (some ((), .ret (.ok ({ r with readIdx := r.readIdx + 1 }, msg))))
  | raised (e : RingError) :
      Popping capacity slotSize accepted r (some ((), .ret (.error e)))

/-- What the consumer knows. -/
structure Popper (capacity slotSize : Nat) (accepted : List Bytes) (side : Duplex.Side consumer) :
    Prop where
  shape : HasShape capacity slotSize side.own
  count : side.own.readIdx = side.done.length
  place : Popping capacity slotSize accepted side.own side.running

/-- A call of {lit}`pop_nowait` goes to its slot. -/
theorem popNowait_of_shape (hcapacity : 0 < capacity) {r : SharedMemoryRing}
    (hshape : HasShape capacity slotSize r) :
    r.popNowait = r.checkUsed (slotStart capacity slotSize r.readIdx) := by
  have hslot : r.slot r.readIdx = .ok (slotStart capacity slotSize r.readIdx) := by
    rw [slot, slotOffset, hshape.1, hshape.2, if_neg hcapacity.ne']
  rw [popNowait_eq, hslot]
  rfl

/-- What the consumer knows outlives what the producer does. -/
theorem Popping.mono {accepted accepted' : List Bytes} {r : SharedMemoryRing}
    {running : Option (Unit × Access (SharedMemoryRing × Bytes))}
    (h : Popping capacity slotSize accepted r running) (hextends : accepted <+: accepted') :
    Popping capacity slotSize accepted' r running := by
  have hkeep : ∀ {msg : Bytes}, accepted[r.readIdx]? = some msg → accepted'[r.readIdx]? = some msg := by
    intro msg hmsg
    have ⟨rest, hrest⟩ := hextends
    rw [← hrest, List.getElem?_append_left (List.getElem?_eq_some_iff.mp hmsg).1]
    exact hmsg
  cases h with
  | idle => exact .idle
  | started => exact .started
  | used msg hmsg => exact .used msg (hkeep hmsg)
  | lengthRead msg hmsg => exact .lengthRead msg (hkeep hmsg)
  | dataRead msg hmsg => exact .dataRead msg (hkeep hmsg)
  | released msg => exact .released msg
  | raised e => exact .raised e

/-- What a step of the consumer keeps: what it knows, the queue, where messages are
only taken, and whatever the producer may have written. -/
structure Popper.Kept (capacity slotSize : Nat) (accepted before : List Bytes) (buf : Bytes)
    (next : Bytes × Duplex.Side consumer) : Prop where
  popper : Popper capacity slotSize accepted next.2
  queued : Queued capacity slotSize next.1 accepted (next.2.settled.map Prod.snd)
  isPrefix : before <+: next.2.settled.map Prod.snd
  keeps : ∀ i pos n, 0 < pos → pos + n ≤ slotSize →
    Memory.load next.1 (slotStart capacity slotSize i + pos) n =
      Memory.load buf (slotStart capacity slotSize i + pos) n

section Popper

variable {own : SharedMemoryRing} {done : List (Unit × Bytes)} {buf msg : Bytes}
  {accepted : List Bytes} {next : Bytes × Duplex.Side consumer}

/-- The number of messages taken is the index of the consumer. -/
theorem length_map_taken (hcount : own.readIdx = done.length) :
    (done.map Prod.snd).length = own.readIdx := by
  rw [List.length_map]
  exact hcount.symm

/-- The consumer looks at its slot. -/
theorem Popper.look (hcapacity : 0 < capacity) (hshape : HasShape capacity slotSize own)
    (hcount : own.readIdx = done.length)
    (hqueued : Queued capacity slotSize buf accepted (done.map Prod.snd))
    (hstep : (popping own (own.checkUsed (slotStart capacity slotSize own.readIdx)) done).step buf .go =
      some next) :
    Popper.Kept capacity slotSize accepted (done.map Prod.snd) buf next := by
  have hnext := length_map_taken hcount
  have htaken := hqueued.isPrefix.length_le
  by_cases hmore : own.readIdx < accepted.length
  · have hmsg := List.getElem?_eq_getElem hmore
    have hused := (hqueued.full _ _ hnext.le hmsg).used
    rw [Duplex.Side.step_access rfl (step_checkUsed_of_used hused)] at hstep
    cases hstep
    exact ⟨⟨hshape, hcount, .used _ hmsg⟩, hqueued, List.prefix_rfl, fun _ _ _ _ _ => rfl⟩
  · have hfree := hqueued.free own.readIdx (by omega) (by omega)
    rw [Duplex.Side.step_access rfl (step_checkUsed_of_free hfree)] at hstep
    cases hstep
    exact ⟨⟨hshape, hcount, .raised _⟩, hqueued, List.prefix_rfl, fun _ _ _ _ _ => rfl⟩

/-- The message in the slot that the consumer looks at. -/
theorem Popper.holds (hcount : own.readIdx = done.length)
    (hqueued : Queued capacity slotSize buf accepted (done.map Prod.snd))
    (hmsg : accepted[own.readIdx]? = some msg) :
    Holds buf (slotStart capacity slotSize own.readIdx) msg ∧ Fits slotSize msg :=
  ⟨hqueued.full _ _ (length_map_taken hcount).le hmsg, hqueued.fits _ (List.mem_of_getElem? hmsg)⟩

/-- The consumer reads the length. -/
theorem Popper.readLength (hcapacity : 0 < capacity) (hshape : HasShape capacity slotSize own)
    (hcount : own.readIdx = done.length)
    (hqueued : Queued capacity slotSize buf accepted (done.map Prod.snd))
    (hmsg : accepted[own.readIdx]? = some msg)
    (hstep : (popping own (own.readMessage (slotStart capacity slotSize own.readIdx)) done).step buf
      .go = some next) :
    Popper.Kept capacity slotSize accepted (done.map Prod.snd) buf next := by
  have ⟨hholds, hfits⟩ := Popper.holds hcount hqueued hmsg
  have hslot := slotStart_add_le_total slotSize hcapacity own.readIdx
  have hbuf := hqueued.size
  have hsize := hfits.1
  have hfit : slotStart capacity slotSize own.readIdx + slotLenOffset + 4 ≤ buf.length := by
    simp only [slotDataOffset, slotLenOffset] at hsize ⊢
    omega
  rw [Duplex.Side.step_access rfl (step_readMessage hfit), hholds.length,
    BigEndian.ofBytes_toBytes hfits.2] at hstep
  cases hstep
  exact ⟨⟨hshape, hcount, .lengthRead _ hmsg⟩, hqueued, List.prefix_rfl, fun _ _ _ _ _ => rfl⟩

/-- The consumer reads the data. -/
theorem Popper.readData (hshape : HasShape capacity slotSize own)
    (hcount : own.readIdx = done.length)
    (hqueued : Queued capacity slotSize buf accepted (done.map Prod.snd))
    (hmsg : accepted[own.readIdx]? = some msg)
    (hstep : (popping own (own.readData (slotStart capacity slotSize own.readIdx) msg.length)
      done).step buf .go = some next) :
    Popper.Kept capacity slotSize accepted (done.map Prod.snd) buf next := by
  have ⟨hholds, _⟩ := Popper.holds hcount hqueued hmsg
  rw [Duplex.Side.step_access rfl step_readData, hholds.data] at hstep
  cases hstep
  exact ⟨⟨hshape, hcount, .dataRead _ hmsg⟩, hqueued, List.prefix_rfl, fun _ _ _ _ _ => rfl⟩

/-- The consumer clears the used byte. -/
theorem Popper.release (hcapacity : 0 < capacity) (hshape : HasShape capacity slotSize own)
    (hcount : own.readIdx = done.length)
    (hqueued : Queued capacity slotSize buf accepted (done.map Prod.snd))
    (hmsg : accepted[own.readIdx]? = some msg)
    (hstep : (popping own (own.release (slotStart capacity slotSize own.readIdx) msg) done).step buf
      .go = some next) :
    Popper.Kept capacity slotSize accepted (done.map Prod.snd) buf next := by
  have hnext := length_map_taken hcount
  have hslot := slotStart_add_le_total slotSize hcapacity own.readIdx
  have hbuf := hqueued.size
  have hsize := (hqueued.fits _ (List.mem_of_getElem? hmsg)).1
  simp only [slotDataOffset] at hsize
  have hfit : slotStart capacity slotSize own.readIdx < buf.length := by omega
  rw [← hnext] at hmsg
  have hafter := hqueued.release hmsg
  rw [hnext] at hafter
  rw [Duplex.Side.step_access rfl (step_release hfit)] at hstep
  cases hstep
  have hsettled : (done ++ [((), msg)]).map Prod.snd = done.map Prod.snd ++ [msg] := by
    rw [List.map_append]
    rfl
  constructor
  · exact ⟨hshape, hcount, .released msg⟩
  · exact hsettled ▸ hafter
  · exact ⟨[msg], hsettled.symm⟩
  · intro i pos n hpos hn
    apply Memory.load_store_of_disjoint hfit
    rw [List.length_singleton]
    by_cases hsame : i % capacity = own.readIdx % capacity
    · have hstart : slotStart capacity slotSize i = slotStart capacity slotSize own.readIdx := by
        rw [slotStart, slotStart, hsame]
      omega
    · have hapart := slotStart_apart_of_mod (n := 1) hsame (le_refl (slotStart capacity slotSize _))
        (by omega)
      omega

end Popper

/-- A step of the consumer. -/
theorem Popper.step (hcapacity : 0 < capacity) {side : Duplex.Side consumer} {buf : Bytes}
    {accepted : List Bytes} {i : Duplex.SideStep Unit} {next : Bytes × Duplex.Side consumer}
    (h : Popper capacity slotSize accepted side)
    (hqueued : Queued capacity slotSize buf accepted (side.settled.map Prod.snd))
    (hstep : side.step buf i = some next) :
    Popper.Kept capacity slotSize accepted (side.settled.map Prod.snd) buf next := by
  rcases side with ⟨own, running, done⟩
  have ⟨hshape, hcount, hplace⟩ := h
  dsimp only at hshape hcount hplace
  cases i with
  | call op =>
      cases hplace with
      | idle =>
          cases hstep
          change Popper.Kept capacity slotSize accepted (done.map Prod.snd) buf
            (buf, popping own own.popNowait done)
          rw [popNowait_of_shape hcapacity hshape]
          exact ⟨⟨hshape, hcount, .started⟩, hqueued, List.prefix_rfl, fun _ _ _ _ _ => rfl⟩
      | _ => cases hstep
  | go =>
      cases hplace with
      | idle => cases hstep
      | started => exact Popper.look hcapacity hshape hcount hqueued hstep
      | used msg hmsg => exact Popper.readLength hcapacity hshape hcount hqueued hmsg hstep
      | lengthRead msg hmsg => exact Popper.readData hshape hcount hqueued hmsg hstep
      | dataRead msg hmsg => exact Popper.release hcapacity hshape hcount hqueued hmsg hstep
      | released msg =>
          cases hstep
          refine ⟨⟨hshape, ?_, .idle⟩, hqueued, List.prefix_rfl, fun _ _ _ _ _ => rfl⟩
          rw [List.length_append, ← hcount]
          rfl
      | raised e =>
          cases hstep
          exact ⟨⟨hshape, hcount, .idle⟩, hqueued, List.prefix_rfl, fun _ _ _ _ _ => rfl⟩

/-! ## Runs -/

/-- What holds between steps. -/
structure Inv (capacity slotSize : Nat) (s : RunState) : Prop where
  queued : Queued capacity slotSize s.store (sent s) (received s)
  pusher : Pusher capacity slotSize ((received s).length + capacity) s.store s.left
  popper : Popper capacity slotSize (sent s) s.right

/-- Every step keeps the invariant. -/
theorem Inv.step (hcapacity : 0 < capacity) {s t : RunState}
    {i : Duplex.SideStep Bytes ⊕ Duplex.SideStep Unit} (h : Inv capacity slotSize s)
    (hstep : Duplex.step s i = some t) : Inv capacity slotSize t := by
  cases i with
  | inl i =>
      rcases Option.map_eq_some_iff.mp hstep with ⟨next, hside, rfl⟩
      have hkept := h.pusher.step hcapacity h.queued hside
      have hpopper := h.popper
      exact ⟨hkept.queued, hkept.pusher, hpopper.shape, hpopper.count,
        hpopper.place.mono hkept.isPrefix⟩
  | inr i =>
      rcases Option.map_eq_some_iff.mp hstep with ⟨next, hside, rfl⟩
      have hkept := h.popper.step hcapacity h.queued hside
      have hpusher := h.pusher
      refine ⟨hkept.queued, ⟨hpusher.shape, hpusher.count, ?_⟩, hkept.popper⟩
      apply hpusher.place.mono (Nat.add_le_add_right hkept.isPrefix.length_le capacity)
      intro pos n hpos hn
      exact hkept.keeps _ pos n hpos hn

/-- Two ends of a created ring before their first call. -/
theorem Inv.start {buf : Bytes} {pusher popper : SharedMemoryRing} {creates attaches : Bool}
    (hqueued : Queued capacity slotSize buf [] []) (hpusher : pusher = new capacity slotSize creates)
    (hpopper : popper = new capacity slotSize attaches) :
    Inv capacity slotSize (start buf pusher popper) := by
  rw [hpusher, hpopper]
  exact ⟨hqueued, ⟨⟨rfl, rfl⟩, rfl, .idle⟩, ⟨⟨rfl, rfl⟩, rfl, .idle⟩⟩

/-- In every run of a created ring and an attached one, whichever of them pushes: the
messages that came out are a prefix of those that went in, no more messages are in
the segment than it has slots, and a call that is refused changed neither the
segment nor a cursor. -/
theorem fifo {segment buf : Bytes} {created attached pusher popper : SharedMemoryRing}
    (hcapacity : 1 ≤ capacity) (hslot : 5 ≤ slotSize)
    (hsegment : total capacity slotSize ≤ segment.length)
    (hcreate : create segment capacity slotSize = .ok (buf, created))
    (hattach : attach buf = .ok attached)
    (hends : pusher = created ∧ popper = attached ∨ pusher = attached ∧ popper = created)
    (is : List (Duplex.SideStep Bytes ⊕ Duplex.SideStep Unit)) :
    (∀ t, Machine.run Duplex.step (start buf pusher popper) is = some t →
      received t <+: sent t ∧ (sent t).length ≤ (received t).length + capacity) ∧
    Machine.Along Duplex.step (Duplex.KeepsWhileFailing refused refused)
      (start buf pusher popper) is := by
  have ⟨hqueued, hcreated, hattached⟩ := attach_create (by omega) hsegment hcreate
  have hattached : attached = new capacity slotSize false :=
    Except.ok.inj (hattach.symm.trans hattached)
  have hstart : Inv capacity slotSize (start buf pusher popper) := by
    rcases hends with ⟨hpusher, hpopper⟩ | ⟨hpusher, hpopper⟩
    · exact .start hqueued (hpusher.trans hcreated) (hpopper.trans hattached)
    · exact .start hqueued (hpusher.trans hattached) (hpopper.trans hcreated)
  constructor
  · intro t hrun
    have hinv := Machine.invariant_of_steps (fun _ _ _ h hstep => h.step hcapacity hstep) hstart hrun
    exact ⟨hinv.queued.isPrefix, hinv.queued.inFlight⟩
  · apply Duplex.along_keepsWhileFailing failsClean_pushNowait fun r _ => failsClean_popNowait r
    exact ⟨fun _ _ h => absurd h (by simp [start, Duplex.Side.idle]),
      fun _ _ h => absurd h (by simp [start, Duplex.Side.idle])⟩

/-- A message goes through the only slot of a ring while the producer tries again. -/
def oneSlotSchedule : List (Duplex.SideStep Bytes ⊕ Duplex.SideStep Unit) :=
  [.inl (.call [7]), .inl .go, .inl .go, .inl .go, .inl .go, .inl .go, .inr (.call ()),
    .inl (.call [8]), .inl .go, .inr .go, .inl .go, .inr .go, .inr .go, .inl (.call [9]), .inr .go]

/-- A ring with one slot of six bytes. -/
def oneSlot : RunState :=
  start (header 1 6 ++ List.replicate 6 0) (new 1 6 true) (new 1 6 false)

/-- The ring with one slot. -/
theorem fifo_oneSlot :
    (∀ t, Machine.run Duplex.step oneSlot oneSlotSchedule = some t →
      received t <+: sent t ∧ (sent t).length ≤ (received t).length + 1) ∧
    Machine.Along Duplex.step (Duplex.KeepsWhileFailing refused refused) oneSlot oneSlotSchedule := by
  have hsegment : total 1 6 ≤ (List.replicate 26 (0 : UInt8)).length := le_rfl
  have hcreate : create (List.replicate 26 0) 1 6 =
      .ok (header 1 6 ++ List.replicate 6 0, new 1 6 true) := rfl
  have hattach : attach (header 1 6 ++ List.replicate 6 0) = .ok (new 1 6 false) := rfl
  exact fifo le_rfl (by decide) hsegment hcreate hattach (.inl ⟨rfl, rfl⟩) oneSlotSchedule

end SharedMemoryRing

end Aicl.Transport

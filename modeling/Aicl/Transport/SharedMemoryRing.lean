import Aicl.Bin.Exceptions
import Aicl.Foundation.BigEndian
import Aicl.Foundation.SharedMemory

/-!
# The shared-memory ring of the Python package

{lit}`SharedMemoryRing` in {lit}`aicl/transport/shared_memory_ring.py`: a segment
of shared memory with a header and slots, each with a byte that tells whether it is
in use, the length of its message and the message.  The cursors are not shared.
{lit}`push_nowait` and {lit}`pop_nowait` are programs over the segment, one access
at a time.

Main results:

- Theorem {lit}`SharedMemoryRing.attach_create`: what {lit}`attach` finds in a
  created segment.
- Theorem {lit}`SharedMemoryRing.failsClean_pushNowait` and
  {lit}`SharedMemoryRing.failsClean_popNowait`: a refused call updates nothing.
- Theorem {lit}`Queued.publish` and {lit}`Queued.release`: what the two writes of a
  used byte do to the queue in the segment.
-/

namespace Aicl.Transport

open Aicl.Bin (reprBytes)

/-! ## Exceptions and accesses -/

/-- What the ring raises: its two exceptions, a {lit}`ValueError` with its message,
and what the interpreter raises for it. -/
inductive RingError where
  | ringFull | ringEmpty
  | valueError (message : String)
  | structError | indexError | zeroDivisionError | memoryviewError
deriving DecidableEq, Repr

/-- A program over the segment that returns or raises. -/
abbrev Access (α : Type) := ExceptT RingError (Prog Bytes) α

/-- {lit}`buf[off]`. -/
def getByte (off : Nat) : Access UInt8 :=
  .access id fun buf =>
    .ret (match buf[off]? with
      | some b => .ok b
      | none => .error .indexError)

/-- An assignment to a part of the segment, which raises where the part is not in
the segment. -/
def assign (inside : Bytes → Bool) (off : Nat) (data : Bytes) (e : RingError) : Access Unit :=
  .access (fun buf => if inside buf then Memory.store buf off data else buf) fun buf =>
    .ret (if inside buf then .ok () else .error e)

/-- {lit}`buf[off] = b`. -/
def setByte (off : Nat) (b : UInt8) : Access Unit :=
  assign (fun buf => off < buf.length) off [b] .indexError

/-- {lit}`bytes(buf[off:off + n])`: cut off at the end. -/
def getSlice (off n : Nat) : Access Bytes :=
  .access id fun buf => .ret (.ok (Memory.load buf off n))

/-- {lit}`buf[off:off + len(data)] = data`: the slice on the left is cut off at the
end, and then it has another length. -/
def setSlice (off : Nat) (data : Bytes) : Access Unit :=
  assign (fun buf => (Memory.load buf off data.length).length = data.length) off data
    .memoryviewError

/-- {lit}`struct.unpack_from(">I", buf, off)[0]`. -/
def unpackFrom (off : Nat) : Access Nat :=
  .access id fun buf =>
    .ret (if off + 4 ≤ buf.length then .ok (BigEndian.ofBytes (Memory.load buf off 4))
      else .error .structError)

/-- What {lit}`struct.pack_into` leaves in the field: it clears the field before it
looks at the number. -/
def packed (n : Nat) : Bytes := if n < 2 ^ 32 then BigEndian.toBytes 4 n else List.replicate 4 0

@[simp] theorem length_packed (n : Nat) : (packed n).length = 4 := by
  unfold packed
  split
  · exact BigEndian.toBytes_length 4 n
  · rfl

/-- {lit}`struct.pack_into(">I", buf, off, n)`. -/
def packInto (off n : Nat) : Access Unit := do
  assign (fun buf => off + 4 ≤ buf.length) off (packed n) .structError
  if n < 2 ^ 32 then return () else throw .structError

/-! ## The ring -/

/-- {lit}`struct.calcsize(">4sQQ")`. -/
def headerSize : Nat := 20

def slotUsedOffset : Nat := 0

def slotLenOffset : Nat := 1

def slotDataOffset : Nat := 5

/-- {lit}`b"SHMR"`. -/
def ringMagic : Bytes := [0x53, 0x48, 0x4D, 0x52]

/-- One end of a ring; its segment is apart. -/
structure SharedMemoryRing where
  capacity : Nat
  slotSize : Nat
  owner : Bool
  writeIdx : Nat
  readIdx : Nat
deriving DecidableEq, Repr

namespace SharedMemoryRing

/-- {lit}`__init__`. -/
def new (capacity slotSize : Nat) (owner : Bool) : SharedMemoryRing :=
  ⟨capacity, slotSize, owner, 0, 0⟩

/-- Where the slot of an index starts. -/
def slotStart (capacity slotSize idx : Nat) : Nat := headerSize + idx % capacity * slotSize

/-- {lit}`_slot_offset`. -/
def slotOffset (capacity slotSize idx : Nat) : Except RingError Nat :=
  if capacity = 0 then .error .zeroDivisionError else .ok (slotStart capacity slotSize idx)

/-- {lit}`_slot`. -/
def slot (r : SharedMemoryRing) (idx : Nat) : Except RingError Nat :=
  slotOffset r.capacity r.slotSize idx

/-- The size that {lit}`create` asks for. -/
def total (capacity slotSize : Nat) : Nat := headerSize + capacity * slotSize

/-- The fields of {lit}`">4sQQ"`. -/
def header (capacity slotSize : Nat) : Bytes :=
  ringMagic ++ (BigEndian.toBytes 8 capacity ++ BigEndian.toBytes 8 slotSize)

/-- {lit}`struct.pack_into(">4sQQ", buf, 0, _MAGIC, capacity, slot_size)`. -/
def packHeader (buf : Bytes) (capacity slotSize : Nat) : Except RingError Bytes :=
  if headerSize ≤ buf.length ∧ capacity < 2 ^ 64 ∧ slotSize < 2 ^ 64 then
    .ok (Memory.store buf 0 (header capacity slotSize))
  else .error .structError

/-- One round of the loop of {lit}`create`. -/
def clearSlot (capacity slotSize : Nat) (buf : Bytes) (i : Nat) : Except RingError Bytes := do
  let off ← slotOffset capacity slotSize i
  if off + slotUsedOffset < buf.length then return Memory.store buf (off + slotUsedOffset) [0]
  else throw .indexError

/-- {lit}`create`, on the segment that the system made for it. -/
def create (segment : Bytes) (capacity slotSize : Nat) :
    Except RingError (Bytes × SharedMemoryRing) := do
  let buf ← packHeader segment capacity slotSize
  let buf ← (List.range capacity).foldlM (clearSlot capacity slotSize) buf
  return (buf, new capacity slotSize true)

/-- {lit}`attach`, on the segment that it found. -/
def attach (buf : Bytes) : Except RingError SharedMemoryRing :=
  if buf.length < headerSize then .error .structError
  else
    let magic := Memory.load buf 0 4
    let capacity := BigEndian.ofBytes (Memory.load buf 4 8)
    let slotSize := BigEndian.ofBytes (Memory.load buf 12 8)
    if magic ≠ ringMagic then .error (.valueError s!"bad ring magic: {reprBytes magic}")
    else .ok (new capacity slotSize false)

/-- {lit}`push_nowait`, with the ring it leaves. -/
def pushNowait (r : SharedMemoryRing) (data : Bytes) : Access (SharedMemoryRing × Unit) := do
  let maxPayload : Int := (r.slotSize : Int) - slotDataOffset
  if (data.length : Int) > maxPayload then
    throw (.valueError s!"payload {data.length} > slot capacity {maxPayload}")
  let off ← MonadExcept.ofExcept (r.slot r.writeIdx)
  let used ← getByte (off + slotUsedOffset)
  if used = 1 then throw .ringFull
  packInto (off + slotLenOffset) data.length
  setSlice (off + slotDataOffset) data
  setByte (off + slotUsedOffset) 1
  return ({ r with writeIdx := r.writeIdx + 1 }, ())

/-- {lit}`pop_nowait`, with the ring it leaves and the message. -/
def popNowait (r : SharedMemoryRing) : Access (SharedMemoryRing × Bytes) := do
  let off ← MonadExcept.ofExcept (r.slot r.readIdx)
  let used ← getByte (off + slotUsedOffset)
  if used = 0 then throw .ringEmpty
  let length ← unpackFrom (off + slotLenOffset)
  let data ← getSlice (off + slotDataOffset) length
  setByte (off + slotUsedOffset) 0
  return ({ r with readIdx := r.readIdx + 1 }, data)

/-! ## The calls access by access -/

/-- {lit}`push_nowait` once the data is written. -/
def publish (r : SharedMemoryRing) (off : Nat) : Access (SharedMemoryRing × Unit) := do
  setByte (off + slotUsedOffset) 1
  return ({ r with writeIdx := r.writeIdx + 1 }, ())

/-- {lit}`push_nowait` once the length is written. -/
def writeData (r : SharedMemoryRing) (off : Nat) (data : Bytes) :
    Access (SharedMemoryRing × Unit) := do
  setSlice (off + slotDataOffset) data
  r.publish off

/-- {lit}`push_nowait` once the slot is found free. -/
def writeMessage (r : SharedMemoryRing) (off : Nat) (data : Bytes) :
    Access (SharedMemoryRing × Unit) := do
  packInto (off + slotLenOffset) data.length
  r.writeData off data

/-- {lit}`push_nowait` once the offset is known. -/
def checkFree (r : SharedMemoryRing) (off : Nat) (data : Bytes) :
    Access (SharedMemoryRing × Unit) := do
  let used ← getByte (off + slotUsedOffset)
  if used = 1 then throw .ringFull else r.writeMessage off data

/-- {lit}`push_nowait` up to its first access. -/
theorem pushNowait_eq (r : SharedMemoryRing) (data : Bytes) :
    r.pushNowait data =
      (let maxPayload : Int := (r.slotSize : Int) - slotDataOffset
       if (data.length : Int) > maxPayload then
         throw (.valueError s!"payload {data.length} > slot capacity {maxPayload}")
       else do
         let off ← MonadExcept.ofExcept (r.slot r.writeIdx)
         r.checkFree off data) :=
  rfl

/-- {lit}`pop_nowait` once the data is read. -/
def release (r : SharedMemoryRing) (off : Nat) (data : Bytes) :
    Access (SharedMemoryRing × Bytes) := do
  setByte (off + slotUsedOffset) 0
  return ({ r with readIdx := r.readIdx + 1 }, data)

/-- {lit}`pop_nowait` once the length is read. -/
def readData (r : SharedMemoryRing) (off length : Nat) : Access (SharedMemoryRing × Bytes) := do
  let data ← getSlice (off + slotDataOffset) length
  r.release off data

/-- {lit}`pop_nowait` once the slot is found in use. -/
def readMessage (r : SharedMemoryRing) (off : Nat) : Access (SharedMemoryRing × Bytes) := do
  let length ← unpackFrom (off + slotLenOffset)
  r.readData off length

/-- {lit}`pop_nowait` once the offset is known. -/
def checkUsed (r : SharedMemoryRing) (off : Nat) : Access (SharedMemoryRing × Bytes) := do
  let used ← getByte (off + slotUsedOffset)
  if used = 0 then throw .ringEmpty else r.readMessage off

/-- {lit}`pop_nowait` up to its first access. -/
theorem popNowait_eq (r : SharedMemoryRing) :
    r.popNowait =
      (do
        let off ← MonadExcept.ofExcept (r.slot r.readIdx)
        r.checkUsed off) :=
  rfl

/-! ## Refused calls -/

/-- The exceptions with which a call is refused. -/
def refused : RingError → Prop
  | .ringFull | .ringEmpty | .valueError _ => True
  | _ => False

/-- An assignment is not refused. -/
theorem not_mayFail_assign (inside : Bytes → Bool) (off : Nat) (data : Bytes) {e : RingError}
    (he : ¬ refused e) : ¬ Prog.MayFail refused (assign inside off data e) := by
  intro ⟨buf, h⟩
  dsimp only at h
  by_cases hinside : inside buf
  · rw [if_pos hinside] at h
    exact h
  · rw [if_neg hinside] at h
    exact he h

/-- Writing a length is not refused. -/
theorem not_mayFail_packInto (off n : Nat) : ¬ Prog.MayFail refused (packInto off n) := by
  intro h
  rcases Prog.mayFail_bind h with h | ⟨_, h⟩
  · exact not_mayFail_assign _ _ _ id h
  · split at h
    · exact h
    · exact h

/-- Computing an offset makes no access. -/
theorem onlyReads_ofExcept {α : Type} (x : Except RingError α) :
    Prog.OnlyReads (MonadExcept.ofExcept x : Access α) := by
  cases x with
  | ok a => trivial
  | error e => trivial

/-- Looking at a byte updates nothing. -/
theorem onlyReads_getByte (off : Nat) : Prog.OnlyReads (getByte off) := ⟨rfl, fun _ => trivial⟩

/-- Reading a length updates nothing. -/
theorem onlyReads_unpackFrom (off : Nat) : Prog.OnlyReads (unpackFrom off) :=
  ⟨rfl, fun _ => trivial⟩

/-- Reading a slice updates nothing. -/
theorem onlyReads_getSlice (off n : Nat) : Prog.OnlyReads (getSlice off n) :=
  ⟨rfl, fun _ => trivial⟩

/-- A {lit}`push_nowait` updates nothing while it may still be refused. -/
theorem failsClean_pushNowait (r : SharedMemoryRing) (data : Bytes) :
    Prog.FailsClean refused (r.pushNowait data) := by
  rw [pushNowait_eq]
  dsimp only
  split
  · trivial
  · apply Prog.failsClean_bind (onlyReads_ofExcept _)
    intro off
    apply Prog.failsClean_bind (onlyReads_getByte _)
    intro used
    split
    · trivial
    · apply Prog.failsClean_of_not_mayFail
      intro h
      rcases Prog.mayFail_bind h with h | ⟨_, h⟩
      · exact not_mayFail_packInto _ _ h
      rcases Prog.mayFail_bind h with h | ⟨_, h⟩
      · exact not_mayFail_assign _ _ _ id h
      rcases Prog.mayFail_bind h with h | ⟨_, h⟩
      · exact not_mayFail_assign _ _ _ id h
      · exact h

/-- A {lit}`pop_nowait` updates nothing while it may still be refused. -/
theorem failsClean_popNowait (r : SharedMemoryRing) : Prog.FailsClean refused r.popNowait := by
  rw [popNowait_eq]
  apply Prog.failsClean_bind (onlyReads_ofExcept _)
  intro off
  apply Prog.failsClean_bind (onlyReads_getByte _)
  intro used
  split
  · trivial
  · apply Prog.failsClean_bind (onlyReads_unpackFrom _)
    intro length
    apply Prog.failsClean_bind (onlyReads_getSlice _ _)
    intro data
    apply Prog.failsClean_of_not_mayFail
    intro h
    rcases Prog.mayFail_bind h with h | ⟨_, h⟩
    · exact not_mayFail_assign _ _ _ id h
    · exact h

/-! ## Where slots lie -/

variable {capacity slotSize : Nat}

/-- A slot lies within the size that {lit}`create` asks for. -/
theorem slotStart_add_le_total (slotSize : Nat) (hcapacity : 0 < capacity) (i : Nat) :
    slotStart capacity slotSize i + slotSize ≤ total capacity slotSize := by
  have hmod : i % capacity + 1 ≤ capacity := Nat.mod_lt i hcapacity
  have hmul := Nat.mul_le_mul_right slotSize hmod
  rw [Nat.add_mul, Nat.one_mul] at hmul
  simp only [slotStart, total]
  omega

/-- What lies in one slot does not overlap another slot. -/
theorem slotStart_apart_of_mod {i j pos n : Nat} (hmod : i % capacity ≠ j % capacity)
    (hlow : slotStart capacity slotSize j ≤ pos)
    (hhigh : pos + n ≤ slotStart capacity slotSize j + slotSize) :
    slotStart capacity slotSize i + slotSize ≤ pos ∨ pos + n ≤ slotStart capacity slotSize i := by
  have hslots : ∀ {a b : Nat}, a < b → a * slotSize + slotSize ≤ b * slotSize := by
    intro a b hab
    have hmul := Nat.mul_le_mul_right slotSize hab
    rwa [Nat.succ_mul] at hmul
  simp only [slotStart] at hlow hhigh ⊢
  rcases Nat.lt_or_gt_of_ne hmod with hlt | hgt
  · have := hslots hlt
    omega
  · have := hslots hgt
    omega

/-- What lies in the slot of one index does not overlap the slot of another index of
the round. -/
theorem slotStart_apart {i j k pos n : Nat} (hi : k ≤ i ∧ i < k + capacity)
    (hj : k ≤ j ∧ j < k + capacity) (hne : i ≠ j) (hlow : slotStart capacity slotSize j ≤ pos)
    (hhigh : pos + n ≤ slotStart capacity slotSize j + slotSize) :
    slotStart capacity slotSize i + slotSize ≤ pos ∨ pos + n ≤ slotStart capacity slotSize i := by
  have hmem : ∀ {l : Nat}, k ≤ l ∧ l < k + capacity → l ∈ Finset.Ico k (k + capacity) := by
    intro l hl
    rwa [Finset.mem_Ico]
  apply slotStart_apart_of_mod _ hlow hhigh
  intro hmod
  exact hne (Nat.mod_injOn_Ico k capacity (hmem hi) (hmem hj) hmod)

/-- A slot and the slot a whole round later are the same. -/
theorem slotStart_add_capacity (i : Nat) :
    slotStart capacity slotSize (i + capacity) = slotStart capacity slotSize i := by
  rw [slotStart, slotStart, Nat.add_mod_right]

end SharedMemoryRing

/-! ## The queue in the segment -/

open SharedMemoryRing

/-- A slot in use, with its message. -/
structure Holds (buf : Bytes) (off : Nat) (msg : Bytes) : Prop where
  used : buf[off]? = some 1
  length : Memory.load buf (off + slotLenOffset) 4 = BigEndian.toBytes 4 msg.length
  data : Memory.load buf (off + slotDataOffset) msg.length = msg

/-- A message that a slot can hold. -/
def Fits (slotSize : Nat) (msg : Bytes) : Prop :=
  slotDataOffset + msg.length ≤ slotSize ∧ msg.length < 2 ^ 32

/-- The messages that were sent and not received lie in the slots of their numbers;
the other slots of the round are free. -/
structure Queued (capacity slotSize : Nat) (buf : Bytes) (sent received : List Bytes) : Prop where
  size : total capacity slotSize ≤ buf.length
  isPrefix : received <+: sent
  inFlight : sent.length ≤ received.length + capacity
  fits : ∀ msg ∈ sent, Fits slotSize msg
  full : ∀ i msg, received.length ≤ i → sent[i]? = some msg →
    Holds buf (slotStart capacity slotSize i) msg
  free : ∀ i, sent.length ≤ i → i < received.length + capacity →
    buf[slotStart capacity slotSize i]? = some 0

section Frame

variable {buf bs msg : Bytes} {off pos slotSize : Nat}

/-- A store outside a slot leaves its used byte. -/
theorem getElem?_store_of_apart (hfit : pos + bs.length ≤ buf.length) (hpos : 0 < slotSize)
    (hapart : off + slotSize ≤ pos ∨ pos + bs.length ≤ off) :
    (Memory.store buf pos bs)[off]? = buf[off]? := by
  rw [Memory.getElem?_store hfit, if_neg]
  omega

/-- A store outside a slot leaves its message. -/
theorem Holds.store (h : Holds buf off msg) (hmsg : Fits slotSize msg)
    (hfit : pos + bs.length ≤ buf.length)
    (hapart : off + slotSize ≤ pos ∨ pos + bs.length ≤ off) :
    Holds (Memory.store buf pos bs) off msg := by
  have hsize := hmsg.1
  simp only [slotDataOffset] at hsize
  constructor
  · rw [getElem?_store_of_apart hfit (by omega) hapart]
    exact h.used
  · rw [Memory.load_store_of_disjoint hfit (by simp only [slotLenOffset]; omega)]
    exact h.length
  · rw [Memory.load_store_of_disjoint hfit (by simp only [slotDataOffset]; omega)]
    exact h.data

end Frame

namespace Queued

variable {capacity slotSize : Nat} {buf bs msg : Bytes} {sent received : List Bytes} {pos : Nat}

/-- The length and the data of the next slot may be written. -/
theorem store (h : Queued capacity slotSize buf sent received)
    (hroom : sent.length < received.length + capacity)
    (hlow : slotStart capacity slotSize sent.length < pos)
    (hhigh : pos + bs.length ≤ slotStart capacity slotSize sent.length + slotSize) :
    Queued capacity slotSize (Memory.store buf pos bs) sent received := by
  have htaken := h.isPrefix.length_le
  have hcapacity : 0 < capacity := by omega
  have hfit : pos + bs.length ≤ buf.length :=
    (hhigh.trans (slotStart_add_le_total slotSize hcapacity _)).trans h.size
  have hapart : ∀ i, received.length ≤ i → i < received.length + capacity → i ≠ sent.length →
      slotStart capacity slotSize i + slotSize ≤ pos ∨
        pos + bs.length ≤ slotStart capacity slotSize i := by
    intro i hlo hhi hne
    exact slotStart_apart ⟨hlo, hhi⟩ ⟨htaken, hroom⟩ hne hlow.le hhigh
  constructor
  · rw [Memory.length_store hfit]
    exact h.size
  · exact h.isPrefix
  · exact h.inFlight
  · exact h.fits
  · intro i msg hi hmsg
    have hlt : i < sent.length := (List.getElem?_eq_some_iff.mp hmsg).1
    exact (h.full i msg hi hmsg).store (h.fits msg (List.mem_of_getElem? hmsg)) hfit
      (hapart i hi (by omega) (by omega))
  · intro i hi hlt
    rw [← h.free i hi hlt]
    by_cases hnext : i = sent.length
    · rw [Memory.getElem?_store hfit, if_neg]
      rw [hnext]
      omega
    · exact getElem?_store_of_apart hfit (by omega) (hapart i (by omega) hlt hnext)

/-- Setting the used byte of a written slot sends its message. -/
theorem publish (h : Queued capacity slotSize buf sent received)
    (hroom : sent.length < received.length + capacity) (hfits : Fits slotSize msg)
    (hlength : Memory.load buf (slotStart capacity slotSize sent.length + slotLenOffset) 4 =
      BigEndian.toBytes 4 msg.length)
    (hdata : Memory.load buf (slotStart capacity slotSize sent.length + slotDataOffset) msg.length =
      msg) :
    Queued capacity slotSize (Memory.store buf (slotStart capacity slotSize sent.length) [1])
      (sent ++ [msg]) received := by
  have htaken := h.isPrefix.length_le
  have hcapacity : 0 < capacity := by omega
  have hslot := hfits.1
  simp only [slotDataOffset] at hslot
  have hstart := slotStart_add_le_total slotSize hcapacity sent.length
  have hfit : slotStart capacity slotSize sent.length + [(1 : UInt8)].length ≤ buf.length := by
    have hsize := h.size
    simp only [List.length_singleton]
    omega
  have hapart : ∀ i, received.length ≤ i → i < received.length + capacity → i ≠ sent.length →
      slotStart capacity slotSize i + slotSize ≤ slotStart capacity slotSize sent.length ∨
        slotStart capacity slotSize sent.length + [(1 : UInt8)].length ≤
          slotStart capacity slotSize i := by
    intro i hlo hhi hne
    apply slotStart_apart ⟨hlo, hhi⟩ ⟨htaken, hroom⟩ hne le_rfl
    rw [List.length_singleton]
    omega
  constructor
  · rw [Memory.length_store hfit]
    exact h.size
  · exact h.isPrefix.trans (List.prefix_append sent [msg])
  · rw [List.length_append, List.length_singleton]
    exact hroom
  · intro m hm
    rcases List.mem_append.mp hm with hm | hm
    · exact h.fits m hm
    · rw [List.mem_singleton.mp hm]
      exact hfits
  · intro i m hi hm
    by_cases hlast : i = sent.length
    · rw [hlast, List.getElem?_concat_length] at hm
      cases hm
      rw [hlast]
      constructor
      · rw [Memory.getElem?_store hfit, if_pos (by simp), Nat.sub_self]
        rfl
      · rw [Memory.load_store_of_disjoint hfit (.inr (by simp [slotLenOffset]))]
        exact hlength
      · rw [Memory.load_store_of_disjoint hfit (.inr (by simp [slotDataOffset]))]
        exact hdata
    · have hlt : i < (sent ++ [msg]).length := (List.getElem?_eq_some_iff.mp hm).1
      rw [List.length_append, List.length_singleton] at hlt
      rw [List.getElem?_append_left (by omega)] at hm
      exact (h.full i m hi hm).store (h.fits m (List.mem_of_getElem? hm)) hfit
        (hapart i hi (by omega) hlast)
  · intro i hi hlt
    rw [List.length_append, List.length_singleton] at hi
    rw [← h.free i (by omega) hlt]
    exact getElem?_store_of_apart hfit (by omega) (hapart i (by omega) hlt (by omega))

/-- Clearing the used byte of the oldest slot receives its message. -/
theorem release (h : Queued capacity slotSize buf sent received)
    (hmsg : sent[received.length]? = some msg) :
    Queued capacity slotSize (Memory.store buf (slotStart capacity slotSize received.length) [0])
      sent (received ++ [msg]) := by
  have hlt : received.length < sent.length := (List.getElem?_eq_some_iff.mp hmsg).1
  have hinFlight := h.inFlight
  have hcapacity : 0 < capacity := by omega
  have hslot := (h.fits msg (List.mem_of_getElem? hmsg)).1
  simp only [slotDataOffset] at hslot
  have hstart := slotStart_add_le_total slotSize hcapacity received.length
  have hfit : slotStart capacity slotSize received.length + [(0 : UInt8)].length ≤ buf.length := by
    have hsize := h.size
    simp only [List.length_singleton]
    omega
  have hapart : ∀ i, received.length < i → i < received.length + capacity →
      slotStart capacity slotSize i + slotSize ≤ slotStart capacity slotSize received.length ∨
        slotStart capacity slotSize received.length + [(0 : UInt8)].length ≤
          slotStart capacity slotSize i := by
    intro i hlo hhi
    have holdest : received.length ≤ received.length ∧
        received.length < received.length + capacity := ⟨le_rfl, by omega⟩
    apply slotStart_apart ⟨hlo.le, hhi⟩ holdest hlo.ne' le_rfl
    rw [List.length_singleton]
    omega
  constructor
  · rw [Memory.length_store hfit]
    exact h.size
  · have ⟨rest, hrest⟩ := h.isPrefix
    rw [← hrest, List.getElem?_append_right le_rfl, Nat.sub_self] at hmsg
    cases rest with
    | nil => cases hmsg
    | cons first rest =>
        cases hmsg
        exact ⟨rest, by rw [← hrest, List.append_assoc, List.singleton_append]⟩
  · rw [List.length_append, List.length_singleton]
    omega
  · exact h.fits
  · intro i m hi hm
    rw [List.length_append, List.length_singleton] at hi
    have hi' : i < sent.length := (List.getElem?_eq_some_iff.mp hm).1
    exact (h.full i m (by omega) hm).store (h.fits m (List.mem_of_getElem? hm)) hfit
      (hapart i (by omega) (by omega))
  · intro i hi hlt'
    rw [List.length_append, List.length_singleton] at hlt'
    by_cases hround : i = received.length + capacity
    · rw [hround, slotStart_add_capacity, Memory.getElem?_store hfit, if_pos (by simp), Nat.sub_self]
      rfl
    · rw [← h.free i hi (by omega)]
      exact getElem?_store_of_apart hfit (by omega) (hapart i (by omega) (by omega))

end Queued

/-! ## A created ring -/

namespace SharedMemoryRing

variable {capacity slotSize : Nat} {segment buf : Bytes}

/-- The loop of {lit}`create` clears the used bytes and leaves the header. -/
theorem foldlM_clearSlot (hslot : 0 < slotSize) (hsize : total capacity slotSize ≤ buf.length) {n : Nat}
    (hn : n ≤ capacity) :
    ∃ cleared, (List.range n).foldlM (clearSlot capacity slotSize) buf = .ok cleared ∧
      cleared.length = buf.length ∧
      Memory.load cleared 0 headerSize = Memory.load buf 0 headerSize ∧
      ∀ i < n, cleared[slotStart capacity slotSize i]? = some 0 := by
  induction n with
  | zero => exact ⟨buf, rfl, rfl, rfl, fun i hi => absurd hi (Nat.not_lt_zero i)⟩
  | succ n ih =>
      have ⟨before, hfold, hlength, hheader, hclear⟩ := ih (Nat.le_of_succ_le hn)
      have hcapacity : 0 < capacity := Nat.zero_lt_of_lt hn
      have hstart := slotStart_add_le_total slotSize hcapacity n
      have hin : slotStart capacity slotSize n < before.length := by omega
      have hround : clearSlot capacity slotSize before n =
          .ok (Memory.store before (slotStart capacity slotSize n) [0]) := by
        simp only [clearSlot, slotOffset, if_neg hcapacity.ne', slotUsedOffset, Nat.add_zero]
        exact if_pos hin
      refine ⟨Memory.store before (slotStart capacity slotSize n) [0], ?_, ?_, ?_, ?_⟩
      · rw [List.range_succ, List.foldlM_append, hfold]
        simp only [List.foldlM_cons, List.foldlM_nil]
        exact congrArg (· >>= pure) hround
      · rw [Memory.length_store hin, hlength]
      · rw [Memory.load_store_of_disjoint hin (.inl _), hheader]
        simp only [slotStart]
        omega
      · intro i hi
        rw [Memory.getElem?_store hin]
        by_cases hlast : i = n
        · rw [if_pos (by simp [hlast]), hlast, Nat.sub_self]
          rfl
        · have hapart : slotStart capacity slotSize i + slotSize ≤ slotStart capacity slotSize n ∨
              slotStart capacity slotSize n + 1 ≤ slotStart capacity slotSize i :=
            slotStart_apart (k := 0) ⟨Nat.zero_le i, by omega⟩ ⟨Nat.zero_le n, by omega⟩ hlast
              le_rfl (by omega)
          rw [if_neg, hclear i (by omega)]
          rw [List.length_singleton]
          omega

/-- {lit}`attach` reads the header. -/
theorem attach_of_header (hsize : headerSize ≤ buf.length) (hcapacity : capacity < 2 ^ 64)
    (hslot : slotSize < 2 ^ 64)
    (hheader : Memory.load buf 0 headerSize = header capacity slotSize) :
    attach buf = .ok (new capacity slotSize false) := by
  have hpart : ∀ pos n, pos + n ≤ headerSize →
      Memory.load buf pos n = Memory.load (header capacity slotSize) pos n := by
    intro pos n hpos
    rw [← hheader, Memory.load_load hpos, Nat.zero_add]
  have hmagic : Memory.load buf 0 4 = ringMagic := hpart 0 4 (by decide)
  have hcap : Memory.load buf 4 8 = BigEndian.toBytes 8 capacity := by
    rw [hpart 4 8 (by decide)]
    rfl
  have hsize' : Memory.load buf 12 8 = BigEndian.toBytes 8 slotSize := by
    rw [hpart 12 8 (by decide)]
    rfl
  have hread : ∀ n < 2 ^ 64, BigEndian.ofBytes (BigEndian.toBytes 8 n) = n :=
    fun n hn => BigEndian.ofBytes_toBytes hn
  simp only [attach, hmagic, hcap, hsize', hread _ hcapacity, hread _ hslot]
  rw [if_neg (Nat.not_lt.mpr hsize), if_neg (not_not.mpr rfl)]

/-- A created ring holds no message, and {lit}`attach` finds its shape in the
header. -/
theorem attach_create {ring : SharedMemoryRing} (hslot : 0 < slotSize)
    (hsize : total capacity slotSize ≤ segment.length)
    (hcreate : create segment capacity slotSize = .ok (buf, ring)) :
    Queued capacity slotSize buf [] [] ∧ ring = new capacity slotSize true ∧
      attach buf = .ok (new capacity slotSize false) := by
  by_cases hfit : headerSize ≤ segment.length ∧ capacity < 2 ^ 64 ∧ slotSize < 2 ^ 64
  · have hlength : (header capacity slotSize).length = headerSize := by
      simp [header, ringMagic, headerSize]
    have hstore : 0 + (header capacity slotSize).length ≤ segment.length := by
      rw [hlength, Nat.zero_add]
      exact hfit.1
    have hkept := Memory.length_store hstore
    have hpacked := Memory.load_store hstore
    rw [hlength] at hpacked
    have ⟨cleared, hfold, hcleared, hheader, hfree⟩ :=
      foldlM_clearSlot hslot (hsize.trans hkept.ge) (le_refl capacity)
    simp only [create, packHeader, if_pos hfit, bind, Except.bind, hfold] at hcreate
    cases hcreate
    have hlast : buf.length = segment.length := hcleared.trans hkept
    refine ⟨⟨?_, List.prefix_rfl, ?_, ?_, ?_, ?_⟩, rfl, ?_⟩
    · rw [hlast]
      exact hsize
    · exact Nat.zero_le _
    · exact fun msg hmsg => absurd hmsg List.not_mem_nil
    · exact fun i msg _ hmsg => absurd hmsg (by simp)
    · exact fun i _ hi => hfree i (by simpa using hi)
    · exact attach_of_header (hlast ▸ hfit.1) hfit.2.1 hfit.2.2 (hheader.trans hpacked)
  · simp only [create, packHeader, if_neg hfit, bind, Except.bind] at hcreate
    cases hcreate

end SharedMemoryRing

end Aicl.Transport

import Aicl.CoreRust.Codec
import Aicl.Foundation.SharedMemory

/-!
# The local ring of the Rust core

{lit}`RingHeader`, {lit}`SlotHeader`, {lit}`LocalRingBuffer` and
{lit}`RingBorrow` of {lit}`core-rust/src/local_path.rs`.  The two counters of the
header and the offset of a slot are {lit}`u64` and wrap around; {lit}`usize` is as
wide.  Pointers into the slots are offsets from the first slot.  A slot header has
the layout of a little-endian target.

Main results:

- Theorem {lit}`SlotHeader.ofBytes_toBytes`: a slot header is read back.
- Theorem {lit}`LocalRingBuffer.HasRegion.slot_le`: slots of a ring whose size did not
  overflow lie in its region.
- Theorem {lit}`LocalRingBuffer.HasRegion.slot_apart`: slots at different offsets do
  not overlap.
-/

namespace Aicl.CoreRust

open Outcome (failIf okOr)

/-- {lit}`MAX_SLOT_SIZE`. -/
def MAX_SLOT_SIZE : UInt64 := 1024 * 1024

/-! ## The ring header -/

/-- The header of the region; the padding of the counters is left out. -/
structure RingHeader where
  capacity : UInt64
  slotSize : UInt64
  head : UInt64
  tail : UInt64
deriving DecidableEq, Repr

namespace RingHeader

/-- {lit}`RingHeader::SIZE`: three cache lines with the padding. -/
def SIZE : UInt64 := 192

/-- {lit}`new`. -/
def new (capacity slotSize : UInt64) : RingHeader := ⟨capacity, slotSize, 0, 0⟩

/-- {lit}`free_slots`. -/
def freeSlots (h : RingHeader) : UInt64 := h.capacity - (h.tail - h.head)

/-- {lit}`pending_slots`. -/
def pendingSlots (h : RingHeader) : UInt64 := h.tail - h.head

/-- {lit}`reserve`. -/
def reserve (h : RingHeader) : Option UInt64 :=
  if h.capacity ≤ h.tail - h.head then none else some h.tail

/-- {lit}`commit`. -/
def commit (h : RingHeader) : RingHeader := { h with tail := h.tail + 1 }

/-- {lit}`acquire`. -/
def acquire (h : RingHeader) : Option UInt64 := if h.head = h.tail then none else some h.head

/-- {lit}`release`. -/
def release (h : RingHeader) : RingHeader := { h with head := h.head + 1 }

/-- {lit}`slot_offset`. -/
def slotOffset (h : RingHeader) (index : UInt64) : UInt64 := index % h.capacity * h.slotSize

end RingHeader

/-! ## The slot header -/

/-- The header of a slot. -/
structure SlotHeader where
  payloadLen : UInt32
  opcode : UInt8
  flagsLo : UInt8
  reserved : UInt16
deriving DecidableEq, Repr

namespace SlotHeader

/-- {lit}`SlotHeader::SIZE`. -/
def SIZE : UInt64 := 8

/-- {lit}`new`. -/
def new (payloadLen : UInt32) (opcode flagsLo : UInt8) : SlotHeader := ⟨payloadLen, opcode, flagsLo, 0⟩

/-- The slot header that {lit}`push` writes for a frame. -/
def ofFrame (data : Bytes) : SlotHeader :=
  new (UInt32.ofNat data.length) (if headerSize < data.length then data.getD headerSize 0 else 0)
    (if 6 < data.length then data.getD 6 0 else 0)

/-- A slot header in memory. -/
def toBytes (h : SlotHeader) : Bytes :=
  (BigEndian.toBytes 4 h.payloadLen.toNat).reverse ++
    (h.opcode :: h.flagsLo :: (BigEndian.toBytes 2 h.reserved.toNat).reverse)

/-- {lit}`ptr::read_unaligned`. -/
def ofBytes (bs : Bytes) : SlotHeader where
  payloadLen := UInt32.ofNat (BigEndian.ofBytes (bs.take 4).reverse)
  opcode := bs.getD 4 0
  flagsLo := bs.getD 5 0
  reserved := UInt16.ofNat (BigEndian.ofBytes ((bs.drop 6).take 2).reverse)

@[simp] theorem length_toBytes (h : SlotHeader) : h.toBytes.length = SIZE.toNat := by
  simp only [toBytes, List.length_append, List.length_reverse, BigEndian.toBytes_length,
    List.length_cons]
  rfl

/-- A slot header is read back. -/
theorem ofBytes_toBytes (h : SlotHeader) : ofBytes h.toBytes = h := by
  have hlen : (BigEndian.toBytes 4 h.payloadLen.toNat).reverse.length = 4 := by simp
  have hres : (BigEndian.toBytes 2 h.reserved.toNat).reverse.length = 2 := by simp
  have htake : h.toBytes.take 4 = (BigEndian.toBytes 4 h.payloadLen.toNat).reverse :=
    List.take_left' hlen
  have hdrop : ∀ n, h.toBytes.drop (4 + n) =
      (h.opcode :: h.flagsLo :: (BigEndian.toBytes 2 h.reserved.toNat).reverse).drop n := by
    intro n
    rw [← List.drop_drop, toBytes, List.drop_left' hlen]
  have hget : ∀ n, h.toBytes.getD (4 + n) 0 =
      (h.opcode :: h.flagsLo :: (BigEndian.toBytes 2 h.reserved.toNat).reverse).getD n 0 := by
    intro n
    rw [List.getD_eq_getElem?_getD, List.getD_eq_getElem?_getD, ← List.getElem?_drop]
    rw [toBytes, List.drop_left' hlen]
  have hlast : (h.toBytes.drop 6).take 2 = (BigEndian.toBytes 2 h.reserved.toNat).reverse := by
    rw [hdrop 2]
    exact List.take_of_length_le hres.le
  have hpayload : BigEndian.ofBytes (BigEndian.toBytes 4 h.payloadLen.toNat) = h.payloadLen.toNat :=
    BigEndian.ofBytes_toBytes h.payloadLen.toNat_lt
  have hreserved : BigEndian.ofBytes (BigEndian.toBytes 2 h.reserved.toNat) = h.reserved.toNat :=
    BigEndian.ofBytes_toBytes h.reserved.toNat_lt
  have hopcode : h.toBytes.getD 4 0 = h.opcode := hget 0
  have hflags : h.toBytes.getD 5 0 = h.flagsLo := hget 1
  simp only [ofBytes, htake, hlast, hopcode, hflags, List.reverse_reverse, hpayload, hreserved,
    UInt32.ofNat_toNat, UInt16.ofNat_toNat]

end SlotHeader

/-! ## The ring buffer -/

/-- A view into a slot: an offset from the first slot, a length, and a copy of the
slot header. -/
structure RingBorrow where
  dataStart : Nat
  dataLen : Nat
  slotHdr : SlotHeader
deriving DecidableEq, Repr

/-- The region, with what a handle keeps of its shape. -/
structure LocalRingBuffer where
  header : RingHeader
  slots : Bytes
  regionSize : UInt64
  capacity : UInt64
  slotSize : UInt64
deriving DecidableEq, Repr

namespace LocalRingBuffer

/-- The region that {lit}`new` asks for; the product and the sum wrap around. -/
def regionSizeFor (capacity slotSize : UInt64) : UInt64 := RingHeader.SIZE + capacity * slotSize

/-- {lit}`new`: its assertions, and the panic of {lit}`vec!` above
{lit}`isize::MAX`. -/
def new (capacity slotSize : UInt64) : AiclResult LocalRingBuffer :=
  if capacity = 0 ∨ slotSize < 256 ∨ MAX_SLOT_SIZE < slotSize ∨
      2 ^ 63 ≤ (regionSizeFor capacity slotSize).toNat then .panic
  else
    .ok
      { header := RingHeader.new capacity slotSize
        slots := List.replicate
          ((regionSizeFor capacity slotSize).toNat - RingHeader.SIZE.toNat) 0
        regionSize := regionSizeFor capacity slotSize
        capacity
        slotSize }

variable (ring : LocalRingBuffer)

/-- {lit}`slot_ptr`, from the first slot. -/
def slotPtr (index : UInt64) : Nat := (ring.header.slotOffset index).toNat

/-- The bytes of a slot that are left for a frame. -/
def slotCapacity : UInt64 := ring.slotSize - SlotHeader.SIZE

/-- {lit}`ptr::write_unaligned(slot_ptr, slot_hdr)`. -/
def writeSlotHeader (index : UInt64) (data : Bytes) : LocalRingBuffer :=
  { ring with slots := Memory.store ring.slots (ring.slotPtr index) (SlotHeader.ofFrame data).toBytes }

/-- {lit}`ptr::copy_nonoverlapping(data, data_start, data.len())`. -/
def writeData (index : UInt64) (data : Bytes) : LocalRingBuffer :=
  { ring with slots := Memory.store ring.slots (ring.slotPtr index + SlotHeader.SIZE.toNat) data }

/-- {lit}`header.commit()`. -/
def commit : LocalRingBuffer := { ring with header := ring.header.commit }

/-- {lit}`push` up to its first write: the reserved index. -/
def reserve (data : Bytes) : AiclResult UInt64 := do
  let slotIdx ← okOr ring.header.reserve (.new .backpressure "ring buffer full")
  failIf (ring.slotCapacity.toNat < data.length)
    (.new .payloadTooLarge s!"payload {data.length} > slot capacity {ring.slotCapacity}")
  pure slotIdx

/-- {lit}`push`. -/
def push (data : Bytes) : AiclResult LocalRingBuffer := do
  let slotIdx ← ring.reserve data
  pure ((ring.writeSlotHeader slotIdx data).writeData slotIdx data).commit

/-- {lit}`ptr::read_unaligned(slot_ptr)`. -/
def readSlotHeader (index : UInt64) : SlotHeader :=
  SlotHeader.ofBytes (Memory.load ring.slots (ring.slotPtr index) SlotHeader.SIZE.toNat)

/-- The borrow of a slot. -/
def borrow (index : UInt64) : RingBorrow where
  dataStart := ring.slotPtr index + SlotHeader.SIZE.toNat
  dataLen := (ring.readSlotHeader index).payloadLen.toNat
  slotHdr := ring.readSlotHeader index

/-- {lit}`header.release()`. -/
def release : LocalRingBuffer := { ring with header := ring.header.release }

/-- {lit}`try_pop`, with the ring it leaves. -/
def tryPop : Option (RingBorrow × LocalRingBuffer) := do
  let slotIdx ← ring.header.acquire
  some (ring.borrow slotIdx, ring.release)

end LocalRingBuffer

/-- {lit}`RingBorrow::data`: what lies in the region when it is read. -/
def RingBorrow.data (b : RingBorrow) (ring : LocalRingBuffer) : Bytes :=
  Memory.load ring.slots b.dataStart b.dataLen

/-! ## Where slots lie -/

namespace LocalRingBuffer

/-- A ring whose region has room for all its slots. -/
structure HasRegion (ring : LocalRingBuffer) : Prop where
  capacity_pos : 0 < ring.header.capacity.toNat
  slotSize_ge : 256 ≤ ring.header.slotSize.toNat
  slotSize_le : ring.header.slotSize.toNat ≤ 2 ^ 20
  fits : ring.header.capacity.toNat * ring.header.slotSize.toNat < 2 ^ 64
  length_slots : ring.slots.length = ring.header.capacity.toNat * ring.header.slotSize.toNat
  slotSize_eq : ring.slotSize = ring.header.slotSize

variable {ring : LocalRingBuffer} {index other : UInt64}

/-- A ring that {lit}`new` gave, with what was checked. -/
structure IsNew (ring : LocalRingBuffer) (capacity slotSize : UInt64) : Prop where
  capacity_pos : 0 < capacity.toNat
  slotSize_ge : 256 ≤ slotSize.toNat
  slotSize_le : slotSize.toNat ≤ 2 ^ 20
  size_lt : (regionSizeFor capacity slotSize).toNat < 2 ^ 63
  header_eq : ring.header = RingHeader.new capacity slotSize
  length_slots : ring.slots.length =
    (regionSizeFor capacity slotSize).toNat - RingHeader.SIZE.toNat
  regionSize_eq : ring.regionSize = regionSizeFor capacity slotSize
  slotSize_eq : ring.slotSize = slotSize

/-- What {lit}`new` gives. -/
theorem isNew_of_new {capacity slotSize : UInt64} (hnew : new capacity slotSize = .ok ring) :
    IsNew ring capacity slotSize := by
  unfold new at hnew
  split at hnew
  · cases hnew
  · next hchecks =>
      rw [not_or, not_or, not_or, UInt64.lt_iff_toNat_lt, UInt64.lt_iff_toNat_lt] at hchecks
      rcases hchecks with ⟨hcapacity, hlow, hhigh, hregion⟩
      cases hnew
      have hpos : 0 < capacity.toNat := by
        apply Nat.pos_of_ne_zero
        intro hzero
        exact hcapacity (UInt64.toNat_inj.mp hzero)
      constructor
      · exact hpos
      · exact Nat.not_lt.mp hlow
      · exact Nat.not_lt.mp hhigh
      · exact Nat.not_le.mp hregion
      · rfl
      · rw [List.length_replicate]
      · rfl
      · rfl

/-- The size of the region as a number. -/
theorem regionSizeFor_toNat (capacity slotSize : UInt64) :
    (regionSizeFor capacity slotSize).toNat =
      (RingHeader.SIZE.toNat + capacity.toNat * slotSize.toNat) % 2 ^ 64 := by
  rw [regionSizeFor, UInt64.toNat_add, UInt64.toNat_mul, Nat.add_mod_mod]

/-- A new ring has its region when the size did not overflow. -/
theorem hasRegion_new {capacity slotSize : UInt64} (hnew : new capacity slotSize = .ok ring)
    (hfits : RingHeader.SIZE.toNat + capacity.toNat * slotSize.toNat < 2 ^ 64) :
    HasRegion ring ∧ ring.header = RingHeader.new capacity slotSize := by
  have h := isNew_of_new hnew
  have hsize := (regionSizeFor_toNat capacity slotSize).trans (Nat.mod_eq_of_lt hfits)
  have hlength := h.length_slots
  rw [hsize, Nat.add_sub_cancel_left] at hlength
  refine ⟨?_, h.header_eq⟩
  constructor
  · rw [h.header_eq]
    exact h.capacity_pos
  · rw [h.header_eq]
    exact h.slotSize_ge
  · rw [h.header_eq]
    exact h.slotSize_le
  · rw [h.header_eq]
    exact lt_of_le_of_lt (Nat.le_add_left _ _) hfits
  · rw [h.header_eq]
    exact hlength
  · rw [h.header_eq, h.slotSize_eq]
    rfl

/-- A commit leaves the region. -/
theorem HasRegion.commit (h : HasRegion ring) : HasRegion ring.commit :=
  ⟨h.capacity_pos, h.slotSize_ge, h.slotSize_le, h.fits, h.length_slots, h.slotSize_eq⟩

/-- A release leaves the region. -/
theorem HasRegion.release (h : HasRegion ring) : HasRegion ring.release :=
  ⟨h.capacity_pos, h.slotSize_ge, h.slotSize_le, h.fits, h.length_slots, h.slotSize_eq⟩

/-- The offset of a slot as a number. -/
theorem HasRegion.slotPtr_eq (h : HasRegion ring) (index : UInt64) :
    ring.slotPtr index = index.toNat % ring.header.capacity.toNat * ring.header.slotSize.toNat := by
  have hmod := Nat.mod_lt index.toNat h.capacity_pos
  have hle := Nat.mul_le_mul_right ring.header.slotSize.toNat hmod.le
  rw [slotPtr, RingHeader.slotOffset, UInt64.toNat_mul, UInt64.toNat_mod]
  exact Nat.mod_eq_of_lt (hle.trans_lt h.fits)

/-- Slots lie in the region. -/
theorem HasRegion.slot_le (h : HasRegion ring) (index : UInt64) :
    ring.slotPtr index + ring.header.slotSize.toNat ≤ ring.slots.length := by
  have hmod : index.toNat % ring.header.capacity.toNat + 1 ≤ ring.header.capacity.toNat :=
    Nat.mod_lt index.toNat h.capacity_pos
  have hmul := Nat.mul_le_mul_right ring.header.slotSize.toNat hmod
  rwa [Nat.succ_mul, ← h.slotPtr_eq, ← h.length_slots] at hmul

/-- Slots at different offsets do not overlap. -/
theorem HasRegion.slot_apart (h : HasRegion ring) (hne : ring.slotPtr index ≠ ring.slotPtr other) :
    ring.slotPtr index + ring.header.slotSize.toNat ≤ ring.slotPtr other ∨
      ring.slotPtr other + ring.header.slotSize.toNat ≤ ring.slotPtr index := by
  have hslots : ∀ {a b : Nat}, a < b →
      a * ring.header.slotSize.toNat + ring.header.slotSize.toNat ≤ b * ring.header.slotSize.toNat := by
    intro a b hab
    have hmul := Nat.mul_le_mul_right ring.header.slotSize.toNat hab
    rwa [Nat.succ_mul] at hmul
  rw [h.slotPtr_eq, h.slotPtr_eq] at hne ⊢
  rcases Nat.lt_or_gt_of_ne fun heq => hne (congrArg (· * _) heq) with hlt | hgt
  · exact .inl (hslots hlt)
  · exact .inr (hslots hgt)

/-- The bytes that a slot has left for a frame. -/
theorem HasRegion.slotCapacity_toNat (h : HasRegion ring) :
    ring.slotCapacity.toNat + SlotHeader.SIZE.toNat = ring.header.slotSize.toNat := by
  have hsize := h.slotSize_ge
  have hle : SlotHeader.SIZE ≤ ring.header.slotSize := by
    rw [UInt64.le_iff_toNat_le]
    exact (Nat.le_of_ble_eq_true rfl : 8 ≤ 256).trans hsize
  rw [slotCapacity, h.slotSize_eq, UInt64.toNat_sub_of_le _ _ hle]
  exact Nat.sub_add_cancel (UInt64.le_iff_toNat_le.mp hle)

end LocalRingBuffer

end Aicl.CoreRust

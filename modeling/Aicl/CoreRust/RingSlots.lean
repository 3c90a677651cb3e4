import Aicl.CoreRust.LocalRing
import Aicl.Foundation.WrappingIndex

/-!
# The slots of indices in flight

{lit}`ShmHeader` of {lit}`core-rust/src/shm.rs` beside {lit}`RingHeader`: both reduce a
counter that wraps around modulo the number of slots.  The indices in flight are those
from the counter of the consumer to the one of the producer.

Main results:

- Theorem {lit}`RingSlots.slots_kept_iff`: in which states the indices in flight have slots of
  their own.
- Theorem {lit}`RingHeader.keepsSlots_iff_of_fits`: in which states they have, for slots that
  fit in the address space.
- Theorem {lit}`LocalRingBuffer.inside_iff`: which new rings have their slots in their region.
-/

namespace Aicl.CoreRust

open WrappingIndex (Crosses before)

/-! ## The header in shared memory -/

/-- {lit}`SHM_MAGIC`. -/
def SHM_MAGIC : Bytes := [83, 72, 77, 77]

/-- {lit}`SHM_VERSION`. -/
def SHM_VERSION : UInt16 := 1

/-- The header of a region of shared memory. -/
structure ShmHeader where
  magic : Bytes
  version : UInt16
  slotSize : UInt32
  slotCount : UInt32
  head : UInt32
  tail : UInt32
deriving DecidableEq, Repr

namespace ShmHeader

/-- {lit}`new`; the sizes are cast. -/
def new (slotSize slotCount : UInt64) : ShmHeader :=
  ⟨SHM_MAGIC, SHM_VERSION, slotSize.toUInt32, slotCount.toUInt32, 0, 0⟩

variable (h : ShmHeader)

/-- {lit}`is_valid`. -/
def isValid : Bool := h.magic == SHM_MAGIC && h.version == SHM_VERSION

/-- {lit}`slots_free`. -/
def slotsFree : UInt32 := h.slotCount - (h.tail - h.head)

/-- {lit}`slot_offset`, in {lit}`usize`. -/
def slotOffset (index : UInt32) : UInt64 :=
  index.toUInt64 % h.slotCount.toUInt64 * h.slotSize.toUInt64

/-- The number of indices in flight. -/
def pending : Nat := (h.tail - h.head).toNat

/-- The indices in flight. -/
def inFlight : List UInt32 := (List.range h.pending).map fun n => h.head + UInt32.ofNat n

/-- The indices in flight have slots of their own, and all other slots are free. -/
def KeepsSlots : Prop :=
  (h.inFlight.map h.slotOffset).Nodup ∧ h.slotsFree.toNat = h.slotCount.toNat - h.inFlight.length

instance : Decidable h.KeepsSlots := inferInstanceAs (Decidable (_ ∧ _))

/-- A new header is valid. -/
theorem isValid_new (slotSize slotCount : UInt64) : (new slotSize slotCount).isValid = true := rfl

variable {h}

/-- The offset of a slot as a number: the product does not wrap around. -/
theorem slotOffset_toNat (index : UInt32) :
    (h.slotOffset index).toNat = index.toNat % h.slotCount.toNat * h.slotSize.toNat := by
  have hmod : index.toNat % h.slotCount.toNat ≤ 2 ^ 32 - 1 :=
    (Nat.mod_le _ _).trans (Nat.le_sub_one_of_lt index.toNat_lt)
  have hsize : h.slotSize.toNat ≤ 2 ^ 32 - 1 := Nat.le_sub_one_of_lt h.slotSize.toNat_lt
  have hmul := Nat.mul_le_mul hmod hsize
  rw [slotOffset, UInt64.toNat_mul, UInt64.toNat_mod, UInt32.toNat_toUInt64, UInt32.toNat_toUInt64,
    UInt32.toNat_toUInt64]
  exact Nat.mod_eq_of_lt (hmul.trans_lt (by norm_num))

/-- The indices in flight have slots of their own as long as the counter does not wrap
around among them, or wraps around at a multiple of the number of slots, or the slots from
the last multiple on are enough. -/
theorem nodup_iff (hcount : 1 ≤ h.slotCount) (hsize : 1 ≤ h.slotSize)
    (hroom : h.tail - h.head ≤ h.slotCount) :
    (h.inFlight.map h.slotOffset).Nodup ↔
      h.head.toNat + h.pending ≤ 2 ^ 32 ∨ h.slotCount.toNat ∣ 2 ^ 32 ∨
        h.pending ≤ 2 ^ 32 % h.slotCount.toNat := by
  have hcount' : 0 < h.slotCount.toNat := UInt32.le_iff_toNat_le.mp hcount
  have hsize' : 0 < h.slotSize.toNat := UInt32.le_iff_toNat_le.mp hsize
  have hroom' : h.pending ≤ h.slotCount.toNat := UInt32.le_iff_toNat_le.mp hroom
  have hslot : ∀ i j, h.slotOffset (h.head + UInt32.ofNat i) =
      h.slotOffset (h.head + UInt32.ofNat j) ↔
        (h.head.toNat + i) % 2 ^ 32 % h.slotCount.toNat =
          (h.head.toNat + j) % 2 ^ 32 % h.slotCount.toNat := by
    intro i j
    rw [← UInt64.toNat_inj, slotOffset_toNat, slotOffset_toNat, Nat.mul_left_inj hsize'.ne',
      UInt32.toNat_add, UInt32.toNat_add, UInt32.toNat_ofNat', UInt32.toNat_ofNat',
      Nat.add_mod_mod, Nat.add_mod_mod]
  rw [inFlight, WrappingIndex.nodup_map_map_range_iff, WrappingIndex.apart_congr_iff hslot]
  exact WrappingIndex.apart_slots_iff hcount' hroom' h.head.toNat_lt
    (hroom'.trans h.slotCount.toNat_lt.le)

/-- The number of free slots fits beside the indices in flight. -/
theorem slotsFree_toNat (hroom : h.tail - h.head ≤ h.slotCount) :
    h.slotsFree.toNat = h.slotCount.toNat - h.inFlight.length := by
  rw [slotsFree, UInt32.toNat_sub_of_le _ _ hroom, inFlight, List.length_map, List.length_range]
  rfl

/-- When a header keeps its slots. -/
theorem keepsSlots_iff (hcount : 1 ≤ h.slotCount) (hsize : 1 ≤ h.slotSize)
    (hroom : h.tail - h.head ≤ h.slotCount) :
    h.KeepsSlots ↔ h.head.toNat + h.pending ≤ 2 ^ 32 ∨ h.slotCount.toNat ∣ 2 ^ 32 ∨
      h.pending ≤ 2 ^ 32 % h.slotCount.toNat := by
  rw [KeepsSlots, and_iff_left (slotsFree_toNat hroom)]
  exact nodup_iff hcount hsize hroom

end ShmHeader

/-! ## The header of the local ring -/

namespace RingHeader

variable (h : RingHeader)

/-- The number of indices in flight. -/
def pending : Nat := h.pendingSlots.toNat

/-- The indices in flight. -/
def inFlight : List UInt64 := (List.range h.pending).map fun n => h.head + UInt64.ofNat n

/-- The indices in flight have slots of their own, and all other slots are free. -/
def KeepsSlots : Prop :=
  (h.inFlight.map h.slotOffset).Nodup ∧ h.freeSlots.toNat = h.capacity.toNat - h.inFlight.length

instance : Decidable h.KeepsSlots := inferInstanceAs (Decidable (_ ∧ _))

/-- The number of slots until the product in {lit}`slot_offset` repeats modulo 2^64. -/
def offsetPeriod : Nat := 2 ^ 64 / Nat.gcd (2 ^ 64) h.slotSize.toNat

variable {h}

/-- The period is a power of two. -/
theorem offsetPeriod_dvd : h.offsetPeriod ∣ 2 ^ 64 := Nat.div_dvd_of_dvd (Nat.gcd_dvd_left _ _)

/-- Offsets are equal when their slots are, up to the period. -/
theorem slotOffset_inj {i j : UInt64} : h.slotOffset i = h.slotOffset j ↔
    i.toNat % h.capacity.toNat % h.offsetPeriod = j.toNat % h.capacity.toNat % h.offsetPeriod := by
  rw [← UInt64.toNat_inj, slotOffset, slotOffset, UInt64.toNat_mul, UInt64.toNat_mul,
    UInt64.toNat_mod, UInt64.toNat_mod]
  exact WrappingIndex.mul_mod_eq_iff (Nat.two_pow_pos 64) h.slotSize.toNat

/-- The indices in flight have slots of their own when the products do not repeat among them
and the counter does not come back to the first slot among them, or does so at a multiple of
the period, or the slots from the last multiple on are enough. -/
theorem nodup_iff (hcapacity : 1 ≤ h.capacity) (hroom : h.tail - h.head ≤ h.capacity) :
    (h.inFlight.map h.slotOffset).Nodup ↔ h.pending ≤ h.offsetPeriod ∧
      (Crosses (2 ^ 64) h.capacity.toNat h.head.toNat h.pending →
        h.offsetPeriod ∣ before (2 ^ 64) h.capacity.toNat h.head.toNat h.pending ∨
          h.pending ≤ before (2 ^ 64) h.capacity.toNat h.head.toNat h.pending % h.offsetPeriod) := by
  have hcapacity' : 0 < h.capacity.toNat := UInt64.le_iff_toNat_le.mp hcapacity
  have hroom' : h.pending ≤ h.capacity.toNat := UInt64.le_iff_toNat_le.mp hroom
  have hslot : ∀ i j, h.slotOffset (h.head + UInt64.ofNat i) =
      h.slotOffset (h.head + UInt64.ofNat j) ↔
        (h.head.toNat + i) % 2 ^ 64 % h.capacity.toNat % h.offsetPeriod =
          (h.head.toNat + j) % 2 ^ 64 % h.capacity.toNat % h.offsetPeriod := by
    intro i j
    rw [slotOffset_inj, UInt64.toNat_add, UInt64.toNat_add, UInt64.toNat_ofNat',
      UInt64.toNat_ofNat', Nat.add_mod_mod, Nat.add_mod_mod]
  rw [inFlight, WrappingIndex.nodup_map_map_range_iff, WrappingIndex.apart_congr_iff hslot]
  have hperiod : 0 < h.offsetPeriod := Nat.pos_of_dvd_of_pos offsetPeriod_dvd (Nat.two_pow_pos 64)
  exact WrappingIndex.apart_iff hcapacity' hperiod hroom' h.head.toNat_lt
    (hroom'.trans h.capacity.toNat_lt.le)
    fun hdvd => WrappingIndex.dvd_or_le_of_dvd_two_pow hdvd offsetPeriod_dvd

/-- The number of free slots fits beside the indices in flight. -/
theorem freeSlots_toNat (hroom : h.tail - h.head ≤ h.capacity) :
    h.freeSlots.toNat = h.capacity.toNat - h.inFlight.length := by
  rw [freeSlots, UInt64.toNat_sub_of_le _ _ hroom, inFlight, List.length_map, List.length_range]
  rfl

/-- When a header keeps its slots. -/
theorem keepsSlots_iff (hcapacity : 1 ≤ h.capacity) (hroom : h.tail - h.head ≤ h.capacity) :
    h.KeepsSlots ↔ h.pending ≤ h.offsetPeriod ∧
      (Crosses (2 ^ 64) h.capacity.toNat h.head.toNat h.pending →
        h.offsetPeriod ∣ before (2 ^ 64) h.capacity.toNat h.head.toNat h.pending ∨
          h.pending ≤ before (2 ^ 64) h.capacity.toNat h.head.toNat h.pending % h.offsetPeriod) := by
  rw [KeepsSlots, and_iff_left (freeSlots_toNat hroom)]
  exact nodup_iff hcapacity hroom

/-- Offsets do not repeat while the slots fit in the address space. -/
theorem le_offsetPeriod (hsize : 1 ≤ h.slotSize)
    (hfits : h.capacity.toNat * h.slotSize.toNat ≤ 2 ^ 64) : h.capacity.toNat ≤ h.offsetPeriod := by
  have hsize' : 0 < h.slotSize.toNat := UInt64.le_iff_toNat_le.mp hsize
  have hgcd : Nat.gcd (2 ^ 64) h.slotSize.toNat ≤ h.slotSize.toNat :=
    Nat.le_of_dvd hsize' (Nat.gcd_dvd_right _ _)
  rw [offsetPeriod, Nat.le_div_iff_mul_le (Nat.gcd_pos_of_pos_right _ hsize')]
  exact (Nat.mul_le_mul_left _ hgcd).trans hfits

/-- When a header keeps its slots, if these fit in the address space. -/
theorem keepsSlots_iff_of_fits (hcapacity : 1 ≤ h.capacity) (hsize : 1 ≤ h.slotSize)
    (hroom : h.tail - h.head ≤ h.capacity)
    (hfits : h.capacity.toNat * h.slotSize.toNat ≤ 2 ^ 64) :
    h.KeepsSlots ↔ h.head.toNat + h.pending ≤ 2 ^ 64 ∨ h.capacity.toNat ∣ 2 ^ 64 ∨
      h.pending ≤ 2 ^ 64 % h.capacity.toNat := by
  have hcapacity' : 0 < h.capacity.toNat := UInt64.le_iff_toNat_le.mp hcapacity
  have hroom' : h.pending ≤ h.capacity.toNat := UInt64.le_iff_toNat_le.mp hroom
  have hbelow : ∀ n, n % h.capacity.toNat % h.offsetPeriod = n % h.capacity.toNat := by
    intro n
    exact Nat.mod_eq_of_lt ((Nat.mod_lt n hcapacity').trans_le (le_offsetPeriod hsize hfits))
  have hslot : ∀ i j, h.slotOffset (h.head + UInt64.ofNat i) =
      h.slotOffset (h.head + UInt64.ofNat j) ↔
        (h.head.toNat + i) % 2 ^ 64 % h.capacity.toNat =
          (h.head.toNat + j) % 2 ^ 64 % h.capacity.toNat := by
    intro i j
    rw [slotOffset_inj, hbelow, hbelow, UInt64.toNat_add, UInt64.toNat_add, UInt64.toNat_ofNat',
      UInt64.toNat_ofNat', Nat.add_mod_mod, Nat.add_mod_mod]
  rw [KeepsSlots, and_iff_left (freeSlots_toNat hroom), inFlight,
    WrappingIndex.nodup_map_map_range_iff, WrappingIndex.apart_congr_iff hslot]
  exact WrappingIndex.apart_slots_iff hcapacity' hroom' h.head.toNat_lt
    (hroom'.trans h.capacity.toNat_lt.le)

end RingHeader

/-! ## Both headers -/

namespace RingSlots

/-- Both headers keep the slots of the indices in flight apart until their counter wraps
around, and over the wrap when its limit is a multiple of the number of slots or the slots from
the last multiple on are enough.  In the wider header, offsets that repeat modulo 2^64 count
as one slot. -/
theorem slots_kept_iff (h : ShmHeader) (r : RingHeader) :
    (1 ≤ h.slotCount → 1 ≤ h.slotSize → h.tail - h.head ≤ h.slotCount →
      (h.KeepsSlots ↔ h.head.toNat + h.pending ≤ 2 ^ 32 ∨ h.slotCount.toNat ∣ 2 ^ 32 ∨
        h.pending ≤ 2 ^ 32 % h.slotCount.toNat)) ∧
    (1 ≤ r.capacity → 1 ≤ r.slotSize → r.tail - r.head ≤ r.capacity →
      (r.KeepsSlots ↔ r.pending ≤ r.offsetPeriod ∧
        (Crosses (2 ^ 64) r.capacity.toNat r.head.toNat r.pending →
          r.offsetPeriod ∣ before (2 ^ 64) r.capacity.toNat r.head.toNat r.pending ∨
            r.pending ≤
              before (2 ^ 64) r.capacity.toNat r.head.toNat r.pending % r.offsetPeriod))) := by
  constructor
  · intro hcount hsize hroom
    exact ShmHeader.keepsSlots_iff hcount hsize hroom
  · intro hcapacity _ hroom
    exact RingHeader.keepsSlots_iff hcapacity hroom

/-- 256 slots are kept apart over the wrap of the counters. -/
theorem slots_kept_over_wrap :
    ShmHeader.KeepsSlots ⟨SHM_MAGIC, SHM_VERSION, 4096, 256, 4294967295, 3⟩ ∧
      RingHeader.KeepsSlots ⟨256, 4096, 18446744073709551615, 3⟩ := by
  have hkept := slots_kept_iff ⟨SHM_MAGIC, SHM_VERSION, 4096, 256, 4294967295, 3⟩
    ⟨256, 4096, 18446744073709551615, 3⟩
  constructor
  · apply (hkept.1 (by decide) (by decide) (by decide)).mpr
    exact .inr (.inl (by decide))
  · apply (hkept.2 (by decide) (by decide) (by decide)).mpr
    decide

/-- Three slots are not: the last value of the counter and the first one name the same slot. -/
theorem three_slots_alias :
    (1 : UInt32) - 4294967295 ≤ 3 ∧
      ¬ ShmHeader.KeepsSlots ⟨SHM_MAGIC, SHM_VERSION, 4096, 3, 4294967295, 1⟩ ∧
    (1 : UInt64) - 18446744073709551615 ≤ 3 ∧
      ¬ RingHeader.KeepsSlots ⟨3, 4096, 18446744073709551615, 1⟩ := by
  decide

end RingSlots

/-! ## Slots and the region -/

namespace LocalRingBuffer

variable (ring : LocalRingBuffer)

/-- The ring with other values of its counters. -/
def withCounters (head tail : UInt64) : LocalRingBuffer :=
  { ring with header := { ring.header with head, tail } }

/-- Every slot lies in the region. -/
def SlotsInside : Prop :=
  ∀ index, RingHeader.SIZE.toNat + ring.slotPtr index + ring.slotSize.toNat ≤ ring.regionSize.toNat

/-- Whatever the counters, a push that reserves a slot writes into the region. -/
def WritesInside : Prop :=
  ∀ head tail data slotIdx, (ring.withCounters head tail).reserve data = .ok slotIdx →
    RingHeader.SIZE.toNat + ring.slotPtr slotIdx + (SlotHeader.SIZE.toNat + data.length) ≤
      ring.regionSize.toNat

variable {ring} {capacity slotSize : UInt64}

/-- What a push reserves for its data. -/
theorem size_of_reserve (hsize : 8 ≤ ring.slotSize.toNat) {data : Bytes} {slotIdx : UInt64}
    (hreserve : ring.reserve data = .ok slotIdx) :
    SlotHeader.SIZE.toNat + data.length ≤ ring.slotSize.toNat := by
  rcases Outcome.bind_eq_ok_iff.mp hreserve with ⟨_, _, hrest⟩
  rcases Outcome.bind_eq_ok_iff.mp hrest with ⟨_, hfits, _⟩
  have hcapacity : ring.slotCapacity.toNat = ring.slotSize.toNat - SlotHeader.SIZE.toNat :=
    UInt64.toNat_sub_of_le _ _ (UInt64.le_iff_toNat_le.mpr hsize)
  have hheader : SlotHeader.SIZE.toNat = 8 := rfl
  rw [Outcome.failIf_eq_ok_iff] at hfits
  omega

/-- Pushes write inside the slot that they reserve. -/
theorem SlotsInside.writesInside (hsize : 8 ≤ ring.slotSize.toNat) (h : ring.SlotsInside) :
    ring.WritesInside := by
  intro head tail data slotIdx hreserve
  have hdata : SlotHeader.SIZE.toNat + data.length ≤ ring.slotSize.toNat :=
    @size_of_reserve (ring.withCounters head tail) hsize data slotIdx hreserve
  exact (Nat.add_le_add_left hdata _).trans (h slotIdx)

/-- A new ring whose size did not overflow has its slots in the region. -/
theorem slotsInside_of_fits (hnew : new capacity slotSize = .ok ring)
    (hfits : RingHeader.SIZE.toNat + capacity.toNat * slotSize.toNat < 2 ^ 64) :
    ring.SlotsInside := by
  have h := isNew_of_new hnew
  have hregion := (hasRegion_new hnew hfits).1
  have hsize := (regionSizeFor_toNat capacity slotSize).trans (Nat.mod_eq_of_lt hfits)
  intro index
  have hslot := hregion.slot_le index
  rw [hregion.length_slots, h.header_eq] at hslot
  rw [h.regionSize_eq, hsize, h.slotSize_eq, Nat.add_assoc]
  exact Nat.add_le_add_left hslot _

/-- The offset of a slot of a new ring. -/
theorem IsNew.slotPtr_eq (h : IsNew ring capacity slotSize) {n : Nat} (hn : n < capacity.toNat)
    (hmul : n * slotSize.toNat < 2 ^ 64) : ring.slotPtr (UInt64.ofNat n) = n * slotSize.toNat := by
  have hcapacity := capacity.toNat_lt
  have hindex : (UInt64.ofNat n).toNat = n := UInt64.toNat_ofNat_of_lt' (hn.trans hcapacity)
  rw [slotPtr, h.header_eq, RingHeader.slotOffset, UInt64.toNat_mul, UInt64.toNat_mod, hindex]
  have hmod : n % (RingHeader.new capacity slotSize).capacity.toNat = n := Nat.mod_eq_of_lt hn
  rw [hmod]
  exact Nat.mod_eq_of_lt hmul

/-- When the size overflows, the first slot or the last one whose offset does not wrap around
lies outside the region. -/
theorem not_slotsInside_of_overflow (hnew : new capacity slotSize = .ok ring)
    (hover : 2 ^ 64 ≤ RingHeader.SIZE.toNat + capacity.toNat * slotSize.toNat) :
    ¬ ring.SlotsInside := by
  intro hinside
  have h := isNew_of_new hnew
  have hlow := h.slotSize_ge
  have hhigh := h.slotSize_le
  have hsmall := h.size_lt
  have hheader : RingHeader.SIZE.toNat = 192 := rfl
  have hslot : ∀ n, n < capacity.toNat → n * slotSize.toNat < 2 ^ 64 →
      192 + n * slotSize.toNat + slotSize.toNat ≤ (regionSizeFor capacity slotSize).toNat := by
    intro n hn hmul
    have hle := hinside (UInt64.ofNat n)
    rwa [h.slotPtr_eq hn hmul, h.regionSize_eq, h.slotSize_eq, hheader] at hle
  have hfirst := hslot 0 h.capacity_pos (by omega)
  rw [regionSizeFor_toNat, hheader] at hfirst
  -- the slots up to the last one that starts below 2^64
  have hdiv := Nat.div_add_mod (2 ^ 64 - 1) slotSize.toNat
  have hmod := Nat.mod_lt (2 ^ 64 - 1) (by omega : 0 < slotSize.toNat)
  have hcomm := Nat.mul_comm slotSize.toNat ((2 ^ 64 - 1) / slotSize.toNat)
  have hlast : (2 ^ 64 - 1) / slotSize.toNat < capacity.toNat := by
    by_contra hle
    have hmul := Nat.mul_le_mul_right slotSize.toNat (Nat.not_lt.mp hle)
    omega
  have hlt := hslot _ hlast (by omega)
  omega

/-- A new ring has its slots in its region, and pushes write there, exactly when the size of
the region did not overflow. -/
theorem inside_iff (capacity slotSize : UInt64) (ring : LocalRingBuffer)
    (hnew : new capacity slotSize = .ok ring) :
    ring.SlotsInside ∧ ring.WritesInside ↔
      RingHeader.SIZE.toNat + capacity.toNat * slotSize.toNat < 2 ^ 64 := by
  have h := isNew_of_new hnew
  have hsize : 8 ≤ ring.slotSize.toNat := by
    rw [h.slotSize_eq]
    exact (Nat.le_of_ble_eq_true rfl : 8 ≤ 256).trans h.slotSize_ge
  constructor
  · rintro ⟨hinside, _⟩
    by_contra hover
    exact not_slotsInside_of_overflow hnew (Nat.not_lt.mp hover) hinside
  · intro hfits
    have hinside := slotsInside_of_fits hnew hfits
    exact ⟨hinside, hinside.writesInside hsize⟩

/-- The slots of a ring of two small slots lie in its region. -/
theorem inside_two_slots :
    ∃ ring, new 2 256 = .ok ring ∧ ring.SlotsInside ∧ ring.WritesInside :=
  ⟨_, rfl, (inside_iff 2 256 _ rfl).mpr (by decide)⟩

/-- The region of 2^56 slots of 256 bytes is only as large as the header: already the first
slot lies outside. -/
theorem new_without_slots :
    ∃ ring, new 72057594037927936 256 = .ok ring ∧ ring.regionSize = RingHeader.SIZE ∧
      ring.slotPtr 0 = 0 ∧ ring.slotSize = 256 ∧ ¬ (ring.SlotsInside ∧ ring.WritesInside) := by
  refine ⟨_, rfl, rfl, rfl, rfl, ?_⟩
  rintro ⟨hinside, _⟩
  exact absurd (hinside 0) (by decide)

end LocalRingBuffer

end Aicl.CoreRust

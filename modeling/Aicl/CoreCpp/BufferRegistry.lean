import Aicl.CoreCpp.Context
import Aicl.Isa.Tags

/-!
# The buffer registry of the C++ core

{lit}`BufferRegistry` of {lit}`core-cpp/include/aicl/aicl_buffer.hpp`: byte buffers under
64-bit ids that a counter gives out.  A reference to a slice has a 32-bit offset and a
32-bit length, which {lit}`data` adds modulo 2^32 before it compares the sum with the size
of the buffer.

Main results:

- Theorem {lit}`BufferRegistry.inBounds_iff`: on which slices {lit}`data` keeps the
  bounds of the buffer.
-/

namespace Aicl.CoreCpp

/-- The bytes of a buffer that is registered; an empty one is refused. -/
abbrev RegisteredBuffer := { bytes : Bytes // bytes ≠ [] }

/-- A pointer into the bytes of a registered buffer, which are somewhere in memory as the
buffer is not empty. -/
structure BufferPointer where
  buffer : RegisteredBuffer
  offset : Nat
deriving DecidableEq

/-- The registry; the lock is left out. -/
structure BufferRegistry where
  map : UnorderedMap UInt64 RegisteredBuffer
  nextId : UInt64

namespace BufferRegistry

/-- An empty registry; 0 is no id. -/
def new : BufferRegistry := ⟨∅, 1⟩

variable (r : BufferRegistry)

/-- {lit}`register_buffer`; null pointers and empty buffers are refused with id 0. -/
def registerBuffer (buf : Option Bytes) : UInt64 × BufferRegistry :=
  match buf with
  | none => (0, r)
  | some bytes =>
      if hempty : bytes = [] then (0, r)
      else (r.nextId, ⟨r.map.emplace r.nextId ⟨bytes, hempty⟩, r.nextId + 1⟩)

/-- {lit}`register_copy`. -/
def registerCopy (buf : Bytes) : UInt64 × BufferRegistry := r.registerBuffer (some buf)

/-- {lit}`get`. -/
def get (id : UInt64) : Option RegisteredBuffer := r.map.lookup id

/-- {lit}`release`. -/
def release (id : UInt64) : Bool × BufferRegistry :=
  (decide (id ∈ r.map), { r with map := r.map.erase id })

/-- {lit}`size`. -/
def size (id : UInt64) : Nat :=
  match r.get id with
  | none => 0
  | some buf => buf.val.length

/-- {lit}`data`; the sum of the offset and the length wraps around. -/
def data (id : UInt64) (offset length : UInt32) : Option BufferPointer :=
  match r.get id with
  | none => none
  | some buf =>
      if buf.val.length < (offset + length).toNat then none else some ⟨buf, offset.toNat⟩

/-- {lit}`clear`. -/
def clear : BufferRegistry := { r with map := ∅ }

/-! ## What calls do to the buffers -/

variable {r} {id other : UInt64} {bytes : Bytes}

/-- A buffer that is registered under a free id is found there. -/
theorem get_registerCopy (hbytes : bytes ≠ []) (hfree : r.get r.nextId = none) :
    (r.registerCopy bytes).2.get (r.registerCopy bytes).1 = some ⟨bytes, hbytes⟩ := by
  have hnew : r.nextId ∉ r.map := AList.lookup_eq_none.mp hfree
  have hregister : r.registerCopy bytes =
      (r.nextId, ⟨r.map.insert r.nextId ⟨bytes, hbytes⟩, r.nextId + 1⟩) := by
    simp only [registerCopy, registerBuffer, dif_neg hbytes, UnorderedMap.emplace, if_neg hnew]
  rw [hregister]
  exact AList.lookup_insert r.map

/-- A buffer that is released is not found; the others are. -/
theorem get_release (r : BufferRegistry) (id other : UInt64) :
    (r.release id).2.get other = if other = id then none else r.get other := by
  simp only [get, release]
  split
  · next h =>
      rw [h]
      exact AList.lookup_erase id r.map
  · next h => exact AList.lookup_erase_ne h

/-! ## Slices -/

/-- A slice has a pointer exactly when it lies in a registered buffer, and the pointer is
to its first byte. -/
def InBounds (r : BufferRegistry) (id : UInt64) (offset length : UInt32) : Prop :=
  ∀ p, r.data id offset length = some p ↔
    ∃ buf, r.get id = some buf ∧ offset.toNat + length.toNat ≤ buf.val.length ∧
      p = ⟨buf, offset.toNat⟩

/-- The slice ends within the range of 32 bits, or it lies in the buffer, or the buffer ends
even before the sum that has wrapped around. -/
def SumSafe (buf : RegisteredBuffer) (offset length : UInt32) : Prop :=
  offset.toNat + length.toNat < 2 ^ 32 ∨ offset.toNat + length.toNat ≤ buf.val.length ∨
    buf.val.length + 2 ^ 32 < offset.toNat + length.toNat

/-- The sum modulo 2^32 is compared as the sum is. -/
theorem sum_le_iff (size : Nat) (offset length : UInt32) :
    ((offset + length).toNat ≤ size ↔ offset.toNat + length.toNat ≤ size) ↔
      offset.toNat + length.toNat < 2 ^ 32 ∨ offset.toNat + length.toNat ≤ size ∨
        size + 2 ^ 32 < offset.toNat + length.toNat := by
  have hoffset := offset.toNat_lt
  have hlength := length.toNat_lt
  rw [UInt32.toNat_add]
  by_cases hwrap : offset.toNat + length.toNat < 2 ^ 32
  · rw [Nat.mod_eq_of_lt hwrap]
    exact iff_of_true Iff.rfl (.inl hwrap)
  · have hmod : (offset.toNat + length.toNat) % 2 ^ 32 = offset.toNat + length.toNat - 2 ^ 32 := by
      rw [Nat.mod_eq_sub_mod (Nat.le_of_not_lt hwrap)]
      exact Nat.mod_eq_of_lt (by omega)
    rw [hmod]
    omega

/-- On every registry, a slice is checked against the bounds of its buffer exactly when the
sum of its offset and length is safe. -/
theorem inBounds_iff (r : BufferRegistry) (id : UInt64) (offset length : UInt32) :
    InBounds r id offset length ↔ ∀ buf, r.get id = some buf → SumSafe buf offset length := by
  unfold InBounds data
  cases hget : r.get id with
  | none => simp
  | some buf =>
      have hsum := sum_le_iff buf.val.length offset length
      simp only [Option.some_inj, forall_eq', exists_eq_left', SumSafe, ← hsum]
      by_cases hle : (offset + length).toNat ≤ buf.val.length
      · rw [if_neg (Nat.not_lt.mpr hle), iff_true_left hle]
        constructor
        · intro h
          exact ((h ⟨buf, offset.toNat⟩).mp rfl).1
        · intro hbound p
          rw [Option.some_inj, eq_comm, and_iff_right hbound]
      · rw [if_pos (Nat.lt_of_not_le hle), iff_false_left hle]
        constructor
        · intro h hbound
          exact nomatch (h ⟨buf, offset.toNat⟩).mpr ⟨hbound, rfl⟩
        · intro hbound p
          exact iff_of_false nofun fun h => hbound h.1

/-- The longest offset and a length of two are found in a buffer of one byte. -/
theorem data_outOfBounds :
    ¬ ∀ (r : BufferRegistry) (id : UInt64) (offset length : UInt32), InBounds r id offset length := by
  intro h
  have hdata : (new.registerCopy [7]).2.data 1 0xFFFFFFFF 2 =
      some ⟨⟨[7], by simp⟩, 0xFFFFFFFF⟩ := rfl
  rcases (h _ _ _ _ _).mp hdata with ⟨buf, hbuf, hle, _⟩
  cases hbuf
  exact absurd hle (by decide)

end BufferRegistry

end Aicl.CoreCpp

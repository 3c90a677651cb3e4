import Aicl.Foundation.Cells
import Aicl.Foundation.Outcome
import Aicl.Isa.Tags

/-!
# Buffers of the Rust core

{lit}`AiclBuffer` of {lit}`core-rust/src/abi.rs`.  A shared buffer owns its bytes
and its reference count by raw pointers: both are cells of a memory that the code
allocates and frees by hand, and an access to a cell that was freed is a fault.

Main definitions:

- Definition {lit}`AiclBuffer.shared`: a new allocation with one handle.
- Definition {lit}`AiclBuffer.clone`: another handle of the same allocation.
- Definition {lit}`AiclBuffer.drop`: the end of a handle.
- Definition {lit}`AiclBuffer.intoVec`: the bytes of a handle, which it consumes.
-/

namespace Aicl.CoreRust

/-- A {lit}`Vec<u8>`: its bytes, and how many were allocated for it. -/
structure ByteVec where
  bytes : Bytes
  capacity : Nat
  length_le : bytes.length ≤ capacity

/-- Undefined behaviour. -/
inductive Fault where
  | useAfterFree | doubleFree | badLayout
deriving DecidableEq, Repr

/-- What unsafe code does: it returns, or its behaviour is undefined. -/
abbrev Unsafe (α : Type) := Outcome Fault α

/-! ## Memory -/

/-- The reference counts and the blocks of bytes that raw pointers point to. -/
structure Memory where
  counts : Cells UInt64 := []
  blocks : Cells ByteVec := []

namespace Memory

/-- {lit}`fetch_add(1)`: the count wraps around. -/
def fetchAdd (memory : Memory) (rc : Nat) : Unsafe (UInt64 × Memory) :=
  match memory.counts.get? rc with
  | some prev => .ok (prev, { memory with counts := memory.counts.put rc (prev + 1) })
  | none => .err .useAfterFree

/-- {lit}`fetch_sub(1)`. -/
def fetchSub (memory : Memory) (rc : Nat) : Unsafe (UInt64 × Memory) :=
  match memory.counts.get? rc with
  | some prev => .ok (prev, { memory with counts := memory.counts.put rc (prev - 1) })
  | none => .err .useAfterFree

/-- {lit}`drop(Box::from_raw(rc))`. -/
def freeCount (memory : Memory) (rc : Nat) : Unsafe Memory :=
  match memory.counts.get? rc with
  | some _ => .ok { memory with counts := memory.counts.free rc }
  | none => .err .doubleFree

/-- {lit}`Vec::from_raw_parts(ptr, length, capacity)`, dropped at once. -/
def freeBlock (memory : Memory) (ptr length capacity : Nat) : Unsafe Memory :=
  match memory.blocks.get? ptr with
  | some block =>
      if length ≤ block.capacity ∧ block.capacity = capacity then
        .ok { memory with blocks := memory.blocks.free ptr }
      else .err .badLayout
  | none => .err .doubleFree

/-- {lit}`slice::from_raw_parts(ptr, length)`. -/
def read (memory : Memory) (ptr length : Nat) : Unsafe Bytes :=
  match memory.blocks.get? ptr with
  | some block =>
      if length ≤ block.bytes.length then .ok (block.bytes.take length) else .err .badLayout
  | none => .err .useAfterFree

end Memory

/-! ## Buffers -/

/-- The variants of a buffer.  Borrowed bytes belong to the caller, who keeps them as
long as the buffer exists. -/
inductive BufferInner where
  | owned (v : ByteVec)
  | borrowed (bytes : Bytes)
  | shared (ptr length capacity : Nat)

/-- A buffer; the pointer to a reference count may be missing. -/
structure AiclBuffer where
  inner : BufferInner
  refcount : Option Nat := none

namespace AiclBuffer

/-- {lit}`owned`. -/
def owned (data : ByteVec) : AiclBuffer := { inner := .owned data }

/-- {lit}`borrowed`. -/
def borrowed (bytes : Bytes) : AiclBuffer := { inner := .borrowed bytes }

/-- {lit}`shared`: {lit}`data` is forgotten, so that its block stays. -/
def shared (data : ByteVec) (memory : Memory) : AiclBuffer × Memory :=
  let rc := memory.counts.length
  let ptr := memory.blocks.length
  ({ inner := .shared ptr data.bytes.length data.capacity, refcount := some rc },
    { counts := memory.counts.alloc 1, blocks := memory.blocks.alloc data })

/-- {lit}`as_slice`. -/
def asSlice (self : AiclBuffer) (memory : Memory) : Unsafe Bytes :=
  match self.inner with
  | .owned v => .ok v.bytes
  | .borrowed bytes => .ok bytes
  | .shared ptr length _ => memory.read ptr length

/-- {lit}`len`. -/
def len (self : AiclBuffer) : Nat :=
  match self.inner with
  | .owned v => v.bytes.length
  | .borrowed bytes => bytes.length
  | .shared _ length _ => length

/-- {lit}`into_vec`: {lit}`ManuallyDrop` keeps {lit}`drop` from running, for every
variant. -/
def intoVec (self : AiclBuffer) (memory : Memory) : Unsafe (Bytes × Memory) :=
  match self.inner with
  | .owned v => .ok (v.bytes, memory)
  | .borrowed bytes => .ok (bytes, memory)
  | .shared ptr length _ => do
      let slice ← memory.read ptr length
      pure (slice, memory)

/-- {lit}`clone`. -/
def clone (self : AiclBuffer) (memory : Memory) : Unsafe (AiclBuffer × Memory) :=
  match self.inner with
  | .owned v =>
      .ok (owned { bytes := v.bytes, capacity := v.bytes.length, length_le := le_rfl }, memory)
  | .borrowed bytes => .ok (borrowed bytes, memory)
  | .shared ptr length capacity =>
      match self.refcount with
      | some rc => do
          let (_, memory) ← memory.fetchAdd rc
          pure ({ inner := .shared ptr length capacity, refcount := some rc }, memory)
      | none => .ok ({ inner := .shared ptr length capacity, refcount := none }, memory)

/-- {lit}`drop`. -/
def drop (self : AiclBuffer) (memory : Memory) : Unsafe Memory :=
  match self.inner with
  | .shared ptr length capacity =>
      match self.refcount with
      | some rc => do
          let (prev, memory) ← memory.fetchSub rc
          if prev = 1 then
            let memory ← memory.freeCount rc
            memory.freeBlock ptr length capacity
          else pure memory
      | none => .ok memory
  | .borrowed _ => .ok memory
  | .owned _ => .ok memory

end AiclBuffer

/-! ## Allocations with a number of handles -/

/-- An allocation of which that many handles are counted: it is gone when there are
none, and is there with that count otherwise. -/
def Memory.Counted (memory : Memory) (a n : Nat) : Prop :=
  (n = 0 ∧ memory.counts.get? a = none ∧ memory.blocks.get? a = none) ∨
    (0 < n ∧ (∃ block, memory.blocks.get? a = some block) ∧
      ∃ count, memory.counts.get? a = some count ∧ count.toNat = n)

namespace Memory.Counted

variable {memory : Memory} {a n m : Nat}

/-- The number of handles of an allocation is determined. -/
theorem unique (hn : memory.Counted a n) (hm : memory.Counted a m) : n = m := by
  rcases hn with ⟨hn, hcount, _⟩ | ⟨_, _, count, hcount, hn⟩
  · rcases hm with ⟨hm, _, _⟩ | ⟨_, _, count', hcount', _⟩
    · rw [hn, hm]
    · rw [hcount] at hcount'
      cases hcount'
  · rcases hm with ⟨_, hcount', _⟩ | ⟨_, _, count', hcount', hm⟩
    · rw [hcount] at hcount'
      cases hcount'
    · rw [hcount] at hcount'
      cases hcount'
      exact hn.symm.trans hm

/-- The number is one that a count can have. -/
theorem lt (h : memory.Counted a n) : n < 2 ^ 64 := by
  rcases h with ⟨hn, _, _⟩ | ⟨_, _, count, _, hn⟩
  · omega
  · exact hn ▸ count.toNat_lt

/-- An allocation with handles has a block. -/
theorem block_of_pos (h : memory.Counted a n) (hpos : 0 < n) :
    ∃ block, memory.blocks.get? a = some block := by
  rcases h with ⟨hn, _, _⟩ | ⟨_, hblock, _⟩
  · omega
  · exact hblock

/-- Equal cells have equal counts. -/
theorem congr {memory' : Memory} (hcount : memory'.counts.get? a = memory.counts.get? a)
    (hblock : memory'.blocks.get? a = memory.blocks.get? a) (h : memory.Counted a n) :
    memory'.Counted a n := by
  unfold Memory.Counted
  rw [hcount, hblock]
  exact h

end Memory.Counted

/-- Another memory in which everything but one allocation is as before, and that
allocation keeps its block unless it is freed. -/
structure Memory.Frame (a : Nat) (memory memory' : Memory) : Prop where
  counts_length : memory'.counts.length = memory.counts.length
  blocks_length : memory'.blocks.length = memory.blocks.length
  counts : ∀ b, b ≠ a → memory'.counts.get? b = memory.counts.get? b
  blocks : ∀ b, b ≠ a → memory'.blocks.get? b = memory.blocks.get? b
  kept : ∀ block, memory'.blocks.get? a = some block → memory.blocks.get? a = some block

/-- A shared buffer of an allocation with a block of that length and capacity. -/
def sharedAt (a length capacity : Nat) : AiclBuffer :=
  { inner := .shared a length capacity, refcount := some a }

/-- Counting the handles of an allocation leaves everything else. -/
theorem Memory.frame_putCount (memory : Memory) (a : Nat) (count : UInt64) :
    memory.Frame a { memory with counts := memory.counts.put a count } where
  counts_length := Cells.length_put
  blocks_length := rfl
  counts _ hb := Cells.get?_put_of_ne hb.symm
  blocks _ _ := rfl
  kept _ hkept := hkept

namespace AiclBuffer

variable {memory : Memory} {a n length capacity : Nat} {block : ByteVec}

/-- A new allocation has one handle. -/
theorem shared_counted (data : ByteVec) (hlengths : memory.counts.length = memory.blocks.length) :
    (shared data memory).2.Counted memory.counts.length 1 := by
  refine Or.inr ⟨Nat.one_pos, ⟨data, ?_⟩, 1, Cells.get?_alloc_self, rfl⟩
  rw [hlengths]
  exact Cells.get?_alloc_self

/-- A handle of an allocation that is there can be cloned; the count is one more,
unless it wraps around. -/
theorem clone_sharedAt (length capacity : Nat) (h : memory.Counted a n) (hpos : 0 < n) :
    ∃ memory', (sharedAt a length capacity).clone memory =
        .ok (sharedAt a length capacity, memory') ∧
      memory.Frame a memory' ∧ (n + 1 < 2 ^ 64 → memory'.Counted a (n + 1)) := by
  rcases h with ⟨hn, _, _⟩ | ⟨_, hblock, count, hcount, hn⟩
  · omega
  · have hlt := Cells.lt_length_of_get? hcount
    refine ⟨{ memory with counts := memory.counts.put a (count + 1) }, ?_, ?_, ?_⟩
    · simp only [sharedAt, clone, Memory.fetchAdd, hcount]
      rfl
    · exact memory.frame_putCount a (count + 1)
    · intro hroom
      refine Or.inr ⟨Nat.succ_pos n, hblock, count + 1, Cells.get?_put_self hlt, ?_⟩
      rw [UInt64.toNat_add, hn]
      exact Nat.mod_eq_of_lt hroom

/-- A handle of an allocation that is there can be dropped; the allocation is freed
with its last handle. -/
theorem drop_sharedAt (h : memory.Counted a n) (hpos : 0 < n)
    (hblock : memory.blocks.get? a = some block) (hlength : length ≤ block.capacity)
    (hcapacity : block.capacity = capacity) :
    ∃ memory', (sharedAt a length capacity).drop memory = .ok memory' ∧
      memory.Frame a memory' ∧ memory'.Counted a (n - 1) := by
  rcases h with ⟨hn, _, _⟩ | ⟨_, _, count, hcount, hn⟩
  · omega
  · have hlt := Cells.lt_length_of_get? hcount
    have hput : (memory.counts.put a (count - 1)).get? a = some (count - 1) :=
      Cells.get?_put_self hlt
    by_cases hlast : count = 1
    · have hone : n = 1 := by rw [← hn, hlast]; rfl
      refine ⟨{ counts := (memory.counts.put a (count - 1)).free a
                blocks := memory.blocks.free a }, ?_, ?_, ?_⟩
      · simp only [sharedAt, drop, Memory.fetchSub, hcount, Outcome.ok_bind, if_pos hlast,
          Memory.freeCount, hput, Memory.freeBlock, hblock, if_pos (And.intro hlength hcapacity)]
      · constructor
        · exact Cells.length_free.trans Cells.length_put
        · exact Cells.length_free
        · exact fun b hb => (Cells.get?_free_of_ne hb.symm).trans (Cells.get?_put_of_ne hb.symm)
        · exact fun b hb => Cells.get?_free_of_ne hb.symm
        · intro block hkept
          rw [Cells.get?_free_self] at hkept
          cases hkept
      · rw [hone]
        exact Or.inl ⟨rfl, Cells.get?_free_self, Cells.get?_free_self⟩
    · have hmore : 1 < n := by
        have hne : count.toNat ≠ 1 := fun heq => hlast (UInt64.toNat_inj.mp heq)
        omega
      refine ⟨{ memory with counts := memory.counts.put a (count - 1) }, ?_, ?_, ?_⟩
      · simp only [sharedAt, drop, Memory.fetchSub, hcount, Outcome.ok_bind, if_neg hlast,
          Outcome.pure_eq]
      · exact memory.frame_putCount a (count - 1)
      · refine Or.inr ⟨by omega, ⟨block, hblock⟩, count - 1, hput, ?_⟩
        have hone : (1 : UInt64) ≤ count := UInt64.le_iff_toNat_le.mpr (by rw [hn]; exact hpos)
        rw [UInt64.toNat_sub_of_le count 1 hone, hn]
        rfl

/-- A handle of an allocation that is there reads its bytes. -/
theorem asSlice_sharedAt (hblock : memory.blocks.get? a = some block)
    (hlength : block.bytes.length = length) :
    (sharedAt a length capacity).asSlice memory = .ok block.bytes := by
  subst hlength
  simp only [sharedAt, asSlice, Memory.read, hblock, le_refl, if_true, List.take_length]

/-- A handle that is taken gives what it reads, and nothing else happens. -/
theorem intoVec_of_asSlice {self : AiclBuffer} {bytes : Bytes}
    (h : self.asSlice memory = .ok bytes) : self.intoVec memory = .ok (bytes, memory) := by
  obtain ⟨inner, refcount⟩ := self
  cases inner with
  | owned v =>
      cases h
      rfl
  | borrowed bytes =>
      cases h
      rfl
  | shared ptr length capacity =>
      have hread : memory.read ptr length = .ok bytes := h
      simp only [intoVec, hread]
      rfl

end AiclBuffer

end Aicl.CoreRust

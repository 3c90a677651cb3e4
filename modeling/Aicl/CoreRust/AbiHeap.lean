import Aicl.CoreRust.BufferOwners
import Aicl.Foundation.PartialService

/-!
# The objects of the C interface

The functions of {lit}`core-rust/src/abi.rs` by which a C program makes, uses and frees
buffers, streams and handles.  A pointer is null or the address of a box; a function that
is given the address of a box that is gone has undefined behaviour.  What such a program
sees is a heap of byte strings, lists of byte strings and counted references.

Main results:

- Theorem {lit}`AbiHeap.Represents.perform_agrees`: every function does to the boxes what it
  does to byte strings and lists of them.
- Theorem {lit}`AbiHeap.refines_objects`: the same for whole programs, and when all objects
  are gone the memory is empty.
-/

namespace Aicl.CoreRust

/-! ## Streams and handles -/

/-- {lit}`AiclStream`. -/
structure AiclStream where
  chunks : List AiclBuffer := []
  totalLen : UInt64 := 0

namespace AiclStream

/-- {lit}`push`. -/
def push (self : AiclStream) (chunk : AiclBuffer) : AiclStream where
  chunks := self.chunks ++ [chunk]
  totalLen := self.totalLen + UInt64.ofNat chunk.len

/-- {lit}`chunk`. -/
def chunk (self : AiclStream) (idx : Nat) : Option AiclBuffer := self.chunks[idx]?

/-- The end of a stream: its chunks are dropped in order. -/
def dropChunks : List AiclBuffer → Memory → Unsafe Memory
  | [], memory => .ok memory
  | chunk :: rest, memory => do
      let memory ← chunk.drop memory
      dropChunks rest memory

/-- The loop of {lit}`into_contiguous`: a chunk is dropped once it is copied. -/
def gather (result : Bytes) : List AiclBuffer → Memory → Unsafe (Bytes × Memory)
  | [], memory => .ok (result, memory)
  | chunk :: rest, memory => do
      let slice ← chunk.asSlice memory
      let memory ← chunk.drop memory
      gather (result ++ slice) rest memory

/-- {lit}`into_contiguous`. -/
def intoContiguous (self : AiclStream) (memory : Memory) : Unsafe (Bytes × Memory) :=
  gather [] self.chunks memory

end AiclStream

/-- {lit}`AiclHandle`: a value that C does not look into, and its reference count. -/
structure AiclHandle (ν : Type) where
  inner : ν
  refcount : UInt64

/-! ## Boxes -/

/-- The statuses that these functions return. -/
inductive AiclStatus where
  | ok | nullPointer
deriving DecidableEq, Repr

/-- What a function returns: a pointer, a status, a number, the bytes that a pointer
points to, or nothing. -/
inductive AbiAnswer where
  | pointer (p : Option Nat)
  | status (s : AiclStatus)
  | number (n : UInt32)
  | data (bytes : Option Bytes)
  | void
deriving DecidableEq

/-- A call.  Bytes that a caller hands over are what its pointer and length describe;
the last argument of {lit}`streamChunk` is an index. -/
inductive AbiCall (ν : Type) where
  | bufferFromPtr (data : Option Bytes)
  | bufferBorrow (data : Option Bytes)
  | bufferFromPtrShared (data : Option Bytes)
  | bufferClone (buf : Option Nat)
  | bufferFree (buf : Option Nat)
  | bufferLen (buf : Option Nat)
  | bufferData (buf : Option Nat)
  | streamNew
  | streamPush (stream buf : Option Nat)
  | streamTotalLen (stream : Option Nat)
  | streamChunkCount (stream : Option Nat)
  | streamFree (stream : Option Nat)
  | streamChunk (stream : Nat) (idx : Nat)
  | streamIntoContiguous (stream : Nat)
  | handleNew (value : ν)
  | handleClone (handle : Option Nat)
  | handleFree (handle : Option Nat)
  | handleRefcount (handle : Option Nat)

/-- What was allocated and not freed. -/
structure AbiHeap (ν : Type) where
  memory : Memory := {}
  buffers : Cells AiclBuffer := []
  streams : Cells AiclStream := []
  handles : Cells (AiclHandle ν) := []

namespace AbiHeap

variable {ν : Type}

/-- {lit}`Box::into_raw(Box::new(buf))`. -/
def boxBuffer (heap : AbiHeap ν) (buf : AiclBuffer) : AbiAnswer × AbiHeap ν :=
  (.pointer (some heap.buffers.length), { heap with buffers := heap.buffers.alloc buf })

/-- {lit}`slice.to_vec()`. -/
def toVec (slice : Bytes) : ByteVec where
  bytes := slice
  capacity := slice.length
  length_le := le_rfl

/-- What the three functions that take bytes share: null for a null pointer and for no
bytes. -/
def fromPtr (heap : AbiHeap ν) (make : Bytes → AbiAnswer × AbiHeap ν) :
    Option Bytes → AbiAnswer × AbiHeap ν
  | none => (.pointer none, heap)
  | some slice => if slice.length = 0 then (.pointer none, heap) else make slice

/-- {lit}`aicl_buffer_from_ptr`. -/
def bufferFromPtr (heap : AbiHeap ν) (data : Option Bytes) : AbiAnswer × AbiHeap ν :=
  heap.fromPtr (fun slice => heap.boxBuffer (.owned (toVec slice))) data

/-- {lit}`aicl_buffer_borrow`. -/
def bufferBorrow (heap : AbiHeap ν) (data : Option Bytes) : AbiAnswer × AbiHeap ν :=
  heap.fromPtr (fun slice => heap.boxBuffer (.borrowed slice)) data

/-- {lit}`aicl_buffer_from_ptr_shared`. -/
def bufferFromPtrShared (heap : AbiHeap ν) (data : Option Bytes) : AbiAnswer × AbiHeap ν :=
  heap.fromPtr (fun slice =>
    let (buf, memory) := AiclBuffer.shared (toVec slice) heap.memory
    { heap with memory }.boxBuffer buf) data

/-- {lit}`aicl_buffer_clone`. -/
def bufferClone (heap : AbiHeap ν) : Option Nat → Unsafe (AbiAnswer × AbiHeap ν)
  | none => .ok (.pointer none, heap)
  | some p => do
      let buf ← Outcome.okOr (heap.buffers.get? p) .useAfterFree
      let (cloned, memory) ← buf.clone heap.memory
      pure ({ heap with memory }.boxBuffer cloned)

/-- {lit}`aicl_buffer_free`. -/
def bufferFree (heap : AbiHeap ν) : Option Nat → Unsafe (AbiAnswer × AbiHeap ν)
  | none => .ok (.void, heap)
  | some p => do
      let buf ← Outcome.okOr (heap.buffers.get? p) .doubleFree
      let memory ← buf.drop heap.memory
      pure (.void, { heap with memory, buffers := heap.buffers.free p })

/-- {lit}`aicl_buffer_len`. -/
def bufferLen (heap : AbiHeap ν) : Option Nat → Unsafe (AbiAnswer × AbiHeap ν)
  | none => .ok (.number 0, heap)
  | some p => do
      let buf ← Outcome.okOr (heap.buffers.get? p) .useAfterFree
      pure (.number (UInt32.ofNat buf.len), heap)

/-- {lit}`aicl_buffer_data`. -/
def bufferData (heap : AbiHeap ν) : Option Nat → Unsafe (AbiAnswer × AbiHeap ν)
  | none => .ok (.data none, heap)
  | some p => do
      let buf ← Outcome.okOr (heap.buffers.get? p) .useAfterFree
      let slice ← buf.asSlice heap.memory
      pure (.data (some slice), heap)

/-- {lit}`aicl_stream_new`. -/
def streamNew (heap : AbiHeap ν) : AbiAnswer × AbiHeap ν :=
  (.pointer (some heap.streams.length), { heap with streams := heap.streams.alloc {} })

/-- {lit}`aicl_stream_push`: the box of the buffer is gone, its buffer is in the stream. -/
def streamPush (heap : AbiHeap ν) : Option Nat → Option Nat → Unsafe (AbiAnswer × AbiHeap ν)
  | some s, some p => do
      let stream ← Outcome.okOr (heap.streams.get? s) .useAfterFree
      let buf ← Outcome.okOr (heap.buffers.get? p) .doubleFree
      pure (.status .ok, { heap with buffers := heap.buffers.free p
                                     streams := heap.streams.put s (stream.push buf) })
  | _, _ => .ok (.status .nullPointer, heap)

/-- {lit}`aicl_stream_total_len`. -/
def streamTotalLen (heap : AbiHeap ν) : Option Nat → Unsafe (AbiAnswer × AbiHeap ν)
  | none => .ok (.number 0, heap)
  | some s => do
      let stream ← Outcome.okOr (heap.streams.get? s) .useAfterFree
      pure (.number stream.totalLen.toUInt32, heap)

/-- {lit}`aicl_stream_chunk_count`. -/
def streamChunkCount (heap : AbiHeap ν) : Option Nat → Unsafe (AbiAnswer × AbiHeap ν)
  | none => .ok (.number 0, heap)
  | some s => do
      let stream ← Outcome.okOr (heap.streams.get? s) .useAfterFree
      pure (.number (UInt32.ofNat stream.chunks.length), heap)

/-- {lit}`aicl_stream_free`. -/
def streamFree (heap : AbiHeap ν) : Option Nat → Unsafe (AbiAnswer × AbiHeap ν)
  | none => .ok (.void, heap)
  | some s => do
      let stream ← Outcome.okOr (heap.streams.get? s) .doubleFree
      let memory ← AiclStream.dropChunks stream.chunks heap.memory
      pure (.void, { heap with memory, streams := heap.streams.free s })

/-- {lit}`AiclStream::chunk`, and what the chunk reads. -/
def streamChunk (heap : AbiHeap ν) (s idx : Nat) : Unsafe (AbiAnswer × AbiHeap ν) := do
  let stream ← Outcome.okOr (heap.streams.get? s) .useAfterFree
  match stream.chunk idx with
  | none => pure (.data none, heap)
  | some chunk => do
      let slice ← chunk.asSlice heap.memory
      pure (.data (some slice), heap)

/-- {lit}`AiclStream::into_contiguous`, which consumes the stream. -/
def streamIntoContiguous (heap : AbiHeap ν) (s : Nat) : Unsafe (AbiAnswer × AbiHeap ν) := do
  let stream ← Outcome.okOr (heap.streams.get? s) .doubleFree
  let (bytes, memory) ← stream.intoContiguous heap.memory
  pure (.data (some bytes), { heap with memory, streams := heap.streams.free s })

/-- {lit}`AiclHandle::new`. -/
def handleNew (heap : AbiHeap ν) (value : ν) : AbiAnswer × AbiHeap ν :=
  (.pointer (some heap.handles.length),
    { heap with handles := heap.handles.alloc { inner := value, refcount := 1 } })

/-- {lit}`aicl_handle_clone`: the same pointer again. -/
def handleClone (heap : AbiHeap ν) : Option Nat → Unsafe (AbiAnswer × AbiHeap ν)
  | none => .ok (.pointer none, heap)
  | some p => do
      let handle ← Outcome.okOr (heap.handles.get? p) .useAfterFree
      pure (.pointer (some p),
        { heap with handles := heap.handles.put p { handle with refcount := handle.refcount + 1 } })

/-- {lit}`aicl_handle_free`: the handle is dropped with its last reference. -/
def handleFree (heap : AbiHeap ν) : Option Nat → Unsafe (AbiAnswer × AbiHeap ν)
  | none => .ok (.void, heap)
  | some p => do
      let handle ← Outcome.okOr (heap.handles.get? p) .doubleFree
      if handle.refcount = 1 then pure (.void, { heap with handles := heap.handles.free p })
      else
        pure (.void,
          { heap with
            handles := heap.handles.put p { handle with refcount := handle.refcount - 1 } })

/-- {lit}`aicl_handle_refcount`. -/
def handleRefcount (heap : AbiHeap ν) : Option Nat → Unsafe (AbiAnswer × AbiHeap ν)
  | none => .ok (.number 0, heap)
  | some p => do
      let handle ← Outcome.okOr (heap.handles.get? p) .useAfterFree
      pure (.number handle.refcount.toUInt32, heap)

/-- What a call does. -/
def perform (heap : AbiHeap ν) : AbiCall ν → Unsafe (AbiAnswer × AbiHeap ν)
  | .bufferFromPtr data => .ok (heap.bufferFromPtr data)
  | .bufferBorrow data => .ok (heap.bufferBorrow data)
  | .bufferFromPtrShared data => .ok (heap.bufferFromPtrShared data)
  | .bufferClone buf => heap.bufferClone buf
  | .bufferFree buf => heap.bufferFree buf
  | .bufferLen buf => heap.bufferLen buf
  | .bufferData buf => heap.bufferData buf
  | .streamNew => .ok heap.streamNew
  | .streamPush stream buf => heap.streamPush stream buf
  | .streamTotalLen stream => heap.streamTotalLen stream
  | .streamChunkCount stream => heap.streamChunkCount stream
  | .streamFree stream => heap.streamFree stream
  | .streamChunk stream idx => heap.streamChunk stream idx
  | .streamIntoContiguous stream => heap.streamIntoContiguous stream
  | .handleNew value => .ok (heap.handleNew value)
  | .handleClone handle => heap.handleClone handle
  | .handleFree handle => heap.handleFree handle
  | .handleRefcount handle => heap.handleRefcount handle

end AbiHeap

/-! ## What a C program sees -/

/-- Byte strings, lists of byte strings, and values with a number of references. -/
structure ObjectHeap (ν : Type) where
  buffers : Cells Bytes := []
  streams : Cells (List Bytes) := []
  handles : Cells (ν × Nat) := []

namespace ObjectHeap

variable {ν : Type}

/-- A new byte string. -/
def newBuffer (objects : ObjectHeap ν) (data : Bytes) : AbiAnswer × ObjectHeap ν :=
  (.pointer (some objects.buffers.length), { objects with buffers := objects.buffers.alloc data })

/-- A new byte string, unless it is missing or empty. -/
def ofPtr (objects : ObjectHeap ν) : Option Bytes → AbiAnswer × ObjectHeap ν
  | none => (.pointer none, objects)
  | some data => if data = [] then (.pointer none, objects) else objects.newBuffer data

/-- One reference less. -/
def release (objects : ObjectHeap ν) (p : Nat) (value : ν × Nat) : ObjectHeap ν :=
  if value.2 = 1 then { objects with handles := objects.handles.free p }
  else { objects with handles := objects.handles.put p (value.1, value.2 - 1) }

/-- What a call does to the objects; a call on an object that is gone has no meaning. -/
def perform (objects : ObjectHeap ν) : AbiCall ν → Option (AbiAnswer × ObjectHeap ν)
  | .bufferFromPtr data => some (objects.ofPtr data)
  | .bufferBorrow data => some (objects.ofPtr data)
  | .bufferFromPtrShared data => some (objects.ofPtr data)
  | .bufferClone none => some (.pointer none, objects)
  | .bufferClone (some p) => (objects.buffers.get? p).map objects.newBuffer
  | .bufferFree none => some (.void, objects)
  | .bufferFree (some p) => (objects.buffers.get? p).map fun _ =>
      (.void, { objects with buffers := objects.buffers.free p })
  | .bufferLen none => some (.number 0, objects)
  | .bufferLen (some p) => (objects.buffers.get? p).map fun data =>
      (.number (UInt32.ofNat data.length), objects)
  | .bufferData none => some (.data none, objects)
  | .bufferData (some p) => (objects.buffers.get? p).map fun data => (.data (some data), objects)
  | .streamNew => some (.pointer (some objects.streams.length),
      { objects with streams := objects.streams.alloc [] })
  | .streamPush (some s) (some p) => do
      let chunks ← objects.streams.get? s
      let data ← objects.buffers.get? p
      pure (.status .ok, { objects with buffers := objects.buffers.free p
                                        streams := objects.streams.put s (chunks ++ [data]) })
  | .streamPush _ _ => some (.status .nullPointer, objects)
  | .streamTotalLen none => some (.number 0, objects)
  | .streamTotalLen (some s) => (objects.streams.get? s).map fun chunks =>
      (.number (UInt32.ofNat chunks.flatten.length), objects)
  | .streamChunkCount none => some (.number 0, objects)
  | .streamChunkCount (some s) => (objects.streams.get? s).map fun chunks =>
      (.number (UInt32.ofNat chunks.length), objects)
  | .streamFree none => some (.void, objects)
  | .streamFree (some s) => (objects.streams.get? s).map fun _ =>
      (.void, { objects with streams := objects.streams.free s })
  | .streamChunk s idx => (objects.streams.get? s).map fun chunks => (.data chunks[idx]?, objects)
  | .streamIntoContiguous s => (objects.streams.get? s).map fun chunks =>
      (.data (some chunks.flatten), { objects with streams := objects.streams.free s })
  | .handleNew value => some (.pointer (some objects.handles.length),
      { objects with handles := objects.handles.alloc (value, 1) })
  | .handleClone none => some (.pointer none, objects)
  | .handleClone (some p) => (objects.handles.get? p).map fun value =>
      (.pointer (some p), { objects with handles := objects.handles.put p (value.1, value.2 + 1) })
  | .handleFree none => some (.void, objects)
  | .handleFree (some p) => (objects.handles.get? p).map fun value =>
      (.void, objects.release p value)
  | .handleRefcount none => some (.number 0, objects)
  | .handleRefcount (some p) => (objects.handles.get? p).map fun value =>
      (.number (UInt32.ofNat value.2), objects)

/-- Every object is gone. -/
structure Empty (objects : ObjectHeap ν) : Prop where
  buffers : ∀ p, objects.buffers.get? p = none
  streams : ∀ s, objects.streams.get? s = none
  handles : ∀ p, objects.handles.get? p = none

end ObjectHeap

/-! ## The boxes of the objects -/

/-- A stream of these byte strings. -/
structure AiclStream.Holds (memory : Memory) (stream : AiclStream) (strings : List Bytes) :
    Prop where
  chunks : List.Forall₂ (fun buffer data => memory.Describes data buffer) stream.chunks strings
  totalLen : stream.totalLen = UInt64.ofNat strings.flatten.length

/-- A handle of a value that has that many references, and room for more of them. -/
structure AiclHandle.Counts {ν : Type} (room : Nat) (handle : AiclHandle ν) (value : ν × Nat) :
    Prop where
  inner : handle.inner = value.1
  refcount : handle.refcount.toNat = value.2
  pos : 0 < value.2
  lt : value.2 + room < 2 ^ 64

/-- Byte strings as the memory after it has them. -/
theorem forall₂_describes_extends {memory memory' : Memory} {buffers : List AiclBuffer}
    {chunks : List Bytes} (hext : memory.Extends memory')
    (h : List.Forall₂ (fun buffer data => memory.Describes data buffer) buffers chunks) :
    List.Forall₂ (fun buffer data => memory'.Describes data buffer) buffers chunks :=
  h.imp fun _ _ hdescribes => hdescribes.extends hext

/-- A memory after another one that comes after a third. -/
theorem Memory.Extends.trans {memory memory' memory'' : Memory} (h : memory.Extends memory')
    (h' : memory'.Extends memory'') : memory.Extends memory'' where
  counts_length := h.counts_length.trans h'.counts_length
  kept a block hlt hget := by
    have hlt' : a < memory'.counts.length := hlt.trans_le h.counts_length
    exact h.kept a block hlt (h'.kept a block hlt' hget)

/-- The chunks of a stream are dropped, and give what they were made from when they are
copied first. -/
theorem AiclStream.gather_owned {held : List AiclBuffer} {buffers : List AiclBuffer}
    {chunks : List Bytes} {memory : Memory} (result : Bytes)
    (howned : memory.OwnedBy (buffers ++ held))
    (hchunks : List.Forall₂ (fun buffer data => memory.Describes data buffer) buffers chunks) :
    ∃ memory', AiclStream.dropChunks buffers memory = .ok memory' ∧
      AiclStream.gather result buffers memory = .ok (result ++ chunks.flatten, memory') ∧
      memory'.OwnedBy held ∧ memory.Extends memory' := by
  induction buffers generalizing chunks memory result with
  | nil =>
      cases hchunks
      refine ⟨memory, rfl, ?_, howned, .refl memory⟩
      rw [List.flatten_nil, List.append_nil]
      rfl
  | cons buffer buffers ih =>
      cases hchunks with
      | cons hfirst hrest =>
          rename_i data chunks
          obtain ⟨next, hdrop, hnext, hext⟩ := howned.drop hfirst
          have hslice := howned.asSlice List.mem_cons_self hfirst
          obtain ⟨memory', hdrops, hgather, hmemory', hext'⟩ :=
            ih (result ++ data) hnext (forall₂_describes_extends hext hrest)
          refine ⟨memory', ?_, ?_, hmemory', hext.trans hext'⟩
          · rw [AiclStream.dropChunks, hdrop]
            exact hdrops
          · rw [AiclStream.gather, hslice, Outcome.ok_bind, hdrop, Outcome.ok_bind, hgather,
              List.flatten_cons, List.append_assoc]

namespace AbiHeap

open PartialService (Agrees)

variable {ν : Type} {heap : AbiHeap ν} {objects : ObjectHeap ν} {p s room : Nat}
  {buffer : AiclBuffer} {stream : AiclStream} {data : Bytes}

/-- Every buffer that is in a box or in a stream. -/
def held (heap : AbiHeap ν) : List AiclBuffer :=
  heap.buffers.values ++ heap.streams.values.flatMap AiclStream.chunks

/-- The boxes hold what a C program sees.  The room says how many calls may follow before
a reference count wraps around. -/
structure Represents (room : Nat) (heap : AbiHeap ν) (objects : ObjectHeap ν) : Prop where
  owned : heap.memory.OwnedBy heap.held
  buffers : Cells.Match (fun buffer data => heap.memory.Describes data buffer) heap.buffers
    objects.buffers
  streams : Cells.Match (AiclStream.Holds heap.memory) heap.streams objects.streams
  handles : Cells.Match (AiclHandle.Counts room) heap.handles objects.handles
  heldRoom : heap.held.length + room < 2 ^ 64

/-- A box that is freed held one of the buffers. -/
theorem held_free (hget : heap.buffers.get? p = some buffer) :
    heap.held.Perm (buffer :: ({ heap with buffers := heap.buffers.free p } : AbiHeap ν).held) :=
  (Cells.values_perm_free hget).append_right _

/-- A new box holds one more buffer. -/
theorem held_alloc (heap : AbiHeap ν) (memory : Memory) (buffer : AiclBuffer) :
    (buffer :: heap.held).Perm
      ({ heap with memory, buffers := heap.buffers.alloc buffer } : AbiHeap ν).held := by
  unfold held
  rw [Cells.values_alloc, List.append_assoc]
  exact List.perm_middle.symm

/-- A stream that is freed held its chunks. -/
theorem held_freeStream (hget : heap.streams.get? s = some stream) :
    heap.held.Perm
      (stream.chunks ++ ({ heap with streams := heap.streams.free s } : AbiHeap ν).held) := by
  have hflat : (heap.streams.values.flatMap AiclStream.chunks).Perm
      (stream.chunks ++ (heap.streams.free s).values.flatMap AiclStream.chunks) :=
    (Cells.values_perm_free hget).flatMap_right _
  have hmove : (heap.buffers.values ++
      (stream.chunks ++ (heap.streams.free s).values.flatMap AiclStream.chunks)).Perm
      (stream.chunks ++ (heap.buffers.values ++
        (heap.streams.free s).values.flatMap AiclStream.chunks)) := by
    rw [← List.append_assoc, ← List.append_assoc]
    exact List.perm_append_comm.append_right _
  exact (hflat.append_left _).trans hmove

/-- Nothing that was allocated is left. -/
structure Freed (heap : AbiHeap ν) : Prop where
  counts : ∀ a, heap.memory.counts.get? a = none
  blocks : ∀ a, heap.memory.blocks.get? a = none
  buffers : ∀ p, heap.buffers.get? p = none
  streams : ∀ s, heap.streams.get? s = none
  handles : ∀ p, heap.handles.get? p = none

/-- A buffer that is pushed moves from its box into the stream. -/
theorem held_push (hstream : heap.streams.get? s = some stream)
    (hbuffer : heap.buffers.get? p = some buffer) :
    heap.held.Perm ({ heap with buffers := heap.buffers.free p
                                streams := heap.streams.put s (stream.push buffer) } :
      AbiHeap ν).held := by
  have hput : ((heap.streams.put s (stream.push buffer)).values.flatMap AiclStream.chunks).Perm
      (stream.chunks ++ [buffer] ++ (heap.streams.free s).values.flatMap AiclStream.chunks) :=
    (Cells.values_perm_put hstream).flatMap_right _
  have hfree : (heap.streams.values.flatMap AiclStream.chunks).Perm
      (stream.chunks ++ (heap.streams.free s).values.flatMap AiclStream.chunks) :=
    (Cells.values_perm_free hstream).flatMap_right _
  have hmore : ((heap.streams.put s (stream.push buffer)).values.flatMap AiclStream.chunks).Perm
      (buffer :: heap.streams.values.flatMap AiclStream.chunks) := by
    rw [List.append_assoc] at hput
    exact hput.trans (List.perm_middle.trans (hfree.symm.cons buffer))
  have hmove : ((heap.buffers.free p).values ++
      buffer :: heap.streams.values.flatMap AiclStream.chunks).Perm heap.held :=
    List.perm_middle.trans (held_free hbuffer).symm
  exact hmove.symm.trans (hmore.symm.append_left _)

namespace Represents

/-- With room for more calls there is room for fewer. -/
theorem less (h : Represents (room + 1) heap objects) : Represents room heap objects where
  owned := h.owned
  buffers := h.buffers
  streams := h.streams
  handles := h.handles.imp fun _ _ hcounts =>
    ⟨hcounts.inner, hcounts.refcount, hcounts.pos, (Nat.le_succ _).trans_lt hcounts.lt⟩
  heldRoom := (Nat.le_succ _).trans_lt h.heldRoom

/-- What the streams hold, as the memory after it has them. -/
theorem streams_extends (h : Represents room heap objects) {memory : Memory}
    (hext : heap.memory.Extends memory) :
    Cells.Match (AiclStream.Holds memory) heap.streams objects.streams :=
  h.streams.imp fun _ _ hholds => ⟨forall₂_describes_extends hext hholds.chunks, hholds.totalLen⟩

/-- What the boxes hold, as the memory after it has them. -/
theorem buffers_extends (h : Represents room heap objects) {memory : Memory}
    (hext : heap.memory.Extends memory) :
    Cells.Match (fun buffer data => memory.Describes data buffer) heap.buffers objects.buffers :=
  h.buffers.imp fun _ _ hdescribes => hdescribes.extends hext

/-- A buffer in a box is one of the buffers. -/
theorem mem_held (hget : heap.buffers.get? p = some buffer) : buffer ∈ heap.held :=
  (held_free hget).mem_iff.mpr List.mem_cons_self

/-- A chunk of a stream is one of the buffers. -/
theorem mem_held_of_chunk (hget : heap.streams.get? s = some stream)
    (hchunk : buffer ∈ stream.chunks) : buffer ∈ heap.held :=
  (held_freeStream hget).mem_iff.mpr (List.mem_append_left _ hchunk)

/-- A buffer in a new box. -/
theorem boxBuffer (h : Represents (room + 1) heap objects) {memory : Memory}
    (howned : memory.OwnedBy (buffer :: heap.held)) (hext : heap.memory.Extends memory)
    (hdescribes : memory.Describes data buffer) :
    Agrees (Represents room) (.ok ({ heap with memory }.boxBuffer buffer) : Unsafe _)
      (some (objects.newBuffer data)) := by
  have hperm := held_alloc heap memory buffer
  have hnext : Represents room { heap with memory, buffers := heap.buffers.alloc buffer }
      { objects with buffers := objects.buffers.alloc data } := by
    constructor
    · exact howned.perm hperm
    · exact (h.buffers_extends hext).alloc hdescribes
    · exact h.streams_extends hext
    · exact h.less.handles
    · have hroom := h.heldRoom
      rw [← hperm.length_eq, List.length_cons]
      omega
  rw [AbiHeap.boxBuffer, ObjectHeap.newBuffer]
  dsimp only
  rw [h.buffers.length_eq]
  exact .answered _ hnext

/-! ## Calls on buffers -/

/-- A buffer from bytes of the caller. -/
theorem fromPtr (h : Represents (room + 1) heap objects) {make : Bytes → AbiAnswer × AbiHeap ν}
    (hmake : ∀ slice, Agrees (Represents room) (.ok (make slice) : Unsafe _)
      (some (objects.newBuffer slice))) (data : Option Bytes) :
    Agrees (Represents room) (.ok (heap.fromPtr make data) : Unsafe _)
      (some (objects.ofPtr data)) := by
  cases data with
  | none => exact .answered _ h.less
  | some slice =>
      rw [AbiHeap.fromPtr, ObjectHeap.ofPtr]
      by_cases hempty : slice = []
      · rw [if_pos hempty, if_pos (List.length_eq_zero_iff.mpr hempty)]
        exact .answered _ h.less
      · rw [if_neg hempty, if_neg (mt List.length_eq_zero_iff.mp hempty)]
        exact hmake slice

/-- {lit}`aicl_buffer_from_ptr`. -/
theorem bufferFromPtr (h : Represents (room + 1) heap objects) (data : Option Bytes) :
    Agrees (Represents room) (.ok (heap.bufferFromPtr data) : Unsafe _)
      (some (objects.ofPtr data)) := by
  apply h.fromPtr
  intro slice
  have hdescribes : heap.memory.Describes slice (.owned (toVec slice)) := .owned _ rfl
  exact h.boxBuffer (h.owned.cons hdescribes rfl) (.refl _) hdescribes

/-- {lit}`aicl_buffer_borrow`. -/
theorem bufferBorrow (h : Represents (room + 1) heap objects) (data : Option Bytes) :
    Agrees (Represents room) (.ok (heap.bufferBorrow data) : Unsafe _)
      (some (objects.ofPtr data)) := by
  apply h.fromPtr
  intro slice
  have hdescribes : heap.memory.Describes slice (.borrowed slice) := .borrowed
  exact h.boxBuffer (h.owned.cons hdescribes rfl) (.refl _) hdescribes

/-- {lit}`aicl_buffer_from_ptr_shared`. -/
theorem bufferFromPtrShared (h : Represents (room + 1) heap objects) (data : Option Bytes) :
    Agrees (Represents room) (.ok (heap.bufferFromPtrShared data) : Unsafe _)
      (some (objects.ofPtr data)) := by
  apply h.fromPtr
  intro slice
  have ⟨howned, hext, hdescribes⟩ := h.owned.shared (toVec slice)
  exact h.boxBuffer howned hext hdescribes

/-- A call on an object that both sides have is the same call; without the object the
code fails and the call has no meaning. -/
theorem deref {α β : Type} {R : α → β → Prop} {Q : AbiHeap ν → ObjectHeap ν → Prop}
    {cells : Cells α} {others : Cells β} (hmatch : Cells.Match R cells others) (p : Nat)
    (fault : Fault) {use : α → Unsafe (AbiAnswer × AbiHeap ν)}
    {spec : β → AbiAnswer × ObjectHeap ν}
    (huse : ∀ value other, cells.get? p = some value → others.get? p = some other →
      R value other → Agrees Q (use value) (some (spec other))) :
    Agrees Q (Outcome.okOr (cells.get? p) fault >>= use) ((others.get? p).map spec) := by
  rcases hmatch.cases p with ⟨hvalue, hother⟩ | ⟨value, other, hvalue, hother, hrel⟩
  · rw [hvalue, hother]
    exact .stopped fault
  · have hcall := huse value other hvalue hother hrel
    rw [hvalue, hother]
    exact hcall

/-- {lit}`aicl_buffer_clone`. -/
theorem bufferClone (h : Represents (room + 1) heap objects) (p : Nat) :
    Agrees (Represents room) (heap.bufferClone (some p))
      ((objects.buffers.get? p).map objects.newBuffer) := by
  apply deref h.buffers
  intro buffer data hbuffer hdata hdescribes
  have hroom : heap.held.length + 1 < 2 ^ 64 := by
    have := h.heldRoom
    omega
  obtain ⟨copy, memory, hclone, howned, hext, hcopy⟩ :=
    h.owned.clone (mem_held hbuffer) hdescribes hroom
  rw [hclone]
  exact h.boxBuffer howned hext hcopy

/-- {lit}`aicl_buffer_free`. -/
theorem bufferFree (h : Represents (room + 1) heap objects) (p : Nat) :
    Agrees (Represents room) (heap.bufferFree (some p))
      ((objects.buffers.get? p).map fun _ =>
        (.void, { objects with buffers := objects.buffers.free p })) := by
  apply deref h.buffers
  intro buffer data hbuffer hdata hdescribes
  have hperm := held_free hbuffer
  obtain ⟨memory, hdrop, howned, hext⟩ := (h.owned.perm hperm).drop hdescribes
  rw [hdrop]
  refine .answered _ ⟨howned, ?_, h.streams_extends hext, h.less.handles, ?_⟩
  · exact (h.buffers_extends hext).free p
  · have hlength := hperm.length_eq
    have hroom := h.heldRoom
    rw [List.length_cons] at hlength
    change ({ heap with buffers := heap.buffers.free p } : AbiHeap ν).held.length + room < 2 ^ 64
    omega

/-- {lit}`aicl_buffer_len`. -/
theorem bufferLen (h : Represents (room + 1) heap objects) (p : Nat) :
    Agrees (Represents room) (heap.bufferLen (some p))
      ((objects.buffers.get? p).map fun data => (.number (UInt32.ofNat data.length), objects)) := by
  apply deref h.buffers
  intro buffer data hbuffer hdata hdescribes
  rw [h.owned.len (mem_held hbuffer) hdescribes]
  exact .answered _ h.less

/-- {lit}`aicl_buffer_data`. -/
theorem bufferData (h : Represents (room + 1) heap objects) (p : Nat) :
    Agrees (Represents room) (heap.bufferData (some p))
      ((objects.buffers.get? p).map fun data => (.data (some data), objects)) := by
  apply deref h.buffers
  intro buffer data hbuffer hdata hdescribes
  rw [h.owned.asSlice (mem_held hbuffer) hdescribes]
  exact .answered _ h.less

/-! ## Calls on streams -/

/-- {lit}`aicl_stream_new`. -/
theorem streamNew (h : Represents (room + 1) heap objects) :
    Agrees (Represents room) (.ok heap.streamNew : Unsafe _)
      (objects.perform .streamNew) := by
  have hheld : ({ heap with streams := heap.streams.alloc {} } : AbiHeap ν).held = heap.held := by
    unfold held
    rw [Cells.values_alloc, List.flatMap_append]
    simp
  have hnext : Represents room { heap with streams := heap.streams.alloc {} }
      { objects with streams := objects.streams.alloc [] } := by
    constructor
    · rw [hheld]
      exact h.owned
    · exact h.buffers
    · exact h.streams.alloc ⟨.nil, rfl⟩
    · exact h.less.handles
    · rw [hheld]
      exact h.less.heldRoom
  rw [AbiHeap.streamNew, ObjectHeap.perform, h.streams.length_eq]
  exact .answered _ hnext

/-- {lit}`aicl_stream_push`. -/
theorem streamPush (h : Represents (room + 1) heap objects) (s p : Nat) :
    Agrees (Represents room) (heap.streamPush (some s) (some p))
      (objects.perform (.streamPush (some s) (some p))) := by
  rcases h.streams.cases s with ⟨hstream, hstrings⟩ | ⟨stream, strings, hstream, hstrings, hholds⟩
  · rw [AbiHeap.streamPush, ObjectHeap.perform, hstream, hstrings]
    exact .stopped _
  · rcases h.buffers.cases p with ⟨hbuffer, hdata⟩ | ⟨buffer, data, hbuffer, hdata, hdescribes⟩
    · rw [AbiHeap.streamPush, ObjectHeap.perform, hstream, hstrings, hbuffer, hdata]
      exact .stopped _
    · have hperm := held_push hstream hbuffer
      have hlen := h.owned.len (mem_held hbuffer) hdescribes
      have hpushed : AiclStream.Holds heap.memory (stream.push buffer) (strings ++ [data]) := by
        constructor
        · exact List.rel_append hholds.chunks (.cons hdescribes .nil)
        · rw [AiclStream.push, hholds.totalLen, hlen, List.flatten_append, List.length_append,
            UInt64.ofNat_add, List.flatten_singleton]
      rw [AbiHeap.streamPush, ObjectHeap.perform, hstream, hstrings, hbuffer, hdata]
      refine .answered _ ⟨h.owned.perm hperm, h.buffers.free p, ?_, h.less.handles, ?_⟩
      · exact h.streams.put (Cells.lt_length_of_get? hstream) hpushed
      · rw [← hperm.length_eq]
        exact h.less.heldRoom

/-- {lit}`aicl_stream_total_len`. -/
theorem streamTotalLen (h : Represents (room + 1) heap objects) (s : Nat) :
    Agrees (Represents room) (heap.streamTotalLen (some s))
      (objects.perform (.streamTotalLen (some s))) := by
  apply deref h.streams
  intro stream strings hstream hstrings hholds
  rw [hholds.totalLen, UInt64.toUInt32_ofNat']
  exact .answered _ h.less

/-- {lit}`aicl_stream_chunk_count`. -/
theorem streamChunkCount (h : Represents (room + 1) heap objects) (s : Nat) :
    Agrees (Represents room) (heap.streamChunkCount (some s))
      (objects.perform (.streamChunkCount (some s))) := by
  apply deref h.streams
  intro stream strings hstream hstrings hholds
  rw [hholds.chunks.length_eq]
  exact .answered _ h.less

/-- A stream that is gone, with its chunks dropped. -/
theorem freeStream (h : Represents (room + 1) heap objects) {memory : Memory}
    (hstream : heap.streams.get? s = some stream) (hext : heap.memory.Extends memory)
    (howned : memory.OwnedBy ({ heap with streams := heap.streams.free s } : AbiHeap ν).held) :
    Represents room { heap with memory, streams := heap.streams.free s }
      { objects with streams := objects.streams.free s } := by
  refine ⟨howned, h.buffers_extends hext, (h.streams_extends hext).free s, h.less.handles, ?_⟩
  have hlength := (held_freeStream hstream).length_eq
  have hroom := h.heldRoom
  rw [List.length_append] at hlength
  change ({ heap with streams := heap.streams.free s } : AbiHeap ν).held.length + room < 2 ^ 64
  omega

/-- {lit}`aicl_stream_free`. -/
theorem streamFree (h : Represents (room + 1) heap objects) (s : Nat) :
    Agrees (Represents room) (heap.streamFree (some s))
      (objects.perform (.streamFree (some s))) := by
  apply deref h.streams
  intro stream strings hstream hstrings hholds
  obtain ⟨memory, hdrop, _, howned, hext⟩ :=
    AiclStream.gather_owned [] (h.owned.perm (held_freeStream hstream)) hholds.chunks
  rw [hdrop]
  exact .answered _ (h.freeStream hstream hext howned)

/-- {lit}`into_contiguous`. -/
theorem streamIntoContiguous (h : Represents (room + 1) heap objects) (s : Nat) :
    Agrees (Represents room) (heap.streamIntoContiguous s)
      (objects.perform (.streamIntoContiguous s)) := by
  apply deref h.streams
  intro stream strings hstream hstrings hholds
  obtain ⟨memory, _, hgather, howned, hext⟩ :=
    AiclStream.gather_owned [] (h.owned.perm (held_freeStream hstream)) hholds.chunks
  rw [AiclStream.intoContiguous, hgather]
  exact .answered _ (h.freeStream hstream hext howned)

/-- {lit}`chunk`. -/
theorem streamChunk (h : Represents (room + 1) heap objects) (s idx : Nat) :
    Agrees (Represents room) (heap.streamChunk s idx) (objects.perform (.streamChunk s idx)) := by
  apply deref h.streams
  intro stream strings hstream hstrings hholds
  have hlength := hholds.chunks.length_eq
  rw [AiclStream.chunk]
  by_cases hidx : idx < stream.chunks.length
  · have hidx' : idx < strings.length := hlength ▸ hidx
    have hdescribes := hholds.chunks.get hidx hidx'
    have hmem := mem_held_of_chunk hstream (List.getElem_mem hidx)
    have hslice := h.owned.asSlice hmem hdescribes
    rw [List.getElem?_eq_getElem hidx, List.getElem?_eq_getElem hidx']
    dsimp only
    rw [hslice]
    exact .answered _ h.less
  · rw [List.getElem?_eq_none (Nat.le_of_not_lt hidx),
      List.getElem?_eq_none (hlength ▸ Nat.le_of_not_lt hidx)]
    exact .answered _ h.less

/-! ## Calls on handles -/

/-- Handles that are put elsewhere change nothing else. -/
theorem withHandles (h : Represents (room + 1) heap objects) {handles : Cells (AiclHandle ν)}
    {values : Cells (ν × Nat)} (hmatch : Cells.Match (AiclHandle.Counts room) handles values) :
    Represents room { heap with handles } { objects with handles := values } where
  owned := h.owned
  buffers := h.buffers
  streams := h.streams
  handles := hmatch
  heldRoom := h.less.heldRoom

/-- {lit}`AiclHandle::new`. -/
theorem handleNew (h : Represents (room + 1) heap objects) (value : ν) :
    Agrees (Represents room) (.ok (heap.handleNew value) : Unsafe _)
      (objects.perform (.handleNew value)) := by
  have hroom : 1 + room < 2 ^ 64 := by
    have := h.heldRoom
    omega
  have hcounts : AiclHandle.Counts room { inner := value, refcount := 1 } (value, 1) :=
    ⟨rfl, rfl, Nat.one_pos, hroom⟩
  rw [AbiHeap.handleNew, ObjectHeap.perform, h.handles.length_eq]
  exact .answered _ (h.withHandles (h.less.handles.alloc hcounts))

/-- {lit}`aicl_handle_clone`. -/
theorem handleClone (h : Represents (room + 1) heap objects) (p : Nat) :
    Agrees (Represents room) (heap.handleClone (some p))
      (objects.perform (.handleClone (some p))) := by
  apply deref h.handles
  intro handle value hhandle hvalue hcounts
  have hlt := hcounts.lt
  have hmore : AiclHandle.Counts room { handle with refcount := handle.refcount + 1 }
      (value.1, value.2 + 1) := by
    refine ⟨hcounts.inner, ?_, Nat.succ_pos _, ?_⟩
    · rw [UInt64.toNat_add, hcounts.refcount]
      apply Nat.mod_eq_of_lt
      change value.2 + 1 < 2 ^ 64
      omega
    · dsimp only
      omega
  exact .answered _ (h.withHandles
    (h.less.handles.put (Cells.lt_length_of_get? hhandle) hmore))

/-- {lit}`aicl_handle_free`. -/
theorem handleFree (h : Represents (room + 1) heap objects) (p : Nat) :
    Agrees (Represents room) (heap.handleFree (some p))
      (objects.perform (.handleFree (some p))) := by
  apply deref h.handles
  intro handle value hhandle hvalue hcounts
  have hlast : handle.refcount = 1 ↔ value.2 = 1 := by
    rw [← hcounts.refcount, ← UInt64.toNat_inj]
    rfl
  rw [ObjectHeap.release]
  by_cases hone : value.2 = 1
  · rw [if_pos hone, if_pos (hlast.mpr hone)]
    exact .answered _ (h.withHandles (h.less.handles.free p))
  · have hlt := hcounts.lt
    have hpos := hcounts.pos
    have hless : AiclHandle.Counts room { handle with refcount := handle.refcount - 1 }
        (value.1, value.2 - 1) := by
      have hle : (1 : UInt64) ≤ handle.refcount :=
        UInt64.le_iff_toNat_le.mpr (by rw [hcounts.refcount]; exact hpos)
      refine ⟨hcounts.inner, ?_, ?_, ?_⟩
      · rw [UInt64.toNat_sub_of_le _ _ hle, hcounts.refcount]
        rfl
      · dsimp only
        omega
      · dsimp only
        omega
    rw [if_neg hone, if_neg (mt hlast.mp hone)]
    exact .answered _ (h.withHandles
      (h.less.handles.put (Cells.lt_length_of_get? hhandle) hless))

/-- {lit}`aicl_handle_refcount`. -/
theorem handleRefcount (h : Represents (room + 1) heap objects) (p : Nat) :
    Agrees (Represents room) (heap.handleRefcount (some p))
      (objects.perform (.handleRefcount (some p))) := by
  apply deref h.handles
  intro handle value hhandle hvalue hcounts
  have hnumber : handle.refcount.toUInt32 = UInt32.ofNat value.2 := by
    rw [← hcounts.refcount]
    rfl
  rw [hnumber]
  exact .answered _ h.less

/-! ## Programs -/

/-- Every function does to the boxes what it does to the objects. -/
theorem perform_agrees (h : Represents (room + 1) heap objects) (call : AbiCall ν) :
    Agrees (Represents room) (heap.perform call) (objects.perform call) := by
  cases call with
  | bufferFromPtr data => exact h.bufferFromPtr data
  | bufferBorrow data => exact h.bufferBorrow data
  | bufferFromPtrShared data => exact h.bufferFromPtrShared data
  | streamNew => exact h.streamNew
  | streamChunk stream idx => exact h.streamChunk stream idx
  | streamIntoContiguous stream => exact h.streamIntoContiguous stream
  | handleNew value => exact h.handleNew value
  | bufferClone buf =>
      cases buf with
      | none => exact .answered _ h.less
      | some p => exact h.bufferClone p
  | bufferFree buf =>
      cases buf with
      | none => exact .answered _ h.less
      | some p => exact h.bufferFree p
  | bufferLen buf =>
      cases buf with
      | none => exact .answered _ h.less
      | some p => exact h.bufferLen p
  | bufferData buf =>
      cases buf with
      | none => exact .answered _ h.less
      | some p => exact h.bufferData p
  | streamPush stream buf =>
      cases stream with
      | none => exact .answered _ h.less
      | some s =>
          cases buf with
          | none => exact .answered _ h.less
          | some p => exact h.streamPush s p
  | streamTotalLen stream =>
      cases stream with
      | none => exact .answered _ h.less
      | some s => exact h.streamTotalLen s
  | streamChunkCount stream =>
      cases stream with
      | none => exact .answered _ h.less
      | some s => exact h.streamChunkCount s
  | streamFree stream =>
      cases stream with
      | none => exact .answered _ h.less
      | some s => exact h.streamFree s
  | handleClone handle =>
      cases handle with
      | none => exact .answered _ h.less
      | some p => exact h.handleClone p
  | handleFree handle =>
      cases handle with
      | none => exact .answered _ h.less
      | some p => exact h.handleFree p
  | handleRefcount handle =>
      cases handle with
      | none => exact .answered _ h.less
      | some p => exact h.handleRefcount p

/-- No object and no box. -/
theorem start (hroom : room < 2 ^ 64) : Represents room ({} : AbiHeap ν) {} where
  owned := Memory.OwnedBy.start
  buffers := .nil
  streams := .nil
  handles := .nil
  heldRoom := (Nat.zero_add room).trans_lt hroom

/-- When every object is gone, so is everything that was allocated. -/
theorem freed (h : Represents room heap objects) (hempty : objects.Empty) : heap.Freed := by
  have hbuffers : ∀ p, heap.buffers.get? p = none := by
    intro p
    exact (h.buffers.gone_iff p).mpr (hempty.buffers p)
  have hstreams : ∀ s, heap.streams.get? s = none := by
    intro s
    exact (h.streams.gone_iff s).mpr (hempty.streams s)
  have hheld : heap.held = [] := by
    rw [held, Cells.values_eq_nil hbuffers, Cells.values_eq_nil hstreams]
    rfl
  have howned := h.owned
  rw [hheld] at howned
  refine ⟨fun a => (howned.freed a).1, fun a => (howned.freed a).2, hbuffers, hstreams, ?_⟩
  intro p
  exact (h.handles.gone_iff p).mpr (hempty.handles p)

end Represents

/-- A C program sees byte strings, lists of byte strings and counted references, and
nothing else: while fewer than {lit}`2^64` calls are made, it gets the answers that the
objects give, its first call on an object that is gone is the first undefined behaviour,
and when it has freed every object, no allocation is left. -/
theorem refines_objects (calls : List (AbiCall ν)) (hroom : calls.length < 2 ^ 64) :
    Agrees (fun heap objects => Represents 0 heap objects ∧ (objects.Empty → heap.Freed))
      (PartialService.run perform {} calls) (PartialService.run ObjectHeap.perform {} calls) := by
  have hagrees : Agrees (Represents 0) (PartialService.run perform ({} : AbiHeap ν) calls)
      (PartialService.run ObjectHeap.perform {} calls) :=
    PartialService.run_agrees (fun _ _ _ call h => h.perform_agrees call) (Represents.start hroom)
  exact hagrees.imp fun _ _ h => ⟨h, h.freed⟩

/-- A shared buffer and its clone, of which one goes into a stream that is then made
contiguous. -/
def exampleCalls : List (AbiCall Unit) :=
  [.bufferFromPtrShared (some [1, 2, 3]), .bufferClone (some 0), .streamNew,
    .streamPush (some 0) (some 1), .bufferFree (some 0), .streamIntoContiguous 0]

/-- The program with a shared buffer and a stream. -/
theorem refines_objects_example :
    Agrees (fun heap objects => Represents 0 heap objects ∧ (objects.Empty → heap.Freed))
      (PartialService.run perform {} exampleCalls)
      (PartialService.run ObjectHeap.perform {} exampleCalls) :=
  refines_objects exampleCalls (by decide)

end AbiHeap

end Aicl.CoreRust

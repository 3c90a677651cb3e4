import Aicl.CoreRust.Buffer
import Aicl.Foundation.Machine

/-!
# Programs that share buffers

A program makes buffers, clones them, drops them and takes their bytes, in any
order and on any number of handles; a handle that was dropped or taken is not used
again.  The program remembers what each handle was made from and how it ended.

Main results:

- Theorem {lit}`BufferProgram.Sharing.perform_drop`: a handle that is dropped leaves a count
  that is right.
- Theorem {lit}`BufferProgram.released_once_iff`: the runs in which every allocation is freed
  with its last handle, and not before.
- Theorem {lit}`BufferProgram.intoVec_returns`: every handle that is taken gives what it was
  made from.
-/

namespace Aicl.CoreRust

/-! ## Programs -/

/-- Whether a handle can be used, and how it ended otherwise. -/
inductive HandleStatus where
  | live | dropped | taken
deriving DecidableEq, Repr

/-- A handle, with the bytes that it was made from. -/
structure BufferHandle where
  buffer : AiclBuffer
  data : Bytes
  status : HandleStatus := .live

/-- A program: the memory, and every handle that it ever had. -/
structure BufferProgram where
  memory : Memory := {}
  handles : List BufferHandle := []

/-- An operation; handles are numbered as they are made. -/
inductive BufferOp where
  | owned (v : ByteVec)
  | borrowed (bytes : Bytes)
  | shared (v : ByteVec)
  | clone (h : Nat)
  | drop (h : Nat)
  | intoVec (h : Nat)

namespace BufferProgram

/-- A handle that can be used. -/
def live? (s : BufferProgram) (h : Nat) : Option BufferHandle :=
  s.handles[h]?.filter fun handle => handle.status = .live

/-- A new handle. -/
def push (s : BufferProgram) (memory : Memory) (buffer : AiclBuffer) (data : Bytes) :
    BufferProgram where
  memory
  handles := s.handles ++ [{ buffer, data }]

/-- The end of a handle. -/
def consume (s : BufferProgram) (memory : Memory) (h : Nat) (handle : BufferHandle)
    (status : HandleStatus) : BufferProgram where
  memory
  handles := s.handles.set h { handle with status }

/-- An operation: no outcome when its handle cannot be used, and otherwise what the
code does, with the bytes that it returns. -/
def perform (s : BufferProgram) : BufferOp → Option (Unsafe (Option Bytes × BufferProgram))
  | .owned v => some (.ok (none, s.push s.memory (.owned v) v.bytes))
  | .borrowed bytes => some (.ok (none, s.push s.memory (.borrowed bytes) bytes))
  | .shared v =>
      let (buffer, memory) := AiclBuffer.shared v s.memory
      some (.ok (none, s.push memory buffer v.bytes))
  | .clone h =>
      (s.live? h).map fun handle => do
        let (buffer, memory) ← handle.buffer.clone s.memory
        pure (none, s.push memory buffer handle.data)
  | .drop h =>
      (s.live? h).map fun handle => do
        let memory ← handle.buffer.drop s.memory
        pure (none, s.consume memory h handle .dropped)
  | .intoVec h =>
      (s.live? h).map fun handle => do
        let (bytes, memory) ← handle.buffer.intoVec s.memory
        pure (some bytes, s.consume memory h handle .taken)

/-- The state after an operation that returns. -/
def step (s : BufferProgram) (op : BufferOp) : Option BufferProgram :=
  match s.perform op with
  | some (.ok (_, t)) => some t
  | _ => none

/-- How many handles of an allocation have a status. -/
def number (s : BufferProgram) (status : HandleStatus) (a : Nat) : Nat :=
  s.handles.countP fun handle => status = handle.status ∧ handle.buffer.refcount = some a

/-- Every allocation has its count, and is there as long as it has live handles. -/
def Balanced (s : BufferProgram) : Prop :=
  ∀ a, a < s.memory.counts.length → s.memory.Counted a (s.number .live a)

/-- An operation is sound: it meets no undefined behaviour, allocations are balanced
after it, and taking a handle gives what the handle was made from. -/
def Sound (s : BufferProgram) (op : BufferOp) : Prop :=
  ∀ outcome, s.perform op = some outcome →
    ∃ answer t, outcome = .ok (answer, t) ∧ t.Balanced ∧
      ∀ h handle, op = .intoVec h → s.live? h = some handle → answer = some handle.data

/-- The operation takes no shared handle, and clones one only while the count has
room. -/
def Allowed (s : BufferProgram) : BufferOp → Prop
  | .intoVec h => ∀ handle, s.live? h = some handle → handle.buffer.refcount = none
  | .clone h => ∀ handle a, s.live? h = some handle → handle.buffer.refcount = some a →
      s.number .live a + 1 < 2 ^ 64
  | _ => True

/-- The operation clones a shared handle only while the count has room. -/
def Room (s : BufferProgram) : BufferOp → Prop
  | .clone h => ∀ handle a, s.live? h = some handle → handle.buffer.refcount = some a →
      s.number .live a + s.number .taken a + 1 < 2 ^ 64
  | _ => True

/-- The operation returns, and taking a handle gives what the handle was made from. -/
def Returns (s : BufferProgram) (op : BufferOp) : Prop :=
  ∀ outcome, s.perform op = some outcome → ∃ answer t, outcome = .ok (answer, t) ∧
    ∀ h handle, op = .intoVec h → s.live? h = some handle → answer = some handle.data

/-! ## Counting handles -/

variable {s t : BufferProgram} {memory : Memory} {buffer : AiclBuffer} {data : Bytes} {h a : Nat}
  {handle : BufferHandle} {status : HandleStatus}

/-- A handle that can be used is one of the handles. -/
theorem live?_eq_some_iff :
    s.live? h = some handle ↔ s.handles[h]? = some handle ∧ handle.status = .live := by
  rw [live?, Option.filter_eq_some_iff, decide_eq_true_iff]

/-- A new handle is a live one. -/
theorem number_push : (s.push memory buffer data).number status a =
    s.number status a + if status = .live ∧ buffer.refcount = some a then 1 else 0 := by
  rw [number, push, List.countP_append, List.countP_singleton, number]
  simp only [decide_eq_true_eq]

/-- A handle that ends is no live one any more. -/
theorem number_consume (hlive : s.live? h = some handle) (ended : HandleStatus) :
    (s.consume memory h handle ended).number status a =
      s.number status a -
        (if status = .live ∧ handle.buffer.refcount = some a then 1 else 0) +
        if status = ended ∧ handle.buffer.refcount = some a then 1 else 0 := by
  obtain ⟨hget, hstatus⟩ := live?_eq_some_iff.mp hlive
  obtain ⟨hlt, hget⟩ := List.getElem?_eq_some_iff.mp hget
  rw [number, consume, List.countP_set hlt, hget, hstatus, number]
  simp only [decide_eq_true_eq]

/-- A step is an operation that returns. -/
theorem perform_of_step {op : BufferOp} (hstep : s.step op = some t) :
    ∃ answer, s.perform op = some (.ok (answer, t)) := by
  unfold step at hstep
  split at hstep
  next answer t' houtcome =>
    cases hstep
    exact ⟨answer, houtcome⟩
  next => cases hstep

/-- An operation on a handle is performed on a live one. -/
theorem exists_live {α β : Type} {o : Option α} {f : α → β} {b : β} (h : o.map f = some b) :
    ∃ a, o = some a := by
  obtain ⟨a, ha, _⟩ := Option.map_eq_some_iff.mp h
  exact ⟨a, ha⟩

/-- A live handle of an allocation is counted. -/
theorem number_pos (hlive : s.live? h = some handle) (ha : handle.buffer.refcount = some a) :
    0 < s.number .live a := by
  obtain ⟨hget, hstatus⟩ := live?_eq_some_iff.mp hlive
  rw [number, List.countP_pos_iff]
  exact ⟨handle, List.mem_of_getElem? hget, decide_eq_true ⟨hstatus.symm, ha⟩⟩

/-! ## Sharing -/

end BufferProgram

/-- What a handle was made from, as the memory has it. -/
inductive Memory.Describes (memory : Memory) (data : Bytes) : AiclBuffer → Prop
  | owned (v : ByteVec) (h : v.bytes = data) : Describes memory data (.owned v)
  | borrowed : Describes memory data (.borrowed data)
  | shared (a length capacity : Nat) (hlt : a < memory.counts.length)
      (hblock : ∀ block, memory.blocks.get? a = some block →
        block.bytes = data ∧ block.bytes.length = length ∧ block.capacity = capacity) :
      Describes memory data (sharedAt a length capacity)

/-- Another memory in which no address is lost and no block is new at an old address. -/
structure Memory.Extends (memory memory' : Memory) : Prop where
  counts_length : memory.counts.length ≤ memory'.counts.length
  kept : ∀ a block, a < memory.counts.length → memory'.blocks.get? a = some block →
    memory.blocks.get? a = some block

/-- A handle is described by the memory after it as well. -/
theorem Memory.Describes.extends {memory memory' : Memory} {data : Bytes} {buffer : AiclBuffer}
    (h : memory.Describes data buffer) (hext : memory.Extends memory') :
    memory'.Describes data buffer := by
  cases h with
  | owned v h => exact .owned v h
  | borrowed => exact .borrowed
  | shared a length capacity hlt hblock =>
      exact .shared a length capacity (Nat.lt_of_lt_of_le hlt hext.counts_length)
        fun block hget => hblock block (hext.kept a block hlt hget)

/-- A memory in which one allocation changed. -/
theorem Memory.Frame.extends {memory memory' : Memory} {a : Nat}
    (h : memory.Frame a memory') : memory.Extends memory' where
  counts_length := h.counts_length.ge
  kept b block hlt hget := by
    by_cases hb : b = a
    · subst hb
      exact h.kept block hget
    · exact (h.blocks b hb).symm.trans hget

/-- The same memory. -/
theorem Memory.Extends.refl (memory : Memory) : memory.Extends memory where
  counts_length := le_rfl
  kept _ _ _ hget := hget

namespace BufferProgram

/-- What holds in every state: every handle is described, and the count of an
allocation is the number of its handles that are live or were taken. -/
structure Sharing (s : BufferProgram) : Prop where
  lengths : s.memory.counts.length = s.memory.blocks.length
  described : ∀ handle ∈ s.handles, s.memory.Describes handle.data handle.buffer
  counted : ∀ a, a < s.memory.counts.length →
    s.memory.Counted a (s.number .live a + s.number .taken a)

namespace Sharing

variable {s : BufferProgram} {memory : Memory} {buffer : AiclBuffer} {data : Bytes} {h a : Nat}
  {handle : BufferHandle}

/-- A program without handles. -/
theorem start : Sharing {} where
  lengths := rfl
  described _ hmem := absurd hmem List.not_mem_nil
  counted a ha := absurd ha (Nat.not_lt_zero a)

/-- A live handle is described. -/
theorem describes (hs : s.Sharing) (hlive : s.live? h = some handle) :
    s.memory.Describes handle.data handle.buffer :=
  hs.described handle (List.mem_of_getElem? (live?_eq_some_iff.mp hlive).1)

/-- A new handle in a memory that counts it. -/
theorem push (hs : s.Sharing) (hext : s.memory.Extends memory)
    (hlengths : memory.counts.length = memory.blocks.length)
    (hdescribes : memory.Describes data buffer)
    (hcounted : ∀ a, a < memory.counts.length → memory.Counted a
      (s.number .live a + (if buffer.refcount = some a then 1 else 0) + s.number .taken a)) :
    (s.push memory buffer data).Sharing where
  lengths := hlengths
  described := by
    intro handle hmem
    rcases List.mem_append.mp hmem with hold | hnew
    · exact (hs.described handle hold).extends hext
    · rw [List.mem_singleton.mp hnew]
      exact hdescribes
  counted := by
    intro a ha
    have hlive : (s.push memory buffer data).number .live a =
        s.number .live a + if buffer.refcount = some a then 1 else 0 := by
      simp [number_push]
    have htaken : (s.push memory buffer data).number .taken a = s.number .taken a := by
      simp [number_push]
    rw [hlive, htaken]
    exact hcounted a ha

/-- The end of a handle in a memory that counts it no more, unless it was taken. -/
theorem consume (hs : s.Sharing) (hext : s.memory.Extends memory)
    (hlengths : memory.counts.length = memory.blocks.length) (hlive : s.live? h = some handle)
    {ended : HandleStatus}
    (hcounted : ∀ a, a < memory.counts.length → memory.Counted a
      ((s.consume memory h handle ended).number .live a +
        (s.consume memory h handle ended).number .taken a)) :
    (s.consume memory h handle ended).Sharing where
  lengths := hlengths
  described := by
    intro other hmem
    rcases List.mem_or_eq_of_mem_set hmem with hold | hended
    · exact (hs.described other hold).extends hext
    · rw [hended]
      exact (hs.describes hlive).extends hext
  counted := hcounted

/-- No handle is at an address that was not given out. -/
theorem number_of_fresh (hs : s.Sharing) (ha : s.memory.counts.length ≤ a) (status : HandleStatus) :
    s.number status a = 0 := by
  rw [number, List.countP_eq_zero]
  intro handle hmem hat
  obtain ⟨_, hrefcount⟩ := of_decide_eq_true hat
  have hdescribes := hs.described handle hmem
  generalize handle.buffer = buffer at hdescribes hrefcount
  cases hdescribes with
  | owned v h => cases hrefcount
  | borrowed => cases hrefcount
  | shared b length capacity hlt hblock =>
      cases hrefcount
      omega

/-- A handle that shares nothing may be made. -/
theorem push_unshared (hs : s.Sharing) (hdescribes : s.memory.Describes data buffer)
    (hunshared : buffer.refcount = none) : (s.push s.memory buffer data).Sharing := by
  refine hs.push (.refl _) hs.lengths hdescribes ?_
  intro a ha
  rw [hunshared, if_neg (Option.some_ne_none a).symm, Nat.add_zero]
  exact hs.counted a ha

/-- A new allocation has one handle, and nothing else changes. -/
theorem push_shared (hs : s.Sharing) (v : ByteVec) :
    (s.push (AiclBuffer.shared v s.memory).2 (AiclBuffer.shared v s.memory).1 v.bytes).Sharing := by
  have hbuffer : (AiclBuffer.shared v s.memory).1 =
      sharedAt s.memory.counts.length v.bytes.length v.capacity := by
    rw [AiclBuffer.shared, ← hs.lengths]
    rfl
  have hblock : (s.memory.blocks.alloc v).get? s.memory.counts.length = some v := by
    rw [hs.lengths]
    exact Cells.get?_alloc_self
  have hold : ∀ a, a < s.memory.counts.length →
      (s.memory.counts.alloc 1).get? a = s.memory.counts.get? a ∧
        (s.memory.blocks.alloc v).get? a = s.memory.blocks.get? a :=
    fun a ha => ⟨Cells.get?_alloc_of_lt ha, Cells.get?_alloc_of_lt (hs.lengths ▸ ha)⟩
  rw [hbuffer]
  apply hs.push
  · constructor
    · exact (Nat.le_succ _).trans_eq Cells.length_alloc.symm
    · intro a block ha hget
      exact (hold a ha).2.symm.trans hget
  · exact Cells.length_alloc.trans ((congrArg (· + 1) hs.lengths).trans Cells.length_alloc.symm)
  · refine .shared _ _ _ ?_ ?_
    · exact (Nat.lt_succ_self _).trans_eq Cells.length_alloc.symm
    · intro block hget
      cases hblock.symm.trans hget
      exact ⟨rfl, rfl, rfl⟩
  · intro a ha
    have hle : a ≤ s.memory.counts.length :=
      Nat.le_of_lt_succ (ha.trans_eq Cells.length_alloc)
    by_cases hnew : a = s.memory.counts.length
    · rw [hnew, hs.number_of_fresh le_rfl, hs.number_of_fresh le_rfl]
      simpa [sharedAt] using AiclBuffer.shared_counted v hs.lengths
    · have hlt : a < s.memory.counts.length := by omega
      have hother : (sharedAt s.memory.counts.length v.bytes.length v.capacity).refcount ≠ some a :=
        fun heq => hnew (Option.some.inj heq).symm
      rw [if_neg hother, Nat.add_zero]
      exact (hs.counted a hlt).congr (hold a hlt).1 (hold a hlt).2

/-- The allocation of a live shared handle is there and counted. -/
theorem counted_pos (hs : s.Sharing) (hlive : s.live? h = some handle)
    (ha : handle.buffer.refcount = some a) (hlt : a < s.memory.counts.length) :
    s.memory.Counted a (s.number .live a + s.number .taken a) ∧
      0 < s.number .live a + s.number .taken a :=
  ⟨hs.counted a hlt, Nat.add_pos_left (number_pos hlive ha) _⟩

/-- A live handle is cloned, and counted while the count has room. -/
theorem perform_clone (hs : s.Sharing) (hlive : s.live? h = some handle) :
    ∃ buffer memory,
      s.perform (.clone h) = some (.ok (none, s.push memory buffer handle.data)) ∧
      buffer.refcount = handle.buffer.refcount ∧
      memory.counts.length = s.memory.counts.length ∧
      ((∀ a, handle.buffer.refcount = some a →
          s.number .live a + s.number .taken a + 1 < 2 ^ 64) →
        (s.push memory buffer handle.data).Sharing) := by
  obtain ⟨buffer, data, status⟩ := handle
  have hdescribes : s.memory.Describes data buffer := hs.describes hlive
  have hperform : s.perform (.clone h) = some (buffer.clone s.memory >>= fun r =>
      pure (none, s.push r.2 r.1 data)) := by
    rw [perform, hlive]
    rfl
  cases hdescribes with
  | owned v hv =>
      refine ⟨_, _, hperform, rfl, rfl, fun _ => hs.push_unshared ?_ rfl⟩
      exact .owned _ hv
  | borrowed => exact ⟨_, _, hperform, rfl, rfl, fun _ => hs.push_unshared .borrowed rfl⟩
  | shared a length capacity hlt hblock =>
      obtain ⟨hcounted, hpos⟩ := hs.counted_pos hlive rfl hlt
      obtain ⟨memory, hclone, hframe, hroom⟩ :=
        AiclBuffer.clone_sharedAt length capacity hcounted hpos
      rw [hclone] at hperform
      refine ⟨_, memory, hperform, rfl, hframe.counts_length, fun hfits => ?_⟩
      apply hs.push hframe.extends
      · exact hframe.counts_length.trans (hs.lengths.trans hframe.blocks_length.symm)
      · exact (Memory.Describes.shared a length capacity hlt hblock).extends hframe.extends
      · intro b hb
        by_cases hab : b = a
        · subst hab
          have hone : (sharedAt b length capacity).refcount = some b := rfl
          rw [if_pos hone, Nat.add_right_comm]
          exact hroom (hfits b rfl)
        · have hother : (sharedAt a length capacity).refcount ≠ some b :=
            fun heq => hab (Option.some.inj heq).symm
          rw [if_neg hother, Nat.add_zero]
          exact (hs.counted b (hframe.counts_length ▸ hb)).congr (hframe.counts b hab)
            (hframe.blocks b hab)

/-- A live handle is dropped, and its allocation is freed with its last handle. -/
theorem perform_drop (hs : s.Sharing) (hlive : s.live? h = some handle) :
    ∃ memory, s.perform (.drop h) = some (.ok (none, s.consume memory h handle .dropped)) ∧
      (s.consume memory h handle .dropped).Sharing := by
  have hperform : s.perform (.drop h) = some (handle.buffer.drop s.memory >>= fun memory =>
      pure (none, s.consume memory h handle .dropped)) := by
    rw [perform, hlive]
    rfl
  have hunshared : handle.buffer.refcount = none → ∀ a,
      (s.consume s.memory h handle .dropped).number .live a +
          (s.consume s.memory h handle .dropped).number .taken a =
        s.number .live a + s.number .taken a := by
    intro hnone a
    simp [number_consume hlive, hnone]
  have hsame : handle.buffer.refcount = none →
      (s.consume s.memory h handle .dropped).Sharing := by
    intro hnone
    refine hs.consume (.refl _) hs.lengths hlive fun a ha => ?_
    rw [hunshared hnone a]
    exact hs.counted a ha
  generalize hbuffer : handle.buffer = buffer at hperform hsame
  have hdescribes := hs.describes hlive
  rw [hbuffer] at hdescribes
  cases hdescribes with
  | owned v hv => exact ⟨s.memory, hperform, hsame rfl⟩
  | borrowed => exact ⟨s.memory, hperform, hsame rfl⟩
  | shared a length capacity hlt hblock =>
      have hrefcount : handle.buffer.refcount = some a := congrArg AiclBuffer.refcount hbuffer
      obtain ⟨hcounted, hpos⟩ := hs.counted_pos hlive hrefcount hlt
      obtain ⟨block, hget⟩ := hcounted.block_of_pos hpos
      obtain ⟨_, hlength, hcapacity⟩ := hblock block hget
      obtain ⟨memory, hdrop, hframe, hless⟩ := AiclBuffer.drop_sharedAt hcounted hpos hget
        (hlength ▸ block.length_le) hcapacity
      rw [hdrop] at hperform
      refine ⟨memory, hperform, hs.consume hframe.extends
        (hframe.counts_length.trans (hs.lengths.trans hframe.blocks_length.symm)) hlive ?_⟩
      intro b hb
      rw [number_consume hlive, number_consume hlive, hrefcount]
      by_cases hab : b = a
      · subst hab
        have hlive := number_pos hlive hrefcount
        simpa [Nat.sub_add_comm hlive] using hless
      · have hother : some a ≠ some b := fun heq => hab (Option.some.inj heq).symm
        simpa [hother] using (hs.counted b (hframe.counts_length ▸ hb)).congr (hframe.counts b hab)
          (hframe.blocks b hab)

/-- A live handle reads what it was made from. -/
theorem asSlice (hs : s.Sharing) (hlive : s.live? h = some handle) :
    handle.buffer.asSlice s.memory = .ok handle.data := by
  generalize hbuffer : handle.buffer = buffer
  have hdescribes := hs.describes hlive
  rw [hbuffer] at hdescribes
  cases hdescribes with
  | owned v hv => exact congrArg Outcome.ok hv
  | borrowed => rfl
  | shared a length capacity hlt hblock =>
      obtain ⟨hcounted, hpos⟩ :=
        hs.counted_pos hlive (congrArg AiclBuffer.refcount hbuffer) hlt
      obtain ⟨block, hget⟩ := hcounted.block_of_pos hpos
      obtain ⟨hdata, hlength, _⟩ := hblock block hget
      rw [AiclBuffer.asSlice_sharedAt hget hlength, hdata]

/-- A live handle is taken and gives what it was made from; the memory stays as it is. -/
theorem perform_intoVec (hs : s.Sharing) (hlive : s.live? h = some handle) :
    s.perform (.intoVec h) =
        some (.ok (some handle.data, s.consume s.memory h handle .taken)) ∧
      (s.consume s.memory h handle .taken).Sharing := by
  constructor
  · rw [perform, hlive, Option.map_some, AiclBuffer.intoVec_of_asSlice (hs.asSlice hlive)]
    rfl
  · refine hs.consume (.refl _) hs.lengths hlive ?_
    intro a ha
    have hnumber : (s.consume s.memory h handle .taken).number .live a +
        (s.consume s.memory h handle .taken).number .taken a =
          s.number .live a + s.number .taken a := by
      rw [number_consume hlive, number_consume hlive]
      by_cases hat : handle.buffer.refcount = some a
      · have hpos := number_pos hlive hat
        simp [hat]
        omega
      · simp [hat]
    rw [hnumber]
    exact hs.counted a ha

/-- The allocation of a live handle has an address that was given out. -/
theorem lt_length (hs : s.Sharing) (hlive : s.live? h = some handle)
    (ha : handle.buffer.refcount = some a) : a < s.memory.counts.length := by
  have hdescribes := hs.describes hlive
  generalize handle.buffer = buffer at hdescribes ha
  cases hdescribes with
  | owned v hv => cases ha
  | borrowed => cases ha
  | shared b length capacity hlt hblock =>
      cases ha
      exact hlt

/-- What an operation does while the counts have room: it returns, taking a handle
gives what the handle was made from, and only taking a shared handle leaves a handle
that is counted but not live. -/
theorem perform (hs : s.Sharing) {op : BufferOp} (hroom : s.Room op)
    {outcome : Unsafe (Option Bytes × BufferProgram)} (houtcome : s.perform op = some outcome) :
    ∃ answer t, outcome = .ok (answer, t) ∧ t.Sharing ∧
      (∀ h handle, op = .intoVec h → s.live? h = some handle → answer = some handle.data) ∧
      ((∀ h handle, op = .intoVec h → s.live? h = some handle → handle.buffer.refcount = none) →
        ∀ a, t.number .taken a = s.number .taken a) := by
  cases op with
  | owned v =>
      cases houtcome
      refine ⟨none, _, rfl, hs.push_unshared (.owned v rfl) rfl, ?_, ?_⟩
      · rintro h handle ⟨⟩
      · exact fun _ a => number_push
  | borrowed bytes =>
      cases houtcome
      refine ⟨none, _, rfl, hs.push_unshared .borrowed rfl, ?_, ?_⟩
      · rintro h handle ⟨⟩
      · exact fun _ a => number_push
  | shared v =>
      cases houtcome
      refine ⟨none, _, rfl, hs.push_shared v, ?_, ?_⟩
      · rintro h handle ⟨⟩
      · exact fun _ a => number_push
  | clone h =>
      obtain ⟨handle, hlive⟩ := exists_live houtcome
      obtain ⟨buffer, memory, hperform, _, _, hsharing⟩ := hs.perform_clone hlive
      cases hperform.symm.trans houtcome
      refine ⟨none, _, rfl, hsharing fun a ha => hroom handle a hlive ha, ?_, ?_⟩
      · rintro h handle ⟨⟩
      · exact fun _ a => number_push
  | drop h =>
      obtain ⟨handle, hlive⟩ := exists_live houtcome
      obtain ⟨memory, hperform, hsharing⟩ := hs.perform_drop hlive
      cases hperform.symm.trans houtcome
      refine ⟨none, _, rfl, hsharing, ?_, ?_⟩
      · rintro h handle ⟨⟩
      · exact fun _ a => number_consume hlive .dropped
  | intoVec h =>
      obtain ⟨handle, hlive⟩ := exists_live houtcome
      obtain ⟨hperform, hsharing⟩ := hs.perform_intoVec hlive
      cases hperform.symm.trans houtcome
      refine ⟨some handle.data, _, rfl, hsharing, ?_, ?_⟩
      · rintro h' other ⟨⟩ hother
        cases hlive.symm.trans hother
        rfl
      · intro hunshared a
        rw [number_consume hlive, hunshared h handle rfl hlive]
        rfl

/-- An allocation of which a handle was taken is never freed. -/
theorem leaks (hs : s.Sharing) (ha : a < s.memory.counts.length) (htaken : 0 < s.number .taken a) :
    ∃ block, s.memory.blocks.get? a = some block :=
  (hs.counted a ha).block_of_pos (Nat.add_pos_right _ htaken)

end Sharing

/-! ## Runs -/

/-- No shared handle was taken. -/
structure Kept (s : BufferProgram) : Prop where
  sharing : s.Sharing
  untaken : ∀ a, s.number .taken a = 0

namespace Kept

variable {s : BufferProgram} {op : BufferOp}

/-- A program without handles. -/
theorem start : Kept {} where
  sharing := Sharing.start
  untaken _ := rfl

/-- Such a program is balanced. -/
theorem balanced (hs : s.Kept) : s.Balanced := by
  intro a ha
  have hcounted := hs.sharing.counted a ha
  rw [hs.untaken a] at hcounted
  exact hcounted

/-- What an operation that is allowed does. -/
theorem perform (hs : s.Kept) (hallowed : s.Allowed op)
    {outcome : Unsafe (Option Bytes × BufferProgram)} (houtcome : s.perform op = some outcome) :
    ∃ answer t, outcome = .ok (answer, t) ∧ t.Kept ∧
      ∀ h handle, op = .intoVec h → s.live? h = some handle → answer = some handle.data := by
  have hroom : s.Room op := by
    cases op with
    | clone h =>
        intro handle a hlive ha
        rw [hs.untaken a]
        exact hallowed handle a hlive ha
    | _ => trivial
  obtain ⟨answer, t, hok, hsharing, hanswer, htaken⟩ := hs.sharing.perform hroom houtcome
  have hunshared : ∀ h handle, op = .intoVec h → s.live? h = some handle →
      handle.buffer.refcount = none := by
    rintro h handle rfl hlive
    exact hallowed handle hlive
  exact ⟨answer, t, hok, ⟨hsharing, fun a => (htaken hunshared a).trans (hs.untaken a)⟩, hanswer⟩

/-- A step that is allowed takes no shared handle. -/
theorem step (hs : s.Kept) (hallowed : s.Allowed op) {t : BufferProgram}
    (hstep : s.step op = some t) : t.Kept := by
  obtain ⟨answer, hperform⟩ := perform_of_step hstep
  obtain ⟨_, _, hok, ht, _⟩ := hs.perform hallowed hperform
  cases hok
  exact ht

/-- An operation is sound exactly when it is allowed. -/
theorem allowed_iff_sound (hs : s.Kept) : s.Allowed op ↔ s.Sound op := by
  constructor
  · intro hallowed outcome houtcome
    obtain ⟨answer, t, hok, ht, hanswer⟩ := hs.perform hallowed houtcome
    exact ⟨answer, t, hok, ht.balanced, hanswer⟩
  · intro hsound
    cases op with
    | clone h =>
        intro handle a hlive ha
        obtain ⟨buffer, memory, hperform, hrefcount, hlength, _⟩ := hs.sharing.perform_clone hlive
        obtain ⟨_, _, hok, hbalanced, _⟩ := hsound _ hperform
        cases hok
        have hlt := (hbalanced a (hlength.symm ▸ hs.sharing.lt_length hlive ha)).lt
        rw [number_push, hrefcount, if_pos ⟨rfl, ha⟩] at hlt
        exact hlt
    | intoVec h =>
        intro handle hlive
        by_contra hshared
        obtain ⟨a, ha⟩ := Option.ne_none_iff_exists'.mp hshared
        obtain ⟨_, _, hok, hbalanced, _⟩ := hsound _ (hs.sharing.perform_intoVec hlive).1
        cases hok
        -- the count is what it was, but there is one live handle less
        have hlt := hs.sharing.lt_length hlive ha
        have hsame := (hs.balanced a hlt).unique (hbalanced a hlt)
        have hpos := number_pos hlive ha
        rw [number_consume hlive, if_pos ⟨rfl, ha⟩, if_neg (by simp)] at hsame
        omega
    | _ => trivial

end Kept

/-- From a program without handles on, every allocation has the count of its live handles
and is freed with the last of them, and every handle that is taken gives what it was
made from, exactly when no shared handle is taken and no count wraps around. -/
theorem released_once_iff (ops : List BufferOp) :
    Machine.Along step Sound {} ops ↔ Machine.Along step Allowed {} ops := by
  have hkeep : ∀ s op t, Kept s → s.Allowed op → s.step op = some t → Kept t :=
    fun s op t hs hallowed hstep => hs.step hallowed hstep
  have hiff : ∀ s op, Kept s → (s.Allowed op ↔ s.Sound op) := fun s op hs => hs.allowed_iff_sound
  exact (Machine.along_congr_of_invariant hkeep hiff Kept.start).symm

/-- A vector of three bytes. -/
def threeBytes : ByteVec where
  bytes := [1, 2, 3]
  capacity := 3
  length_le := le_rfl

/-- A shared buffer whose only handle is taken keeps a count of one, and is never freed. -/
theorem taken_not_freed :
    (∃ t, Machine.run step {} [.shared threeBytes, .intoVec 0] = some t ∧
      t.number .live 0 = 0 ∧ t.memory.counts.get? 0 = some 1 ∧
      t.memory.blocks.get? 0 = some threeBytes) ∧
      ¬ Machine.Along step Sound {} [.shared threeBytes, .intoVec 0] := by
  constructor
  · exact ⟨_, rfl, rfl, rfl, rfl⟩
  · intro halong
    obtain ⟨_, _, hok, hbalanced, _⟩ := (halong.2 _ rfl).1 _ rfl
    cases hok
    rcases hbalanced 0 Nat.one_pos with ⟨_, hcount, _⟩ | ⟨hpos, _⟩
    · cases hcount
    · exact absurd hpos (Nat.not_lt_zero 0)

/-- While the counts have room, no operation meets undefined behaviour, and every
handle that is taken gives what it was made from. -/
theorem intoVec_returns (ops : List BufferOp) (hroom : Machine.Along step Room {} ops) :
    Machine.Along step Returns {} ops := by
  have hkeep : ∀ s op t, Sharing s → s.Room op → s.step op = some t → Sharing t := by
    intro s op t hs hroom hstep
    obtain ⟨answer, hperform⟩ := perform_of_step hstep
    obtain ⟨_, _, hok, ht, _⟩ := hs.perform hroom hperform
    cases hok
    exact ht
  have hreturns : ∀ s op, Sharing s → s.Room op → s.Returns op := by
    intro s op hs hroom outcome houtcome
    obtain ⟨answer, t, hok, _, hanswer, _⟩ := hs.perform hroom houtcome
    exact ⟨answer, t, hok, hanswer⟩
  exact Machine.Along.of_invariant hkeep hreturns Sharing.start hroom

end BufferProgram

end Aicl.CoreRust

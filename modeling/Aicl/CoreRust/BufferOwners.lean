import Aicl.CoreRust.BufferRuns
import Aicl.Foundation.CellRelations

/-!
# The owners of shared allocations

Whoever holds a buffer, a box or a stream, is an owner of its allocation.  These are the
rules of a memory whose reference counts are the numbers of its owners, whatever the
program keeps them in.

Main results:

- Theorems {lit}`Memory.OwnedBy.shared`, {lit}`Memory.OwnedBy.clone` and
  {lit}`Memory.OwnedBy.drop`: what making, cloning and dropping a buffer does to its
  owners.
- Theorem {lit}`Memory.OwnedBy.asSlice`: an owner reads what its buffer was made from.
- Theorem {lit}`Memory.OwnedBy.freed`: without owners nothing is left.
-/

namespace Aicl.CoreRust

/-- How many of the buffers own an allocation. -/
def owners (held : List AiclBuffer) (a : Nat) : Nat :=
  held.countP fun buffer => buffer.refcount = some a

/-- The buffers are the owners of what is in the memory: each of them is described, and
the count of an allocation is the number of its owners. -/
structure Memory.OwnedBy (memory : Memory) (held : List AiclBuffer) : Prop where
  lengths : memory.counts.length = memory.blocks.length
  described : ∀ buffer ∈ held, ∃ data, memory.Describes data buffer
  counted : ∀ a, a < memory.counts.length → memory.Counted a (owners held a)

namespace Memory.OwnedBy

variable {memory : Memory} {held others : List AiclBuffer} {buffer : AiclBuffer} {data : Bytes}
  {a : Nat}

/-- One more buffer is one more owner of its own allocation. -/
theorem owners_cons : owners (buffer :: held) a =
    owners held a + if buffer.refcount = some a then 1 else 0 := by
  simp only [owners, List.countP_cons, decide_eq_true_eq]

/-- There are not more owners than buffers. -/
theorem owners_le : owners held a ≤ held.length := List.countP_le_length

/-- Before anything is made. -/
theorem start : OwnedBy {} [] where
  lengths := rfl
  described _ hmem := absurd hmem List.not_mem_nil
  counted a ha := absurd ha (Nat.not_lt_zero a)

/-- The order of the owners says nothing. -/
theorem perm (h : memory.OwnedBy held) (hperm : held.Perm others) : memory.OwnedBy others where
  lengths := h.lengths
  described buffer hmem := h.described buffer (hperm.mem_iff.mpr hmem)
  counted a ha := by
    have hcount : owners others a = owners held a := hperm.symm.countP_eq _
    rw [hcount]
    exact h.counted a ha

/-- The allocation of an owner is at an address that was given out. -/
theorem lt_length (h : memory.OwnedBy held) (hmem : buffer ∈ held)
    (hat : buffer.refcount = some a) : a < memory.counts.length := by
  obtain ⟨data, hdescribes⟩ := h.described buffer hmem
  cases hdescribes with
  | owned v hv => cases hat
  | borrowed => cases hat
  | shared b length capacity hlt hblock =>
      cases hat
      exact hlt

/-- Nobody owns what was not given out. -/
theorem owners_of_fresh (h : memory.OwnedBy held) (ha : memory.counts.length ≤ a) :
    owners held a = 0 := by
  rw [owners, List.countP_eq_zero]
  intro buffer hmem hat
  have hlt := h.lt_length hmem (of_decide_eq_true hat)
  omega

/-- An owner counts. -/
theorem owners_pos (hmem : buffer ∈ held) (hat : buffer.refcount = some a) :
    0 < owners held a :=
  List.countP_pos_iff.mpr ⟨buffer, hmem, decide_eq_true hat⟩

/-- A buffer that shares nothing owns nothing. -/
theorem cons (h : memory.OwnedBy held) (hdescribes : memory.Describes data buffer)
    (hunshared : buffer.refcount = none) : memory.OwnedBy (buffer :: held) where
  lengths := h.lengths
  described := by
    intro other hmem
    rcases List.mem_cons.mp hmem with heq | hold
    · rw [heq]
      exact ⟨data, hdescribes⟩
    · exact h.described other hold
  counted a ha := by
    have hnone : buffer.refcount ≠ some a := by
      rw [hunshared]
      exact (Option.some_ne_none a).symm
    rw [owners_cons, if_neg hnone]
    exact h.counted a ha

/-- A buffer that shares nothing can be left out. -/
theorem uncons (h : memory.OwnedBy (buffer :: held)) (hunshared : buffer.refcount = none) :
    memory.OwnedBy held where
  lengths := h.lengths
  described other hmem := h.described other (List.mem_cons_of_mem buffer hmem)
  counted a ha := by
    have hnone : buffer.refcount ≠ some a := by
      rw [hunshared]
      exact (Option.some_ne_none a).symm
    have hcounted := h.counted a ha
    rw [owners_cons, if_neg hnone] at hcounted
    exact hcounted

/-- The owners in a memory in which one allocation changed. -/
theorem of_frame {memory' : Memory} (h : memory.OwnedBy held) (hframe : memory.Frame a memory')
    (hdescribed : ∀ buffer ∈ others, ∃ data, memory.Describes data buffer)
    (hself : memory'.Counted a (owners others a))
    (hsame : ∀ b, b ≠ a → owners others b = owners held b) : memory'.OwnedBy others where
  lengths := hframe.counts_length.trans (h.lengths.trans hframe.blocks_length.symm)
  described := by
    intro buffer hmem
    obtain ⟨data, hdescribes⟩ := hdescribed buffer hmem
    exact ⟨data, hdescribes.extends hframe.extends⟩
  counted b hb := by
    by_cases hba : b = a
    · rw [hba]
      exact hself
    · rw [hsame b hba]
      exact (h.counted b (hframe.counts_length ▸ hb)).congr (hframe.counts b hba)
        (hframe.blocks b hba)

/-- A new shared allocation has one owner. -/
theorem shared (h : memory.OwnedBy held) (v : ByteVec) :
    (AiclBuffer.shared v memory).2.OwnedBy ((AiclBuffer.shared v memory).1 :: held) ∧
      memory.Extends (AiclBuffer.shared v memory).2 ∧
      (AiclBuffer.shared v memory).2.Describes v.bytes (AiclBuffer.shared v memory).1 := by
  have hbuffer : (AiclBuffer.shared v memory).1 =
      sharedAt memory.counts.length v.bytes.length v.capacity := by
    rw [AiclBuffer.shared, ← h.lengths]
    rfl
  have hblock : (AiclBuffer.shared v memory).2.blocks.get? memory.counts.length = some v := by
    rw [h.lengths]
    exact Cells.get?_alloc_self
  have hlength : (AiclBuffer.shared v memory).2.counts.length = memory.counts.length + 1 :=
    Cells.length_alloc
  have hold : ∀ a, a < memory.counts.length →
      (AiclBuffer.shared v memory).2.counts.get? a = memory.counts.get? a ∧
        (AiclBuffer.shared v memory).2.blocks.get? a = memory.blocks.get? a :=
    fun a ha => ⟨Cells.get?_alloc_of_lt ha, Cells.get?_alloc_of_lt (h.lengths ▸ ha)⟩
  have hextends : memory.Extends (AiclBuffer.shared v memory).2 := by
    constructor
    · exact (Nat.le_succ _).trans_eq hlength.symm
    · intro a block ha hget
      exact (hold a ha).2.symm.trans hget
  have hdescribes : (AiclBuffer.shared v memory).2.Describes v.bytes
      (AiclBuffer.shared v memory).1 := by
    rw [hbuffer]
    refine .shared _ _ _ ?_ ?_
    · exact (Nat.lt_succ_self _).trans_eq hlength.symm
    · intro block hget
      cases hblock.symm.trans hget
      exact ⟨rfl, rfl, rfl⟩
  refine ⟨⟨?_, ?_, ?_⟩, hextends, hdescribes⟩
  · exact hlength.trans ((congrArg (· + 1) h.lengths).trans Cells.length_alloc.symm)
  · intro other hmem
    rcases List.mem_cons.mp hmem with heq | hheld
    · rw [heq]
      exact ⟨v.bytes, hdescribes⟩
    · obtain ⟨data, hdata⟩ := h.described other hheld
      exact ⟨data, hdata.extends hextends⟩
  · intro a ha
    have hle : a ≤ memory.counts.length := Nat.le_of_lt_succ (ha.trans_eq hlength)
    rw [hbuffer, owners_cons]
    by_cases hnew : a = memory.counts.length
    · rw [hnew, h.owners_of_fresh le_rfl]
      simpa [sharedAt] using AiclBuffer.shared_counted v h.lengths
    · have hlt : a < memory.counts.length := by omega
      have hother : (sharedAt memory.counts.length v.bytes.length v.capacity).refcount ≠ some a :=
        fun heq => hnew (Option.some.inj heq).symm
      rw [if_neg hother, Nat.add_zero]
      exact (h.counted a hlt).congr (hold a hlt).1 (hold a hlt).2

/-- The buffer of an owner is cloned into another owner, while the count has room. -/
theorem clone (h : memory.OwnedBy held) (hmem : buffer ∈ held)
    (hdescribes : memory.Describes data buffer) (hroom : held.length + 1 < 2 ^ 64) :
    ∃ copy memory', buffer.clone memory = .ok (copy, memory') ∧
      memory'.OwnedBy (copy :: held) ∧ memory.Extends memory' ∧ memory'.Describes data copy := by
  cases hdescribes with
  | owned v hv =>
      have hcopy : memory.Describes data (.owned
          { bytes := v.bytes, capacity := v.bytes.length, length_le := le_rfl }) := .owned _ hv
      exact ⟨_, memory, rfl, h.cons hcopy rfl, .refl memory, hcopy⟩
  | borrowed => exact ⟨_, memory, rfl, h.cons .borrowed rfl, .refl memory, .borrowed⟩
  | shared a length capacity hlt hblock =>
      have hpos := owners_pos hmem rfl
      obtain ⟨memory', hclone, hframe, hmore⟩ :=
        AiclBuffer.clone_sharedAt length capacity (h.counted a hlt) hpos
      have hcopy : memory.Describes data (sharedAt a length capacity) :=
        .shared a length capacity hlt hblock
      have hself : owners (sharedAt a length capacity :: held) a = owners held a + 1 := by
        rw [owners_cons, if_pos (show (sharedAt a length capacity).refcount = some a from rfl)]
      refine ⟨_, memory', hclone, h.of_frame hframe ?_ ?_ ?_, hframe.extends,
        hcopy.extends hframe.extends⟩
      · intro other hother
        rcases List.mem_cons.mp hother with heq | hheld
        · rw [heq]
          exact ⟨data, hcopy⟩
        · exact h.described other hheld
      · rw [hself]
        exact hmore ((Nat.succ_le_succ owners_le).trans_lt hroom)
      · intro b hb
        have hother : (sharedAt a length capacity).refcount ≠ some b :=
          fun heq => hb (Option.some.inj heq).symm
        rw [owners_cons, if_neg hother, Nat.add_zero]

/-- An owner is dropped, and its allocation is freed with the last one. -/
theorem drop (h : memory.OwnedBy (buffer :: held)) (hdescribes : memory.Describes data buffer) :
    ∃ memory', buffer.drop memory = .ok memory' ∧ memory'.OwnedBy held ∧
      memory.Extends memory' := by
  cases hdescribes with
  | owned v hv => exact ⟨memory, rfl, h.uncons rfl, .refl memory⟩
  | borrowed => exact ⟨memory, rfl, h.uncons rfl, .refl memory⟩
  | shared a length capacity hlt hblock =>
      have hpos : 0 < owners (sharedAt a length capacity :: held) a :=
        owners_pos List.mem_cons_self rfl
      have hcounted := h.counted a hlt
      obtain ⟨block, hget⟩ := hcounted.block_of_pos hpos
      obtain ⟨_, hlength, hcapacity⟩ := hblock block hget
      obtain ⟨memory', hdrop, hframe, hless⟩ := AiclBuffer.drop_sharedAt hcounted hpos hget
        (hlength ▸ block.length_le) hcapacity
      refine ⟨memory', hdrop, h.of_frame hframe ?_ ?_ ?_, hframe.extends⟩
      · exact fun other hother => h.described other (List.mem_cons_of_mem _ hother)
      · rw [owners_cons, if_pos (show (sharedAt a length capacity).refcount = some a from rfl)]
          at hless
        exact hless
      · intro b hb
        have hother : (sharedAt a length capacity).refcount ≠ some b :=
          fun heq => hb (Option.some.inj heq).symm
        rw [owners_cons, if_neg hother, Nat.add_zero]

/-- An owner reads what its buffer was made from. -/
theorem asSlice (h : memory.OwnedBy held) (hmem : buffer ∈ held)
    (hdescribes : memory.Describes data buffer) : buffer.asSlice memory = .ok data := by
  cases hdescribes with
  | owned v hv => exact congrArg Outcome.ok hv
  | borrowed => rfl
  | shared a length capacity hlt hblock =>
      obtain ⟨block, hget⟩ := (h.counted a hlt).block_of_pos (owners_pos hmem rfl)
      obtain ⟨hdata, hlength, _⟩ := hblock block hget
      rw [AiclBuffer.asSlice_sharedAt hget hlength, hdata]

/-- The length of a buffer is the length of what it was made from, as long as it has an
owner. -/
theorem len (h : memory.OwnedBy held) (hmem : buffer ∈ held)
    (hdescribes : memory.Describes data buffer) : buffer.len = data.length := by
  cases hdescribes with
  | owned v hv => exact congrArg List.length hv
  | borrowed => rfl
  | shared a length capacity hlt hblock =>
      obtain ⟨block, hget⟩ := (h.counted a hlt).block_of_pos (owners_pos hmem rfl)
      obtain ⟨hdata, hlength, _⟩ := hblock block hget
      exact hlength.symm.trans (congrArg List.length hdata)

/-- Without owners every count and every block is freed. -/
theorem freed (h : memory.OwnedBy []) (a : Nat) :
    memory.counts.get? a = none ∧ memory.blocks.get? a = none := by
  by_cases ha : a < memory.counts.length
  · rcases h.counted a ha with ⟨_, hcount, hblock⟩ | ⟨hpos, _⟩
    · exact ⟨hcount, hblock⟩
    · exact absurd hpos (Nat.lt_irrefl 0)
  · have hle : memory.counts.length ≤ a := Nat.le_of_not_lt ha
    exact ⟨Cells.get?_of_length_le hle, Cells.get?_of_length_le (h.lengths ▸ hle)⟩

end Memory.OwnedBy

end Aicl.CoreRust

import Aicl.CoreRust.Error
import Aicl.Foundation.Machine

/-!
# The capability table of the Rust core

{lit}`CapabilityTable` of {lit}`core-rust/src/capability.rs`: slots that are
given out by a search for a free one and, when there is none, by a watermark.
The watermark is not moved by the search, so that on a table that was filled by
the search it still points at slots in use.

Main results:

- Theorem {lit}`CapabilityTable.registersFaithfully_iff`: one registration keeps what the table
  holds exactly when the search or the watermark finds room.
- Theorem {lit}`Registry.registers_free_slots_iff`: the same for every run from a new
  table.
- Theorem {lit}`Registry.roomFor_of_capacity`: capacities for which every
  registration finds room.
-/

namespace Aicl.CoreRust

/-- Capability kinds. -/
inductive CapabilityKind where
  | function | resource | remote | model
  | vendor (v : UInt8)
deriving DecidableEq, Repr

/-- A capability record. -/
structure Capability where
  name : String
  kind : CapabilityKind
  payload : Option UInt64
deriving DecidableEq, Repr

/-- {lit}`MAX_CAPABILITY`. -/
def maxCapability : Nat := 65535

/-- The slots and the watermark.  Slot 0 is the null slot, the watermark is past
it, and no operation moves the watermark past the end of the slots. -/
structure CapabilityTable where
  slots : List (Option Capability)
  next : UInt16
  slots_pos : 0 < slots.length
  slots_le : slots.length ≤ maxCapability
  next_pos : 0 < next.toNat
  next_le : next.toNat ≤ slots.length

namespace CapabilityTable

/-- {lit}`new`: slot 0 is there for every capacity. -/
def new (capacity : Nat) : CapabilityTable where
  slots := none :: List.replicate (min capacity maxCapability - 1) none
  next := 1
  slots_pos := by simp
  slots_le := by
    simp only [List.length_cons, List.length_replicate, maxCapability]
    omega
  next_pos := by simp
  next_le := by simp

/-- {lit}`get`. -/
def get (t : CapabilityTable) (idx : UInt16) : Option Capability :=
  t.slots[idx.toNat]?.join

/-- The first free slot after slot 0. -/
def freeSlot (t : CapabilityTable) : Option Nat :=
  (t.slots.tail.findIdx? Option.isNone).map (· + 1)

/-- {lit}`self.slots[i] = value`. -/
def store (t : CapabilityTable) (i : Nat) (value : Option Capability) : CapabilityTable :=
  { t with
    slots := t.slots.set i value
    slots_pos := by simpa using t.slots_pos
    slots_le := by simpa using t.slots_le
    next_le := by simpa using t.next_le }

/-- The watermark after {lit}`fetch_add` on a table that is not at its limit. -/
theorem next_succ (t : CapabilityTable) (h : t.slots.length < maxCapability) :
    (t.next + 1).toNat = t.next.toNat + 1 := by
  have hle := t.next_le
  rw [maxCapability] at h
  rw [UInt16.toNat_add]
  exact Nat.mod_eq_of_lt (by simp; omega)

/-- The watermark names a slot: it is moved and the slot is overwritten. -/
def storeNext (t : CapabilityTable) (cap : Capability) (h : t.slots.length < maxCapability)
    (hlt : t.next.toNat < t.slots.length) : CapabilityTable where
  slots := t.slots.set t.next.toNat (some cap)
  next := t.next + 1
  slots_pos := by simpa using t.slots_pos
  slots_le := by simpa using t.slots_le
  next_pos := by rw [t.next_succ h]; omega
  next_le := by rw [t.next_succ h]; simpa using hlt

/-- The watermark is at the end: it is moved and a slot is added. -/
def pushNext (t : CapabilityTable) (cap : Capability) (h : t.slots.length < maxCapability) :
    CapabilityTable where
  slots := t.slots ++ [some cap]
  next := t.next + 1
  slots_pos := by simp
  slots_le := by simpa using h
  next_pos := by rw [t.next_succ h]; omega
  next_le := by
    rw [t.next_succ h]
    simpa using t.next_le

/-- {lit}`register`. -/
def register (t : CapabilityTable) (cap : Capability) : AiclResult UInt16 × CapabilityTable :=
  match t.freeSlot with
  | some i => (.ok (UInt16.ofNat i), t.store i (some cap))
  | none =>
      if h : t.slots.length < maxCapability then
        if hlt : t.next.toNat < t.slots.length then (.ok t.next, t.storeNext cap h hlt)
        else (.ok t.next, t.pushNext cap h)
      else (.err (.new .capabilityOverflow "capability table full"), t)

/-- {lit}`unregister`. -/
def unregister (t : CapabilityTable) (idx : UInt16) : AiclResult Capability × CapabilityTable :=
  if idx = 0 then (.err (.new .capabilityInvalid "cannot unregister null cap"), t)
  else
    match t.slots[idx.toNat]? with
    | none => (.err (.new .capabilityInvalid s!"capability index {idx} out of range"), t)
    | some none => (.err (.new .capabilityInvalid s!"capability index {idx} not registered"), t)
    | some (some cap) => (.ok cap, t.store idx.toNat none)

/-! ## Reading slots -/

variable {t : CapabilityTable} {cap : Capability} {i j : UInt16}

/-- A slot that was stored to holds what was stored. -/
theorem get_store {n : Nat} {value : Option Capability} (h : n < t.slots.length) :
    (t.store n value).get i = if i.toNat = n then value else t.get i := by
  simp only [get, store, List.getElem?_set]
  by_cases hi : n = i.toNat
  · subst hi
    simp [h]
  · simp [hi, Ne.symm hi]

/-- The slot that the watermark added. -/
theorem get_pushNext {h : t.slots.length < maxCapability} (hend : t.slots.length = t.next.toNat) :
    (t.pushNext cap h).get i = if i = t.next then some cap else t.get i := by
  simp only [get, pushNext, List.getElem?_append, hend]
  by_cases hi : i = t.next
  · simp [hi]
  · have hne : i.toNat ≠ t.next.toNat := fun heq => hi (UInt16.toNat_inj.mp heq)
    by_cases hlt : i.toNat < t.next.toNat
    · simp [hi, hlt]
    · have hout : [some cap].length ≤ i.toNat - t.next.toNat := by
        rw [List.length_singleton]
        omega
      have hlen : t.slots.length ≤ i.toNat := by omega
      simp only [hi, hlt, if_false, List.getElem?_eq_none hout, List.getElem?_eq_none hlen]

/-- A slot that the search found is empty and is not slot 0. -/
theorem freeSlot_eq_some {n : Nat} (h : t.freeSlot = some n) :
    0 < n ∧ n < t.slots.length ∧ t.slots[n]? = some none := by
  obtain ⟨k, hfind, rfl⟩ := Option.map_eq_some_iff.mp h
  obtain ⟨hk, hnone, _⟩ := List.findIdx?_eq_some_iff_getElem.mp hfind
  have hlt : k + 1 < t.slots.length := by
    rw [List.length_tail] at hk
    omega
  refine ⟨Nat.succ_pos k, hlt, ?_⟩
  rw [List.getElem_tail, Option.isNone_iff_eq_none] at hnone
  rw [List.getElem?_eq_getElem hlt, hnone]

/-- When the search found nothing, no slot but slot 0 is empty. -/
theorem freeSlot_eq_none (h : t.freeSlot = none) {n : Nat} (hpos : 0 < n) :
    t.slots[n]? ≠ some none := by
  have hall := List.findIdx?_eq_none_iff.mp (Option.map_eq_none_iff.mp h)
  intro hnone
  have hmem : none ∈ t.slots.tail := by
    apply List.mem_iff_getElem?.mpr
    refine ⟨n - 1, ?_⟩
    rw [List.getElem?_tail, Nat.sub_add_cancel hpos]
    exact hnone
  simpa using hall none hmem

/-! ## One registration -/

/-- The registration gave out a slot that was free, and changed no other. -/
structure RegistersAt (t : CapabilityTable) (cap : Capability) (i : UInt16)
    (t' : CapabilityTable) : Prop where
  ne_zero : i ≠ 0
  was_empty : t.get i = none
  get_eq : t'.get i = some cap
  get_ne : ∀ j, j ≠ i → t'.get j = t.get j

/-- The registration gave out a free slot, or it failed and changed nothing. -/
def RegistersFaithfully (t : CapabilityTable) (cap : Capability) : Prop :=
  match t.register cap with
  | (.ok i, t') => RegistersAt t cap i t'
  | (_, t') => t' = t

/-- The search finds a slot, or the table is at its limit, or the watermark is at
the end of the slots. -/
def HasRoom (t : CapabilityTable) : Prop :=
  t.freeSlot.isSome ∨ t.slots.length = maxCapability ∨ t.next.toNat = t.slots.length

instance (t : CapabilityTable) : Decidable t.HasRoom := by
  unfold HasRoom
  infer_instance

/-- A slot inside the table is empty exactly when nothing can be looked up there. -/
theorem get_eq_none_iff (h : i.toNat < t.slots.length) :
    t.get i = none ↔ t.slots[i.toNat]? = some none := by
  rw [get, List.getElem?_eq_getElem h]
  simp

/-- A registration by search. -/
theorem registersAt_store {n : Nat} (hfree : t.freeSlot = some n) :
    RegistersAt t cap (UInt16.ofNat n) (t.store n (some cap)) := by
  obtain ⟨hpos, hlt, hnone⟩ := freeSlot_eq_some hfree
  have hn : (UInt16.ofNat n).toNat = n := by
    have hle := t.slots_le
    rw [maxCapability] at hle
    exact UInt16.toNat_ofNat_of_lt' (by simp [UInt16.size]; omega)
  refine ⟨fun hzero => ?_, ?_, ?_, fun j hj => ?_⟩
  · rw [hzero] at hn
    exact hpos.ne hn
  · apply (get_eq_none_iff (by omega)).mpr
    rw [hn]
    exact hnone
  · rw [get_store hlt, if_pos hn]
  · have hne : j.toNat ≠ n := fun heq => hj (UInt16.toNat_inj.mp (heq.trans hn.symm))
    rw [get_store hlt, if_neg hne]

/-- A registration at the end of the slots. -/
theorem registersAt_pushNext {h : t.slots.length < maxCapability}
    (hend : t.next.toNat = t.slots.length) : RegistersAt t cap t.next (t.pushNext cap h) where
  ne_zero hzero := by
    have hpos := t.next_pos
    rw [hzero] at hpos
    exact absurd hpos (by simp)
  was_empty := by simp [get, hend]
  get_eq := by rw [get_pushNext hend.symm, if_pos rfl]
  get_ne j hj := by rw [get_pushNext hend.symm, if_neg hj]

/-- One registration keeps what the table holds exactly when it finds room. -/
theorem registersFaithfully_iff (t : CapabilityTable) (cap : Capability) :
    RegistersFaithfully t cap ↔ t.HasRoom := by
  unfold RegistersFaithfully register HasRoom
  cases hfree : t.freeSlot with
  | some n => simpa [hfree] using registersAt_store hfree
  | none =>
      have hle := t.slots_le
      by_cases hlen : t.slots.length < maxCapability
      · by_cases hlt : t.next.toNat < t.slots.length
        · -- The watermark points at a slot that the search has given out.
          have hused : t.get t.next ≠ none := fun hnone =>
            freeSlot_eq_none hfree t.next_pos ((get_eq_none_iff hlt).mp hnone)
          have hne : t.next.toNat ≠ t.slots.length := hlt.ne
          simp only [hlen, hlt, hlen.ne, hne, dite_true, Option.isSome_none, Bool.false_eq_true,
            or_self, iff_false]
          exact fun hat => hused hat.was_empty
        · have hend : t.next.toNat = t.slots.length := le_antisymm t.next_le (not_lt.mp hlt)
          simpa [hlen, hlt, hend] using registersAt_pushNext hend
      · have hfull : t.slots.length = maxCapability := le_antisymm hle (not_lt.mp hlen)
        simp [hfull]

/-- A registration gives out an index or fails without a change. -/
theorem register_cases (t : CapabilityTable) (cap : Capability) :
    (∃ i t', t.register cap = (.ok i, t')) ∨ ∃ e, t.register cap = (.err e, t) := by
  unfold register
  split
  · exact .inl ⟨_, _, rfl⟩
  · split
    · split
      · exact .inl ⟨_, _, rfl⟩
      · exact .inl ⟨_, _, rfl⟩
    · exact .inr ⟨_, rfl⟩

/-- Giving a slot back clears that slot or fails without a change. -/
theorem unregister_cases (t : CapabilityTable) (i : UInt16) :
    (∃ cap, i.toNat < t.slots.length ∧ t.unregister i = (.ok cap, t.store i.toNat none)) ∨
      ∃ e, t.unregister i = (.err e, t) := by
  unfold unregister
  split
  · exact .inr ⟨_, rfl⟩
  · split
    · exact .inr ⟨_, rfl⟩
    · exact .inr ⟨_, rfl⟩
    · next cap hslot => exact .inl ⟨cap, (List.getElem?_eq_some_iff.mp hslot).1, rfl⟩

/-- The table is at its limit or its watermark is at the end of the slots. -/
def Settled (t : CapabilityTable) : Prop :=
  t.slots.length = maxCapability ∨ t.next.toNat = t.slots.length

/-- Storing to a slot moves neither the end nor the watermark. -/
theorem Settled.store {n : Nat} {value : Option Capability} (h : t.Settled) :
    (t.store n value).Settled := by
  simpa [Settled, CapabilityTable.store] using h

/-- A settled table stays settled. -/
theorem Settled.register (h : t.Settled) : (t.register cap).2.Settled := by
  unfold CapabilityTable.register
  split
  · exact h.store
  · split
    · next hlen =>
        have hend : t.next.toNat = t.slots.length := h.resolve_left hlen.ne
        rw [dif_neg hend.not_lt]
        right
        simp only [pushNext, List.length_append, List.length_singleton]
        rw [t.next_succ hlen, hend]
    · exact h

end CapabilityTable

/-! ## Runs of a table -/

/-- What is asked of a table. -/
inductive TableCall where
  | register (cap : Capability)
  | unregister (idx : UInt16)
deriving DecidableEq, Repr

/-- A table and the indices that were given out and not given back, each with the
capability that it was given out for. -/
structure Registry where
  table : CapabilityTable
  live : List (UInt16 × Capability)

namespace Registry

open CapabilityTable

/-- A new table, with nothing given out. -/
def new (capacity : Nat) : Registry := ⟨.new capacity, []⟩

/-- One call. -/
def step (r : Registry) : TableCall → Option Registry
  | .register cap =>
      match r.table.register cap with
      | (.ok i, table) => some ⟨table, r.live ++ [(i, cap)]⟩
      | (_, table) => some ⟨table, r.live⟩
  | .unregister i =>
      match r.table.unregister i with
      | (.ok _, table) => some ⟨table, r.live.filter (·.1 ≠ i)⟩
      | (_, table) => some ⟨table, r.live⟩

/-- A registration in this state is faithful. -/
def Faithful (r : Registry) : TableCall → Prop
  | .register cap => RegistersFaithfully r.table cap
  | .unregister _ => True

/-- A registration in this state finds room. -/
def RoomFor (r : Registry) : TableCall → Prop
  | .register _ => r.table.HasRoom
  | .unregister _ => True

/-- No two live capabilities share an index, and each is found under its own. -/
structure LiveDistinct (r : Registry) : Prop where
  nodup : (r.live.map Prod.fst).Nodup
  get_eq : ∀ e ∈ r.live, r.table.get e.1 = some e.2

/-- A registration that takes a free slot keeps the live capabilities apart. -/
theorem LiveDistinct.register {r : Registry} {cap : Capability} {i : UInt16}
    {table : CapabilityTable} (hlive : r.LiveDistinct) (hat : RegistersAt r.table cap i table) :
    LiveDistinct ⟨table, r.live ++ [(i, cap)]⟩ := by
  have hnew : ∀ e ∈ r.live, e.1 ≠ i := by
    intro e he hei
    have hget := hlive.get_eq e he
    rw [hei, hat.was_empty] at hget
    cases hget
  constructor
  · rw [List.map_append, List.map_singleton]
    apply List.nodup_append.mpr
    refine ⟨hlive.nodup, List.nodup_singleton i, ?_⟩
    intro a ha b hb
    obtain ⟨e, he, rfl⟩ := List.mem_map.mp ha
    rw [List.mem_singleton.mp hb]
    exact hnew e he
  · intro e he
    rcases List.mem_append.mp he with he | he
    · exact (hat.get_ne e.1 (hnew e he)).trans (hlive.get_eq e he)
    · rw [List.mem_singleton.mp he]
      exact hat.get_eq

/-- Giving a slot back keeps the other live capabilities apart. -/
theorem LiveDistinct.unregister {r : Registry} {i : UInt16} (hlive : r.LiveDistinct)
    (hlt : i.toNat < r.table.slots.length) :
    LiveDistinct ⟨r.table.store i.toNat none, r.live.filter (·.1 ≠ i)⟩ := by
  constructor
  · exact hlive.nodup.sublist (List.filter_sublist.map Prod.fst)
  · intro e he
    obtain ⟨hmem, hne⟩ := List.mem_filter.mp he
    have hidx : e.1.toNat ≠ i.toNat := fun heq => of_decide_eq_true hne (UInt16.toNat_inj.mp heq)
    rw [get_store hlt, if_neg hidx]
    exact hlive.get_eq e hmem

/-- Faithful calls keep the live capabilities apart. -/
theorem liveDistinct_step (r : Registry) (call : TableCall) (r' : Registry)
    (hlive : r.LiveDistinct) (hfaithful : r.Faithful call) (hstep : r.step call = some r') :
    r'.LiveDistinct := by
  cases call with
  | register cap =>
      simp only [Faithful, RegistersFaithfully] at hfaithful
      simp only [step] at hstep
      rcases r.table.register_cases cap with ⟨i, table, hreg⟩ | ⟨e, hreg⟩
      · rw [hreg] at hfaithful hstep
        cases hstep
        exact hlive.register hfaithful
      · rw [hreg] at hstep
        cases hstep
        exact hlive
  | unregister i =>
      simp only [step] at hstep
      rcases r.table.unregister_cases i with ⟨cap, hlt, hunreg⟩ | ⟨e, hunreg⟩
      · rw [hunreg] at hstep
        cases hstep
        exact hlive.unregister hlt
      · rw [hunreg] at hstep
        cases hstep
        exact hlive

/-- In every run from a new table, every registration takes a free slot or fails
without a change, and live capabilities do not share an index, exactly when every
registration of the run finds room. -/
theorem registers_free_slots_iff (capacity : Nat) (calls : List TableCall) :
    (Machine.Along step Faithful (new capacity) calls ∧
      ∀ r, Machine.run step (new capacity) calls = some r → r.LiveDistinct) ↔
    Machine.Along step RoomFor (new capacity) calls := by
  have hagree : Machine.Along step Faithful (new capacity) calls ↔
      Machine.Along step RoomFor (new capacity) calls := by
    apply Machine.along_congr
    intro r call
    cases call with
    | register cap => exact registersFaithfully_iff r.table cap
    | unregister i => rfl
  constructor
  · intro h
    exact hagree.mp h.1
  · intro hroom
    have hfaithful := hagree.mpr hroom
    have hnew : (new capacity).LiveDistinct := ⟨by simp [new], by simp [new]⟩
    refine ⟨hfaithful, fun r hrun => ?_⟩
    exact Machine.invariant liveDistinct_step hnew hfaithful hrun

/-- With room for one slot or for all of them, every registration finds room. -/
theorem roomFor_of_capacity {capacity : Nat} (h : capacity ≤ 1 ∨ maxCapability ≤ capacity)
    (calls : List TableCall) : Machine.Along step RoomFor (new capacity) calls := by
  have hlength : (new capacity).table.slots.length = min capacity maxCapability - 1 + 1 := by
    rw [new, CapabilityTable.new, List.length_cons, List.length_replicate]
  have hnew : (new capacity).table.Settled := by
    rcases h with h | h
    · right
      have hmin : min capacity maxCapability - 1 = 0 := by omega
      simp [new, CapabilityTable.new, hmin]
    · left
      have hpos : 0 < maxCapability := by decide
      omega
  have hkeep : ∀ r call r', r.table.Settled → True → step r call = some r' →
      r'.table.Settled := by
    intro r call r' hr _ hstep
    cases call with
    | register cap =>
        have hsettled : (r.table.register cap).2.Settled := hr.register
        simp only [step] at hstep
        rcases r.table.register_cases cap with ⟨i, table, hreg⟩ | ⟨e, hreg⟩
        · rw [hreg] at hstep hsettled
          cases hstep
          exact hsettled
        · rw [hreg] at hstep
          cases hstep
          exact hr
    | unregister i =>
        simp only [step] at hstep
        rcases r.table.unregister_cases i with ⟨cap, hlt, hunreg⟩ | ⟨e, hunreg⟩
        · rw [hunreg] at hstep
          cases hstep
          exact hr.store
        · rw [hunreg] at hstep
          cases hstep
          exact hr
  apply Machine.Along.of_invariant hkeep _ hnew (Machine.along_true _ _)
  intro r call hr _
  cases call with
  | register cap => exact .inr hr
  | unregister i => trivial

/-- On a table of two slots the second registration overwrites the first. -/
theorem register_overwrites :
    ¬ ∀ (capacity : Nat) (calls : List TableCall),
      Machine.Along step Faithful (new capacity) calls ∧
        ∀ r, Machine.run step (new capacity) calls = some r → r.LiveDistinct := by
  intro h
  let add : Capability := ⟨"calculator.add", .function, none⟩
  let search : Capability := ⟨"web.search", .remote, none⟩
  have hsecond := ((h 2 [.register add, .register search]).1.2 _ rfl).1
  exact absurd hsecond.was_empty (by decide)

end Registry

end Aicl.CoreRust

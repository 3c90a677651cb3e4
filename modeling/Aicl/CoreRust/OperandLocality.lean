import Aicl.CoreRust.OperandDecode
import Aicl.Foundation.PrefixFree

/-!
# Operand decoding is local

{lit}`decode_operand` looks at no byte after the operand that it returns, needs all
the bytes of the operand, and calls itself on shorter slices only.

Main results:

- Theorem {lit}`decodeOperandWith_congr`: the calls that one call makes.
- Theorem {lit}`decodeOperand_eq`: the recursion of {lit}`decode_operand`, without
  fuel.
- Theorem {lit}`operand_decoding_local`: locality and progress.
-/

namespace Aicl.CoreRust

open Isa (IsNullOrReserved)
open Outcome (Forward PrefixFree LocalAt bind_eq_ok_iff)

/-! ## Positions only grow -/

/-- A sequence of two readers that never go back. -/
theorem forward_bind {ε α γ : Type} {p : Bytes → Nat → Outcome ε (α × Nat)}
    {q : α → Bytes → Nat → Outcome ε (γ × Nat)} (hp : Forward p) (hq : ∀ a, Forward (q a)) :
    Forward fun data pos => p data pos >>= fun r => q r.1 data r.2 := by
  intro data pos r hr
  obtain ⟨s, hs, hrest⟩ := bind_eq_ok_iff.mp hr
  exact (hp data pos s hs).trans (hq s.1 data s.2 r hrest)

/-- Returning a value moves nowhere. -/
theorem forward_pure {ε α : Type} (a : α) :
    Forward fun (_ : Bytes) pos => (.ok (a, pos) : Outcome ε (α × Nat)) := by
  intro data pos r hr
  cases hr
  exact Nat.le_refl pos

/-- A varint is read forward. -/
theorem readVarint_forward : Forward readVarint := by
  intro data pos r hr
  obtain ⟨rest, _, hr⟩ := bind_eq_ok_iff.mp hr
  obtain ⟨v, _, hr⟩ := bind_eq_ok_iff.mp hr
  cases hr
  exact Nat.le_add_right pos v.2

/-- Raw bytes are read forward. -/
theorem readRaw_forward (idx : UInt32) (w : Nat) : Forward (readRaw idx w) := by
  intro data pos r hr
  obtain ⟨_, _, hr⟩ := bind_eq_ok_iff.mp hr
  obtain ⟨raw, _, hr⟩ := bind_eq_ok_iff.mp hr
  cases hr
  exact Nat.le_add_right pos w

/-- A string is read forward. -/
theorem readString_forward (idx : UInt32) (message : String) :
    Forward (readString idx message) := by
  intro data pos r hr
  obtain ⟨raw, hraw, hr⟩ := bind_eq_ok_iff.mp hr
  obtain ⟨s, _, hr⟩ := bind_eq_ok_iff.mp hr
  cases hr
  exact forward_bind readVarint_forward (fun len => readRaw_forward idx len.toNat) data pos raw hraw

variable {dec dec' : Bytes → UInt32 → AiclResult (Operand × Nat)} {data : Bytes}

/-- A nested operand is read forward. -/
theorem nestedOperand_forward (idx : UInt32) : Forward (nestedOperand dec idx) := by
  intro data pos r hr
  obtain ⟨rest, _, hr⟩ := bind_eq_ok_iff.mp hr
  obtain ⟨s, _, hr⟩ := bind_eq_ok_iff.mp hr
  cases hr
  exact Nat.le_add_right pos s.2

/-- A round of the loop over a list moves forward. -/
theorem itemStep_forward (index : Nat → UInt32) (i : Nat) (items : List Operand) :
    Forward (itemStep dec index i items) :=
  forward_bind (nestedOperand_forward (index i)) fun item => forward_pure (items ++ [item])

/-- A round of the loop over a map moves forward. -/
theorem entryStep_forward (idx : UInt32) (i : Nat) (map : List (Utf8String × Operand)) :
    Forward (entryStep dec idx i map) :=
  forward_bind (readString_forward idx _) fun key =>
    forward_bind (nestedOperand_forward _) fun value =>
      forward_pure (SortedMap.insert key value map)

/-! ## Nested calls -/

/-- Two functions agree on slices shorter than the data. -/
def AgreeBelow (data : Bytes) (dec dec' : Bytes → UInt32 → AiclResult (Operand × Nat)) : Prop :=
  ∀ rest idx, rest.length < data.length → dec rest idx = dec' rest idx

/-- A nested call after the first byte gets a shorter slice. -/
theorem nestedOperand_congr (h : AgreeBelow data dec dec') (idx : UInt32) {pos : Nat}
    (hpos : 1 ≤ pos) : nestedOperand dec idx data pos = nestedOperand dec' idx data pos := by
  unfold nestedOperand
  by_cases hle : pos ≤ data.length
  · rw [Outcome.sliceFrom_of_le hle, Outcome.ok_bind, Outcome.ok_bind, h]
    rw [List.length_drop]
    omega
  · simp [Outcome.sliceFrom, hle]

/-- The match on the operand type makes its nested calls on shorter slices. -/
theorem decodeValue_congr (h : AgreeBelow data dec dec') (tag : OperandType) (idx : UInt32) :
    decodeValue dec tag idx data 1 = decodeValue dec' tag idx data 1 := by
  cases tag with
  | list =>
      simp only [decodeValue]
      cases hcount : readVarint data 1 with
      | ok r =>
          have hpos := readVarint_forward data 1 r hcount
          have hstep : ∀ i items pos, 1 ≤ pos →
              itemStep dec (fun i => idx * 1000 + UInt32.ofNat i) i items data pos =
                itemStep dec' (fun i => idx * 1000 + UInt32.ofNat i) i items data pos := by
            intro i items pos hpos
            rw [itemStep, itemStep, nestedOperand_congr h _ hpos]
          simp only [Outcome.ok_bind]
          rw [Outcome.loop_congr hstep (itemStep_forward _) _ _ _ _ hpos]
      | err e => rfl
      | panic => rfl
  | map =>
      simp only [decodeValue]
      cases hcount : readVarint data 1 with
      | ok r =>
          have hpos := readVarint_forward data 1 r hcount
          have hstep : ∀ i map pos, 1 ≤ pos →
              entryStep dec idx i map data pos = entryStep dec' idx i map data pos := by
            intro i map pos hpos
            unfold entryStep
            cases hkey : readString idx s!"map key {i}: invalid UTF-8" data pos with
            | ok key =>
                have hafter := readString_forward _ _ data pos key hkey
                simp only [Outcome.ok_bind]
                rw [nestedOperand_congr h _ (hpos.trans hafter)]
            | err e => rfl
            | panic => rfl
          simp only [Outcome.ok_bind]
          rw [Outcome.loop_congr hstep (entryStep_forward idx) _ _ _ _ hpos]
      | err e => rfl
      | panic => rfl
  | _ => rfl

/-- One call of {lit}`decode_operand` calls itself on shorter slices only. -/
theorem decodeOperandWith_congr (h : AgreeBelow data dec dec') (idx : UInt32) :
    decodeOperandWith dec data idx = decodeOperandWith dec' data idx := by
  unfold decodeOperandWith
  split
  · rfl
  · cases Outcome.index data 0 with
    | ok tag => exact decodeValue_congr h _ idx
    | err e => rfl
    | panic => rfl

/-- More fuel than bytes changes nothing. -/
theorem decodeOperandFuel_congr {fuel fuel' : Nat} (h : data.length < fuel)
    (h' : data.length < fuel') (idx : UInt32) :
    decodeOperandFuel fuel data idx = decodeOperandFuel fuel' data idx := by
  induction fuel generalizing fuel' data idx with
  | zero => exact absurd h (Nat.not_lt_zero _)
  | succ fuel ih =>
      cases fuel' with
      | zero => exact absurd h' (Nat.not_lt_zero _)
      | succ fuel' =>
          refine decodeOperandWith_congr ?_ idx
          intro rest k hrest
          exact ih (by omega) (by omega) k

/-- The recursion of {lit}`decode_operand`: whatever the calls on longer slices would
return. -/
theorem decodeOperand_eq (h : AgreeBelow data dec decodeOperand) (idx : UInt32) :
    decodeOperand data idx = decodeOperandWith dec data idx := by
  refine decodeOperandWith_congr ?_ idx
  intro rest k hrest
  rw [h rest k hrest]
  exact decodeOperandFuel_congr hrest (Nat.lt_succ_self _) k

/-! ## Locality -/

/-- The operand phrases of a lenient reader are prefix-free. -/
theorem spells_prefixFree : PrefixFree (Spells IsNullOrReserved) := by
  intro op op' b b' s s' h h' heq
  obtain ⟨t, ht, rfl⟩ := h
  obtain ⟨t', ht', rfl⟩ := h'
  obtain ⟨rfl, rfl, -⟩ := Isa.Derives.unique t ht ht' heq
  exact ⟨rfl, rfl⟩

/-- An operand has a tag byte. -/
theorem Spells.length_pos {op : Operand} {b : Bytes} (h : Spells IsNullOrReserved op b) :
    0 < b.length := by
  obtain ⟨t, ht, -⟩ := h
  exact ht.length_pos

/-- The bytes of an operand: what {lit}`decode_operand` reads to their end. -/
def EncodesOperand (b : Bytes) : Prop :=
  ∃ idx op, decodeOperand b idx = .ok (op, b.length)

/-- The bytes of an operand are a phrase of the lenient grammar. -/
theorem EncodesOperand.spells {b : Bytes} (h : EncodesOperand b) :
    ∃ op, Spells IsNullOrReserved op b := by
  obtain ⟨idx, op, hdecode⟩ := h
  obtain ⟨b', post, hb, hspells, hlen⟩ := decodeOperand_eq_ok_iff.mp hdecode
  have hnil : post = [] := by
    have htotal := congrArg List.length hb
    rw [List.length_append] at htotal
    exact List.eq_nil_of_length_eq_zero (by omega)
  rw [hnil, List.append_nil] at hb
  exact ⟨op, hb ▸ hspells⟩

/-- A decoded operand is decided by the bytes that it takes, at least one, and by all
of them, whatever follows and whatever the index is; no encoding of an operand starts
another one; and a call is decided by what the calls on shorter slices return. -/
theorem operand_decoding_local :
    (∀ (data : Bytes) (idx : UInt32) (op : Operand) (n : Nat),
      decodeOperand data idx = .ok (op, n) → LocalAt decodeOperand data op n) ∧
    (∀ b b' : Bytes, EncodesOperand b → EncodesOperand b' → b <+: b' → b = b') ∧
    ∀ (data : Bytes) (dec : Bytes → UInt32 → AiclResult (Operand × Nat)),
      AgreeBelow data dec decodeOperand →
        ∀ idx, decodeOperand data idx = decodeOperandWith dec data idx := by
  refine ⟨?_, ?_, fun data dec h idx => decodeOperand_eq h idx⟩
  · intro data idx op n h
    exact Outcome.ReadsFront.localAt decodeOperand_reads spells_prefixFree Spells.length_pos h
  · intro b b' h h' hstart
    obtain ⟨op, hop⟩ := h.spells
    obtain ⟨op', hop'⟩ := h'.spells
    exact spells_prefixFree.eq_of_starts hop hop' hstart

end Aicl.CoreRust

import Aicl.Foundation.ReaderErrors
import Aicl.Isa.Phrases

/-!
# Text that is not UTF-8

The strings and the map keys of the instruction set are UTF-8.  A reader of
operands finds out when it gets to them: the bytes in front of the text are those
of an operand so far.  This file describes the remainders in which a reader runs
into such a text.

Main definitions:

- Definition {lit}`RunsIntoBadText`: reading one operand runs into a text that is
  not UTF-8.
- Definition {lit}`HoldsBadText`: reading the operands of a payload does.
-/

namespace Aicl.Isa

open Outcome (Fails)

/-- A length and as many bytes that are not UTF-8 stand at the front. -/
def BadText (rest : Bytes) : Prop :=
  ∃ raw b post, rest = b ++ post ∧ (∃ len, b = len ++ raw ∧ Varint raw.length len) ∧
    ∀ s : Utf8String, s.bytes ≠ raw

mutual

/-- Reading one operand at the front of the bytes runs into a text that is not
UTF-8: a string, or one inside a list or a map. -/
inductive RunsIntoBadText : Bytes → Prop
  | str {rest : Bytes} : BadText rest → RunsIntoBadText (0x11 :: rest)
  | list {n : Nat} {len rest : Bytes} : Varint n len →
      Fails (Derives IsNull) RunsIntoBadText n rest → RunsIntoBadText (0x17 :: (len ++ rest))
  | map {n : Nat} {len rest : Bytes} : Varint n len →
      Fails (EntryPhrase IsNull) EntryRunsIntoBadText n rest →
      RunsIntoBadText (0x18 :: (len ++ rest))

/-- Reading one map entry runs into a text that is not UTF-8: its key, or one
inside its value. -/
inductive EntryRunsIntoBadText : Bytes → Prop
  | key {rest : Bytes} : BadText rest → EntryRunsIntoBadText rest
  | value {key : Utf8String} {len rest : Bytes} : Varint key.length len →
      RunsIntoBadText rest → EntryRunsIntoBadText (len ++ (key.bytes ++ rest))

end

/-- Reading the operands of a payload runs into a text that is not UTF-8. -/
def HoldsBadText (payload : Bytes) : Prop :=
  ∃ opcode n len rest, payload = opcode :: (len ++ rest) ∧ Varint n len ∧
    Fails (Derives IsNull) RunsIntoBadText n rest

/-- An operand that runs into a bad text is a string, a list or a map. -/
theorem RunsIntoBadText.kindOf {tag : UInt8} {rest : Bytes} (h : RunsIntoBadText (tag :: rest)) :
    kindOf tag = .str ∨ kindOf tag = .list ∨ kindOf tag = .map := by
  cases h with
  | str => exact .inl rfl
  | list => exact .inr (.inl rfl)
  | map => exact .inr (.inr rfl)

/-- A string runs into a bad text in its own bytes. -/
theorem runsIntoBadText_str_iff {rest : Bytes} : RunsIntoBadText (0x11 :: rest) ↔ BadText rest := by
  constructor
  · intro h
    cases h with
    | str h => exact h
  · exact .str

/-- A list runs into a bad text in one of its items. -/
theorem runsIntoBadText_list_iff {rest : Bytes} :
    RunsIntoBadText (0x17 :: rest) ↔ ∃ n len post, rest = len ++ post ∧ Varint n len ∧
      Fails (Derives IsNull) RunsIntoBadText n post := by
  constructor
  · intro h
    cases h with
    | list hn h => exact ⟨_, _, _, rfl, hn, h⟩
  · intro ⟨n, len, post, hrest, hn, h⟩
    rw [hrest]
    exact .list hn h

/-- A map runs into a bad text in one of its entries. -/
theorem runsIntoBadText_map_iff {rest : Bytes} :
    RunsIntoBadText (0x18 :: rest) ↔ ∃ n len post, rest = len ++ post ∧ Varint n len ∧
      Fails (EntryPhrase IsNull) EntryRunsIntoBadText n post := by
  constructor
  · intro h
    cases h with
    | map hn h => exact ⟨_, _, _, rfl, hn, h⟩
  · intro ⟨n, len, post, hrest, hn, h⟩
    rw [hrest]
    exact .map hn h

/-- An entry runs into a bad text in its key, or after its key. -/
theorem entryRunsIntoBadText_iff {rest : Bytes} :
    EntryRunsIntoBadText rest ↔ BadText rest ∨ ∃ (key : Utf8String) (b post : Bytes),
      rest = b ++ post ∧ (∃ len, b = len ++ key.bytes ∧ Varint key.length len) ∧
        RunsIntoBadText post := by
  constructor
  · intro h
    cases h with
    | key h => exact .inl h
    | value hk h => exact .inr ⟨_, _, _, (List.append_assoc _ _ _).symm, ⟨_, rfl, hk⟩, h⟩
  · intro h
    rcases h with h | ⟨key, _, post, rfl, ⟨len, rfl, hk⟩, h⟩
    · exact .key h
    · rw [List.append_assoc]
      exact .value hk h

end Aicl.Isa

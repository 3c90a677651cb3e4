import Aicl.Foundation.Reader
import Aicl.Isa.Grammar

/-!
# Operand sequences as phrases

The sequences of the operand grammar in the form in which counted loops of
readers are specified: one phrase for each operand or entry.

Main results:

- Theorem {lit}`phrases_derives_iff`: sequences of operands.
- Theorem {lit}`phrases_entry_iff`: sequences of map entries.
-/

namespace Aicl.Isa

open Outcome (Phrases)

/-- The grammar's sequences of operands are concatenated phrases. -/
theorem phrases_derives_iff {bare : UInt8 → Prop} {ts : List Tree} {b : Bytes} :
    Phrases (Derives bare) ts b ↔ DerivesList bare ts b := by
  constructor
  · intro h
    induction h with
    | nil => exact .nil
    | cons ht _ ih => exact .cons ht ih
  · intro h
    induction ts generalizing b with
    | nil =>
        cases h
        exact .nil
    | cons t ts ih =>
        cases h with
        | cons ht hts => exact .cons ht (ih hts)

/-- One entry of a map: a counted key and an operand. -/
def EntryPhrase (bare : UInt8 → Prop) (e : Utf8String × Tree) (b : Bytes) : Prop :=
  ∃ len body, b = len ++ (e.1.bytes ++ body) ∧ Varint e.1.length len ∧ Derives bare e.2 body

/-- What is made of a counted key and of an operand behind it is made of the entry. -/
theorem exists_entry_iff {bare : UInt8 → Prop} {V S : Type} (f : Tree → V)
    (g : Utf8String → V → S) {s : S} {b : Bytes} :
    (∃ key b₁ b₂, b = b₁ ++ b₂ ∧ (∃ len, b₁ = len ++ key.bytes ∧ Varint key.length len) ∧
        ∃ v, (∃ t, Derives bare t b₂ ∧ v = f t) ∧ s = g key v) ↔
      ∃ e, EntryPhrase bare e b ∧ s = g e.1 (f e.2) := by
  constructor
  · rintro ⟨key, _, b₂, rfl, ⟨len, rfl, hk⟩, _, ⟨t, ht, rfl⟩, rfl⟩
    exact ⟨(key, t), ⟨len, b₂, List.append_assoc _ _ _, hk, ht⟩, rfl⟩
  · rintro ⟨⟨key, t⟩, ⟨len, body, rfl, hk, ht⟩, rfl⟩
    exact ⟨key, len ++ key.bytes, body, (List.append_assoc _ _ _).symm, ⟨len, rfl, hk⟩, _,
      ⟨t, ht, rfl⟩, rfl⟩

/-- The grammar's sequences of entries are concatenated phrases. -/
theorem phrases_entry_iff {bare : UInt8 → Prop} {es : List (Utf8String × Tree)} {b : Bytes} :
    Phrases (EntryPhrase bare) es b ↔ DerivesEntries bare es b := by
  constructor
  · intro h
    induction h with
    | nil => exact .nil
    | cons he _ ih =>
        obtain ⟨len, body, rfl, hk, ht⟩ := he
        simp only [List.append_assoc]
        exact .cons hk ht ih
  · intro h
    induction es generalizing b with
    | nil =>
        cases h
        exact .nil
    | cons e es ih =>
        cases h with
        | @cons key t es len body bs hk ht hes =>
            have hphrase : EntryPhrase bare (key, t) (len ++ (key.bytes ++ body)) :=
              ⟨len, body, rfl, hk, ht⟩
            simpa only [List.append_assoc] using Phrases.cons hphrase (ih hes)

end Aicl.Isa

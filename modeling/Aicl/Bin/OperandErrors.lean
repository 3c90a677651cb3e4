import Aicl.Bin.OperandsDecode
import Aicl.Isa.TextFaults

/-!
# When the operand decoder lets a decoding error through

{lit}`decode_symbol` checks lengths, tags and varints itself and raises
{lit}`SymbolError`; the text of a string or of a map key it hands to the
interpreter, whose {lit}`UnicodeDecodeError` goes through.

Main results:

- Theorem {lit}`decodeSymbol_reports`: the remainders on which the operand decoder
  raises {lit}`UnicodeDecodeError`.
-/

namespace Aicl.Bin

open Isa (Varint Tree FixedType Derives IsNull EntryPhrase BadText RunsIntoBadText
  EntryRunsIntoBadText)
open Outcome (Reads Reports Fails bind_ne_err)

variable {L : Nat}

/-! ## Readers of numbers and of bytes -/

/-- Guards of the package raise its own exceptions. -/
theorem raiseIf_ne_unicode {c : Prop} [Decidable c] {cls : AiclBinError} {message : String} :
    raiseIf c cls message ≠ .err .unicodeDecodeError := by
  unfold raiseIf Outcome.failIf
  split <;> simp

/-- Indexing raises no decoding error. -/
theorem getItem_ne_unicode {data : Bytes} {i : Nat} :
    getItem data i ≠ .err .unicodeDecodeError := by
  unfold getItem
  split <;> simp

/-- Varints are read without decoding text. -/
theorem decodeVarintLoop_ne_unicode (data : Bytes) (pos : Nat) : ∀ k i shift value,
    decodeVarintLoop data pos k i shift value ≠ .err .unicodeDecodeError
  | 0, _, _, _ => by simp [decodeVarintLoop, raise]
  | k + 1, i, shift, value => by
      unfold decodeVarintLoop
      apply bind_ne_err raiseIf_ne_unicode
      intro _
      apply bind_ne_err getItem_ne_unicode
      intro byte
      split
      · simp
      · exact decodeVarintLoop_ne_unicode data pos k (i + 1) (shift + 7) _

/-- Varints are read without decoding text. -/
theorem decodeVarint_reports :
    Reports L decodeVarint .unicodeDecodeError fun _ => False :=
  Reports.never fun data pos => decodeVarintLoop_ne_unicode data pos 4 0 0 0

/-- Fixed widths are read without decoding text. -/
theorem readFixed_reports (w : Nat) (message : String) (value : Bytes → Symbol) :
    Reports L (readFixed w message value) .unicodeDecodeError fun _ => False := by
  apply Reports.never
  intro data pos
  apply bind_ne_err raiseIf_ne_unicode
  intro _
  apply bind_ne_err
  · unfold unpackFrom
    split <;> simp
  · simp

/-- A {lit}`BOOL` is read without decoding text. -/
theorem readBool_reports : Reports L readBool .unicodeDecodeError fun _ => False := by
  apply Reports.never
  intro data pos
  apply bind_ne_err raiseIf_ne_unicode
  intro _
  apply bind_ne_err getItem_ne_unicode
  intro raw
  apply bind_ne_err raiseIf_ne_unicode
  simp

/-- A tag byte is read without decoding text. -/
theorem readTag_reports : Reports L readTag .unicodeDecodeError fun _ => False := by
  apply Reports.never
  intro data pos
  apply bind_ne_err raiseIf_ne_unicode
  intro _
  apply bind_ne_err getItem_ne_unicode
  simp

/-- Counted bytes are read without decoding text. -/
theorem readCounted_reports (message : Nat → Nat → String) :
    Reports L (readCounted message) .unicodeDecodeError fun _ => False := by
  apply Reports.never
  intro data pos
  apply bind_ne_err (decodeVarintLoop_ne_unicode data pos 4 0 0 0)
  intro r
  apply bind_ne_err raiseIf_ne_unicode
  simp

/-! ## Readers of text -/

/-- Decoding a text fails exactly on bytes that are not UTF-8. -/
theorem decodeUtf8_eq_err_iff {raw : Bytes} :
    decodeUtf8 raw = .err .unicodeDecodeError ↔ ∀ s : Utf8String, s.bytes ≠ raw := by
  have hok : ∀ s, decodeUtf8 raw = .ok s ↔ s.bytes = raw := fun s => decodeUtf8_eq_ok_iff
  unfold decodeUtf8 at hok ⊢
  cases hraw : Utf8String.ofBytes? raw with
  | some s =>
      rw [hraw] at hok
      have hs : s.bytes = raw := (hok s).mp rfl
      simp only [reduceCtorEq, false_iff, not_forall, not_not]
      exact ⟨s, hs⟩
  | none =>
      rw [hraw] at hok
      simp only [true_iff]
      intro s hs
      cases (hok s).mpr hs

/-- A string with its length in front: its text is decoded. -/
theorem readString_reports (message : Nat → Nat → String) :
    Reports L (readString message) .unicodeDecodeError BadText := by
  refine (Reports.check (f := decodeUtf8) (readCounted_reads message)
    (readCounted_reports message)).congr fun rest => ?_
  simp only [false_or, decodeUtf8_eq_err_iff]
  rfl

/-! ## Nested operands -/

variable {dec : Bytes → Nat → PyResult (Symbol × Nat)}

/-- The items of a list. -/
theorem items_report (hdec : Reads L dec Spells IsOperandError)
    (herr : Reports L dec .unicodeDecodeError RunsIntoBadText) (n : Nat) :
    Reports L (Outcome.loop (itemStep dec) n 0 []) .unicodeDecodeError
      (Fails (Derives IsNull) RunsIntoBadText n) := by
  exact Reports.loop (itemStep_reads hdec) (fun i items => herr.map fun s => items ++ [s]) n 0 []

/-- One map entry: its key is decoded, and its value may hold text. -/
theorem entryStep_reports (herr : Reports L dec .unicodeDecodeError RunsIntoBadText) (i : Nat)
    (d : List (Utf8String × Symbol)) :
    Reports L (entryStep dec i d) .unicodeDecodeError EntryRunsIntoBadText := by
  refine (Reports.bind (readString_reads _) (readString_reports _) fun key _ _ =>
    herr.map fun item => Dict.set key item d).congr fun rest => ?_
  rw [Isa.entryRunsIntoBadText_iff]

/-- The entries of a map. -/
theorem entries_report (hdec : Reads L dec Spells IsOperandError)
    (herr : Reports L dec .unicodeDecodeError RunsIntoBadText) (n : Nat) :
    Reports L (Outcome.loop (entryStep dec) n 0 []) .unicodeDecodeError
      (Fails (EntryPhrase IsNull) EntryRunsIntoBadText n) :=
  Reports.loop (entryStep_reads hdec) (entryStep_reports herr) n 0 []

/-- A count in front of that many phrases. -/
theorem counted_report {σ : Type} {p : Nat → Bytes → Nat → PyResult (σ × Nat)}
    {F : Nat → Bytes → Prop} (f : σ → Symbol)
    (hp : ∀ n, Reports L (p n) .unicodeDecodeError (F n)) :
    Reports L
      (fun data pos => decodeVarint data pos >>= fun r => p r.1 data r.2 >>= fun s =>
        pure (f s.1, s.2)) .unicodeDecodeError
      fun rest => ∃ n len post, rest = len ++ post ∧ Varint n len ∧ F n post := by
  refine (Reports.bind decodeVarint_reads decodeVarint_reports fun n _ _ =>
    (hp n).map f).congr fun rest => ?_
  rw [false_or]

/-! ## The operand decoder -/

/-- The chain after the tag byte raises the error exactly where the operand that
the tag byte announces runs into a bad text. -/
theorem decodeValue_reports (hdec : Reads L dec Spells IsOperandError)
    (herr : Reports L dec .unicodeDecodeError RunsIntoBadText) (tag : UInt8) :
    Reports L (decodeValue dec tag) .unicodeDecodeError fun rest =>
      RunsIntoBadText (tag :: rest) := by
  have htag := Isa.tag?_kindOf tag
  have hother : ¬ (Isa.kindOf tag = .str ∨ Isa.kindOf tag = .list ∨ Isa.kindOf tag = .map) →
      ∀ rest, False ↔ RunsIntoBadText (tag :: rest) :=
    fun hkind _ => (iff_false_intro fun h => hkind h.kindOf).symm
  cases hkind : Isa.kindOf tag with
  | fixed ft =>
      rw [hkind] at htag hother
      obtain rfl := htag ft.tag rfl
      have ⟨message, harm⟩ := @decodeValue_fixed dec ft
      rw [harm]
      exact (readFixed_reports ft.width message _).congr (hother (by simp))
  | bool =>
      rw [hkind] at htag hother
      obtain rfl := htag _ rfl
      exact readBool_reports.congr (hother (by simp))
  | str =>
      rw [hkind] at htag
      obtain rfl := htag _ rfl
      exact ((readString_reports _).map Symbol.string).congr fun rest =>
        Isa.runsIntoBadText_str_iff.symm
  | bytes =>
      rw [hkind] at htag hother
      obtain rfl := htag _ rfl
      exact ((readCounted_reports _).map Symbol.bytes).congr (hother (by simp))
  | list =>
      rw [hkind] at htag
      obtain rfl := htag _ rfl
      exact (counted_report Symbol.list fun n => items_report hdec herr n).congr fun rest =>
        Isa.runsIntoBadText_list_iff.symm
  | map =>
      rw [hkind] at htag
      obtain rfl := htag _ rfl
      exact (counted_report Symbol.map fun n => entries_report hdec herr n).congr fun rest =>
        Isa.runsIntoBadText_map_iff.symm
  | null =>
      rw [hkind] at htag hother
      obtain rfl := htag _ rfl
      exact (Reports.pure Symbol.null).congr (hother (by simp))
  | vendor =>
      rw [hkind] at hother
      have hvendor : isVendor tag = true :=
        (isVendor_iff tag).mpr ((Isa.kindOf_eq_vendor_iff tag).mp hkind)
      rw [decodeValue_unnamed (unnamed_of_kind tag (.inl hkind)), if_pos hvendor]
      exact ((readCounted_reports _).map (Symbol.other tag)).congr (hother (by simp))
  | reserved =>
      rw [hkind] at hother
      have hvendor : ¬ isVendor tag = true := by
        rw [isVendor_iff, ← Isa.kindOf_eq_vendor_iff, hkind]
        simp
      rw [decodeValue_unnamed (unnamed_of_kind tag (.inr hkind)), if_neg hvendor]
      exact (Reports.never fun _ _ => by simp [raise]).congr (hother (by simp))

/-- An operand that runs into a bad text has a tag byte. -/
theorem runsIntoBadText_iff_cons {rest : Bytes} :
    RunsIntoBadText rest ↔ ∃ tag b post, rest = b ++ post ∧ b = [tag] ∧
      RunsIntoBadText (tag :: post) := by
  constructor
  · intro h
    have ⟨tag, post, hrest⟩ : ∃ tag post, rest = tag :: post := by
      cases h <;> exact ⟨_, _, rfl⟩
    rw [hrest] at h
    exact ⟨tag, [tag], post, hrest, rfl, h⟩
  · intro ⟨tag, b, post, hrest, hb, h⟩
    rw [hrest, hb]
    exact h

/-- The decoder, with fuel above the length of what is left. -/
theorem decodeSymbolFuel_reports (fuel : Nat) :
    Reports fuel (decodeSymbolFuel fuel) .unicodeDecodeError RunsIntoBadText := by
  induction fuel with
  | zero =>
      intro _ _ h
      exact absurd h (Nat.not_lt_zero _)
  | succ fuel ih =>
      have hvalue : ∀ (tag : UInt8) (b : Bytes), b = [tag] →
          Reports (fuel + 1 - b.length) (decodeValue (decodeSymbolFuel fuel) tag)
            .unicodeDecodeError fun rest => RunsIntoBadText (tag :: rest) := by
        intro tag b hb
        rw [hb]
        exact decodeValue_reports (decodeSymbolFuel_reads fuel) ih tag
      refine (Reports.bind_short readTag_reads readTag_reports hvalue).congr fun rest => ?_
      rw [false_or]
      exact runsIntoBadText_iff_cons.symm

/-- The operand decoder raises the error of the interpreter exactly where an
operand runs into a text that is not UTF-8. -/
theorem decodeSymbol_reports (L : Nat) :
    Reports L decodeSymbol .unicodeDecodeError RunsIntoBadText := by
  intro pre rest _
  apply decodeSymbolFuel_reports ((pre ++ rest).length + 1) pre rest
  simp only [List.length_append]
  omega

end Aicl.Bin

import Aicl.Bin.Accepts
import Aicl.Bin.OperandErrors
import Aicl.Foundation.Crc32
import Aicl.Foundation.Definedness

/-!
# The exceptions of the decoder

{lit}`decode` of the Python package returns a view or raises.  Receivers catch
{lit}`AICLBinError`; two exceptions of the interpreter get past them, the one of a
text that is not UTF-8 and the one of a trailer that is cut off.

Main results:

- Theorem {lit}`readContents_eq_unicode_iff`: the payloads on which the operands
  are not read for a text.
- Theorem {lit}`decode_staysInPackage_iff`: the byte strings on which decoding
  returns or raises an exception of the package.
-/

namespace Aicl.Bin

open Isa (Varint Derives IsNull RunsIntoBadText HoldsBadText)
open Isa.Frame
open Outcome (Reads Reports Fails)

variable {crc32 : Bytes → UInt32}

/-- A call returns, or raises an exception of the package. -/
def StaysInPackage {α : Type} (x : PyResult α) : Prop :=
  (∃ a, x = .ok a) ∨ ∃ e, x = .err e ∧ e.IsPackage

/-- A call that returns. -/
@[simp] theorem staysInPackage_ok {α : Type} (a : α) : StaysInPackage (.ok a : PyResult α) :=
  .inl ⟨a, rfl⟩

/-- A call that raises. -/
@[simp] theorem staysInPackage_err_iff {α : Type} {e : PyError} :
    StaysInPackage (.err e : PyResult α) ↔ e.IsPackage := by
  simp [StaysInPackage]

/-- A sequence stays in the package exactly when its first part does, and its
second part does with what the first one returns. -/
theorem staysInPackage_bind_iff {α β : Type} {x : PyResult α} {f : α → PyResult β} :
    StaysInPackage (x >>= f) ↔
      StaysInPackage x ∧ ∀ a, x = .ok a → StaysInPackage (f a) := by
  cases x with
  | ok a => simp
  | err e => simp
  | panic => simp [StaysInPackage]

/-- Changing the value of a call changes nothing in what it raises. -/
theorem staysInPackage_map_iff {α β : Type} {x : PyResult α} {f : α → β} :
    StaysInPackage (x >>= fun a => .ok (f a)) ↔ StaysInPackage x := by
  rw [staysInPackage_bind_iff]
  exact and_iff_left fun a _ => staysInPackage_ok (f a)

/-- A call returns exactly when a condition holds, and otherwise raises an exception
of the interpreter. -/
abbrev ReturnsIff {α : Type} (x : PyResult α) (C : Prop) : Prop :=
  Outcome.ReturnsIff (fun e : PyError => ¬ e.IsPackage) x C

/-- Such a call stays in the package exactly when its condition holds. -/
theorem ReturnsIff.staysInPackage_iff {α : Type} {x : PyResult α} {C : Prop}
    (h : ReturnsIff x C) : StaysInPackage x ↔ C := by
  cases x with
  | ok a => exact iff_of_true (staysInPackage_ok a) h.sat
  | err e =>
      rw [staysInPackage_err_iff]
      exact iff_of_false h.sat.1 h.sat.2
  | panic => exact h.sat.elim

/-- A check that raises {lit}`ValueError`. -/
theorem ReturnsIff.valueError {α : Type} {x : PyResult α} {C c : Prop} [Decidable c]
    {message : String} (hx : ¬ c → ReturnsIff x C) :
    ReturnsIff (if c then .err (.valueError message) else x) (¬ c ∧ C) :=
  Outcome.ReturnsIff.guard (by simp [PyError.IsPackage]) hx

/-! ## The operands of a payload -/

/-- The operand loop of a view. -/
theorem fileLoop_report {L : Nat} (n : Nat) :
    Reports L (Outcome.loop fileStep n 0 .empty) .unicodeDecodeError
      (Fails (Derives IsNull) RunsIntoBadText n) :=
  Reports.loop fileStep_reads (fun _ c => (decodeSymbol_reports L).map c.file) n 0 .empty

/-- A count and that many operands. -/
theorem countedContents_report {L : Nat} :
    Reports L
      (fun data pos => decodeVarint data pos >>= fun r =>
        Outcome.loop fileStep r.1 0 .empty data r.2) .unicodeDecodeError
      fun rest => ∃ n len post, rest = len ++ post ∧ Varint n len ∧
        Fails (Derives IsNull) RunsIntoBadText n post := by
  refine (Reports.bind decodeVarint_reads decodeVarint_reports fun n _ _ =>
    fileLoop_report n).congr fun rest => ?_
  rw [false_or]

/-- Reading the operands of a payload raises {lit}`UnicodeDecodeError` exactly when
it runs into a text that is not UTF-8. -/
theorem readContents_eq_unicode_iff {payload : Bytes} :
    readContents payload = .err .unicodeDecodeError ↔ HoldsBadText payload := by
  by_cases hlong : 1 < payload.length
  · have ⟨opcode, rest, hpayload⟩ : ∃ opcode rest, payload = opcode :: rest :=
      List.exists_cons_of_length_pos (by omega)
    have hreport := countedContents_report [opcode] rest (Nat.lt_succ_self _)
    unfold readContents
    rw [if_pos hlong, ← Outcome.bind_assoc]
    refine Outcome.bind_ok_eq_err_iff.trans ?_
    rw [hpayload]
    refine hreport.trans ?_
    constructor
    · intro ⟨n, len, post, hrest, hn, h⟩
      exact ⟨opcode, n, len, post, congrArg (opcode :: ·) hrest, hn, h⟩
    · intro ⟨opcode', n, len, post, heq, hn, h⟩
      exact ⟨n, len, post, (List.cons.inj heq).2, hn, h⟩
  · have hread : readContents payload = .ok .empty := if_neg hlong
    rw [hread]
    constructor
    · intro h
      cases h
    · intro ⟨_, n, len, post, heq, hn, _⟩
      have hpos := hn.1.length_pos
      rw [heq, List.length_cons, List.length_append] at hlong
      omega

/-- Reading the operands of a payload stays in the package exactly when it does
not run into such a text. -/
theorem readContents_staysInPackage_iff {payload : Bytes} :
    StaysInPackage (readContents payload) ↔ ¬ HoldsBadText payload := by
  rw [← readContents_eq_unicode_iff]
  have hsat := readContents_sat payload
  cases hread : readContents payload with
  | ok c =>
      simp only [StaysInPackage, reduceCtorEq, not_false_eq_true, iff_true]
      exact .inl ⟨c, rfl⟩
  | err e =>
      constructor
      · intro h hunicode
        cases hunicode
        rcases h with ⟨_, h⟩ | ⟨_, h, _, _, hpackage⟩
        · cases h
        · cases h
          cases hpackage
      · intro hunicode
        rcases hsat.of_eq_err hread with ⟨message, he⟩ | he
        · exact .inr ⟨e, rfl, _, message, he⟩
        · exact absurd (congrArg Outcome.err he) hunicode
  | panic => exact absurd hread hsat.ne_panic

/-! ## Frames -/

/-- Decoding stays in the package exactly when the frame is not cut off inside its
trailer and, in a frame that gets as far as its operands, reading these does not
run into a text that is not UTF-8. -/
theorem decode_staysInPackage_iff (data : Bytes) :
    StaysInPackage (decode crc32 data) ↔
      ¬ CutTrailer crc32 data ∧ ¬ (FrameOk crc32 data ∧ HoldsBadText (region data)) := by
  by_cases hframe : FrameOk crc32 data
  · have hwhole : ¬ CutTrailer crc32 data := by
      intro ⟨_, hlong, hshort⟩
      have hroom := (hframe.trailer hlong).1
      omega
    rw [decode_of_frameOk hframe, staysInPackage_map_iff, readContents_staysInPackage_iff]
    constructor
    · intro htext
      exact ⟨hwhole, fun h => htext h.2⟩
    · intro ⟨_, htext⟩ hbad
      exact htext ⟨hframe, hbad⟩
  · have hrefused := @decode_refused crc32 data hframe
    cases hdecode : decode crc32 data with
    | ok v => exact (hrefused.of_eq_ok hdecode).elim
    | err e =>
        rcases hrefused.of_eq_err hdecode with ⟨hpackage, hwhole⟩ | ⟨he, hcut⟩
        · constructor
          · intro _
            exact ⟨hwhole, fun h => hframe h.1⟩
          · intro _
            exact .inr ⟨e, rfl, hpackage⟩
        · constructor
          · intro h
            rcases h with ⟨_, h⟩ | ⟨_, h, _, _, hpackage⟩
            · cases h
            · cases h
              rw [he] at hpackage
              cases hpackage
          · intro h
            exact absurd hcut h.1
    | panic => exact absurd hdecode (decode_ne_panic data)

/-- A string of one byte {lit}`0xFF` raises {lit}`UnicodeDecodeError`, and one byte
after the payload raises {lit}`struct.error`. -/
theorem decode_leaves_package :
    decode Crc32.ieee ((plainHeader 0 5).bytes Crc32.ieee ++ [0x01, 0x01, 0x11, 0x01, 0xFF]) =
        .err .unicodeDecodeError ∧
      decode Crc32.ieee ((plainHeader 0 2).bytes Crc32.ieee ++ [0x01, 0x00, 0x00]) =
        .err .structError ∧
      ¬ ∀ data : Bytes, StaysInPackage (decode Crc32.ieee data) := by
  have htext : decode Crc32.ieee
      ((plainHeader 0 5).bytes Crc32.ieee ++ [0x01, 0x01, 0x11, 0x01, 0xFF]) =
        .err .unicodeDecodeError :=
    Outcome.error?_eq_some_iff.mp (by decide +kernel)
  have htrailer : decode Crc32.ieee
      ((plainHeader 0 2).bytes Crc32.ieee ++ [0x01, 0x00, 0x00]) = .err .structError :=
    Outcome.error?_eq_some_iff.mp (by decide +kernel)
  refine ⟨htext, htrailer, ?_⟩
  intro hall
  rcases hall ((plainHeader 0 2).bytes Crc32.ieee ++ [0x01, 0x00, 0x00])
    with ⟨v, hv⟩ | ⟨e, he, _, _, hpackage⟩
  · rw [htrailer] at hv
    cases hv
  · rw [htrailer] at he
    cases he
    cases hpackage

end Aicl.Bin

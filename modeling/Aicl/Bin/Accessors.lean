import Aicl.Bin.DecodeErrors
import Aicl.Bin.Views

/-!
# The exceptions of the properties of a view

The properties of a view read the vendor operands that a peer sent, whatever their
bytes are.  Some check the length of a value first; what the others run into is an
exception of the interpreter.

Main results:

- Theorem {lit}`decodeSymbolsFuel_staysInPackage_iff`: when reading operands to the
  end runs into a text that is not UTF-8.
- Theorem {lit}`decode_accessors_iff`: when a property of an accepted packet returns
  or raises an exception of the package.
- Theorem {lit}`accessors_leave_package`: the exceptions of the interpreter that four
  properties of one accepted packet raise.
-/

namespace Aicl.Bin

open Isa (Derives IsNull RunsIntoBadText Tree)
open Outcome (Reads Fails)

/-! ## Reading at an offset -/

/-- The byte at an index, as a number. -/
def byteAt (d : Bytes) (i : Nat) : Nat := (d.getD i 0).toNat

/-- The word at an offset. -/
def wordAt (w : Nat) (d : Bytes) (i : Nat) : Nat := BigEndian.ofBytes (getSlice d i (i + w))

/-- Bytes that are the text of a string. -/
abbrev IsText (bs : Bytes) : Prop := Utf8.valid bs = true

/-- A byte is read exactly inside the value. -/
theorem readByte_eq_ite (d : Bytes) (i : Nat) :
    readByte d i = if i < d.length then .ok (byteAt d i) else .err .indexError := by
  unfold readByte getItem byteAt
  split
  next b hb =>
    have hlt := (List.getElem?_eq_some_iff.mp hb).1
    rw [if_pos hlt, List.getD_eq_getElem?_getD, hb]
    rfl
  next hnone =>
    rw [if_neg (Nat.not_lt_of_le (List.getElem?_eq_none_iff.mp hnone))]
    rfl

/-- A word is read exactly inside the value. -/
theorem unpackWord_eq_ite (w : Nat) (d : Bytes) (i : Nat) :
    unpackWord w d i = if i + w ≤ d.length then .ok (wordAt w d i) else .err .structError := by
  unfold unpackWord unpackFrom wordAt
  split <;> rfl

/-! ## Reading what comes next -/

section Steps

variable {α β : Type} {x : PyResult α} {C : Prop}

/-- Reading a byte first. -/
theorem ReturnsIff.readByte {d : Bytes} {i : Nat} {f : Nat → PyResult β}
    (hf : ReturnsIff (f (byteAt d i)) C) :
    ReturnsIff (readByte d i >>= f) (i < d.length ∧ C) := by
  rw [readByte_eq_ite]
  by_cases h : i < d.length
  · rw [if_pos h, Outcome.ok_bind]
    exact hf.congr (and_iff_right h).symm
  · rw [if_neg h]
    exact .err (by simp [PyError.IsPackage]) fun hlt => h hlt.1

/-- Reading a word first. -/
theorem ReturnsIff.unpackWord {w : Nat} {d : Bytes} {i : Nat} {f : Nat → PyResult β}
    (hf : ReturnsIff (f (wordAt w d i)) C) :
    ReturnsIff (unpackWord w d i >>= f) (i + w ≤ d.length ∧ C) := by
  rw [unpackWord_eq_ite]
  by_cases h : i + w ≤ d.length
  · rw [if_pos h, Outcome.ok_bind]
    exact hf.congr (and_iff_right h).symm
  · rw [if_neg h]
    exact .err (by simp [PyError.IsPackage]) fun hle => h hle.1

/-- Reading a signed number. -/
theorem returnsIff_unpackSigned (w : Nat) (d : Bytes) (i : Nat) :
    ReturnsIff (unpackSigned w d i) (i + w ≤ d.length) := by
  unfold unpackSigned unpackFrom
  by_cases h : i + w ≤ d.length
  · rw [if_pos h]
    exact .ok h
  · rw [if_neg h]
    exact .err (by simp [PyError.IsPackage]) h

/-- Decoding a text. -/
theorem returnsIff_decodeUtf8 (raw : Bytes) : ReturnsIff (decodeUtf8 raw) (IsText raw) := by
  by_cases h : IsText raw
  · have hs : decodeUtf8 raw = .ok ⟨raw, h⟩ := decodeUtf8_eq_ok_iff.mpr rfl
    rw [hs]
    exact .ok h
  · have herr : decodeUtf8 raw = .err .unicodeDecodeError := by
      apply decodeUtf8_eq_err_iff.mpr
      intro s hs
      exact h (hs ▸ s.valid)
    rw [herr]
    exact .err (by simp [PyError.IsPackage]) h

/-- Reading a text. -/
theorem returnsIff_readText (d : Bytes) (a b : Nat) :
    ReturnsIff (readText d a b) (IsText (getSlice d a b)) :=
  returnsIff_decodeUtf8 (getSlice d a b)

/-- Reading a text first. -/
theorem ReturnsIff.readText {d : Bytes} {a b : Nat} {f : Utf8String → PyResult β}
    (hf : ∀ text, ReturnsIff (f text) C) :
    ReturnsIff (readText d a b >>= f) (IsText (getSlice d a b) ∧ C) :=
  (returnsIff_readText d a b).bind fun text _ => hf text

/-- Reading a word first when it is there, and else going on with zero. -/
theorem ReturnsIff.wordOrZero {w : Nat} {d : Bytes} {i : Nat} {f : Nat → PyResult β}
    (hf : ReturnsIff (f (if i + w ≤ d.length then wordAt w d i else 0)) C) :
    ReturnsIff (if i + w ≤ d.length then Bin.unpackWord w d i >>= f else Pure.pure 0 >>= f) C := by
  by_cases h : i + w ≤ d.length
  · rw [if_pos h] at hf ⊢
    rw [unpackWord_eq_ite, if_pos h]
    exact hf
  · rw [if_neg h] at hf ⊢
    exact hf

/-- A property of a value that may be missing. -/
theorem ReturnsIff.readOr {default : α} {read : Bytes → PyResult α} {P : Bytes → Prop}
    (hread : ∀ raw, ReturnsIff (read raw) (P raw)) (value : Option Bytes) :
    ReturnsIff (readOr default read value) (∀ raw, value = some raw → raw ≠ [] → P raw) := by
  cases value with
  | none => exact (Outcome.ReturnsIff.pure default).congr (by simp)
  | some raw =>
      cases raw with
      | nil => exact (Outcome.ReturnsIff.pure default).congr (by simp)
      | cons b bs => exact (hread (b :: bs)).congr (by simp)

/-- A property of all values under a tag. -/
theorem ReturnsIff.readEach {read : Bytes → PyResult α} {P : Bytes → Prop}
    (hread : ∀ raw, ReturnsIff (read raw) (P raw)) (raws : List Bytes) :
    ReturnsIff (readEach read raws) (∀ raw ∈ raws, P raw) := by
  induction raws with
  | nil => exact (Outcome.ReturnsIff.pure []).congr (by simp)
  | cons raw raws ih =>
      rw [List.forall_mem_cons]
      exact (hread raw).bind fun a _ => ih.map

end Steps

/-! ## Records -/

/-- The values that {lit}`Identity.from_bytes` reads. -/
def Identity.Readable (v : Bytes) : Prop :=
  2 ≤ v.length ∧ 6 + byteAt v 1 ≤ v.length ∧ IsText (getSlice v 2 (2 + byteAt v 1))

/-- When an origin is read. -/
theorem Identity.fromBytes_returnsIff (v : Bytes) :
    ReturnsIff (Identity.fromBytes v) (Identity.Readable v) := by
  unfold Identity.fromBytes Identity.Readable
  apply Outcome.ReturnsIff.congr
  · apply ReturnsIff.valueError
    intro _
    apply ReturnsIff.readByte
    apply ReturnsIff.readByte
    apply ReturnsIff.valueError
    intro _
    apply ReturnsIff.readText
    intro _
    apply ReturnsIff.unpackWord
    exact Outcome.ReturnsIff.pure _
  · constructor
    · intro ⟨hlong, _, _, hroom, htext, _⟩
      exact ⟨by omega, by omega, htext⟩
    · intro ⟨hlong, hroom, htext⟩
      exact ⟨by omega, by omega, by omega, by omega, htext, by omega, trivial⟩

/-- The quality of service is read from any value. -/
theorem QoS.ofValue_returnsIff (v : Bytes) : ReturnsIff (QoS.ofValue v) True := by
  unfold QoS.ofValue
  apply Outcome.ReturnsIff.congr
  · apply Outcome.ReturnsIff.unless
    intro _
    apply ReturnsIff.readByte
    apply ReturnsIff.readByte
    apply ReturnsIff.readByte
    apply ReturnsIff.readByte
    apply ReturnsIff.unpackWord
    apply ReturnsIff.unpackWord
    exact Outcome.ReturnsIff.pure _
  · simp only [iff_true]
    intro hlong
    exact ⟨by omega, by omega, by omega, by omega, by omega, by omega, trivial⟩

/-- The values from which a {lit}`TraceEntry` is read. -/
def TraceEntry.Readable (v : Bytes) : Prop :=
  3 ≤ v.length ∧ 15 + byteAt v 1 + byteAt v 2 ≤ v.length ∧
    IsText (getSlice v 3 (3 + byteAt v 1)) ∧
    IsText (getSlice v (3 + byteAt v 1) (3 + byteAt v 1 + byteAt v 2))

/-- When a {lit}`TraceEntry` is read. -/
theorem TraceEntry.ofValue_returnsIff (v : Bytes) :
    ReturnsIff (TraceEntry.ofValue v) (TraceEntry.Readable v) := by
  unfold TraceEntry.ofValue TraceEntry.Readable
  apply Outcome.ReturnsIff.congr
  · apply ReturnsIff.readByte
    apply ReturnsIff.readByte
    apply ReturnsIff.readByte
    apply ReturnsIff.readText
    intro _
    apply ReturnsIff.readText
    intro _
    apply (returnsIff_unpackSigned _ _ _).bind
    intro _ _
    apply (returnsIff_unpackSigned _ _ _).bind
    intro _ _
    exact Outcome.ReturnsIff.pure _
  · constructor
    · intro ⟨_, _, hlong, hname, haction, _, hroom, _⟩
      exact ⟨by omega, by omega, hname, haction⟩
    · intro ⟨hlong, hroom, hname, haction⟩
      exact ⟨by omega, by omega, by omega, hname, haction, by omega, by omega, trivial⟩

/-- A {lit}`ChunkInfo` is read from any value. -/
theorem ChunkInfo.ofValue_returnsIff (v : Bytes) : ReturnsIff (ChunkInfo.ofValue v) True := by
  unfold ChunkInfo.ofValue
  apply Outcome.ReturnsIff.congr
  · apply Outcome.ReturnsIff.unless
    intro _
    apply ReturnsIff.readByte
    apply ReturnsIff.readByte
    apply ReturnsIff.unpackWord
    apply ReturnsIff.unpackWord
    apply ReturnsIff.unpackWord
    exact Outcome.ReturnsIff.pure _
  · simp only [iff_true]
    intro hlong
    exact ⟨by omega, by omega, by omega, by omega, by omega, trivial⟩

/-- The values from which a {lit}`BlobRef` is read. -/
def BlobRef.Readable (v : Bytes) : Prop :=
  10 ≤ v.length ∧ IsText (getSlice v 10 (10 + byteAt v 1))

/-- When a {lit}`BlobRef` is read. -/
theorem BlobRef.ofValue_returnsIff (v : Bytes) :
    ReturnsIff (BlobRef.ofValue v) (BlobRef.Readable v) := by
  unfold BlobRef.ofValue BlobRef.Readable
  apply Outcome.ReturnsIff.congr
  · apply ReturnsIff.readByte
    apply ReturnsIff.readByte
    apply ReturnsIff.unpackWord
    apply ReturnsIff.unpackWord
    apply ReturnsIff.readText
    intro _
    exact Outcome.ReturnsIff.pure _
  · constructor
    · intro ⟨_, _, _, hlong, htext, _⟩
      exact ⟨by omega, htext⟩
    · intro ⟨hlong, htext⟩
      exact ⟨by omega, by omega, by omega, by omega, htext, trivial⟩

/-- A {lit}`Backpressure` is read from any value. -/
theorem Backpressure.ofValue_returnsIff (v : Bytes) :
    ReturnsIff (Backpressure.ofValue v) True := by
  unfold Backpressure.ofValue
  apply Outcome.ReturnsIff.congr
  · apply Outcome.ReturnsIff.unless
    intro _
    apply ReturnsIff.unpackWord
    apply ReturnsIff.unpackWord
    apply ReturnsIff.unpackWord
    apply ReturnsIff.unpackWord
    exact Outcome.ReturnsIff.pure _
  · simp only [iff_true]
    intro hlong
    exact ⟨by omega, by omega, by omega, by omega, trivial⟩

/-- The values from which an {lit}`ErrorInfo`, or none, is read. -/
def ErrorInfo.Readable (v : Bytes) : Prop :=
  7 ≤ v.length → 5 + byteAt v 4 ≤ v.length →
    IsText (getSlice v 5 (5 + byteAt v 4)) ∧
      (7 + byteAt v 4 ≤ v.length →
        IsText (getSlice v (7 + byteAt v 4) (7 + byteAt v 4 + wordAt 2 v (5 + byteAt v 4))))

/-- When an {lit}`ErrorInfo` is read. -/
theorem ErrorInfo.ofValue_returnsIff (v : Bytes) :
    ReturnsIff (ErrorInfo.ofValue v) (ErrorInfo.Readable v) := by
  unfold ErrorInfo.ofValue ErrorInfo.Readable
  apply Outcome.ReturnsIff.congr
  · apply Outcome.ReturnsIff.unless
    intro _
    apply ReturnsIff.unpackWord
    apply ReturnsIff.unpackWord
    apply ReturnsIff.readByte
    apply Outcome.ReturnsIff.unless
    intro _
    apply ReturnsIff.readText
    intro _
    apply ReturnsIff.wordOrZero
    apply Outcome.ReturnsIff.unless
    intro _
    apply ReturnsIff.readText
    intro _
    exact Outcome.ReturnsIff.pure _
  · constructor
    · intro h hlong hmessage
      rcases h (Nat.not_lt_of_le hlong) with ⟨_, _, _, htexts⟩
      rcases htexts (Nat.not_lt_of_le hmessage) with ⟨htext, hdetails⟩
      refine ⟨htext, fun hroom => ?_⟩
      have hlen : 5 + byteAt v 4 + 2 ≤ v.length := by omega
      have hstart : 7 + byteAt v 4 = 5 + byteAt v 4 + 2 := by omega
      rw [if_pos hlen] at hdetails
      rw [hstart]
      by_cases hzero : wordAt 2 v (5 + byteAt v 4) = 0
      · rw [hzero, getSlice, Nat.add_zero, Nat.sub_self, List.take_zero]
        rfl
      · exact (hdetails hzero).1
    · intro h hlong
      refine ⟨by omega, by omega, by omega, fun hmessage => ?_⟩
      rcases h (Nat.le_of_not_lt hlong) (Nat.le_of_not_lt hmessage) with ⟨htext, hdetails⟩
      refine ⟨htext, fun hnonzero => ?_⟩
      by_cases hlen : 5 + byteAt v 4 + 2 ≤ v.length
      · have hstart : 7 + byteAt v 4 = 5 + byteAt v 4 + 2 := by omega
        rw [hstart] at hdetails
        rw [if_pos hlen]
        exact ⟨hdetails hlen, trivial⟩
      · rw [if_neg hlen] at hnonzero
        exact absurd rfl hnonzero

/-- When an {lit}`AckInfo` is read. -/
theorem AckInfo.ofValue_returnsIff (v : Bytes) :
    ReturnsIff (AckInfo.ofValue v) (IsText (v.drop 1)) :=
  (returnsIff_decodeUtf8 (v.drop 1)).map

/-- The values from which a {lit}`ModelInvocation`, or none, is read. -/
def ModelInvocation.Readable (v : Bytes) : Prop :=
  3 ≤ v.length →
    IsText (getSlice v 3 (3 + byteAt v 0)) ∧
    IsText (getSlice v (3 + byteAt v 0) (3 + byteAt v 0 + byteAt v 1)) ∧
    IsText (getSlice v (3 + byteAt v 0 + byteAt v 1) (3 + byteAt v 0 + byteAt v 1 + byteAt v 2))

/-- When a {lit}`ModelInvocation` is read. -/
theorem ModelInvocation.ofValue_returnsIff (v : Bytes) :
    ReturnsIff (ModelInvocation.ofValue v) (ModelInvocation.Readable v) := by
  unfold ModelInvocation.ofValue ModelInvocation.Readable
  apply Outcome.ReturnsIff.congr
  · apply Outcome.ReturnsIff.unless
    intro _
    apply ReturnsIff.readByte
    apply ReturnsIff.readByte
    apply ReturnsIff.readByte
    apply ReturnsIff.readText
    intro _
    apply ReturnsIff.readText
    intro _
    apply ReturnsIff.readText
    intro _
    apply ReturnsIff.wordOrZero
    exact Outcome.ReturnsIff.pure _
  · constructor
    · intro h hlong
      have ⟨_, _, _, hname, htask, hparameters, _⟩ := h (Nat.not_lt_of_le hlong)
      exact ⟨hname, htask, hparameters⟩
    · intro h hlong
      have ⟨hname, htask, hparameters⟩ := h (Nat.le_of_not_lt hlong)
      exact ⟨by omega, by omega, by omega, hname, htask, hparameters, trivial⟩

/-- The values from which a {lit}`ToolInvocation`, or none, is read. -/
def ToolInvocation.Readable (v : Bytes) : Prop :=
  2 ≤ v.length →
    IsText (getSlice v 2 (2 + byteAt v 0)) ∧
    IsText (getSlice v (2 + byteAt v 0) (2 + byteAt v 0 + byteAt v 1))

/-- When a {lit}`ToolInvocation` is read. -/
theorem ToolInvocation.ofValue_returnsIff (v : Bytes) :
    ReturnsIff (ToolInvocation.ofValue v) (ToolInvocation.Readable v) := by
  unfold ToolInvocation.ofValue ToolInvocation.Readable
  apply Outcome.ReturnsIff.congr
  · apply Outcome.ReturnsIff.unless
    intro _
    apply ReturnsIff.readByte
    apply ReturnsIff.readByte
    apply ReturnsIff.readText
    intro _
    apply ReturnsIff.readText
    intro _
    apply ReturnsIff.wordOrZero
    exact Outcome.ReturnsIff.pure _
  · constructor
    · intro h hlong
      have ⟨_, _, hname, hparameters, _⟩ := h (Nat.not_lt_of_le hlong)
      exact ⟨hname, hparameters⟩
    · intro h hlong
      have ⟨hname, hparameters⟩ := h (Nat.le_of_not_lt hlong)
      exact ⟨by omega, by omega, hname, hparameters, trivial⟩

/-- The values that {lit}`metadata` reads: entries with texts for key and value, up
to one that is cut off inside its key or inside its value. -/
inductive MetadataReadable : Bytes → Prop
  | nil : MetadataReadable []
  | cutKey {kl : UInt8} {rest : Bytes} : rest.length < kl.toNat → MetadataReadable (kl :: rest)
  | cutValue {kl : UInt8} {k vl rest : Bytes} : k.length = kl.toNat → IsText k → vl.length = 2 →
      rest.length < BigEndian.ofBytes vl → MetadataReadable (kl :: (k ++ (vl ++ rest)))
  | entry {kl : UInt8} {k vl value rest : Bytes} : k.length = kl.toNat → IsText k →
      vl.length = 2 → value.length = BigEndian.ofBytes vl → IsText value →
      MetadataReadable rest → MetadataReadable (kl :: (k ++ (vl ++ (value ++ rest))))

/-- The bytes behind the length of a first key. -/
theorem metadataReadable_cons_iff {kl : UInt8} {tail : Bytes} :
    MetadataReadable (kl :: tail) ↔ (kl.toNat ≤ tail.length →
      IsText (tail.take kl.toNat) ∧ kl.toNat + 2 ≤ tail.length ∧
        (BigEndian.ofBytes ((tail.drop kl.toNat).take 2) ≤ (tail.drop (kl.toNat + 2)).length →
          IsText ((tail.drop (kl.toNat + 2)).take (BigEndian.ofBytes ((tail.drop kl.toNat).take 2))) ∧
            MetadataReadable
              ((tail.drop (kl.toNat + 2)).drop (BigEndian.ofBytes ((tail.drop kl.toNat).take 2))))) := by
  -- what the parts of an entry are, by position
  have hparts : ∀ {k vl rest : Bytes}, k.length = kl.toNat → vl.length = 2 →
      (k ++ (vl ++ rest)).take kl.toNat = k ∧
        ((k ++ (vl ++ rest)).drop kl.toNat).take 2 = vl ∧
        (k ++ (vl ++ rest)).drop (kl.toNat + 2) = rest := by
    intro k vl rest hk hvl
    refine ⟨List.take_left' hk, ?_, ?_⟩
    · rw [List.drop_left' hk, List.take_left' hvl]
    · rw [← List.drop_drop, List.drop_left' hk, List.drop_left' hvl]
  constructor
  · intro h hlong
    cases h with
    | cutKey hshort => omega
    | @cutValue _ _ _ rest hk htext hvl hshort =>
        have ⟨hkey, hword, hrest⟩ := @hparts _ _ rest hk hvl
        rw [hkey, hword, hrest]
        refine ⟨htext, by simp only [List.length_append]; omega, fun hroom => by omega⟩
    | @entry _ _ _ value rest hk htext hvl hvalue hvalueText hmore =>
        have ⟨hkey, hword, hrest⟩ := @hparts _ _ (value ++ rest) hk hvl
        rw [hkey, hword, hrest, List.take_left' hvalue, List.drop_left' hvalue]
        exact ⟨htext, by simp only [List.length_append]; omega, fun _ => ⟨hvalueText, hmore⟩⟩
  · intro h
    rcases Nat.lt_or_ge tail.length kl.toNat with hshort | hlong
    · exact .cutKey hshort
    · have ⟨htext, hroom, hvalue⟩ := h hlong
      have hsplit : tail = tail.take kl.toNat ++
          ((tail.drop kl.toNat).take 2 ++ tail.drop (kl.toNat + 2)) := by
        rw [← List.drop_drop, List.take_append_drop, List.take_append_drop]
      have hk : (tail.take kl.toNat).length = kl.toNat := List.length_take_of_le hlong
      have hvl : ((tail.drop kl.toNat).take 2).length = 2 := by
        rw [List.length_take, List.length_drop]
        omega
      rw [hsplit]
      rcases Nat.lt_or_ge (tail.drop (kl.toNat + 2)).length
          (BigEndian.ofBytes ((tail.drop kl.toNat).take 2)) with hcut | hwhole
      · exact .cutValue hk htext hvl hcut
      · have ⟨hvalueText, hmore⟩ := hvalue hwhole
        rw [← List.take_append_drop (BigEndian.ofBytes ((tail.drop kl.toNat).take 2))
          (tail.drop (kl.toNat + 2))]
        exact .entry hk htext hvl (List.length_take_of_le hwhole) hvalueText hmore

/-- When the loop of {lit}`metadata` gets to the end. -/
theorem metadataLoop_returnsIff {v : Bytes} {fuel pos : Nat} (h : v.length - pos < fuel)
    (result : List (Utf8String × Utf8String)) :
    ReturnsIff (metadataLoop v fuel result pos) (MetadataReadable (v.drop pos)) := by
  induction fuel generalizing pos result with
  | zero => omega
  | succ fuel ih =>
      rw [metadataLoop]
      by_cases hpos : pos < v.length
      · rw [if_pos hpos]
        have hbyte : byteAt v pos = v[pos].toNat := by
          rw [byteAt, List.getD_eq_getElem?_getD, List.getElem?_eq_getElem hpos]
          rfl
        have hkey : getSlice v (pos + 1) (pos + 1 + byteAt v pos) =
            (v.drop (pos + 1)).take (byteAt v pos) := by
          rw [getSlice, Nat.add_sub_cancel_left]
        have hword : wordAt 2 v (pos + 1 + byteAt v pos) =
            BigEndian.ofBytes (((v.drop (pos + 1)).drop (byteAt v pos)).take 2) := by
          rw [wordAt, getSlice, Nat.add_sub_cancel_left, List.drop_drop]
        have hrest : v.drop (pos + 1 + byteAt v pos + 2) =
            (v.drop (pos + 1)).drop (byteAt v pos + 2) := by
          rw [List.drop_drop]
          congr 1
        have hvalue : ∀ n, getSlice v (pos + 1 + byteAt v pos + 2)
            (pos + 1 + byteAt v pos + 2 + n) =
              ((v.drop (pos + 1)).drop (byteAt v pos + 2)).take n := by
          intro n
          rw [getSlice, Nat.add_sub_cancel_left, hrest]
        have hmore : ∀ n, v.drop (pos + 1 + byteAt v pos + 2 + n) =
            ((v.drop (pos + 1)).drop (byteAt v pos + 2)).drop n := by
          intro n
          rw [← hrest, List.drop_drop]
        have hroom : ∀ n, ¬ v.length < pos + 1 + byteAt v pos + 2 + n ↔
            n ≤ ((v.drop (pos + 1)).drop (byteAt v pos + 2)).length ∧
              byteAt v pos + 2 ≤ (v.drop (pos + 1)).length := by
          intro n
          rw [← hrest, List.length_drop, List.length_drop]
          omega
        rw [List.drop_eq_getElem_cons hpos, metadataReadable_cons_iff, ← hbyte]
        apply Outcome.ReturnsIff.congr
        · apply ReturnsIff.readByte
          apply Outcome.ReturnsIff.unless
          intro _
          apply ReturnsIff.readText
          intro _
          apply ReturnsIff.unpackWord
          apply Outcome.ReturnsIff.unless
          intro _
          apply ReturnsIff.readText
          intro _
          exact ih (by omega) _
        · have hlen : (v.drop (pos + 1)).length = v.length - (pos + 1) := List.length_drop
          rw [and_iff_right hpos, hkey, hword, hvalue, hmore, hroom, hlen]
          constructor
          · intro h hlong
            rcases h (by omega) with ⟨htext, hword, hentry⟩
            exact ⟨htext, by omega, fun hn => hentry ⟨hn, by omega⟩⟩
          · intro h hlong
            rcases h (by omega) with ⟨htext, hword, hentry⟩
            exact ⟨htext, by omega, fun hn => hentry hn.1⟩
      · rw [if_neg hpos, List.drop_of_length_le (Nat.le_of_not_lt hpos)]
        exact (Outcome.ReturnsIff.pure result).congr (iff_of_true trivial .nil)

/-! ## Names and operands -/

/-- When names between commas are decoded. -/
theorem splitNames_returnsIff (v : Bytes) :
    ReturnsIff (splitNames v) (∀ part ∈ v.splitOn 0x2C, IsText part) := by
  have hparts : ∀ parts : List Bytes,
      ReturnsIff (decodeNames parts) (∀ part ∈ parts, IsText part) := by
    intro parts
    induction parts with
    | nil => exact (Outcome.ReturnsIff.pure []).congr (by simp)
    | cons t ts ih =>
        rw [decodeNames, List.forall_mem_cons]
        by_cases hempty : t.isEmpty = true
        · rw [if_pos hempty, List.isEmpty_iff.mp hempty]
          exact ih.congr (and_iff_right rfl).symm
        · rw [if_neg hempty]
          exact (returnsIff_decodeUtf8 t).bind fun name _ => ih.map
  exact hparts (v.splitOn 0x2C)

/-- Operands that are read to the end without running into a text that is not UTF-8,
in one of them or inside one. -/
def SymbolsReadable (raw : Bytes) : Prop := ¬ ∃ n, Fails (Derives IsNull) RunsIntoBadText n raw

/-- Reading operands to the end raises an exception of the package unless it runs
into a text that is not UTF-8. -/
theorem decodeSymbolsFuel_staysInPackage_iff (pre rest : Bytes) {fuel : Nat}
    (hfuel : rest.length < fuel) (result : List Symbol) :
    StaysInPackage (decodeSymbolsFuel fuel result (pre ++ rest) pre.length) ↔
      SymbolsReadable rest := by
  induction fuel generalizing pre rest result with
  | zero => omega
  | succ fuel ih =>
      have hlen : rest.length < rest.length + 1 := Nat.lt_succ_self _
      have hreads := decodeSymbol_reads (rest.length + 1)
      have hreports := decodeSymbol_reports (rest.length + 1)
      have hsound := hreads.sound pre rest hlen
      have hreport := hreports pre rest hlen
      rw [decodeSymbolsFuel]
      by_cases hmore : pre.length < (pre ++ rest).length
      · rw [if_pos hmore]
        cases hdecode : decodeSymbol (pre ++ rest) pre.length with
        | ok r =>
            rcases r with ⟨sym, pos⟩
            rw [hdecode] at hsound
            rcases hsound with ⟨b, post, hrest, ⟨t, ht, hsym⟩, hpos⟩
            have hlength := ht.length_pos
            rw [hrest] at hlen hfuel ⊢
            rw [List.length_append] at hfuel
            have hnext : pos = (pre ++ b).length := hpos.trans List.length_append.symm
            have hih := ih (pre ++ b) post (by omega) (result ++ [sym])
            rw [List.append_assoc] at hih
            rw [Outcome.ok_bind, hnext]
            refine hih.trans (not_congr ?_)
            rw [hrest] at hreads hreports
            exact (Outcome.exists_fails_append_iff hreads hreports ht hlen).symm
        | err e =>
            rw [hdecode] at hsound
            rw [Outcome.err_bind, staysInPackage_err_iff]
            rcases hsound with ⟨message, he⟩ | he
            · have hne : e ≠ .unicodeDecodeError := by simp [he]
              refine iff_of_true ⟨_, message, he⟩ ?_
              rintro ⟨n, hfails⟩
              exact Outcome.not_fails_of_ne hreads hreports hlen hdecode hne n hfails
            · rw [he] at hdecode ⊢
              refine iff_of_false (by simp [PyError.IsPackage]) ?_
              exact not_not.mpr ⟨1, .first (hreport.mp hdecode)⟩
        | panic =>
            rw [hdecode] at hsound
            exact hsound.elim
      · rw [if_neg hmore]
        have hnil : rest = [] := by
          rw [List.length_append] at hmore
          exact List.eq_nil_of_length_eq_zero (by omega)
        have hend : decodeSymbol (pre ++ []) pre.length =
            .err (.bin .symbolError "operand: no tag byte") := by
          rw [List.append_nil, decodeSymbol, decodeSymbolFuel, readTag, raiseIf, Outcome.failIf,
            if_pos (le_refl _)]
          rfl
        rw [hnil] at hlen hreads hreports ⊢
        refine iff_of_true (staysInPackage_ok _) ?_
        rintro ⟨n, hfails⟩
        exact Outcome.not_fails_of_ne hreads hreports hlen hend (by simp) n hfails

/-! ## Properties -/

/-- The properties of a view that read vendor operands. -/
inductive Accessor where
  | origin | targets | intent | responseSymbols | confidence | priority | capabilities | qos | trace
  | chunkInfo | blobRefs | backpressure | errorInfo | ackInfo | targetCaps | schemaId
  | modelInvocation | toolInvocation | metadata
deriving DecidableEq, Repr

namespace Accessor

/-- Reading a property of a view, whatever it returns. -/
def call (v : PacketView) : Accessor → PyResult Unit
  | origin => v.origin >>= fun _ => .ok ()
  | targets => v.targets >>= fun _ => .ok ()
  | intent => v.intent >>= fun _ => .ok ()
  | responseSymbols => v.responseSymbols >>= fun _ => .ok ()
  | confidence => v.confidence >>= fun _ => .ok ()
  | priority => v.priority >>= fun _ => .ok ()
  | capabilities => v.capabilities >>= fun _ => .ok ()
  | qos => v.qos >>= fun _ => .ok ()
  | trace => v.trace >>= fun _ => .ok ()
  | chunkInfo => v.chunkInfo >>= fun _ => .ok ()
  | blobRefs => v.blobRefs >>= fun _ => .ok ()
  | backpressure => v.backpressure >>= fun _ => .ok ()
  | errorInfo => v.errorInfo >>= fun _ => .ok ()
  | ackInfo => v.ackInfo >>= fun _ => .ok ()
  | targetCaps => v.targetCaps >>= fun _ => .ok ()
  | schemaId => v.schemaId >>= fun _ => .ok ()
  | modelInvocation => v.modelInvocation >>= fun _ => .ok ()
  | toolInvocation => v.toolInvocation >>= fun _ => .ok ()
  | metadata => v.metadata >>= fun _ => .ok ()

/-- The first value of a list, if it is there and not empty, meets a condition. -/
def FirstMeets (raws : List Bytes) (P : Bytes → Prop) : Prop :=
  ∀ raw, raws.head? = some raw → raw ≠ [] → P raw

/-- Names between commas that are texts. -/
def NamesReadable (raw : Bytes) : Prop := ∀ part ∈ raw.splitOn 0x2C, IsText part

/-- The values under the tag of a property are ones that it can read. -/
def Readable (values : UInt8 → List Bytes) : Accessor → Prop
  | origin => FirstMeets (values EXT_ORIGIN) Identity.Readable
  | targets => FirstMeets (values EXT_TARGETS) NamesReadable
  | intent => FirstMeets (values EXT_INTENT) IsText
  | responseSymbols => FirstMeets (values EXT_RESPONSE_SYMBOLS) SymbolsReadable
  | confidence => FirstMeets (values EXT_CONFIDENCE) fun raw => 8 ≤ raw.length
  | priority => True
  | capabilities => FirstMeets (values EXT_CAPABILITIES) NamesReadable
  | qos => True
  | trace => ∀ raw ∈ values EXT_TRACE_ENTRY, TraceEntry.Readable raw
  | chunkInfo => True
  | blobRefs => ∀ raw ∈ values EXT_BLOB_REF, BlobRef.Readable raw
  | backpressure => True
  | errorInfo => FirstMeets (values EXT_ERROR_INFO) ErrorInfo.Readable
  | ackInfo => FirstMeets (values EXT_ACK_INFO) fun raw => IsText (raw.drop 1)
  | targetCaps => FirstMeets (values EXT_TARGET_CAPS) NamesReadable
  | schemaId => FirstMeets (values EXT_SCHEMA_ID) IsText
  | modelInvocation => FirstMeets (values EXT_MODEL_INVOCATION) ModelInvocation.Readable
  | toolInvocation => FirstMeets (values EXT_TOOL_INVOCATION) ToolInvocation.Readable
  | metadata => FirstMeets (values EXT_METADATA) MetadataReadable

/-- A property of the first value under a tag. -/
theorem staysInPackage_first_iff {α : Type} {v : PacketView} {tag : UInt8} {default : α}
    {read : Bytes → PyResult α} {P : Bytes → Prop} (hread : ∀ raw, ReturnsIff (read raw) (P raw)) :
    StaysInPackage (readOr default read (v.extOne tag) >>= fun _ => .ok ()) ↔
      FirstMeets (v.extAll tag) P := by
  rw [staysInPackage_map_iff]
  exact (ReturnsIff.readOr hread (v.extOne tag)).staysInPackage_iff

/-- A property that can read any value. -/
theorem staysInPackage_first {α : Type} {v : PacketView} {tag : UInt8} {default : α}
    {read : Bytes → PyResult α} (hread : ∀ raw, ReturnsIff (read raw) True) :
    StaysInPackage (readOr default read (v.extOne tag) >>= fun _ => .ok ()) ↔ True :=
  (staysInPackage_first_iff hread).trans (iff_true_intro fun _ _ _ => trivial)

/-- The response symbols return or raise an exception of the package unless they run
into a text that is not UTF-8. -/
theorem staysInPackage_responseSymbols_iff (v : PacketView) :
    StaysInPackage (v.responseSymbols >>= fun _ => .ok ()) ↔
      FirstMeets (v.extAll EXT_RESPONSE_SYMBOLS) SymbolsReadable := by
  rw [staysInPackage_map_iff, PacketView.responseSymbols, FirstMeets, ← PacketView.extOne]
  cases v.extOne EXT_RESPONSE_SYMBOLS with
  | none => exact iff_of_true (staysInPackage_ok _) (by simp)
  | some raw =>
      cases raw with
      | nil => exact iff_of_true (staysInPackage_ok _) (by simp)
      | cons b bs =>
          have hloop := decodeSymbolsFuel_staysInPackage_iff [] (b :: bs) (Nat.lt_succ_self _) []
          simp only [Option.some.injEq, ne_eq, forall_eq', reduceCtorEq, not_false_eq_true,
            forall_true_left]
          exact staysInPackage_map_iff.trans hloop

/-- A property of a view returns or raises an exception of the package exactly when
it can read the bytes under its tag. -/
theorem staysInPackage_call_iff (v : PacketView) (a : Accessor) :
    StaysInPackage (a.call v) ↔ a.Readable v.extAll := by
  cases a with
  | origin => exact staysInPackage_first_iff fun raw => (Identity.fromBytes_returnsIff raw).map
  | targets => exact staysInPackage_first_iff splitNames_returnsIff
  | intent => exact staysInPackage_first_iff returnsIff_decodeUtf8
  | responseSymbols => exact staysInPackage_responseSymbols_iff v
  | confidence =>
      refine staysInPackage_first_iff fun raw => ?_
      apply Outcome.ReturnsIff.congr
      · apply ReturnsIff.unpackWord
        exact Outcome.ReturnsIff.pure _
      · rw [Nat.zero_add, and_iff_left trivial]
  | priority =>
      rw [call, staysInPackage_map_iff, PacketView.priority]
      refine (ReturnsIff.readOr (P := fun raw => 0 < raw.length) ?_ _).staysInPackage_iff.trans ?_
      · intro raw
        rw [readByte_eq_ite]
        by_cases h : 0 < raw.length
        · rw [if_pos h]
          exact .ok h
        · rw [if_neg h]
          exact .err (by simp [PyError.IsPackage]) h
      · exact iff_true_intro fun raw _ hne => List.length_pos_iff.mpr hne
  | capabilities => exact staysInPackage_first_iff splitNames_returnsIff
  | qos => exact staysInPackage_first QoS.ofValue_returnsIff
  | trace =>
      rw [call, staysInPackage_map_iff]
      exact (ReturnsIff.readEach TraceEntry.ofValue_returnsIff _).staysInPackage_iff
  | chunkInfo => exact staysInPackage_first ChunkInfo.ofValue_returnsIff
  | blobRefs =>
      rw [call, staysInPackage_map_iff]
      exact (ReturnsIff.readEach BlobRef.ofValue_returnsIff _).staysInPackage_iff
  | backpressure => exact staysInPackage_first Backpressure.ofValue_returnsIff
  | errorInfo => exact staysInPackage_first_iff ErrorInfo.ofValue_returnsIff
  | ackInfo => exact staysInPackage_first_iff AckInfo.ofValue_returnsIff
  | targetCaps => exact staysInPackage_first_iff splitNames_returnsIff
  | schemaId => exact staysInPackage_first_iff returnsIff_decodeUtf8
  | modelInvocation => exact staysInPackage_first_iff ModelInvocation.ofValue_returnsIff
  | toolInvocation => exact staysInPackage_first_iff ToolInvocation.ofValue_returnsIff
  | metadata =>
      exact staysInPackage_first_iff fun raw => metadataLoop_returnsIff (Nat.lt_succ_self _) []

end Accessor

/-! ## Accepted packets -/

/-- The bytes of the vendor operands under a tag, in their order on the wire. -/
def vendorValues (ts : List Tree) (tag : UInt8) : List Bytes :=
  valuesOf tag ((toSymbols ts).filterMap extension?)

/-- On every accepted packet, a property returns or raises an exception of the package
exactly when it can read the vendor operands that the peer sent under its tag. -/
theorem decode_accessors_iff (crc32 : Bytes → UInt32) {data : Bytes} {v : PacketView}
    (h : decode crc32 data = .ok v) :
    ∃ ts, Holds (region data) ts ∧
      ∀ a : Accessor, StaysInPackage (a.call v) ↔ a.Readable (vendorValues ts) := by
  have ⟨_, ts, hts, hv⟩ := decode_eq_ok_iff.mp h
  have hvalues : v.extAll = vendorValues ts := by
    funext tag
    rw [hv]
    exact ofSymbols_extensions tag _
  refine ⟨ts, hts, fun a => ?_⟩
  rw [← hvalues]
  exact Accessor.staysInPackage_call_iff v a

/-- A frame with four vendor operands of one byte: an origin, an intent, a confidence
and a trace entry. -/
def stubFrame : Bytes :=
  (plainHeader 0 14).bytes Crc32.ieee ++
    [0x01, 0x04, 0x81, 0x01, 0x00, 0x83, 0x01, 0xFF, 0x85, 0x01, 0x00, 0x8A, 0x01, 0x01]

/-- The quality of service of this packet is its default. -/
theorem decode_accessors_qos :
    ∃ v, decode Crc32.ieee stubFrame = .ok v ∧ StaysInPackage (Accessor.qos.call v) := by
  have hok : (decode Crc32.ieee stubFrame).isOk = true := by decide +kernel
  have ⟨v, hv⟩ := Outcome.isOk_iff.mp hok
  have ⟨_, _, hcalls⟩ := decode_accessors_iff Crc32.ieee hv
  exact ⟨v, hv, (hcalls .qos).mpr trivial⟩

/-- Four properties raise four exceptions of the interpreter. -/
theorem accessors_leave_package :
    (∃ v, decode Crc32.ieee stubFrame = .ok v ∧
      Accessor.origin.call v = .err (.valueError "Identity too short") ∧
      Accessor.intent.call v = .err .unicodeDecodeError ∧
      Accessor.confidence.call v = .err .structError ∧
      Accessor.trace.call v = .err .indexError) ∧
    ¬ ∀ data v, decode Crc32.ieee data = .ok v →
      ∀ a : Accessor, StaysInPackage (a.call v) := by
  have hok : (decode Crc32.ieee stubFrame).isOk = true := by decide +kernel
  have ⟨v, hv⟩ := Outcome.isOk_iff.mp hok
  have hraises : ∀ (a : Accessor) (e : PyError),
      (decode Crc32.ieee stubFrame >>= fun v => a.call v).error? = some e →
        a.call v = .err e := by
    intro a e he
    rw [hv, Outcome.ok_bind] at he
    exact Outcome.error?_eq_some_iff.mp he
  have horigin := hraises .origin (.valueError "Identity too short") (by decide +kernel)
  have hintent := hraises .intent .unicodeDecodeError (by decide +kernel)
  have hconfidence := hraises .confidence .structError (by decide +kernel)
  have htrace := hraises .trace .indexError (by decide +kernel)
  refine ⟨⟨v, hv, horigin, hintent, hconfidence, htrace⟩, ?_⟩
  intro hall
  have hstays := hall stubFrame v hv .intent
  rw [hintent, staysInPackage_err_iff] at hstays
  simp [PyError.IsPackage] at hstays

end Aicl.Bin

import Mathlib

/-!
# UTF-8 strings

A string is the byte string of its UTF-8 form together with the proof that the
form is well formed, so an ill-formed string cannot be built.  Well-formedness
is the table of byte sequences of the Unicode standard: no overlong form, no
surrogate, nothing above U+10FFFF.

Main results:

- Theorem {lit}`Utf8String.ofBytes?_eq_some_iff`: decoding succeeds exactly with
  the string whose bytes were given.
-/

namespace Utf8

/-- A continuation byte. -/
def isCont (b : UInt8) : Bool := 0x80 ≤ b && b ≤ 0xBF

/-- The well-formed two-byte sequences. -/
def isPair (b0 b1 : UInt8) : Bool := 0xC2 ≤ b0 && b0 ≤ 0xDF && isCont b1

/-- The well-formed three-byte sequences. -/
def isTriple (b0 b1 b2 : UInt8) : Bool :=
  ((b0 == 0xE0 && 0xA0 ≤ b1 && b1 ≤ 0xBF) || (0xE1 ≤ b0 && b0 ≤ 0xEC && isCont b1) ||
    (b0 == 0xED && 0x80 ≤ b1 && b1 ≤ 0x9F) || (0xEE ≤ b0 && b0 ≤ 0xEF && isCont b1)) && isCont b2

/-- The well-formed four-byte sequences. -/
def isQuad (b0 b1 b2 b3 : UInt8) : Bool :=
  ((b0 == 0xF0 && 0x90 ≤ b1 && b1 ≤ 0xBF) || (0xF1 ≤ b0 && b0 ≤ 0xF3 && isCont b1) ||
    (b0 == 0xF4 && 0x80 ≤ b1 && b1 ≤ 0x8F)) && isCont b2 && isCont b3

/-- Well-formed UTF-8: a concatenation of well-formed sequences. -/
def valid : List UInt8 → Bool
  | [] => true
  | b0 :: bs =>
      if b0 ≤ 0x7F then valid bs
      else match bs with
        | [] => false
        | b1 :: bs =>
            if isPair b0 b1 then valid bs
            else match bs with
              | [] => false
              | b2 :: bs =>
                  if isTriple b0 b1 b2 then valid bs
                  else match bs with
                    | [] => false
                    | b3 :: bs => isQuad b0 b1 b2 b3 && valid bs

/-- Bytes of ASCII are well formed. -/
theorem valid_of_ascii {bs : List UInt8} (h : ∀ b ∈ bs, b ≤ 0x7F) : valid bs = true := by
  induction bs with
  | nil => rfl
  | cons b bs ih =>
      rw [valid.eq_def]
      simp only [if_pos (h b List.mem_cons_self)]
      exact ih fun b' hb' => h b' (List.mem_cons_of_mem _ hb')

/-- Texts that follow each other are well formed. -/
theorem valid_append {bs cs : List UInt8} (hbs : valid bs = true) (hcs : valid cs = true) :
    valid (bs ++ cs) = true := by
  fun_induction valid bs with
  | case1 => exact hcs
  | case2 b0 bs hb0 ih =>
      rw [List.cons_append, valid.eq_def]
      simp only [if_pos hb0]
      exact ih hbs
  | case3 => cases hbs
  | case4 b0 hb0 b1 bs hb1 ih =>
      rw [List.cons_append, List.cons_append, valid.eq_def]
      simp only [if_neg hb0, if_pos hb1]
      exact ih hbs
  | case5 => cases hbs
  | case6 b0 hb0 b1 hb1 b2 bs hb2 ih =>
      rw [List.cons_append, List.cons_append, List.cons_append, valid.eq_def]
      simp only [if_neg hb0, if_neg hb1, if_pos hb2]
      exact ih hbs
  | case7 => cases hbs
  | case8 b0 hb0 b1 hb1 b2 hb2 b3 bs ih =>
      have ⟨hquad, hrest⟩ := Bool.and_eq_true_iff.mp hbs
      rw [List.cons_append, List.cons_append, List.cons_append, List.cons_append, valid.eq_def]
      simp only [if_neg hb0, if_neg hb1, if_neg hb2, hquad, ih hrest, Bool.and_self]

/-- The bytes of the ASCII characters of a text. -/
def asciiBytes (s : String) : List UInt8 :=
  (s.toList.filter fun c => c.toNat < 0x80).map fun c => UInt8.ofNat c.toNat

/-- They are ASCII. -/
theorem asciiBytes_le (s : String) : ∀ b ∈ asciiBytes s, b ≤ 0x7F := by
  intro b hb
  obtain ⟨c, hc, rfl⟩ := List.mem_map.mp hb
  have hlt : c.toNat < 0x80 := by simpa using (List.mem_filter.mp hc).2
  rw [UInt8.le_iff_toNat_le, UInt8.toNat_ofNat']
  have hle : c.toNat % 2 ^ 8 ≤ 127 := by omega
  exact hle

end Utf8

/-- A string, kept as its UTF-8 bytes. -/
structure Utf8String where
  bytes : List UInt8
  valid : Utf8.valid bytes = true
deriving DecidableEq

namespace Utf8String

/-- A string is determined by its bytes. -/
theorem ext_bytes {s t : Utf8String} (h : s.bytes = t.bytes) : s = t := by
  cases s
  cases t
  simpa using h

/-- The length in bytes. -/
def length (s : Utf8String) : Nat := s.bytes.length

/-- The empty string. -/
def empty : Utf8String := ⟨[], rfl⟩

/-- A text in ASCII; other characters are left out. -/
def ofAscii (s : String) : Utf8String := ⟨Utf8.asciiBytes s, Utf8.valid_of_ascii (Utf8.asciiBytes_le s)⟩

/-- One text after another. -/
def append (s t : Utf8String) : Utf8String := ⟨s.bytes ++ t.bytes, Utf8.valid_append s.valid t.valid⟩

/-- Strict decoding: no string for an ill-formed byte string. -/
def ofBytes? (bs : List UInt8) : Option Utf8String :=
  if h : Utf8.valid bs = true then some ⟨bs, h⟩ else none

/-- Decoding succeeds exactly with the string whose bytes were given. -/
theorem ofBytes?_eq_some_iff {bs : List UInt8} {s : Utf8String} :
    ofBytes? bs = some s ↔ s.bytes = bs := by
  unfold ofBytes?
  split
  next h =>
    constructor
    · intro hs
      rw [← Option.some.inj hs]
    · intro hs
      exact congrArg some (ext_bytes hs.symm)
  next h =>
    simp only [reduceCtorEq, false_iff]
    rintro rfl
    exact h s.valid

/-- Decoding the bytes of a string gives the string. -/
@[simp] theorem ofBytes?_bytes (s : Utf8String) : ofBytes? s.bytes = some s :=
  ofBytes?_eq_some_iff.mpr rfl

/-- Strings are compared as byte strings, which is also their order by code
points. -/
instance : LinearOrder Utf8String :=
  LinearOrder.lift' (fun s => s.bytes.map UInt8.toNat) fun _ _ h =>
    ext_bytes (List.map_injective_iff.mpr (fun _ _ => UInt8.toNat_inj.mp) h)

end Utf8String

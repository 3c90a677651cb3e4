import Aicl.Foundation.BigEndian

/-!
# Hexadecimal texts

Bytes written with two lower-case digits each, and the parser that takes digits of
either case and passes over white space between two bytes.  Texts are lists of bytes of
ASCII.

Main results:

- Theorem {lit}`Hex.parse_ofBytes`: what is written is parsed.
- Theorem {lit}`Hex.digits_of_parse`: the digits of a text that is parsed.
-/

namespace Hex

/-- The lower-case digit of a number below sixteen. -/
def digit (n : Nat) : UInt8 := if n < 10 then UInt8.ofNat (0x30 + n) else UInt8.ofNat (0x57 + n)

/-- The number of a digit of either case. -/
def value? (c : UInt8) : Option Nat :=
  if 0x30 ≤ c ∧ c ≤ 0x39 then some (c.toNat - 0x30)
  else if 0x41 ≤ c ∧ c ≤ 0x46 then some (c.toNat - 0x37)
  else if 0x61 ≤ c ∧ c ≤ 0x66 then some (c.toNat - 0x57)
  else none

/-- White space of ASCII. -/
def isSpace (c : UInt8) : Bool := c = 0x20 ∨ (0x09 ≤ c ∧ c ≤ 0x0D)

/-- The lower case of a letter of ASCII. -/
def lowerCase (c : UInt8) : UInt8 := if 0x41 ≤ c ∧ c ≤ 0x5A then c + 0x20 else c

/-- The two digits of a byte. -/
def ofByte (b : UInt8) : List UInt8 := [digit (b.toNat / 16), digit (b.toNat % 16)]

/-- The digits of a byte string. -/
def ofBytes (bs : List UInt8) : List UInt8 := bs.flatMap ofByte

/-- The bytes of a text, if it consists of pairs of digits and white space between them. -/
def parse : List UInt8 → Option (List UInt8)
  | [] => some []
  | c :: cs =>
      if isSpace c then parse cs
      else match cs with
        | [] => none
        | d :: ds =>
            match value? c, value? d with
            | some high, some low => (parse ds).map (UInt8.ofNat (16 * high + low) :: ·)
            | _, _ => none

/-- The digits of a text in lower case, without its white space. -/
def digits (text : List UInt8) : List UInt8 := (text.filter fun c => !isSpace c).map lowerCase

/-! ## Single digits -/

/-- A digit has its number. -/
theorem value?_digit {n : Nat} (h : n < 16) : value? (digit n) = some n := by
  have hall : ∀ n : Fin 16, value? (digit n.val) = some n.val := by decide
  exact hall ⟨n, h⟩

/-- A digit is in lower case, no white space and below the letters that follow. -/
theorem digit_spec {n : Nat} (h : n < 16) :
    isSpace (digit n) = false ∧ lowerCase (digit n) = digit n ∧ digit n ≤ 0x7F ∧ digit n ≠ 0x2D := by
  have hall : ∀ n : Fin 16, isSpace (digit n.val) = false ∧
      lowerCase (digit n.val) = digit n.val ∧ digit n.val ≤ 0x7F ∧ digit n.val ≠ 0x2D := by decide
  exact hall ⟨n, h⟩

/-- The digits with a number. -/
theorem value?_spec (c : UInt8) : ∀ n, value? c = some n →
    n < 16 ∧ isSpace c = false ∧ lowerCase c = digit n := by
  have hall : ∀ c : Fin 256, ∀ n ∈ value? (UInt8.ofNat c.val),
      n < 16 ∧ isSpace (UInt8.ofNat c.val) = false ∧ lowerCase (UInt8.ofNat c.val) = digit n := by
    decide +kernel
  exact UInt8.forall_of_fin (p := fun c => ∀ n, value? c = some n →
    n < 16 ∧ isSpace c = false ∧ lowerCase c = digit n) hall c

/-- The two digits of a byte. -/
theorem forall_mem_ofByte {P : UInt8 → Prop} (h : ∀ n, n < 16 → P (digit n)) (b : UInt8) :
    ∀ c ∈ ofByte b, P c := by
  have hb := b.toNat_lt
  intro c hc
  rcases List.mem_cons.mp hc with hc | hc
  · rw [hc]
    exact h _ (by omega)
  · rw [List.mem_singleton.mp hc]
    exact h _ (by omega)

/-! ## Texts -/

/-- Every byte of a written text is a digit. -/
theorem forall_mem_ofBytes {P : UInt8 → Prop} (h : ∀ n, n < 16 → P (digit n)) (bs : List UInt8) :
    ∀ c ∈ ofBytes bs, P c := by
  intro c hc
  have ⟨b, _, hc⟩ := List.mem_flatMap.mp hc
  exact forall_mem_ofByte h b c hc

/-- A byte takes two digits. -/
@[simp] theorem ofBytes_length (bs : List UInt8) : (ofBytes bs).length = 2 * bs.length := by
  induction bs with
  | nil => rfl
  | cons b bs ih =>
      rw [ofBytes, List.flatMap_cons, List.length_append, List.length_cons]
      change 2 + (ofBytes bs).length = _
      omega

/-- What is written is parsed. -/
theorem parse_ofBytes (bs : List UInt8) : parse (ofBytes bs) = some bs := by
  induction bs with
  | nil => rfl
  | cons b bs ih =>
      have hb := b.toNat_lt
      have hhigh : b.toNat / 16 < 16 := by omega
      have hlow : b.toNat % 16 < 16 := by omega
      have hbyte : UInt8.ofNat (16 * (b.toNat / 16) + b.toNat % 16) = b := by
        rw [Nat.div_add_mod, UInt8.ofNat_toNat]
      change parse (digit (b.toNat / 16) :: digit (b.toNat % 16) :: ofBytes bs) = _
      rw [parse, (digit_spec hhigh).1, if_neg Bool.false_ne_true, value?_digit hhigh,
        value?_digit hlow, ih]
      exact congrArg (fun c => some (c :: bs)) hbyte

/-- The digits of a written text are the text. -/
theorem digits_ofBytes (bs : List UInt8) : digits (ofBytes bs) = ofBytes bs := by
  have hspace := forall_mem_ofBytes (P := fun c => (!isSpace c) = true)
    (fun n hn => by rw [(digit_spec hn).1]; rfl) bs
  have hlower := forall_mem_ofBytes (P := fun c => lowerCase c = c)
    (fun n hn => (digit_spec hn).2.1) bs
  rw [digits, List.filter_eq_self.mpr hspace]
  exact List.map_congr_left hlower |>.trans (List.map_id _)

/-- The digits of a text that is parsed are those of its bytes. -/
theorem digits_of_parse {text bs : List UInt8} (h : parse text = some bs) :
    digits text = ofBytes bs := by
  fun_induction parse text generalizing bs with
  | case1 =>
      cases h
      rfl
  | case2 c cs hspace ih =>
      rw [← ih h, digits, List.filter_cons_of_neg (by rw [hspace]; simp)]
      rfl
  | case3 c hspace => cases h
  | case4 c hspace d ds high low hlow hhigh ih =>
      have ⟨rest, hrest, hbs⟩ := Option.map_eq_some_iff.mp h
      have ⟨hhighlt, _, hc⟩ := value?_spec c high hhigh
      have ⟨hlowlt, hd, hdlower⟩ := value?_spec d low hlow
      have hbyte : (UInt8.ofNat (16 * high + low)).toNat = 16 * high + low := by
        rw [UInt8.toNat_ofNat']
        omega
      have hdiv : (16 * high + low) / 16 = high := by omega
      have hmod : (16 * high + low) % 16 = low := by omega
      have htwo : ofByte (UInt8.ofNat (16 * high + low)) = [lowerCase c, lowerCase d] := by
        rw [ofByte, hbyte, hdiv, hmod, hc, hdlower]
      rw [← hbs, ofBytes, List.flatMap_cons, htwo, ← ofBytes, ← ih hrest, digits,
        List.filter_cons_of_pos (by simpa using hspace), List.filter_cons_of_pos (by rw [hd]; rfl)]
      rfl
  | case5 => cases h

end Hex

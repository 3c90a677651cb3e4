import Mathlib

/-!
# Single and double precision

The two conversions between the binary formats of IEEE 754, on their bit
patterns: {lit}`widen` takes a single-precision number to the double with the same
value, {lit}`narrow` rounds a double to the nearest single, ties to even, and fails
where the result would be larger than every finite single.  A NaN keeps its sign
and the part of its payload that fits.

Main results:

- Theorem {lit}`Ieee754.narrow_widen`: narrowing undoes widening, on every bit
  pattern.
- Theorem {lit}`Ieee754.widen_injective`: different singles are different doubles.
-/

namespace Ieee754

/-! ## Widening -/

/-- The exponent and the mantissa of a single, moved to those of a double.  A
subnormal single is a normal double. -/
def widenMagnitude (x : Nat) : Nat :=
  let exponent := x / 2 ^ 23
  let mantissa := x % 2 ^ 23
  if exponent = 255 then 2047 * 2 ^ 52 + mantissa * 2 ^ 29
  else if exponent = 0 then
    if mantissa = 0 then 0
    else
      let top := Nat.log2 mantissa
      (top + 874) * 2 ^ 52 + (mantissa * 2 ^ (52 - top) - 2 ^ 52)
  else (exponent + 896) * 2 ^ 52 + mantissa * 2 ^ 29

/-- The double with the value of a single. -/
def widen (x : UInt32) : UInt64 :=
  UInt64.ofNat (x.toNat / 2 ^ 31 * 2 ^ 63 + widenMagnitude (x.toNat % 2 ^ 31))

/-! ## Narrowing -/

/-- Divide by a power of two, rounding to nearest and ties to even. -/
def roundShift (s m : Nat) : Nat :=
  let q := m / 2 ^ s
  let r := m % 2 ^ s
  if 2 ^ s < 2 * r ∨ (2 ^ s = 2 * r ∧ q % 2 = 1) then q + 1 else q

/-- The exponent and the mantissa of a double, rounded to those of a single; a
carry out of the mantissa goes to the exponent. -/
def narrowFields (exponent mantissa : Nat) : Option Nat :=
  if exponent = 2047 then
    let payload := mantissa / 2 ^ 29
    some (255 * 2 ^ 23 + if mantissa = 0 then 0 else if payload = 0 then 2 ^ 22 else payload)
  else
    let significand := if exponent = 0 then mantissa else 2 ^ 52 + mantissa
    let rounded :=
      if 897 ≤ exponent then (exponent - 897) * 2 ^ 23 + roundShift 29 significand
      else roundShift (926 - max exponent 1) significand
    if rounded < 255 * 2 ^ 23 then some rounded else none

/-- A double without its sign, rounded to a single without its sign. -/
def narrowMagnitude (x : Nat) : Option Nat :=
  narrowFields (x / 2 ^ 52) (x % 2 ^ 52)

/-- The single nearest to a double. -/
def narrow (x : UInt64) : Option UInt32 :=
  (narrowMagnitude (x.toNat % 2 ^ 63)).map fun r =>
    UInt32.ofNat (x.toNat / 2 ^ 63 * 2 ^ 31 + r)

/-- The double {lit}`0.1`, rounded to single precision. -/
example : narrow 0x3FB999999999999A = some 0x3DCCCCCD := by
  decide +kernel

/-! ## Narrowing undoes widening -/

/-- Nothing is rounded off a multiple of the divisor. -/
theorem roundShift_mul (s q : Nat) : roundShift s (q * 2 ^ s) = q := by
  have hpos : 0 < 2 ^ s := Nat.two_pow_pos s
  unfold roundShift
  simp only [Nat.mul_div_cancel _ hpos, Nat.mul_mod_left]
  rw [if_neg (by omega)]

/-- Zero is divided without a remainder. -/
theorem roundShift_zero (s : Nat) : roundShift s 0 = 0 := by
  have hmul := roundShift_mul s 0
  rwa [Nat.zero_mul] at hmul

/-- The significand of a widened subnormal, between two powers of two. -/
theorem log2_bounds {man : Nat} (hman : man ≠ 0) (hlt : man < 2 ^ 23) :
    Nat.log2 man ≤ 22 ∧ 2 ^ 52 ≤ man * 2 ^ (52 - Nat.log2 man) ∧
      man * 2 ^ (52 - Nat.log2 man) < 2 ^ 53 := by
  have htop : Nat.log2 man < 23 := (Nat.log2_lt hman).mpr hlt
  have hsum : 2 ^ Nat.log2 man * 2 ^ (52 - Nat.log2 man) = 2 ^ 52 := by
    rw [← Nat.pow_add]
    congr 1
    omega
  have hlow : 2 ^ Nat.log2 man ≤ man := Nat.log2_self_le hman
  have hhigh : man < 2 ^ (Nat.log2 man + 1) := Nat.lt_log2_self
  have hpos : 0 < 2 ^ (52 - Nat.log2 man) := Nat.two_pow_pos _
  refine ⟨by omega, ?_, ?_⟩
  · exact hsum ▸ Nat.mul_le_mul_right _ hlow
  · have hmul := Nat.mul_lt_mul_of_pos_right hhigh hpos
    rw [Nat.pow_succ, Nat.mul_right_comm, hsum] at hmul
    omega

/-- A widened magnitude fits a double. -/
theorem widenMagnitude_lt {x : Nat} (hx : x < 2 ^ 31) : widenMagnitude x < 2 ^ 63 := by
  have hexp : x / 2 ^ 23 < 256 := by omega
  have hman : x % 2 ^ 23 < 2 ^ 23 := Nat.mod_lt _ (by decide)
  unfold widenMagnitude
  simp only
  split
  · omega
  · split
    · split
      · decide
      next hzero =>
        obtain ⟨htop, hlow, hhigh⟩ := log2_bounds hzero hman
        omega
    · omega

/-- The magnitude with given fields. -/
theorem narrowMagnitude_join {exponent mantissa : Nat} (h : mantissa < 2 ^ 52) :
    narrowMagnitude (exponent * 2 ^ 52 + mantissa) = narrowFields exponent mantissa := by
  have hexp : (exponent * 2 ^ 52 + mantissa) / 2 ^ 52 = exponent := by omega
  have hman : (exponent * 2 ^ 52 + mantissa) % 2 ^ 52 = mantissa := by omega
  rw [narrowMagnitude, hexp, hman]

/-- Narrowing the fields of a subnormal single. -/
theorem narrowFields_subnormal {man : Nat} (hzero : man ≠ 0) (hman : man < 2 ^ 23) :
    narrowFields (Nat.log2 man + 874) (man * 2 ^ (52 - Nat.log2 man) - 2 ^ 52) = some man := by
  obtain ⟨htop, hlow, _⟩ := log2_bounds hzero hman
  have hsignificand : 2 ^ 52 + (man * 2 ^ (52 - Nat.log2 man) - 2 ^ 52) =
      man * 2 ^ (52 - Nat.log2 man) := by omega
  have hshift : 926 - max (Nat.log2 man + 874) 1 = 52 - Nat.log2 man := by omega
  have hinf : Nat.log2 man + 874 ≠ 2047 := by omega
  have hzero' : Nat.log2 man + 874 ≠ 0 := by omega
  have hsmall : ¬ 897 ≤ Nat.log2 man + 874 := by omega
  have hfits : man < 255 * 2 ^ 23 := by omega
  simp only [narrowFields, if_neg hinf, if_neg hzero', if_neg hsmall, hsignificand, hshift,
    roundShift_mul, if_pos hfits]

/-- Narrowing the fields of a normal single. -/
theorem narrowFields_normal {exp man : Nat} (hpos : 0 < exp) (hexp : exp < 255)
    (hman : man < 2 ^ 23) :
    narrowFields (exp + 896) (man * 2 ^ 29) = some (exp * 2 ^ 23 + man) := by
  have hsignificand : 2 ^ 52 + man * 2 ^ 29 = (2 ^ 23 + man) * 2 ^ 29 := by omega
  have hvalue : (exp + 896 - 897) * 2 ^ 23 + (2 ^ 23 + man) = exp * 2 ^ 23 + man := by omega
  have hinf : exp + 896 ≠ 2047 := by omega
  have hzero : exp + 896 ≠ 0 := by omega
  have hlarge : 897 ≤ exp + 896 := by omega
  have hfits : exp * 2 ^ 23 + man < 255 * 2 ^ 23 := by omega
  simp only [narrowFields, if_neg hinf, if_neg hzero, if_pos hlarge, hsignificand, roundShift_mul,
    hvalue, if_pos hfits]

/-- Narrowing the fields of an infinity or of a NaN. -/
theorem narrowFields_infinite {man : Nat} :
    narrowFields 2047 (man * 2 ^ 29) = some (255 * 2 ^ 23 + man) := by
  have hpayload : man * 2 ^ 29 / 2 ^ 29 = man := Nat.mul_div_cancel _ (Nat.two_pow_pos 29)
  have hzero : man * 2 ^ 29 = 0 ↔ man = 0 := by omega
  simp only [narrowFields, if_true, hpayload, hzero]
  by_cases hman : man = 0 <;> simp [hman]

/-- Narrowing the fields of a zero. -/
theorem narrowFields_zero : narrowFields 0 0 = some 0 := by
  have hsmall : ¬ 897 ≤ 0 := by omega
  have hinf : 0 ≠ 2047 := by omega
  simp only [narrowFields, if_neg hinf, if_neg hsmall, if_true, roundShift_zero]
  rfl

/-- Narrowing undoes widening, sign apart. -/
theorem narrowMagnitude_widenMagnitude {x : Nat} (hx : x < 2 ^ 31) :
    narrowMagnitude (widenMagnitude x) = some x := by
  have hsplit : x / 2 ^ 23 * 2 ^ 23 + x % 2 ^ 23 = x := by omega
  have hexp : x / 2 ^ 23 < 256 := by omega
  have hman : x % 2 ^ 23 < 2 ^ 23 := Nat.mod_lt _ (by decide)
  unfold widenMagnitude
  simp only
  split
  next hinf =>
    rw [narrowMagnitude_join (by omega), narrowFields_infinite, ← hinf, hsplit]
  next hinf =>
    split
    next hsub =>
      split
      next hzero =>
        have hx0 : x = 0 := by omega
        subst hx0
        exact narrowFields_zero
      next hzero =>
        obtain ⟨_, hlow, hhigh⟩ := log2_bounds hzero hman
        rw [narrowMagnitude_join (by omega), narrowFields_subnormal hzero hman]
        congr 1
        omega
    next hnormal =>
      rw [narrowMagnitude_join (by omega), narrowFields_normal (by omega) (by omega) hman, hsplit]

/-- Narrowing undoes widening. -/
theorem narrow_widen (x : UInt32) : narrow (widen x) = some x := by
  have hx : x.toNat < 2 ^ 32 := x.toNat_lt
  have hmag : x.toNat % 2 ^ 31 < 2 ^ 31 := Nat.mod_lt _ (by decide)
  have hwide := widenMagnitude_lt hmag
  have hback := narrowMagnitude_widenMagnitude hmag
  have hnat : (widen x).toNat =
      x.toNat / 2 ^ 31 * 2 ^ 63 + widenMagnitude (x.toNat % 2 ^ 31) := by
    unfold widen
    rw [UInt64.toNat_ofNat']
    omega
  have hlow : (widen x).toNat % 2 ^ 63 = widenMagnitude (x.toNat % 2 ^ 31) := by omega
  have hhigh : (widen x).toNat / 2 ^ 63 = x.toNat / 2 ^ 31 := by omega
  unfold narrow
  rw [hlow, hhigh, hback, Option.map_some, Nat.div_add_mod', UInt32.ofNat_toNat]

/-- Different singles are different doubles. -/
theorem widen_injective {x y : UInt32} (h : widen x = widen y) : x = y := by
  have hback := narrow_widen x
  rw [h, narrow_widen y] at hback
  exact (Option.some.inj hback).symm

end Ieee754

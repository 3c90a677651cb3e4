import Mathlib

/-!
# Tensor sizes of the C++ core

{lit}`Tensor` of {lit}`core-cpp/include/aicl/aicl_value.hpp`, with the {lit}`size_t`
arithmetic of {lit}`numel` and {lit}`byte_size`.  The data of a tensor is somewhere else,
and nothing here looks at it.

Main results:

- Theorem {lit}`Tensor.byteSize_toNat`: what {lit}`byte_size` returns, modulo 2^64.
- Theorem {lit}`Tensor.reportsSize_iff`: when a size that is not zero is the size.
-/

namespace Aicl.CoreCpp

/-- {lit}`DType`; a number that was cast may be none of the named ones. -/
inductive DType where
  | F32 | F16 | BF16 | I8 | I16 | I32 | I64 | U8 | U16 | U32 | F64
  | other (code : UInt16)
deriving DecidableEq, Repr

namespace DType

/-- {lit}`DType::Unknown`. -/
def Unknown : DType := .other 0xFFFF

/-- The type is a named one and not {lit}`Unknown`. -/
def Known : DType → Prop
  | .other _ => False
  | _ => True

/-- {lit}`dtype_size`. -/
def size : DType → UInt64
  | .F32 => 4
  | .F16 => 2
  | .BF16 => 2
  | .I8 => 1
  | .I16 => 2
  | .I32 => 4
  | .I64 => 8
  | .U8 => 1
  | .U16 => 2
  | .U32 => 4
  | .F64 => 8
  | .other _ => 0

/-- The elements of a known type have a size. -/
theorem size_ne_zero_iff (d : DType) : d.size ≠ 0 ↔ d.Known := by
  cases d <;> simp [size, Known]

end DType

/-- {lit}`Tensor`, without the reference to its data. -/
structure Tensor where
  dtype : DType := .Unknown
  shape : List Int64
deriving DecidableEq, Repr

namespace Tensor

/-- The loop of {lit}`numel`. -/
def numelLoop : (n : UInt64) → (shape : List Int64) → UInt64
  | n, [] => n
  | n, s :: shape => if s ≤ 0 then 0 else numelLoop (n * s.toUInt64) shape

/-- {lit}`numel`. -/
def numel (t : Tensor) : UInt64 :=
  if t.shape.isEmpty then 0 else numelLoop 1 t.shape

/-- {lit}`byte_size`. -/
def byteSize (t : Tensor) : UInt64 :=
  let es := t.dtype.size
  if es = 0 then 0 else t.numel * es

/-! ## Exact sizes -/

/-- The product of the dimensions. -/
def elementCount (t : Tensor) : Nat := (t.shape.map fun s => s.toInt.toNat).prod

/-- The bytes of all elements. -/
def exactSize (t : Tensor) : Nat := t.elementCount * t.dtype.size.toNat

/-- A size that is not zero is the size of all elements, each of which lies within that
many bytes. -/
structure ReportsSize (t : Tensor) : Prop where
  exact : t.byteSize ≠ 0 → t.byteSize.toNat = t.exactSize
  holds : t.byteSize ≠ 0 → ∀ i < t.elementCount, (i + 1) * t.dtype.size.toNat ≤ t.byteSize.toNat

variable {t : Tensor}

/-- The product of the dimensions from any start, modulo 2^64. -/
theorem numelLoop_toNat (shape : List Int64) (n : UInt64) (hpos : ∀ s ∈ shape, 0 < s) :
    (numelLoop n shape).toNat = n.toNat * (shape.map fun s => s.toInt.toNat).prod % 2 ^ 64 := by
  induction shape generalizing n with
  | nil => simp [numelLoop, Nat.mod_eq_of_lt n.toNat_lt]
  | cons s shape ih =>
      have hs : 0 < s := hpos s List.mem_cons_self
      have hcast : s.toUInt64.toNat = s.toInt.toNat :=
        Int64.toNat_toUInt64_of_le (Int64.le_of_lt hs)
      rw [numelLoop, if_neg (Int64.not_le.mpr hs),
        ih _ fun s' hs' => hpos s' (List.mem_cons_of_mem s hs'), UInt64.toNat_mul, hcast,
        Nat.mod_mul_mod, List.map_cons, List.prod_cons, Nat.mul_assoc]

/-- A dimension that is not positive leaves no elements. -/
theorem numel_eq_zero_of_mem {s : Int64} (hmem : s ∈ t.shape) (hs : s ≤ 0) : t.numel = 0 := by
  have hloop : ∀ (shape : List Int64) (n : UInt64), s ∈ shape → numelLoop n shape = 0 := by
    intro shape
    induction shape with
    | nil =>
        intro n hmem
        cases hmem
    | cons s' shape ih =>
        intro n hmem
        rw [numelLoop]
        split
        · rfl
        · next hs' =>
            rcases List.mem_cons.mp hmem with rfl | hmem
            · exact absurd hs hs'
            · exact ih _ hmem
  rw [numel, hloop t.shape 1 hmem, ite_self]

/-- {lit}`byte_size` is the exact size modulo 2^64, for all shapes but the empty one. -/
theorem byteSize_toNat (hne : t.shape ≠ []) (hpos : ∀ s ∈ t.shape, 0 < s) :
    t.byteSize.toNat = t.exactSize % 2 ^ 64 := by
  have hnumel : t.numel.toNat = t.elementCount % 2 ^ 64 := by
    rw [numel, if_neg (by simpa using hne), numelLoop_toNat t.shape 1 hpos]
    simp [elementCount]
  unfold byteSize exactSize
  by_cases hes : t.dtype.size = 0
  · simp [hes]
  · rw [if_neg hes, UInt64.toNat_mul, hnumel, Nat.mod_mul_mod]

/-- A tensor without dimensions reports no size. -/
theorem byteSize_of_nil (h : t.shape = []) : t.byteSize = 0 := by
  simp [byteSize, numel, h]

/-! ## When the size is right -/

/-- A remainder is zero or the number itself exactly when the number is a multiple, or
small. -/
theorem mod_ne_zero_imp_iff {x m : Nat} (hm : 0 < m) :
    (x % m ≠ 0 → x % m = x) ↔ x < m ∨ m ∣ x := by
  constructor
  · intro h
    by_cases hzero : x % m = 0
    · exact .inr (Nat.dvd_of_mod_eq_zero hzero)
    · exact .inl (h hzero ▸ Nat.mod_lt x hm)
  · rintro (hlt | hdvd) hne
    · exact Nat.mod_eq_of_lt hlt
    · exact absurd (Nat.mod_eq_zero_of_dvd hdvd) hne

/-- An exact size has room for every element. -/
theorem reportsSize_of_exact (h : t.byteSize ≠ 0 → t.byteSize.toNat = t.exactSize) :
    t.ReportsSize where
  exact := h
  holds hne i hi := by
    rw [h hne]
    exact Nat.mul_le_mul_right _ hi

/-- For positive dimensions, {lit}`byte_size` is zero or right exactly when the exact size
fits into 64 bits or is a multiple of 2^64. -/
theorem reportsSize_iff (t : Tensor) (hpos : ∀ s ∈ t.shape, 0 < s) :
    t.ReportsSize ↔ t.exactSize < 2 ^ 64 ∨ 2 ^ 64 ∣ t.exactSize := by
  by_cases hne : t.shape = []
  · have hsmall : t.exactSize < 2 ^ 64 := by
      rw [exactSize, elementCount, hne]
      simpa using t.dtype.size.toNat_lt
    refine iff_of_true (reportsSize_of_exact ?_) (.inl hsmall)
    exact fun hsize => absurd (byteSize_of_nil hne) hsize
  · have hsize := byteSize_toNat hne hpos
    have hzero : t.byteSize ≠ 0 ↔ t.exactSize % 2 ^ 64 ≠ 0 := by
      rw [← hsize, ne_eq, ne_eq, ← UInt64.toNat_inj]
      rfl
    have hexact : (t.byteSize ≠ 0 → t.byteSize.toNat = t.exactSize) ↔
        t.exactSize < 2 ^ 64 ∨ 2 ^ 64 ∣ t.exactSize := by
      rw [hzero, hsize]
      exact mod_ne_zero_imp_iff (by decide)
    constructor
    · intro h
      exact hexact.mp h.exact
    · intro h
      exact reportsSize_of_exact (hexact.mpr h)

/-- A batch of images. -/
def images : Tensor where
  dtype := .F32
  shape := [1, 3, 224, 224]

/-- Its size is right. -/
theorem reportsSize_images : images.ReportsSize := by
  have hsmall : images.exactSize < 2 ^ 64 := by
    simp [images, exactSize, elementCount, DType.size]
  exact (reportsSize_iff images (by simp [images])).mpr (.inl hsmall)

/-- A tensor with a few elements more than there are addresses. -/
def huge : Tensor where
  dtype := .I8
  shape := [4611686018427387905, 4]

/-- Its size is reported as four bytes. -/
theorem huge_underreported :
    ¬ ∀ t : Tensor, t.dtype.Known → (∀ s ∈ t.shape, 0 < s) → t.ReportsSize := by
  intro h
  have hsize : huge.byteSize = 4 := rfl
  have hexact : huge.exactSize = 2 ^ 64 + 4 := by
    simp [huge, exactSize, elementCount, DType.size]
  have hfour := (h huge trivial (by simp [huge])).exact (by simp [hsize])
  rw [hsize, hexact] at hfour
  exact absurd hfour (by decide)

end Tensor

end Aicl.CoreCpp

import Mathlib

/-!
# Slots under a counter that wraps around

A counter that wraps around at a limit names slots by its value modulo their number, and
slots may be told apart by less than their number.  Consecutive values of the counter name
different slots while no seam lies between them: the limit of the counter, or the last
slot.  Over a seam, it depends on how the limit and the number of slots relate.

Main results:

- Theorem {lit}`WrappingIndex.seam_iff`: when the slots on both sides of a seam differ.
- Theorem {lit}`WrappingIndex.apart_slots_iff`: when consecutive values of a counter name
  different slots.
- Theorem {lit}`WrappingIndex.apart_iff`: when these slots can be told apart.
-/

namespace WrappingIndex

/-! ## Blocks -/

/-- A function tells the numbers below a bound apart. -/
def Apart {α : Type} (d : Nat) (f : Nat → α) : Prop := ∀ i < d, ∀ j < d, f i = f j → i = j

variable {N m a b c d h W : Nat}

/-- The values at the numbers below a bound are pairwise different. -/
theorem nodup_map_range_iff {α : Type} {f : Nat → α} : ((List.range d).map f).Nodup ↔ Apart d f := by
  rw [List.nodup_map_iff_inj_on List.nodup_range]
  simp only [List.mem_range, Apart]

/-- So are the images of the values when what gives them tells the numbers apart. -/
theorem nodup_map_map_range_iff {α β : Type} {f : Nat → α} {g : α → β} :
    (((List.range d).map f).map g).Nodup ↔ Apart d fun k => g (f k) := by
  rw [List.map_map]
  exact nodup_map_range_iff

/-- What is told apart depends on which values are equal. -/
theorem apart_congr_iff {α β : Type} {f : Nat → α} {g : Nat → β}
    (hfg : ∀ i j, f i = f j ↔ g i = g j) : Apart d f ↔ Apart d g := by
  simp only [Apart, hfg]

/-- What is told apart depends on the values below the bound. -/
theorem apart_congr {f g : Nat → Nat} (hfg : ∀ k < d, f k = g k) : Apart d f ↔ Apart d g := by
  constructor
  · intro hf i hi j hj heq
    rw [← hfg i hi, ← hfg j hj] at heq
    exact hf i hi j hj heq
  · intro hg i hi j hj heq
    rw [hfg i hi, hfg j hj] at heq
    exact hg i hi j hj heq

/-- It is enough to tell a number from the larger ones. -/
theorem apart_of_lt {f : Nat → Nat} (hf : ∀ i j, i < j → j < d → f i ≠ f j) : Apart d f := by
  intro i hi j hj heq
  rcases Nat.lt_trichotomy i j with hlt | heq' | hgt
  · exact absurd heq (hf i j hlt hj)
  · exact heq'
  · exact absurd heq.symm (hf j i hgt hi)

/-- No more numbers are told apart than there are remainders. -/
theorem Apart.le (hm : 0 < m) {f : Nat → Nat} (h : Apart d fun k => f k % m) : d ≤ m := by
  by_contra hlt
  have hcard : (Finset.range m).card < (Finset.range d).card := by
    rw [Finset.card_range, Finset.card_range]
    exact Nat.lt_of_not_le hlt
  have hmaps : ∀ k ∈ Finset.range d, f k % m ∈ Finset.range m :=
    fun k _ => Finset.mem_range.mpr (Nat.mod_lt _ hm)
  rcases Finset.exists_ne_map_eq_of_card_lt_of_maps_to hcard hmaps with ⟨i, hi, j, hj, hne, heq⟩
  exact hne (h i (Finset.mem_range.mp hi) j (Finset.mem_range.mp hj) heq)

/-- Numbers less than a modulus apart have different remainders. -/
theorem mod_ne_of_lt {x y : Nat} (hlt : x < y) (hclose : y < x + m) : x % m ≠ y % m := by
  intro heq
  have hdvd : m ∣ y - x := (Nat.modEq_iff_dvd' hlt.le).mp heq
  have hle := Nat.le_of_dvd (Nat.sub_pos_of_lt hlt) hdvd
  omega

/-- Multiples that wrap around at a limit differ when their factors do, up to the factor that
gives the limit. -/
theorem mul_mod_eq_iff (hW : 0 < W) {x y : Nat} (s : Nat) :
    x * s % W = y * s % W ↔ x % (W / W.gcd s) = y % (W / W.gcd s) := by
  constructor
  · intro heq
    exact Nat.ModEq.cancel_right_div_gcd hW heq
  · intro heq
    have hmul := Nat.ModEq.mul_right' s heq
    refine Nat.ModEq.of_dvd ?_ hmul
    rw [Nat.div_mul_right_comm (Nat.gcd_dvd_left W s), Nat.mul_div_assoc _ (Nat.gcd_dvd_right W s)]
    exact Nat.dvd_mul_right W _

/-- A block of consecutive numbers is told apart by as many remainders. -/
theorem block_iff (hm : 0 < m) (p : Nat) : Apart d (fun k => (p + k) % m) ↔ d ≤ m := by
  constructor
  · exact Apart.le hm
  · intro hd
    apply apart_of_lt
    intro i j hij hj
    exact mod_ne_of_lt (by omega) (by omega)

/-! ## Seams -/

/-- The numbers before a seam, and then those from zero on. -/
def seam (N a k : Nat) : Nat := if k < a then N - a + k else k - a

/-- A remainder below the seam. -/
theorem sub_mod {t : Nat} (ht : t ≤ N % m) (hm : 0 < m) : (N - t) % m = N % m - t := by
  have hdiv := Nat.div_add_mod N m
  have hmod := Nat.mod_lt N hm
  have hsplit : N - t = m * (N / m) + (N % m - t) := by omega
  rw [hsplit, Nat.mul_add_mod, Nat.mod_eq_of_lt (by omega)]

/-- A remainder below a seam at a multiple of the modulus. -/
theorem sub_mod_of_dvd {t : Nat} (hdvd : m ∣ N) (ht : t ≤ N) (hpos : 0 < t) (hlt : t ≤ m) :
    (N - t) % m = m - t := by
  rcases hdvd with ⟨q, rfl⟩
  cases q with
  | zero => omega
  | succ q =>
      have hsplit : m * (q + 1) - t = m * q + (m - t) := by
        rw [Nat.mul_succ]
        omega
      rw [hsplit, Nat.mul_add_mod, Nat.mod_eq_of_lt (by omega)]

/-- The slots on both sides of a seam differ when there are enough of them and the seam is at
a multiple of their number, or the slots from the last multiple on are enough. -/
theorem seam_iff (hm : 0 < m) (ha : a ≤ N) (hbefore : 0 < a) (hafter : a < d) :
    Apart d (fun k => seam N a k % m) ↔ d ≤ m ∧ (m ∣ N ∨ d ≤ N % m) := by
  have hlow : ∀ k, k < a → seam N a k = N - (a - k) := by
    intro k hk
    rw [seam, if_pos hk]
    omega
  have hhigh : ∀ k, a ≤ k → seam N a k = k - a := fun k hk => if_neg (Nat.not_lt.mpr hk)
  constructor
  · intro hapart
    have hd := hapart.le hm
    refine ⟨hd, ?_⟩
    by_contra hseam
    rw [not_or, not_le] at hseam
    have hpos : 0 < N % m := Nat.pos_of_ne_zero fun h => hseam.1 (Nat.dvd_of_mod_eq_zero h)
    have hmod := Nat.mod_lt N hm
    -- the slot of a number before the seam is used again by one after it
    have hbeforeMod : seam N a (a - min a (N % m)) % m = N % m - min a (N % m) := by
      rw [hlow _ (by omega), Nat.sub_sub_self (Nat.min_le_left _ _)]
      exact sub_mod (Nat.min_le_right _ _) hm
    have hafterMod : seam N a (a + (N % m - min a (N % m))) % m = N % m - min a (N % m) := by
      rw [hhigh _ (Nat.le_add_right _ _), Nat.add_sub_cancel_left]
      exact Nat.mod_eq_of_lt (by omega)
    have heq := hapart _ (by omega) _ (by omega) (hbeforeMod.trans hafterMod.symm)
    omega
  · rintro ⟨hd, hseam⟩
    apply apart_of_lt
    intro i j hij hj
    by_cases hi' : a ≤ i
    · rw [hhigh i hi', hhigh j (by omega)]
      exact mod_ne_of_lt (by omega) (by omega)
    · by_cases hj' : j < a
      · rw [hlow i (by omega), hlow j hj']
        exact mod_ne_of_lt (by omega) (by omega)
      · rw [hlow i (by omega), hhigh j (by omega), Nat.mod_eq_of_lt (by omega : j - a < m)]
        rcases hseam with hdvd | hle
        · rw [sub_mod_of_dvd hdvd (by omega) (by omega) (by omega)]
          omega
        · rw [sub_mod (by omega) hm]
          omega

/-! ## A counter over slots -/

/-- Values of the counter cross a seam: the limit of the counter, or the last slot. -/
def Crosses (W c h d : Nat) : Prop := W < h + d ∨ c < h % c + d

instance : Decidable (Crosses W c h d) := inferInstanceAs (Decidable (_ ∨ _))

/-- The slots before the seam that the values cross, from the first slot on. -/
def before (W c h d : Nat) : Nat := if h + d ≤ W then c else W % c

/-- Values below the limit name consecutive slots until the last slot. -/
theorem slot_eq_seam (hc : 0 < c) (hd : d ≤ c) {k : Nat} (hk : k < d) (hcross : c < h % c + d) :
    (h + k) % c = seam c (c - h % c) k := by
  have hmod := Nat.mod_lt h hc
  rw [Nat.add_mod, Nat.mod_eq_of_lt (hk.trans_le hd), seam]
  by_cases hlt : k < c - h % c
  · rw [if_pos hlt, Nat.mod_eq_of_lt (by omega)]
    omega
  · rw [if_neg hlt, Nat.mod_eq_sub_mod (by omega), Nat.mod_eq_of_lt (by omega)]
    omega

/-- Values over the limit continue from the first slot. -/
theorem wrapped_eq {k : Nat} (hd : d ≤ c) (hh : h < W) (hle : d ≤ W) (hk : k < d) :
    (h + k) % W % c = if k < W - h then (W - (W - h - k)) % c else k - (W - h) := by
  by_cases hlt : k < W - h
  · have hmod : (h + k) % W = W - (W - h - k) := by
      rw [Nat.mod_eq_of_lt (by omega)]
      omega
    rw [if_pos hlt, hmod]
  · have hmod : (h + k) % W = k - (W - h) := by
      rw [Nat.mod_eq_sub_mod (by omega), Nat.mod_eq_of_lt (by omega)]
      omega
    rw [if_neg hlt, hmod, Nat.mod_eq_of_lt (by omega)]

/-- When values of the counter that do not pass its limit name different slots. -/
theorem apart_below_iff (hc : 0 < c) (hm : 0 < m) (hd : d ≤ c) (hle : h + d ≤ W) :
    Apart d (fun k => (h + k) % W % c % m) ↔
      d ≤ m ∧ (Crosses W c h d → m ∣ before W c h d ∨ d ≤ before W c h d % m) := by
  have hvalue : ∀ k < d, (h + k) % W % c % m = (h + k) % c % m := by
    intro k hk
    rw [Nat.mod_eq_of_lt (by omega : h + k < W)]
  have hcrosses : Crosses W c h d ↔ c < h % c + d := or_iff_right (Nat.not_lt.mpr hle)
  have hmod := Nat.mod_lt h hc
  rw [apart_congr hvalue, hcrosses, before, if_pos hle]
  by_cases hcross : c < h % c + d
  · have hseam : ∀ k < d, (h + k) % c % m = seam c (c - h % c) k % m := by
      intro k hk
      rw [slot_eq_seam hc hd hk hcross]
    rw [apart_congr hseam, seam_iff hm (Nat.sub_le _ _) (by omega) (by omega)]
    exact and_congr_right fun _ => (imp_iff_right hcross).symm
  · have hblock : ∀ k < d, (h + k) % c % m = (h % c + k) % m := by
      intro k hk
      rw [Nat.add_mod, Nat.mod_eq_of_lt (hk.trans_le hd),
        Nat.mod_eq_of_lt (by omega : h % c + k < c)]
    rw [apart_congr hblock, block_iff hm]
    exact (and_iff_left fun hc => absurd hc hcross).symm

/-- Over the limit of a counter, with the slots before it in an incomplete round. -/
theorem apart_incomplete_iff (hc : 0 < c) (hm : 0 < m) (hd : d ≤ c) (hh : h < W) (hdW : d ≤ W)
    (hover : W < h + d) (hbefore : W - h ≤ W % c) :
    Apart d (fun k => (h + k) % W % c % m) ↔ d ≤ m ∧ (m ∣ W % c ∨ d ≤ W % c % m) := by
  have hseam : ∀ k < d, (h + k) % W % c % m = seam (W % c) (W - h) k % m := by
    intro k hk
    rw [wrapped_eq hd hh hdW hk, seam]
    by_cases hlt : k < W - h
    · rw [if_pos hlt, if_pos hlt, sub_mod (by omega) hc]
      congr 1
      omega
    · rw [if_neg hlt, if_neg hlt]
  rw [apart_congr hseam]
  exact seam_iff hm hbefore (by omega) (by omega)

/-- Over the limit of a counter that is also the end of a round. -/
theorem apart_complete_iff (hm : 0 < m) (hd : d ≤ c) (hh : h < W) (hdW : d ≤ W)
    (hover : W < h + d) (hdvd : c ∣ W) (hrel : m ∣ c ∨ c ≤ m) :
    Apart d (fun k => (h + k) % W % c % m) ↔ d ≤ m := by
  have hseam : ∀ k < d, (h + k) % W % c % m = seam c (W - h) k % m := by
    intro k hk
    rw [wrapped_eq hd hh hdW hk, seam]
    by_cases hlt : k < W - h
    · rw [if_pos hlt, if_pos hlt, sub_mod_of_dvd hdvd (by omega) (by omega) (by omega)]
      congr 1
      omega
    · rw [if_neg hlt, if_neg hlt]
  rw [apart_congr hseam, seam_iff hm (by omega) (by omega) (by omega)]
  apply and_iff_left
  rcases hrel with hmc | hcm
  · exact .inl hmc
  · rcases Nat.lt_or_ge c m with hlt | hge
    · exact .inr (hd.trans_eq (Nat.mod_eq_of_lt hlt).symm)
    · exact .inl (Nat.le_antisymm hcm hge ▸ dvd_refl _)

/-- Over the limit of a counter with a complete round before it: the slot after this round is
the first one, and so is the one after the limit. -/
theorem not_apart_of_short (hc : 0 < c) (hd : d ≤ c) (hh : h < W) (hdW : d ≤ W) (hover : W < h + d)
    (hpos : 0 < W % c) (hshort : W % c < W - h) :
    ¬ Apart d (fun k => (h + k) % W % c % m) := by
  intro hapart
  have hfirst : (h + (W - h - W % c)) % W % c % m = (h + (W - h)) % W % c % m := by
    rw [wrapped_eq hd hh hdW (by omega), wrapped_eq hd hh hdW (by omega), if_pos (by omega),
      if_neg (by omega), Nat.sub_self]
    have hrest : W - h - (W - h - W % c) = W % c := by omega
    rw [hrest, sub_mod le_rfl hc, Nat.sub_self]
  have heq := hapart _ (by omega) _ (by omega) hfirst
  omega

/-- When values of the counter that pass its limit name different slots. -/
theorem apart_over_iff (hc : 0 < c) (hm : 0 < m) (hd : d ≤ c) (hh : h < W) (hdW : d ≤ W)
    (hover : W < h + d) (hrel : c ∣ W → m ∣ c ∨ c ≤ m) :
    Apart d (fun k => (h + k) % W % c % m) ↔ d ≤ m ∧ (m ∣ W % c ∨ d ≤ W % c % m) := by
  by_cases hbefore : W - h ≤ W % c
  · exact apart_incomplete_iff hc hm hd hh hdW hover hbefore
  · rcases Nat.eq_zero_or_pos (W % c) with hzero | hpos
    · have hdvd := Nat.dvd_of_mod_eq_zero hzero
      rw [apart_complete_iff hm hd hh hdW hover hdvd (hrel hdvd), hzero]
      exact (and_iff_left (.inl (dvd_zero m))).symm
    · apply iff_of_false (not_apart_of_short hc hd hh hdW hover hpos (Nat.lt_of_not_le hbefore))
      rintro ⟨hdm, hdvd | hle⟩
      · have hle := Nat.le_of_dvd hpos hdvd
        omega
      · have hlt := hle.trans (Nat.mod_le _ _)
        omega

/-- Of two powers of two, one divides the other. -/
theorem dvd_or_le_of_dvd_two_pow {e : Nat} (hc : c ∣ 2 ^ e) (hm : m ∣ 2 ^ e) : m ∣ c ∨ c ≤ m := by
  rcases (Nat.dvd_prime_pow Nat.prime_two).mp hc with ⟨p, _, rfl⟩
  rcases (Nat.dvd_prime_pow Nat.prime_two).mp hm with ⟨q, _, rfl⟩
  rcases Nat.le_total p q with hle | hle
  · exact .inr (Nat.pow_le_pow_right (Nat.succ_pos 1) hle)
  · exact .inl (Nat.pow_dvd_pow 2 hle)

/-- The slots of consecutive values of a counter are told apart when these are enough and the
values cross no seam, or the slots before the seam are a multiple of those that are told
apart, or those from the last multiple on are enough. -/
theorem apart_iff (hc : 0 < c) (hm : 0 < m) (hd : d ≤ c) (hh : h < W) (hdW : d ≤ W)
    (hrel : c ∣ W → m ∣ c ∨ c ≤ m) :
    Apart d (fun k => (h + k) % W % c % m) ↔
      d ≤ m ∧ (Crosses W c h d → m ∣ before W c h d ∨ d ≤ before W c h d % m) := by
  rcases Nat.lt_or_ge W (h + d) with hover | hle
  · rw [apart_over_iff hc hm hd hh hdW hover hrel, before, if_neg (Nat.not_le.mpr hover)]
    have hcross : Crosses W c h d := .inl hover
    exact and_congr_right fun _ => (imp_iff_right hcross).symm
  · exact apart_below_iff hc hm hd hle

/-- Consecutive values of a counter name different slots when they do not pass its limit, or
the limit is a multiple of the number of slots, or the slots from the last multiple on are
enough. -/
theorem apart_slots_iff (hc : 0 < c) (hd : d ≤ c) (hh : h < W) (hdW : d ≤ W) :
    Apart d (fun k => (h + k) % W % c) ↔ h + d ≤ W ∨ c ∣ W ∨ d ≤ W % c := by
  have hslot : ∀ k < d, (h + k) % W % c = (h + k) % W % c % c := fun k _ => (Nat.mod_mod _ c).symm
  rw [apart_congr hslot]
  rcases Nat.lt_or_ge W (h + d) with hover | hle
  · have hmod := Nat.mod_mod W c
    rw [apart_over_iff hc hc hd hh hdW hover fun _ => .inl (dvd_refl c), Nat.dvd_mod_iff (dvd_refl c),
      hmod, or_iff_right (Nat.not_le.mpr hover)]
    exact and_iff_right hd
  · have hbefore : before W c h d = c := if_pos hle
    rw [apart_below_iff hc hc hd hle, hbefore]
    exact iff_of_true ⟨hd, fun _ => .inl (dvd_refl c)⟩ (.inl hle)

end WrappingIndex

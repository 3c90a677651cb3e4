import Aicl.Foundation.Reader

/-!
# Prefix-free phrases

A reader of fronts whose phrases are prefix-free is decided by the phrase that it
reads: whatever follows the phrase is ignored, and no shorter part of it is accepted.
A counted loop of readers that only move forward runs on the buffer from its first
position on.

Main results:

- Theorem {lit}`Outcome.PrefixFree.starts_of_phrases`: what stands behind some of the
  phrases of a sequence.
- Theorem {lit}`Outcome.ReadsFront.localAt`: readers of prefix-free phrases are local.
- Theorem {lit}`Outcome.loop_congr`: loops whose rounds agree from a position on agree.
-/

namespace Outcome

variable {β ε α ι σ : Type}

/-! ## Phrases -/

/-- A buffer starts with at most one phrase, and the phrase has one value. -/
def PrefixFree (G : α → List β → Prop) : Prop :=
  ∀ {a a' : α} {b b' s s' : List β}, G a b → G a' b' → b ++ s = b' ++ s' → a = a' ∧ b = b'

/-- A phrase that starts another phrase is the other phrase. -/
theorem PrefixFree.eq_of_starts {G : α → List β → Prop} (hG : PrefixFree G) {a a' : α}
    {b b' : List β} (h : G a b) (h' : G a' b') (hstart : b <+: b') : b = b' := by
  obtain ⟨s, hs⟩ := hstart
  have hsplit : b ++ s = b' ++ [] := by rw [hs, List.append_nil]
  exact (hG h h' hsplit).2

/-- Behind fewer phrases than a buffer starts with, there is another one. -/
theorem PrefixFree.starts_of_phrases {G : α → List β → Prop} (hG : PrefixFree G) {as as' : List α}
    {b b' s s' : List β} (h : Phrases G as b) (h' : Phrases G as' b')
    (hlen : as'.length < as.length) (heq : b ++ s = b' ++ s') : ∃ a c t, G a c ∧ s' = c ++ t := by
  induction h' generalizing as b with
  | nil =>
      cases h with
      | nil => exact absurd hlen (Nat.not_lt_zero _)
      | @cons a as c bs ha _ => exact ⟨a, c, bs ++ s, ha, heq.symm.trans (List.append_assoc _ _ _)⟩
  | cons ha' _ ih =>
      cases h with
      | nil => exact absurd hlen (Nat.not_lt_zero _)
      | cons ha has =>
          rw [List.append_assoc, List.append_assoc] at heq
          obtain ⟨-, rfl⟩ := hG ha ha' heq
          exact ih has (Nat.lt_of_succ_lt_succ hlen) (List.append_cancel_left heq)

/-! ## Local readers -/

/-- What readers of fronts, one for each {lit}`ι`, return for a buffer depends on the
first {lit}`n` entries alone, and all of these are needed. -/
structure LocalAt (p : List β → ι → Outcome ε (α × Nat)) (data : List β) (a : α) (n : Nat) :
    Prop where
  pos : 1 ≤ n
  le : n ≤ data.length
  extend : ∀ s j, p (data ++ s) j = ok (a, n)
  cut : ∀ m, m < n → ∀ j, ∃ e, p (data.take m) j = err e

variable {p : List β → ι → Outcome ε (α × Nat)} {G : α → List β → Prop} {E : ε → Prop}
  {data : List β} {a : α} {n : Nat} {i : ι}

/-- A reader that meets its specification on every buffer returns no phrase for a part
of a phrase. -/
theorem ReadsFront.err_of_cut (hp : ∀ L j, ReadsFront L (p · j) G E) (hG : PrefixFree G)
    {b rest : List β} (hdata : data = b ++ rest) (hb : G a b) {m : Nat} (hm : m < b.length)
    (j : ι) : ∃ e, p (data.take m) j = err e := by
  have hsound := (hp ((data.take m).length + 1) j).sound (data.take m) (Nat.lt_succ_self _)
  cases hcut : p (data.take m) j with
  | ok r =>
      rw [hcut] at hsound
      obtain ⟨b', post, htake, hb', -⟩ := hsound
      have hsplit : b ++ rest = b' ++ (post ++ data.drop m) := by
        rw [← List.append_assoc, ← htake, List.take_append_drop, hdata]
      have hsame := (hG hb hb' hsplit).2
      have hlen := congrArg List.length htake
      rw [List.length_take, List.length_append, ← hsame] at hlen
      omega
  | err e => exact ⟨e, rfl⟩
  | panic =>
      rw [hcut] at hsound
      exact hsound.elim

/-- Readers of prefix-free phrases are local. -/
theorem ReadsFront.localAt (hp : ∀ L j, ReadsFront L (p · j) G E) (hG : PrefixFree G)
    (hne : ∀ {a b}, G a b → 0 < b.length) (h : p data i = ok (a, n)) : LocalAt p data a n := by
  obtain ⟨b, rest, hdata, hb, hn⟩ :=
    ((hp (data.length + 1) i).eq_ok_iff (Nat.lt_succ_self _)).mp h
  constructor
  · have hpos := hne hb
    omega
  · have hlen := congrArg List.length hdata
    rw [List.length_append] at hlen
    omega
  · intro s j
    rw [hdata, List.append_assoc, ← hn]
    exact (hp _ j).complete hb (rest ++ s) (Nat.lt_succ_self _)
  · intro m hm j
    exact ReadsFront.err_of_cut hp hG hdata hb (by omega) j

/-! ## Loops that move forward -/

/-- A reader never goes back. -/
def Forward (q : List β → Nat → Outcome ε (α × Nat)) : Prop :=
  ∀ data pos r, q data pos = ok r → pos ≤ r.2

/-- Loops whose rounds agree from a position on agree from there. -/
theorem loop_congr {step step' : Nat → σ → List β → Nat → Outcome ε (σ × Nat)} {k : Nat}
    (hstep : ∀ i s pos, k ≤ pos → step i s data pos = step' i s data pos)
    (hforward : ∀ i s, Forward (step i s)) (n : Nat) :
    ∀ i s pos, k ≤ pos → loop step n i s data pos = loop step' n i s data pos := by
  induction n with
  | zero =>
      intro i s pos _
      rfl
  | succ n ih =>
      intro i s pos hpos
      rw [loop, loop, ← hstep i s pos hpos]
      cases hround : step i s data pos with
      | ok r =>
          have hnext := hforward i s data pos r hround
          exact ih (i + 1) r.1 r.2 (by omega)
      | err e => rfl
      | panic => rfl

end Outcome

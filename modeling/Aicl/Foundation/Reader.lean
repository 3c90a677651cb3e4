import Aicl.Foundation.Outcome

/-!
# Readers of a buffer and the phrases they read

A reader takes a buffer and a position and returns a value with the position
after what it read.  Its specification is a relation between values and byte
strings: the reader returns exactly the values of the phrases that stand at the
position, and a reader that meets it never leaves the buffer.  Soundness and
completeness are kept together, so that one rule for each way of putting readers
together carries both.

A reader may be asked to read short remainders only; the bound is what an
induction over nested readers decreases.

Main results:

- Theorem {lit}`Outcome.Reads.bind`: the phrases of a sequence of two readers.
- Theorem {lit}`Outcome.Reads.loop`: the phrases of a counted loop.
- Theorem {lit}`Outcome.ReadsFront.nested`: a reader of fronts, run on the rest of
  a buffer.
-/

namespace Outcome

variable {β ε α γ σ : Type}

/-! ## Specifications -/

/-- On remainders shorter than {lit}`L`, the reader reads the phrases of {lit}`G`:
what it returns is the value of a phrase at the position, every phrase there is
read, an error satisfies {lit}`E`, and the buffer is never left. -/
structure Reads (L : Nat) (p : List β → Nat → Outcome ε (α × Nat)) (G : α → List β → Prop)
    (E : ε → Prop) : Prop where
  sound : ∀ pre rest, rest.length < L →
    (p (pre ++ rest) pre.length).Sat
      (fun r => ∃ b post, rest = b ++ post ∧ G r.1 b ∧ r.2 = pre.length + b.length) E
  complete : ∀ {a : α} {b : List β}, G a b → ∀ pre post, (b ++ post).length < L →
    p (pre ++ (b ++ post)) pre.length = ok (a, pre.length + b.length)

/-- The same for a reader that starts at the front of its buffer. -/
structure ReadsFront (L : Nat) (p : List β → Outcome ε (α × Nat)) (G : α → List β → Prop)
    (E : ε → Prop) : Prop where
  sound : ∀ rest, rest.length < L →
    (p rest).Sat (fun r => ∃ b post, rest = b ++ post ∧ G r.1 b ∧ r.2 = b.length) E
  complete : ∀ {a : α} {b : List β}, G a b → ∀ post, (b ++ post).length < L →
    p (b ++ post) = ok (a, b.length)

variable {L : Nat} {p : List β → Nat → Outcome ε (α × Nat)} {G : α → List β → Prop}
  {E : ε → Prop}

/-- A reader with a specification reads shorter remainders too. -/
theorem Reads.mono {L' : Nat} (h : Reads L p G E) (hL : L' ≤ L) : Reads L' p G E where
  sound pre rest hrest := h.sound pre rest (by omega)
  complete hG pre post hlen := h.complete hG pre post (by omega)

/-- Errors may be described more weakly. -/
theorem Reads.mono_err {E' : ε → Prop} (h : Reads L p G E) (hE : ∀ e, E e → E' e) :
    Reads L p G E' where
  sound pre rest hrest := (h.sound pre rest hrest).mono (fun _ hr => hr) hE
  complete := h.complete

/-- Phrases may be described in another way. -/
theorem Reads.congr {G' : α → List β → Prop} (h : Reads L p G E) (hG : ∀ a b, G a b ↔ G' a b) :
    Reads L p G' E where
  sound pre rest hrest := (h.sound pre rest hrest).mono
    (fun r ⟨b, post, hb, hr, hpos⟩ => ⟨b, post, hb, (hG r.1 b).mp hr, hpos⟩) fun _ he => he
  complete h' := h.complete ((hG _ _).mpr h')

/-- Errors may be described more weakly. -/
theorem ReadsFront.mono_err {p : List β → Outcome ε (α × Nat)} {E' : ε → Prop}
    (h : ReadsFront L p G E) (hE : ∀ e, E e → E' e) : ReadsFront L p G E' where
  sound rest hrest := (h.sound rest hrest).mono (fun _ hr => hr) hE
  complete := h.complete

/-- Phrases may be described in another way. -/
theorem ReadsFront.congr {p : List β → Outcome ε (α × Nat)} {G' : α → List β → Prop}
    (h : ReadsFront L p G E) (hG : ∀ a b, G a b ↔ G' a b) : ReadsFront L p G' E where
  sound rest hrest := (h.sound rest hrest).mono
    (fun r ⟨b, post, hb, hr, hn⟩ => ⟨b, post, hb, (hG r.1 b).mp hr, hn⟩) fun _ he => he
  complete h' := h.complete ((hG _ _).mpr h')

/-- What a reader of fronts returns, when it returns. -/
theorem ReadsFront.eq_ok_iff {p : List β → Outcome ε (α × Nat)} (h : ReadsFront L p G E)
    {data : List β} (hdata : data.length < L) {a : α} {n : Nat} :
    p data = ok (a, n) ↔ ∃ b post, data = b ++ post ∧ G a b ∧ b.length = n := by
  constructor
  · intro hok
    obtain ⟨b, post, hb, hG, hn⟩ := (h.sound data hdata).of_eq_ok hok
    exact ⟨b, post, hb, hG, hn.symm⟩
  · rintro ⟨b, post, rfl, hG, rfl⟩
    exact h.complete hG post hdata

/-- What a reader returns at a position, when it returns. -/
theorem Reads.eq_ok_iff (h : Reads L p G E) {pre rest : List β} (hrest : rest.length < L) {a : α}
    {n : Nat} :
    p (pre ++ rest) pre.length = ok (a, n) ↔
      ∃ b post, rest = b ++ post ∧ G a b ∧ n = pre.length + b.length := by
  constructor
  · intro hok
    exact (h.sound pre rest hrest).of_eq_ok hok
  · rintro ⟨b, post, rfl, hG, rfl⟩
    exact h.complete hG pre post hrest

/-- A reader returns at the end of its buffer exactly when the rest is a
phrase. -/
theorem Reads.eq_ok_end_iff (h : Reads L p G E) {pre rest : List β} (hrest : rest.length < L)
    {a : α} :
    p (pre ++ rest) pre.length = ok (a, pre.length + rest.length) ↔ G a rest := by
  constructor
  · intro hok
    obtain ⟨b, post, rfl, hG, hpos⟩ := (h.eq_ok_iff hrest).mp hok
    have hnil : post = [] := by
      simp only [List.length_append] at hpos
      exact List.eq_nil_of_length_eq_zero (by omega)
    subst hnil
    simpa using hG
  · intro hG
    exact (h.eq_ok_iff hrest).mpr ⟨rest, [], (List.append_nil rest).symm, hG, rfl⟩

/-- A reader followed by the check that it stopped at the end of its buffer
accepts exactly the buffers whose rest is a phrase. -/
theorem Reads.to_end (h : Reads L p G E) (pre : List β) {rest : List β}
    (hrest : rest.length < L) {e : Nat → ε}
    (he : ∀ n, E (e n)) :
    (p (pre ++ rest) pre.length >>= fun r => failIf (r.2 ≠ (pre ++ rest).length) (e r.2)).Sat
      (fun _ => ∃ a, G a rest) fun e' => (¬ ∃ a, G a rest) ∧ E e' := by
  have hread : ∀ {a}, G a rest → p (pre ++ rest) pre.length = ok (a, (pre ++ rest).length) := by
    intro a hG
    rw [List.length_append]
    exact (h.eq_ok_end_iff hrest).mpr hG
  have hsound := h.sound pre rest hrest
  cases hp : p (pre ++ rest) pre.length with
  | ok r =>
      obtain ⟨a, n⟩ := r
      rw [ok_bind]
      by_cases hn : n = (pre ++ rest).length
      · subst hn
        rw [failIf_of_not (by simp)]
        rw [List.length_append] at hp
        exact ⟨a, (h.eq_ok_end_iff hrest).mp hp⟩
      · rw [failIf, if_pos hn]
        refine ⟨?_, he n⟩
        rintro ⟨a', hG⟩
        rw [hread hG] at hp
        cases hp
        exact hn rfl
  | err e' =>
      rw [hp] at hsound
      refine ⟨?_, hsound⟩
      rintro ⟨a', hG⟩
      rw [hread hG] at hp
      cases hp
  | panic =>
      rw [hp] at hsound
      exact hsound.elim

/-! ## Sequences -/

/-- A reader that reads nothing. -/
theorem Reads.pure (a : α) :
    Reads L (fun (_ : List β) pos => (ok (a, pos) : Outcome ε (α × Nat)))
      (fun x b => x = a ∧ b = []) E where
  sound pre rest _ := ⟨[], rest, rfl, ⟨rfl, rfl⟩, rfl⟩
  complete := by
    rintro x b ⟨rfl, rfl⟩ pre post _
    rfl

/-- A reader that accepts nothing. -/
theorem Reads.fail {e : ε} (he : E e) :
    Reads L (fun (_ : List β) (_ : Nat) => (err e : Outcome ε (α × Nat))) (fun _ _ => False) E where
  sound _ _ _ := he
  complete h := h.elim

/-- A sequence of two readers: the second may depend on the value of the first,
and has to read only what the first leaves. -/
theorem Reads.bind_short {q : α → List β → Nat → Outcome ε (γ × Nat)}
    {H : α → γ → List β → Prop} (hp : Reads L p G E)
    (hq : ∀ a b, G a b → Reads (L - b.length) (q a) (H a) E) :
    Reads L (fun data pos => p data pos >>= fun r => q r.1 data r.2)
      (fun c b => ∃ a b₁ b₂, b = b₁ ++ b₂ ∧ G a b₁ ∧ H a c b₂) E where
  sound pre rest hrest := by
    refine (hp.sound pre rest hrest).bind ?_
    rintro ⟨a, pos⟩ ⟨b₁, rest', rfl, hG, hpos⟩
    have hnext : pos = (pre ++ b₁).length := by simpa using hpos
    have hshort : rest'.length < L - b₁.length := by
      simp only [List.length_append] at hrest
      omega
    have hsecond := (hq a b₁ hG).sound (pre ++ b₁) rest' hshort
    rw [List.append_assoc, ← hnext] at hsecond
    refine hsecond.mono ?_ fun _ he => he
    rintro ⟨c, pos'⟩ ⟨b₂, post, rfl, hH, hpos'⟩
    refine ⟨b₁ ++ b₂, post, (List.append_assoc _ _ _).symm, ⟨a, b₁, b₂, rfl, hG, hH⟩, ?_⟩
    simp only at hpos hpos'
    rw [hpos', hpos, List.length_append, Nat.add_assoc]
  complete := by
    rintro c b ⟨a, b₁, b₂, rfl, hG, hH⟩ pre post hlen
    have hshort : (b₂ ++ post).length < L - b₁.length := by
      simp only [List.length_append] at hlen ⊢
      omega
    have hfirst := hp.complete hG pre (b₂ ++ post) (by simpa using hlen)
    have hsecond := (hq a b₁ hG).complete hH (pre ++ b₁) post hshort
    rw [List.append_assoc, List.length_append] at hsecond
    rw [List.append_assoc, hfirst, ok_bind, hsecond, List.length_append, Nat.add_assoc]

/-- A sequence of two readers. -/
theorem Reads.bind {q : α → List β → Nat → Outcome ε (γ × Nat)} {H : α → γ → List β → Prop}
    (hp : Reads L p G E) (hq : ∀ a b, G a b → Reads L (q a) (H a) E) :
    Reads L (fun data pos => p data pos >>= fun r => q r.1 data r.2)
      (fun c b => ∃ a b₁ b₂, b = b₁ ++ b₂ ∧ G a b₁ ∧ H a c b₂) E :=
  hp.bind_short fun a b hG => (hq a b hG).mono (Nat.sub_le _ _)

/-- A reader whose value is changed afterwards. -/
theorem Reads.map (f : α → γ) (hp : Reads L p G E) :
    Reads L (fun data pos => p data pos >>= fun r => ok (f r.1, r.2))
      (fun c b => ∃ a, G a b ∧ c = f a) E := by
  refine (hp.bind fun a _ _ => Reads.pure (f a)).congr fun c b => ?_
  constructor
  · rintro ⟨a, b₁, b₂, rfl, hG, rfl, rfl⟩
    exact ⟨a, by simpa using hG, rfl⟩
  · rintro ⟨a, hG, rfl⟩
    exact ⟨a, b, [], by simp, hG, rfl, rfl⟩

/-- A reader whose value is checked and converted afterwards. -/
theorem Reads.check {f : α → Outcome ε γ} (hp : Reads L p G E)
    (hf : ∀ a, (f a).Sat (fun _ => True) E) :
    Reads L (fun data pos => p data pos >>= fun r => f r.1 >>= fun c => ok (c, r.2))
      (fun c b => ∃ a, G a b ∧ f a = ok c) E where
  sound pre rest hrest := by
    refine (hp.sound pre rest hrest).bind ?_
    rintro ⟨a, pos⟩ ⟨b, post, hb, hG, hpos⟩
    have hok := hf a
    cases hfa : f a with
    | ok c => exact ⟨b, post, hb, ⟨a, hG, hfa⟩, hpos⟩
    | err e =>
        rw [hfa] at hok
        exact hok
    | panic =>
        rw [hfa] at hok
        exact hok.elim
  complete := by
    rintro c b ⟨a, hG, hfa⟩ pre post hlen
    simp only [hp.complete hG pre post hlen, ok_bind, hfa]

/-! ## Nested readers -/

/-- A reader of fronts that is run on the rest of a buffer, and whose count is
added to the position. -/
theorem ReadsFront.nested {p : List β → Outcome ε (α × Nat)} (hp : ReadsFront L p G E) :
    Reads L
      (fun data pos => sliceFrom data pos >>= fun rest => p rest >>= fun r =>
        ok (r.1, pos + r.2)) G E where
  sound pre rest hrest := by
    rw [sliceFrom_append rfl, ok_bind]
    refine (hp.sound rest hrest).bind ?_
    rintro ⟨a, n⟩ ⟨b, post, hb, hG, hn⟩
    exact ⟨b, post, hb, hG, congrArg (pre.length + ·) hn⟩
  complete := by
    intro a b hG pre post hlen
    simp only [sliceFrom_append, ok_bind, hp.complete hG post hlen]

/-- A reader that dispatches on the first byte of its buffer. -/
theorem Reads.front {q : β → List β → Nat → Outcome ε (α × Nat)} {H : β → α → List β → Prop}
    {e : ε} (he : E e) (hq : ∀ tag, Reads L (q tag) (H tag) E) :
    ReadsFront (L + 1)
      (fun data => if data.isEmpty then err e else index data 0 >>= fun tag => q tag data 1)
      (fun a b => ∃ tag body, b = tag :: body ∧ H tag a body) E where
  sound rest hrest := by
    cases rest with
    | nil => exact he
    | cons tag rest =>
        have hread := (hq tag).sound [tag] rest (by simpa using hrest)
        refine hread.mono ?_ fun _ h => h
        rintro ⟨a, n⟩ ⟨body, post, rfl, hH, hn⟩
        refine ⟨tag :: body, post, rfl, ⟨tag, body, rfl, hH⟩, ?_⟩
        simp only [List.length_cons, List.length_nil] at hn ⊢
        omega
  complete := by
    rintro a b ⟨tag, body, rfl, hH⟩ post hlen
    have hread := (hq tag).complete hH [tag] post (by simpa using hlen)
    have hcount : [tag].length + body.length = (tag :: body).length := by
      simp [Nat.add_comm]
    rw [hcount] at hread
    exact hread

/-! ## Counted loops -/

/-- {lit}`for i in 0..n`: a reader run for every number from {lit}`i` on, on the
state that the round before left. -/
def loop (step : Nat → σ → List β → Nat → Outcome ε (σ × Nat)) :
    (n i : Nat) → σ → List β → Nat → Outcome ε (σ × Nat)
  | 0, _, s, _, pos => ok (s, pos)
  | n + 1, i, s, data, pos => step i s data pos >>= fun r => loop step n (i + 1) r.1 data r.2

/-- What every round of a loop preserves, the loop preserves. -/
theorem loop_invariant {I : σ → Prop} {step : Nat → σ → List β → Nat → Outcome ε (σ × Nat)}
    (hstep : ∀ i s data pos r, I s → step i s data pos = ok r → I r.1) {data : List β} :
    ∀ {n i : Nat} {s : σ} {pos : Nat} {r : σ × Nat}, I s → loop step n i s data pos = ok r → I r.1
  | 0, _, _, _, _, hs, h => by
      cases h
      exact hs
  | n + 1, _, _, _, _, hs, h => by
      obtain ⟨r', hr', hrest⟩ := bind_eq_ok_iff.mp h
      exact loop_invariant hstep (hstep _ _ _ _ _ hs hr') hrest

/-- The concatenated phrases of a list of values. -/
inductive Phrases (G : α → List β → Prop) : List α → List β → Prop
  | nil : Phrases G [] []
  | cons {a : α} {as : List α} {b bs : List β} : G a b → Phrases G as bs →
      Phrases G (a :: as) (b ++ bs)

/-- A loop whose rounds read one phrase each and fold its value into the state
reads as many phrases as it has rounds. -/
theorem Reads.loop {step : Nat → σ → List β → Nat → Outcome ε (σ × Nat)} {f : σ → α → σ}
    (hstep : ∀ i s, Reads L (step i s) (fun s' b => ∃ a, G a b ∧ s' = f s a) E) :
    ∀ (n i : Nat) (s : σ), Reads L (loop step n i s)
      (fun s' b => ∃ as, as.length = n ∧ Phrases G as b ∧ s' = as.foldl f s) E
  | 0, i, s => by
      refine (Reads.pure s).congr fun s' b => ?_
      constructor
      · rintro ⟨rfl, rfl⟩
        exact ⟨[], rfl, .nil, rfl⟩
      · rintro ⟨as, hlen, hph, rfl⟩
        obtain rfl := List.eq_nil_of_length_eq_zero hlen
        cases hph
        exact ⟨rfl, rfl⟩
  | n + 1, i, s => by
      refine ((hstep i s).bind fun s' _ _ => Reads.loop hstep n (i + 1) s').congr fun s' b => ?_
      constructor
      · rintro ⟨_, b₁, b₂, rfl, ⟨a, hG, rfl⟩, as, hlen, hph, rfl⟩
        exact ⟨a :: as, by simp [hlen], .cons hG hph, rfl⟩
      · rintro ⟨as, hlen, hph, rfl⟩
        cases hph with
        | nil => simp at hlen
        | @cons a as b bs hG hph =>
            exact ⟨f s a, b, bs, rfl, ⟨a, hG, rfl⟩, as, by simpa using hlen, hph, rfl⟩

end Outcome

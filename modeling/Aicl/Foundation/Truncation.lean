import Aicl.Foundation.Outcome

/-!
# Readers and phrases that are cut off

A reader that slices its buffer does not notice by itself that the buffer ends early:
the slice is shorter and the position after it lies past the end.  A cut is noticed
when something that is read later has to start inside the buffer.  This file states
what a reader does with a whole phrase and with a phrase that is cut off, and the rules
by which straight-line code is followed phrase by phrase.

Main results:

- Theorem {lit}`Outcome.ReadsBack.step`: reading a whole phrase before anything else.
- Theorem {lit}`Outcome.DetectsCut.step`: phrases that are cut off, when the reader of
  the first one reports its cuts.
- Theorem {lit}`Outcome.OverrunsCut.step`: the same when that reader passes over a cut
  and the next one reports it.
-/

namespace Outcome

variable {β ε α γ : Type}

/-! ## What remains of a buffer -/

/-- From a position inside the buffer, this much remains. -/
structure Remains (data : List β) (pos : Nat) (rest : List β) : Prop where
  le : pos ≤ data.length
  drop : data.drop pos = rest

section Remaining

variable {data b rest : List β} {pos : Nat}

/-- At the start, the whole buffer remains. -/
theorem Remains.start (data : List β) : Remains data 0 data := ⟨Nat.zero_le _, rfl⟩

/-- The length of a buffer. -/
theorem Remains.length (h : Remains data pos rest) : data.length = pos + rest.length := by
  have hle := h.le
  rw [← h.drop, List.length_drop]
  omega

/-- What remains after a part of what remains. -/
theorem Remains.advance (h : Remains data pos (b ++ rest)) : Remains data (pos + b.length) rest := by
  have hlen := h.length
  rw [List.length_append] at hlen
  refine ⟨by omega, ?_⟩
  rw [← List.drop_drop, h.drop, List.drop_left]

end Remaining

/-! ## Whole phrases -/

/-- The reader returns a value for a phrase, wherever the phrase stands, and stops
after it. -/
def ReadsBack (p : List β → Nat → Outcome ε (α × Nat)) (a : α) (b : List β) : Prop :=
  ∀ data pos rest, Remains data pos (b ++ rest) → p data pos = ok (a, pos + b.length)

/-- On a whole phrase, the reader reports an error or stops after the phrase with a
value that meets a condition. -/
def ReadsThrough (p : List β → Nat → Outcome ε (α × Nat)) (P : α → Prop) (b : List β) : Prop :=
  ∀ data pos rest, Remains data pos (b ++ rest) →
    (p data pos).Sat (fun r => P r.1 ∧ r.2 = pos + b.length) fun _ => True

section Whole

variable {p : List β → Nat → Outcome ε (α × Nat)} {a : α} {b rest data : List β} {pos : Nat}

/-- Reading a whole phrase before anything else. -/
theorem ReadsBack.step {f : α × Nat → Outcome ε γ} (hp : ReadsBack p a b)
    (h : Remains data pos (b ++ rest)) : (p data pos >>= f) = f (a, pos + b.length) := by
  rw [hp data pos rest h, ok_bind]

/-- A reader that returns the value of a phrase reads it through. -/
theorem ReadsBack.readsThrough (hp : ReadsBack p a b) : ReadsThrough p (· = a) b := by
  intro data pos rest h
  rw [hp data pos rest h]
  exact ⟨rfl, rfl⟩

end Whole

/-! ## Phrases that are cut off -/

/-- The call reports an error. -/
def Raises (x : Outcome ε α) : Prop := x.Sat (fun _ => False) fun _ => True

/-- A phrase is cut off after a part of it. -/
def CutOff (c b : List β) : Prop := ∃ rest, rest ≠ [] ∧ b = c ++ rest

/-- A cut phrase at the end of the buffer is reported. -/
def DetectsCut (p : List β → Nat → Outcome ε (α × Nat)) (b : List β) : Prop :=
  ∀ data pos c, Remains data pos c → CutOff c b → Raises (p data pos)

/-- A cut phrase at the end of the buffer is reported, or read up to a position past
the end. -/
def OverrunsCut (p : List β → Nat → Outcome ε (α × Nat)) (b : List β) : Prop :=
  ∀ data pos c, Remains data pos c → CutOff c b →
    (p data pos).Sat (fun r => data.length < r.2) fun _ => True

/-- Past the end of the buffer, the reader reports an error. -/
def StartsInside (p : List β → Nat → Outcome ε (α × Nat)) : Prop :=
  ∀ data pos, data.length < pos → Raises (p data pos)

section Cut

variable {p : List β → Nat → Outcome ε (α × Nat)} {P : α → Prop} {b b' c data : List β} {pos : Nat}

/-- A call that reports an error returns nothing. -/
theorem Raises.exists_err {x : Outcome ε α} (h : Raises x) : ∃ e, x = err e := by
  cases x with
  | ok a => exact h.elim
  | err e => exact ⟨e, rfl⟩
  | panic => exact h.elim

/-- An error of the first part is one of the sequence. -/
theorem Raises.bind {x : Outcome ε α} {f : α → Outcome ε γ} (h : Raises x) : Raises (x >>= f) :=
  Sat.bind h fun _ hfalse => hfalse.elim

/-- A reader that starts inside the buffer, before anything else. -/
theorem StartsInside.step {f : α × Nat → Outcome ε γ} (hp : StartsInside p)
    (h : data.length < pos) : Raises (p data pos >>= f) :=
  (hp data pos h).bind

/-- A cut phrase is shorter. -/
theorem CutOff.length_lt (h : CutOff c b) : c.length < b.length := by
  have ⟨rest, hne, hb⟩ := h
  have hpos := List.length_pos_iff.mpr hne
  rw [hb, List.length_append]
  omega

/-- An empty phrase is not cut off. -/
theorem not_cutOff_nil (c : List β) : ¬ CutOff c [] := fun h => Nat.not_lt_zero _ h.length_lt

/-- A proper prefix of a phrase is the phrase cut off. -/
theorem cutOff_of_prefix (h : c <+: b) (hne : c ≠ b) : CutOff c b := by
  have ⟨rest, hrest⟩ := h
  refine ⟨rest, ?_, hrest.symm⟩
  intro hnil
  rw [hnil, List.append_nil] at hrest
  exact hne hrest

/-- Two phrases in a row are cut off in the first one, or in the second. -/
theorem CutOff.append (h : CutOff c (b ++ b')) :
    CutOff c b ∨ ∃ c', c = b ++ c' ∧ CutOff c' b' := by
  have ⟨rest, hne, heq⟩ := h
  rcases List.append_eq_append_iff.mp heq with ⟨mid, hc, hb'⟩ | ⟨mid, hb, hrest⟩
  · exact .inr ⟨mid, hc, rest, hne, hb'⟩
  · cases mid with
    | nil =>
        rw [List.append_nil] at hb
        exact .inr ⟨[], by rw [hb, List.append_nil], rest, hne, hrest.symm⟩
    | cons x xs => exact .inl ⟨x :: xs, by simp, hb⟩

/-- Nothing is cut off from an empty phrase. -/
theorem DetectsCut.nil : DetectsCut p [] := fun _ _ c _ hc => absurd hc (not_cutOff_nil c)

/-- Two phrases that are cut off, when what comes after the first reader reports the cuts
of the second phrase, and a cut of the first one is reported sooner or later. -/
theorem ReadsThrough.step {f : α × Nat → Outcome ε γ} (hp : ReadsThrough p P b)
    (hat : Remains data pos c) (hc : CutOff c (b ++ b'))
    (hfirst : CutOff c b → Raises (p data pos >>= f))
    (hrest : ∀ a c', P a → Remains data (pos + b.length) c' → CutOff c' b' →
      Raises (f (a, pos + b.length))) :
    Raises (p data pos >>= f) := by
  rcases hc.append with hcut | ⟨c', hc', hcut⟩
  · exact hfirst hcut
  · rw [hc'] at hat
    refine Sat.bind (hp data pos c' hat) ?_
    intro ⟨a, pos'⟩ ⟨ha, hpos⟩
    dsimp only at ha hpos
    rw [hpos]
    exact hrest a c' ha hat.advance hcut

/-- Two phrases that are cut off, when the first reader reports its cuts. -/
theorem DetectsCut.step {f : α × Nat → Outcome ε γ} (hcut : DetectsCut p b)
    (hp : ReadsThrough p P b) (hat : Remains data pos c) (hc : CutOff c (b ++ b'))
    (hrest : ∀ a c', P a → Remains data (pos + b.length) c' → CutOff c' b' →
      Raises (f (a, pos + b.length))) :
    Raises (p data pos >>= f) :=
  hp.step hat hc (fun hcutoff => (hcut data pos c hat hcutoff).bind) hrest

/-- Two phrases that are cut off, when the first reader passes over its cuts and the
next one starts inside the buffer. -/
theorem OverrunsCut.step {f : α × Nat → Outcome ε γ} (hcut : OverrunsCut p b)
    (hp : ReadsThrough p P b) (hat : Remains data pos c) (hc : CutOff c (b ++ b'))
    (hnext : ∀ a pos', data.length < pos' → Raises (f (a, pos')))
    (hrest : ∀ a c', P a → Remains data (pos + b.length) c' → CutOff c' b' →
      Raises (f (a, pos + b.length))) :
    Raises (p data pos >>= f) :=
  hp.step hat hc (fun hcutoff => Sat.bind (hcut data pos c hat hcutoff) fun r => hnext r.1 r.2) hrest

end Cut

end Outcome

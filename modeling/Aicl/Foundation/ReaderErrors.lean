import Aicl.Foundation.Reader

/-!
# The errors of readers

The specification of a reader says which phrases it reads, and of its errors only
that they are of a kind.  This file adds, for one error, the remainders on which
the reader reports it, and the rules by which readers that are put together report
it: a sequence reports it in its first part, or in its second part after a phrase
of the first.

Main results:

- Theorem {lit}`Outcome.Reports.bind_short`: the errors of a sequence of two readers.
- Theorem {lit}`Outcome.Reports.loop`: the errors of a counted loop.
- Theorem {lit}`Outcome.exists_fails_append_iff`: the errors of a loop to the end.
-/

namespace Outcome

variable {β ε α γ σ : Type} {L : Nat} {p : List β → Nat → Outcome ε (α × Nat)}
  {G : α → List β → Prop} {E : ε → Prop} {e : ε} {F : List β → Prop}

/-- The reported error, if there is one. -/
def error? : Outcome ε α → Option ε
  | err e => some e
  | _ => none

/-- An error was reported. -/
@[simp] theorem error?_eq_some_iff {x : Outcome ε α} : x.error? = some e ↔ x = err e := by
  cases x <;> simp [error?]

/-- Changing the value of a computation changes no error. -/
theorem bind_ok_eq_err_iff {x : Outcome ε α} {f : α → γ} :
    (x >>= fun a => ok (f a)) = err e ↔ x = err e := by
  cases x <;> simp

/-- A sequence reports nothing that its parts do not report. -/
theorem bind_ne_err {x : Outcome ε α} {f : α → Outcome ε γ} (hx : x ≠ err e)
    (hf : ∀ a, f a ≠ err e) : (x >>= f) ≠ err e := by
  cases x with
  | ok a => exact hf a
  | err e' => simpa using hx
  | panic => simp

/-- On remainders shorter than {lit}`L`, the reader reports the error exactly when
{lit}`F` holds of the remainder. -/
def Reports (L : Nat) (p : List β → Nat → Outcome ε (α × Nat)) (e : ε) (F : List β → Prop) :
    Prop :=
  ∀ pre rest, rest.length < L → (p (pre ++ rest) pre.length = err e ↔ F rest)

/-- The remainders may be described in another way. -/
theorem Reports.congr {F' : List β → Prop} (h : Reports L p e F) (hF : ∀ rest, F rest ↔ F' rest) :
    Reports L p e F' :=
  fun pre rest hrest => (h pre rest hrest).trans (hF rest)

/-- What holds for remainders holds for shorter ones. -/
theorem Reports.mono {L' : Nat} (h : Reports L p e F) (hL : L' ≤ L) : Reports L' p e F :=
  fun pre rest hrest => h pre rest (hrest.trans_le hL)

/-- A reader that never reports the error. -/
theorem Reports.never (h : ∀ data pos, p data pos ≠ err e) : Reports L p e fun _ => False :=
  fun pre rest _ => iff_false_intro (h (pre ++ rest) pre.length)

/-- A reader that reads nothing reports nothing. -/
theorem Reports.pure (a : α) :
    Reports L (fun (_ : List β) pos => (ok (a, pos) : Outcome ε (α × Nat))) e fun _ => False :=
  Reports.never fun _ _ h => by cases h

/-! ## Sequences -/

/-- A sequence of two readers reports what its first part reports, and what its
second part reports after a phrase of the first. -/
theorem Reports.bind_short {q : α → List β → Nat → Outcome ε (γ × Nat)}
    {H : α → List β → Prop} (hp : Reads L p G E) (hpe : Reports L p e F)
    (hq : ∀ a b, G a b → Reports (L - b.length) (q a) e (H a)) :
    Reports L (fun data pos => p data pos >>= fun r => q r.1 data r.2) e
      fun rest => F rest ∨ ∃ a b post, rest = b ++ post ∧ G a b ∧ H a post := by
  intro pre rest hrest
  have hsound := hp.sound pre rest hrest
  have hreport := hpe pre rest hrest
  have hafter : ∀ {a b post}, rest = b ++ post → G a b →
      (q a (pre ++ rest) (pre.length + b.length) = err e ↔ H a post) := by
    intro a b post hsplit hG
    have hshort : post.length < L - b.length := by
      rw [hsplit, List.length_append] at hrest
      omega
    have hsecond := hq a b hG (pre ++ b) post hshort
    rwa [List.append_assoc, List.length_append, ← hsplit] at hsecond
  have hread : ∀ {a b post}, rest = b ++ post → G a b →
      p (pre ++ rest) pre.length = ok (a, pre.length + b.length) := by
    intro a b post hsplit hG
    rw [hsplit] at hrest ⊢
    exact hp.complete hG pre post hrest
  show (p (pre ++ rest) pre.length >>= fun r => q r.1 (pre ++ rest) r.2) = err e ↔ _
  constructor
  · intro herr
    cases hfirst : p (pre ++ rest) pre.length with
    | ok r =>
        rw [hfirst] at hsound
        have ⟨b, post, hsplit, hG, hpos⟩ := hsound
        rw [hfirst, ok_bind, hpos, hafter hsplit hG] at herr
        exact .inr ⟨r.1, b, post, hsplit, hG, herr⟩
    | err e' =>
        rw [hfirst, err_bind] at herr
        cases herr
        exact .inl (hreport.mp hfirst)
    | panic =>
        rw [hfirst] at hsound
        exact hsound.elim
  · intro h
    rcases h with h | ⟨a, b, post, hsplit, hG, hH⟩
    · rw [hreport.mpr h, err_bind]
    · rw [hread hsplit hG, ok_bind]
      exact (hafter hsplit hG).mpr hH

/-- A sequence of two readers. -/
theorem Reports.bind {q : α → List β → Nat → Outcome ε (γ × Nat)} {H : α → List β → Prop}
    (hp : Reads L p G E) (hpe : Reports L p e F)
    (hq : ∀ a b, G a b → Reports L (q a) e (H a)) :
    Reports L (fun data pos => p data pos >>= fun r => q r.1 data r.2) e
      fun rest => F rest ∨ ∃ a b post, rest = b ++ post ∧ G a b ∧ H a post :=
  Reports.bind_short hp hpe fun a b hG => (hq a b hG).mono (Nat.sub_le _ _)

/-- A reader whose value is changed afterwards. -/
theorem Reports.map (f : α → γ) (h : Reports L p e F) :
    Reports L (fun data pos => p data pos >>= fun r => ok (f r.1, r.2)) e F := by
  intro pre rest hrest
  exact bind_ok_eq_err_iff.trans (h pre rest hrest)

/-- A reader whose value is checked and converted afterwards reports what the
check reports of a phrase. -/
theorem Reports.check {f : α → Outcome ε γ} (hp : Reads L p G E) (hpe : Reports L p e F) :
    Reports L (fun data pos => p data pos >>= fun r => f r.1 >>= fun c => ok (c, r.2)) e
      fun rest => F rest ∨ ∃ a b post, rest = b ++ post ∧ G a b ∧ f a = err e := by
  apply Reports.bind hp hpe (q := fun a _ pos => f a >>= fun c => ok (c, pos))
  intro a b _ pre rest _
  exact bind_ok_eq_err_iff

/-! ## Counted loops -/

/-- Reading that many phrases fails in one of them: in the first, or after a first
one that is read. -/
inductive Fails (G : α → List β → Prop) (F : List β → Prop) : Nat → List β → Prop
  | first {n : Nat} {rest : List β} : F rest → Fails G F (n + 1) rest
  | later {n : Nat} {a : α} {b rest : List β} : G a b → Fails G F n rest →
      Fails G F (n + 1) (b ++ rest)

/-- A loop of at least one round fails in its first round or later. -/
theorem fails_succ_iff {n : Nat} {rest : List β} :
    Fails G F (n + 1) rest ↔ F rest ∨ ∃ a b post, rest = b ++ post ∧ G a b ∧ Fails G F n post := by
  constructor
  · intro h
    cases h with
    | first h => exact .inl h
    | later hG h => exact .inr ⟨_, _, _, rfl, hG, h⟩
  · intro h
    rcases h with h | ⟨a, b, post, rfl, hG, h⟩
    · exact .first h
    · exact .later hG h

/-- A loop reports the error exactly when one of its rounds does, after rounds
that read a phrase each. -/
theorem Reports.loop {step : Nat → σ → List β → Nat → Outcome ε (σ × Nat)} {f : σ → α → σ}
    (hstep : ∀ i s, Reads L (step i s) (fun s' b => ∃ a, G a b ∧ s' = f s a) E)
    (hreport : ∀ i s, Reports L (step i s) e F) :
    ∀ (n i : Nat) (s : σ), Reports L (loop step n i s) e (Fails G F n)
  | 0, i, s => by
      intro pre rest _
      constructor
      · intro h
        cases h
      · intro h
        cases h
  | n + 1, i, s => by
      refine (Reports.bind (hstep i s) (hreport i s) fun s' _ _ =>
        Reports.loop hstep hreport n (i + 1) s').congr fun rest => ?_
      rw [fails_succ_iff]
      constructor
      · intro h
        rcases h with h | ⟨_, b, post, hsplit, ⟨a, hG, _⟩, h⟩
        · exact .inl h
        · exact .inr ⟨a, b, post, hsplit, hG, h⟩
      · intro h
        rcases h with h | ⟨a, b, post, hsplit, hG, h⟩
        · exact .inl h
        · exact .inr ⟨f s a, b, post, hsplit, ⟨a, hG, rfl⟩, h⟩

/-! ## Loops to the end -/

section ToTheEnd

variable {q : List β → Nat → Outcome ε (γ × Nat)} {f : α → γ} {rest : List β}
  (hq : Reads L q (fun c b => ∃ a, G a b ∧ c = f a) E) (hqe : Reports L q e F)

include hq hqe

/-- Behind a phrase that is read, the rest decides whether reading phrases fails. -/
theorem exists_fails_append_iff {a : α} {b post : List β} (ha : G a b)
    (hlen : (b ++ post).length < L) :
    (∃ n, Fails G F n (b ++ post)) ↔ ∃ n, Fails G F n post := by
  have hread : ∀ {a' b' post'}, b ++ post = b' ++ post' → G a' b' →
      q (b ++ post) 0 = ok (f a', b'.length) := by
    intro a' b' post' hsplit ha'
    rw [hsplit] at hlen ⊢
    have hfront := hq.complete ⟨a', ha', rfl⟩ [] post' hlen
    rwa [List.nil_append, List.length_nil, Nat.zero_add] at hfront
  constructor
  · intro ⟨n, h⟩
    cases n with
    | zero => cases h
    | succ n =>
        rcases fails_succ_iff.mp h with h | ⟨a', b', post', hsplit, ha', h⟩
        · have herr := (hqe [] (b ++ post) hlen).mpr h
          rw [List.nil_append, List.length_nil, hread rfl ha] at herr
          cases herr
        · have hsame := (hread rfl ha).symm.trans (hread hsplit ha')
          have hlength : b.length = b'.length := (Prod.mk.inj (ok.inj hsame)).2
          rw [(List.append_inj hsplit hlength).2]
          exact ⟨n, h⟩
  · intro ⟨n, h⟩
    exact ⟨n + 1, .later ha h⟩

/-- Where another error is reported, reading phrases does not fail. -/
theorem not_fails_of_ne {pre : List β} {e' : ε} (hlen : rest.length < L)
    (herr : q (pre ++ rest) pre.length = err e') (hne : e' ≠ e) (n : Nat) :
    ¬ Fails G F n rest := by
  intro h
  cases h with
  | first h =>
      have hsame := (hqe pre _ hlen).mpr h
      rw [herr] at hsame
      exact hne (err.inj hsame)
  | @later n a b post ha h =>
      have hread := hq.complete ⟨a, ha, rfl⟩ pre post hlen
      rw [herr] at hread
      cases hread

end ToTheEnd

end Outcome

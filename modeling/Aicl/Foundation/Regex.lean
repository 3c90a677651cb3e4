import Mathlib

/-!
# Patterns that are matched by backtracking

A pattern gives all the ways in which it matches at the front of a text, in the order in
which a backtracking engine tries them; the first one is the match.  A pattern returns
what its groups capture.

Main results:

- Theorems {lit}`Pattern.mem_bind`, {lit}`Pattern.mem_star` and the ones beside them: the
  matches of a pattern, regardless of their order.
- Theorem {lit}`Pattern.first_eq_some_iff`: the match of a pattern whose matches all
  capture the same.
- Theorem {lit}`append_cons_inj`: a run of characters ends at the first character of
  another kind.
-/

/-- What a pattern captures and what remains of the text, for every way to match it. -/
def Pattern (χ α : Type) : Type := List χ → List (α × List χ)

namespace Pattern

variable {χ α γ : Type}

instance : Monad (Pattern χ) where
  pure a := fun s => [(a, s)]
  bind p f := fun s => (p s).flatMap fun m => f m.1 m.2

/-- One character of a class. -/
def one (p : χ → Bool) : Pattern χ χ
  | [] => []
  | c :: s => if p c then [(c, s)] else []

/-- A fixed text. -/
def text [DecidableEq χ] : List χ → Pattern χ Unit
  | [], s => [((), s)]
  | _ :: _, [] => []
  | d :: t, c :: s => if c = d then text t s else []

/-- {lit}`[...]*`: as many characters of the class as possible first. -/
def star (p : χ → Bool) : Pattern χ (List χ)
  | [] => [([], [])]
  | c :: s =>
      if p c then (star p s).map (fun m => (c :: m.1, m.2)) ++ [([], c :: s)] else [([], c :: s)]

/-- {lit}`[...]*?`: as few characters of the class as possible first. -/
def starLazy (p : χ → Bool) : Pattern χ (List χ)
  | [] => [([], [])]
  | c :: s =>
      ([], c :: s) :: if p c then (starLazy p s).map (fun m => (c :: m.1, m.2)) else []

/-- {lit}`[...]+`. -/
def plus (p : χ → Bool) : Pattern χ (List χ) := do
  let c ← one p
  let cs ← star p
  pure (c :: cs)

/-- {lit}`$`: the end of the text, or a newline at its end. -/
def endOfText [DecidableEq χ] (newline : χ) : Pattern χ Unit := fun s =>
  if s = [] ∨ s = [newline] then [((), s)] else []

/-- {lit}`re.match`: the groups of the first match. -/
def first (p : Pattern χ α) (s : List χ) : Option α := (p s).head?.map Prod.fst

/-! ## The matches of a pattern -/

variable {p : χ → Bool} {s r : List χ} {a : α}

@[simp] theorem mem_pure {b : α} : (b, r) ∈ (pure a : Pattern χ α) s ↔ b = a ∧ r = s := by
  simp [pure]

@[simp] theorem mem_bind {q : Pattern χ α} {f : α → Pattern χ γ} {c : γ} :
    (c, r) ∈ (q >>= f) s ↔ ∃ b t, (b, t) ∈ q s ∧ (c, r) ∈ f b t := by
  simp [bind, List.mem_flatMap]

@[simp] theorem mem_one {c : χ} : (c, r) ∈ one p s ↔ s = c :: r ∧ p c = true := by
  cases s with
  | nil => simp [one]
  | cons d s =>
      by_cases hd : p d = true
      · simp only [one, hd, if_true, List.mem_singleton, Prod.mk.injEq, List.cons.injEq]
        constructor
        · rintro ⟨rfl, rfl⟩
          exact ⟨⟨rfl, rfl⟩, hd⟩
        · rintro ⟨⟨rfl, rfl⟩, -⟩
          exact ⟨rfl, rfl⟩
      · have hempty : one p (d :: s) = [] := if_neg hd
        rw [hempty]
        refine iff_of_false List.not_mem_nil ?_
        rintro ⟨heq, hc⟩
        obtain ⟨rfl, -⟩ := List.cons.inj heq
        exact hd hc

@[simp] theorem mem_text [DecidableEq χ] {t : List χ} {u : Unit} :
    (u, r) ∈ text t s ↔ s = t ++ r := by
  induction t generalizing s with
  | nil => simp [text, eq_comm]
  | cons d t ih =>
      cases s with
      | nil => simp [text]
      | cons c s =>
          by_cases hc : c = d
          · simp [text, hc, ih]
          · simp [text, hc]

@[simp] theorem mem_star {cs : List χ} :
    (cs, r) ∈ star p s ↔ s = cs ++ r ∧ ∀ c ∈ cs, p c = true := by
  induction s generalizing cs with
  | nil =>
      simp only [star, List.mem_singleton, Prod.mk.injEq, List.nil_eq, List.append_eq_nil_iff]
      constructor
      · rintro ⟨rfl, rfl⟩
        simp
      · exact fun h => h.1
  | cons d s ih =>
      have hempty : ([], r) ∈ star p (d :: s) ↔ d :: s = r := by
        by_cases hd : p d = true <;> simp [star, hd, eq_comm]
      cases cs with
      | nil => simpa using hempty
      | cons c cs =>
          have hcons : (c :: cs, r) ∈ star p (d :: s) ↔ d = c ∧ p d = true ∧ (cs, r) ∈ star p s := by
            by_cases hd : p d = true
            · simp [star, hd, and_comm]
            · simp [star, hd]
          rw [hcons, ih]
          simp only [List.cons_append, List.cons.injEq, List.mem_cons, forall_eq_or_imp]
          constructor
          · rintro ⟨rfl, hd, rfl, hcs⟩
            exact ⟨⟨rfl, rfl⟩, hd, hcs⟩
          · rintro ⟨⟨rfl, rfl⟩, hd, hcs⟩
            exact ⟨rfl, hd, rfl, hcs⟩

/-- The order in which the matches are tried does not change them. -/
theorem mem_starLazy_iff_mem_star {cs : List χ} : (cs, r) ∈ starLazy p s ↔ (cs, r) ∈ star p s := by
  induction s generalizing cs r with
  | nil => rfl
  | cons d s ih =>
      by_cases hd : p d = true
      · have hprepend : ∀ x, x ∈ (starLazy p s).map (fun m => (d :: m.1, m.2)) ↔
            x ∈ (star p s).map (fun m => (d :: m.1, m.2)) := by
          intro x
          simp only [List.mem_map, Prod.exists, ih]
        simp only [starLazy, star, hd, if_true, List.mem_cons, List.mem_append, hprepend,
          List.not_mem_nil, or_false]
        exact or_comm
      · simp [starLazy, star, hd]

@[simp] theorem mem_starLazy {cs : List χ} :
    (cs, r) ∈ starLazy p s ↔ s = cs ++ r ∧ ∀ c ∈ cs, p c = true :=
  mem_starLazy_iff_mem_star.trans mem_star

@[simp] theorem mem_plus {cs : List χ} :
    (cs, r) ∈ plus p s ↔ s = cs ++ r ∧ cs ≠ [] ∧ ∀ c ∈ cs, p c = true := by
  simp only [plus, mem_bind, mem_one, mem_star, mem_pure]
  constructor
  · rintro ⟨c, t, ⟨rfl, hc⟩, cs', t', ⟨rfl, hcs⟩, rfl, rfl⟩
    exact ⟨rfl, List.cons_ne_nil _ _, List.forall_mem_cons.mpr ⟨hc, hcs⟩⟩
  · rintro ⟨rfl, hne, hcs⟩
    cases cs with
    | nil => exact absurd rfl hne
    | cons c cs =>
        obtain ⟨hc, hcs⟩ := List.forall_mem_cons.mp hcs
        exact ⟨c, cs ++ r, ⟨rfl, hc⟩, cs, r, ⟨rfl, hcs⟩, rfl, rfl⟩

@[simp] theorem mem_endOfText [DecidableEq χ] {newline : χ} {u : Unit} :
    (u, r) ∈ endOfText newline s ↔ r = s ∧ (s = [] ∨ s = [newline]) := by
  by_cases h : s = [] ∨ s = [newline] <;> simp [endOfText, h]

/-! ## The match -/

variable {q : Pattern χ α}

/-- There is no match. -/
theorem first_eq_none_iff : q.first s = none ↔ ∀ a r, (a, r) ∉ q s := by
  rw [first, Option.map_eq_none_iff, List.head?_eq_none_iff, List.eq_nil_iff_forall_not_mem]
  exact Prod.forall

/-- The match is one of the matches. -/
theorem mem_of_first_eq_some (h : q.first s = some a) : ∃ r, (a, r) ∈ q s := by
  obtain ⟨⟨b, r⟩, hhead, rfl⟩ := Option.map_eq_some_iff.mp h
  exact ⟨r, List.mem_of_head? hhead⟩

/-- When all matches capture the same, any of them tells what the match captures. -/
theorem first_eq_some_iff (hunique : ∀ a b r t, (a, r) ∈ q s → (b, t) ∈ q s → a = b) :
    q.first s = some a ↔ ∃ r, (a, r) ∈ q s := by
  constructor
  · exact mem_of_first_eq_some
  · rintro ⟨r, ha⟩
    cases hfirst : q.first s with
    | none => exact absurd ha (first_eq_none_iff.mp hfirst a r)
    | some b =>
        obtain ⟨t, hb⟩ := mem_of_first_eq_some hfirst
        rw [hunique a b r t ha hb]

end Pattern

/-- A text of characters other than one does not have this one. -/
theorem forall_bne_iff {χ : Type} [DecidableEq χ] {s : List χ} {d : χ} :
    (∀ c ∈ s, (c != d) = true) ↔ d ∉ s := by
  simp only [bne_iff_ne, ne_eq]
  constructor
  · exact fun h hd => h d hd rfl
  · intro hd c hc hcd
    exact hd (hcd ▸ hc)

/-- A run of characters of one kind that is followed by one of another kind is determined
by the text. -/
theorem append_cons_inj {χ : Type} {p : χ → Bool} {cs cs' r r' : List χ} {d d' : χ}
    (hcs : ∀ c ∈ cs, p c = true) (hcs' : ∀ c ∈ cs', p c = true) (hd : p d = false)
    (hd' : p d' = false) (h : cs ++ d :: r = cs' ++ d' :: r') : cs = cs' ∧ d = d' ∧ r = r' := by
  induction cs generalizing cs' with
  | nil =>
      cases cs' with
      | nil =>
          obtain ⟨hdd, hr⟩ := List.cons.inj h
          exact ⟨rfl, hdd, hr⟩
      | cons c' cs' =>
          have hc' := hcs' c' List.mem_cons_self
          rw [← (List.cons.inj h).1, hd] at hc'
          exact Bool.noConfusion hc'
  | cons c cs ih =>
      obtain ⟨hc, hcs⟩ := List.forall_mem_cons.mp hcs
      cases cs' with
      | nil =>
          rw [(List.cons.inj h).1, hd'] at hc
          exact Bool.noConfusion hc
      | cons c' cs' =>
          obtain ⟨rfl, hrest⟩ := List.cons.inj h
          obtain ⟨rfl, rfl, rfl⟩ := ih hcs (List.forall_mem_cons.mp hcs').2 hrest
          exact ⟨rfl, rfl, rfl⟩

/-- The same at the end of a text, with or without a newline after it. -/
theorem append_end_inj {χ : Type} {p : χ → Bool} {cs cs' r r' : List χ} {newline : χ}
    (hcs : ∀ c ∈ cs, p c = true) (hcs' : ∀ c ∈ cs', p c = true) (hnewline : p newline = false)
    (hr : r = [] ∨ r = [newline]) (hr' : r' = [] ∨ r' = [newline]) (h : cs ++ r = cs' ++ r') :
    cs = cs' ∧ r = r' := by
  have hclean : ∀ {ds : List χ}, (∀ c ∈ ds, p c = true) → newline ∉ ds := by
    intro ds hds hmem
    have htrue := hds newline hmem
    rw [hnewline] at htrue
    exact Bool.noConfusion htrue
  rcases hr with rfl | rfl <;> rcases hr' with rfl | rfl
  · simpa using h
  · rw [List.append_nil] at h
    exact absurd (h ▸ List.mem_append_right cs' List.mem_cons_self) (hclean hcs)
  · rw [List.append_nil] at h
    exact absurd (h.symm ▸ List.mem_append_right cs List.mem_cons_self) (hclean hcs')
  · exact ⟨List.append_cancel_right h, rfl⟩

import Aicl.Foundation.Machine

/-!
# Two parties over a shared memory

A program over a shared store makes accesses one at a time; between two accesses
of one party the other one may make its own.  Two parties that call such programs
in turn give a machine whose schedules are all the sequentially consistent
interleavings of their accesses.  The store of most programs is a flat byte
memory, with loads and stores at offsets.

Main results:

- Theorem {lit}`Memory.load_store` and {lit}`Memory.load_store_of_disjoint`: what
  is loaded after a store.
- Definition {lit}`Duplex.step`: one access of one party.
- Theorem {lit}`Duplex.along_keepsWhileFailing`: programs that change nothing
  while they may still fail leave no trace when they fail, in every interleaving.
-/

/-! ## Flat byte memories -/

namespace Memory

/-- The bytes from an offset on. -/
def load (m : List UInt8) (off n : Nat) : List UInt8 := (m.drop off).take n

/-- Overwrite bytes from an offset on. -/
def store (m : List UInt8) (off : Nat) (bs : List UInt8) : List UInt8 :=
  m.take off ++ (bs ++ m.drop (off + bs.length))

variable {m bs : List UInt8} {off : Nat}

/-- A store inside the memory keeps its size. -/
theorem length_store (h : off + bs.length ≤ m.length) : (store m off bs).length = m.length := by
  simp only [store, List.length_append, List.length_take, List.length_drop]
  omega

/-- The bytes after a store inside the memory. -/
theorem getElem?_store (h : off + bs.length ≤ m.length) (i : Nat) :
    (store m off bs)[i]? = if off ≤ i ∧ i < off + bs.length then bs[i - off]? else m[i]? := by
  have htake : (m.take off).length = off := by
    rw [List.length_take]
    omega
  rw [store, List.getElem?_append, htake]
  by_cases hlow : i < off
  · rw [if_pos hlow, if_neg (by omega), List.getElem?_take_of_lt hlow]
  · rw [if_neg hlow, List.getElem?_append]
    by_cases hhigh : i - off < bs.length
    · rw [if_pos hhigh, if_pos (by omega)]
    · rw [if_neg hhigh, if_neg (by omega), List.getElem?_drop]
      congr 1
      omega

/-- The bytes of a load. -/
theorem getElem?_load (m : List UInt8) (off n i : Nat) :
    (load m off n)[i]? = if i < n then m[off + i]? else none := by
  rw [load, List.getElem?_take]
  split
  · rw [List.getElem?_drop]
  · rfl

/-- A load within a loaded part. -/
theorem load_load {pos n k : Nat} (h : pos + k ≤ n) :
    load (load m off n) pos k = load m (off + pos) k := by
  apply List.ext_getElem?
  intro i
  rw [getElem?_load, getElem?_load, getElem?_load]
  by_cases hi : i < k
  · rw [if_pos hi, if_pos hi, if_pos (by omega), Nat.add_assoc]
  · rw [if_neg hi, if_neg hi]

/-- What was stored is loaded. -/
theorem load_store (h : off + bs.length ≤ m.length) : load (store m off bs) off bs.length = bs := by
  apply List.ext_getElem?
  intro i
  rw [getElem?_load, getElem?_store h]
  by_cases hi : i < bs.length
  · rw [if_pos hi, if_pos (by omega), Nat.add_sub_cancel_left]
  · rw [if_neg hi, List.getElem?_eq_none (by omega)]

/-- A store elsewhere does not show. -/
theorem load_store_of_disjoint {pos n : Nat} (h : off + bs.length ≤ m.length)
    (hdisj : pos + n ≤ off ∨ off + bs.length ≤ pos) :
    load (store m off bs) pos n = load m pos n := by
  apply List.ext_getElem?
  intro i
  rw [getElem?_load, getElem?_load, getElem?_store h]
  by_cases hi : i < n
  · rw [if_pos hi, if_pos hi, if_neg (by omega)]
  · rw [if_neg hi, if_neg hi]

end Memory

/-! ## Programs -/

/-- A program over a shared store: it has its result, or it makes an access, which
updates the store, and goes on with what it found there. -/
inductive Prog (σ α : Type) where
  | ret (a : α)
  | access (update : σ → σ) (next : σ → Prog σ α)

namespace Prog

variable {σ α β ε : Type}

/-- One program after another. -/
def bind : Prog σ α → (α → Prog σ β) → Prog σ β
  | ret a, f => f a
  | access update next, f => access update fun s => bind (next s) f

instance : Monad (Prog σ) where
  pure := ret
  bind := Prog.bind

/-- An access that only looks. -/
def read (f : σ → β) : Prog σ β := access id fun s => ret (f s)

/-- An access that updates the store. -/
def write (update : σ → σ) : Prog σ Unit := access update fun _ => ret ()

/-- The result and the store when nobody else makes an access. -/
def run : Prog σ α → σ → α × σ
  | ret a, s => (a, s)
  | access update next, s => run (next s) (update s)

/-- A look before the rest of a program. -/
theorem run_read_bind (f : σ → β) (next : β → Prog σ α) (s : σ) :
    run (read f >>= next) s = run (next (f s)) s := rfl

/-- An update before the rest of a program. -/
theorem run_write_bind (update : σ → σ) (next : Unit → Prog σ α) (s : σ) :
    run (write update >>= next) s = run (next ()) (update s) := rfl

/-- One access: the store after it and the rest of the program. -/
def step : Prog σ α → σ → Option (σ × Prog σ α)
  | ret _, _ => none
  | access update next, s => some (update s, next s)

/-- The program can still end with one of the errors. -/
def MayFail (err : ε → Prop) : Prog σ (Except ε α) → Prop
  | ret (.error e) => err e
  | ret (.ok _) => False
  | access _ next => ∃ s, MayFail err (next s)

/-- While it may still end with one of the errors, the program does not update the
store. -/
def FailsClean (err : ε → Prop) : Prog σ (Except ε α) → Prop
  | ret _ => True
  | access update next => ((∃ s, MayFail err (next s)) → update = id) ∧ ∀ s, FailsClean err (next s)

/-- None of the accesses updates the store. -/
def OnlyReads : Prog σ α → Prop
  | ret _ => True
  | access update next => update = id ∧ ∀ s, OnlyReads (next s)

variable {err : ε → Prop}

/-- A program that cannot fail may update the store. -/
theorem failsClean_of_not_mayFail {p : Prog σ (Except ε α)} (h : ¬ MayFail err p) :
    FailsClean err p := by
  induction p with
  | ret result => trivial
  | access update next ih =>
      refine ⟨fun hfail => absurd hfail h, fun s => ih s ?_⟩
      exact fun hs => h ⟨s, hs⟩

/-- A sequence fails where its first part or what follows does. -/
theorem mayFail_bind {p : ExceptT ε (Prog σ) α} {f : α → ExceptT ε (Prog σ) β}
    (h : MayFail err (p >>= f : ExceptT ε (Prog σ) β)) : MayFail err p ∨ ∃ a, MayFail err (f a) := by
  induction p with
  | ret result =>
      cases result with
      | ok a => exact .inr ⟨a, h⟩
      | error e => exact .inl h
  | access update next ih =>
      have ⟨s, hs⟩ := h
      apply (ih s hs).imp_left
      exact fun hfirst => ⟨s, hfirst⟩

/-- Checks that only read come before anything. -/
theorem failsClean_bind {p : ExceptT ε (Prog σ) α} {f : α → ExceptT ε (Prog σ) β}
    (hp : OnlyReads p) (hf : ∀ a, FailsClean err (f a)) :
    FailsClean err (p >>= f : ExceptT ε (Prog σ) β) := by
  induction p with
  | ret result =>
      cases result with
      | ok a => exact hf a
      | error e => trivial
  | access update next ih => exact ⟨fun _ => hp.1, fun s => ih s (hp.2 s)⟩

end Prog

/-! ## Two parties -/

/-- A party: what it calls, on what it keeps to itself, and what a call returns. -/
structure Party (σ : Type) where
  Local : Type
  Op : Type
  Res : Type
  Err : Type
  call : Local → Op → Prog σ (Except Err (Local × Res))

namespace Duplex

variable {σ : Type}

/-- One side of a run: what the party keeps to itself, the call that is under way
with the rest of its program, and the calls that returned a value. -/
structure Side (P : Party σ) where
  own : P.Local
  running : Option (P.Op × Prog σ (Except P.Err (P.Local × P.Res)))
  done : List (P.Op × P.Res)

/-- What a party does next: it calls, or its call goes on by one access or
returns. -/
inductive SideStep (Op : Type) where
  | call (op : Op)
  | go
deriving DecidableEq, Repr

namespace Side

variable {P : Party σ}

/-- A party that has called nothing. -/
def idle (own : P.Local) : Side P := ⟨own, none, []⟩

/-- The next step of a party, with the store before and after it. -/
def step (side : Side P) (store : σ) : SideStep P.Op → Option (σ × Side P)
  | .call op =>
      match side.running with
      | none => some (store, { side with running := some (op, P.call side.own op) })
      | some _ => none
  | .go =>
      match side.running with
      | none => none
      | some (op, .access update next) =>
          some (update store, { side with running := some (op, next store) })
      | some (op, .ret (.ok (own, res))) => some (store, ⟨own, none, side.done ++ [(op, res)]⟩)
      | some (_, .ret (.error _)) => some (store, { side with running := none })

/-- The calls that returned a value or are about to. -/
def settled (side : Side P) : List (P.Op × P.Res) :=
  match side.running with
  | some (op, .ret (.ok (_, res))) => side.done ++ [(op, res)]
  | _ => side.done

/-- A call goes on by an access of its program. -/
theorem step_access {side : Side P} {op : P.Op} {p p' : Prog σ (Except P.Err (P.Local × P.Res))}
    {store store' : σ} (hrunning : side.running = some (op, p))
    (hp : p.step store = some (store', p')) :
    side.step store .go = some (store', { side with running := some (op, p') }) := by
  cases p with
  | ret result => cases hp
  | access update next =>
      cases hp
      simp only [Side.step, hrunning]

/-- The call under way can still end with one of the errors. -/
def MayFail (err : P.Err → Prop) (side : Side P) : Prop :=
  ∃ op p, side.running = some (op, p) ∧ p.MayFail err

/-- The call under way changes nothing while it may still end with one of the
errors. -/
def FailsClean (err : P.Err → Prop) (side : Side P) : Prop :=
  ∀ op p, side.running = some (op, p) → p.FailsClean err

variable {err : P.Err → Prop}

/-- Calls that change nothing while they may still fail go on so. -/
theorem FailsClean.step {side side' : Side P} {store store' : σ} {s : SideStep P.Op}
    (hcalls : ∀ own op, (P.call own op).FailsClean err) (h : side.FailsClean err)
    (hstep : side.step store s = some (store', side')) : side'.FailsClean err := by
  intro op p hrunning
  cases s with
  | call op' =>
      simp only [Side.step] at hstep
      split at hstep
      · cases hstep
        cases hrunning
        exact hcalls _ _
      · cases hstep
  | go =>
      simp only [Side.step] at hstep
      split at hstep
      · cases hstep
      · next hbefore =>
          cases hstep
          cases hrunning
          exact (h _ _ hbefore).2 store
      · cases hstep
        cases hrunning
      · cases hstep
        cases hrunning

/-- A step of a call that may still fail changes nothing but the call. -/
theorem FailsClean.keeps {side side' : Side P} {store store' : σ} (h : side.FailsClean err)
    (hfail : side.MayFail err) (hstep : side.step store .go = some (store', side')) :
    store' = store ∧ side'.own = side.own ∧ side'.done = side.done := by
  obtain ⟨op, p, hrunning, hp⟩ := hfail
  simp only [Side.step, hrunning] at hstep
  cases p with
  | access update next =>
      have hid := (h op _ hrunning).1 hp
      cases hstep
      exact ⟨congrFun hid store, rfl, rfl⟩
  | ret result =>
      cases result with
      | ok value => exact hp.elim
      | error e =>
          cases hstep
          exact ⟨rfl, rfl, rfl⟩

/-- The operations of the calls that returned a value and of the call under way. -/
def operations (side : Side P) : List P.Op :=
  side.done.map Prod.fst ++ (side.running.map Prod.fst).toList

/-- The calls that returned a value or are about to are among them. -/
theorem settled_sublist (side : Side P) :
    (side.settled.map Prod.fst).Sublist side.operations := by
  unfold settled operations
  split
  next op own res hrunning =>
    rw [List.map_append, hrunning]
    exact .refl _
  next => exact List.sublist_append_left _ _

/-- A call adds its operation. -/
theorem operations_call {side side' : Side P} {store store' : σ} {op : P.Op}
    (hstep : side.step store (.call op) = some (store', side')) :
    side'.operations = side.operations ++ [op] := by
  simp only [Side.step] at hstep
  split at hstep
  next hidle =>
    cases hstep
    simp [operations, hidle]
  next => cases hstep

/-- A call that goes on adds nothing, and takes its operation away when it fails. -/
theorem operations_go {side side' : Side P} {store store' : σ}
    (hstep : side.step store .go = some (store', side')) :
    side'.operations.Sublist side.operations := by
  simp only [Side.step] at hstep
  split at hstep
  · cases hstep
  · next hrunning =>
      cases hstep
      simp [operations, hrunning]
  · next hrunning =>
      cases hstep
      simp [operations, hrunning]
  · next hrunning =>
      cases hstep
      simp [operations, hrunning]

end Side

/-- The store and both sides. -/
structure State (P Q : Party σ) where
  store : σ
  left : Side P
  right : Side Q

variable {P Q : Party σ}

/-- One step of one party. -/
def step (s : State P Q) : SideStep P.Op ⊕ SideStep Q.Op → Option (State P Q)
  | .inl i => (s.left.step s.store i).map fun next => ⟨next.1, next.2, s.right⟩
  | .inr i => (s.right.step s.store i).map fun next => ⟨next.1, s.left, next.2⟩

section Failing

variable (left : P.Err → Prop) (right : Q.Err → Prop)

/-- While the call of a party can still end with one of the errors, its steps leave
the store and what the parties keep to themselves. -/
def KeepsWhileFailing (s : State P Q) (i : SideStep P.Op ⊕ SideStep Q.Op) : Prop :=
  ∀ t, step s i = some t →
    (i = .inl .go ∧ s.left.MayFail left ∨ i = .inr .go ∧ s.right.MayFail right) →
    t.store = s.store ∧ t.left.own = s.left.own ∧ t.right.own = s.right.own

/-- The calls under way at both ends change nothing while they may still fail. -/
def State.FailClean (s : State P Q) : Prop := s.left.FailsClean left ∧ s.right.FailsClean right

variable {left right}

/-- Steps start no call that changes anything while it may still fail. -/
theorem State.FailClean.step (hleft : ∀ own op, (P.call own op).FailsClean left)
    (hright : ∀ own op, (Q.call own op).FailsClean right) {s t : State P Q}
    {i : SideStep P.Op ⊕ SideStep Q.Op} (hs : s.FailClean left right)
    (hstep : Duplex.step s i = some t) : t.FailClean left right := by
  rcases i with i | i
  · obtain ⟨⟨store, side⟩, hside, rfl⟩ := Option.map_eq_some_iff.mp hstep
    exact ⟨hs.1.step hleft hside, hs.2⟩
  · obtain ⟨⟨store, side⟩, hside, rfl⟩ := Option.map_eq_some_iff.mp hstep
    exact ⟨hs.1, hs.2.step hright hside⟩

/-- A call that changes nothing while it may still fail leaves the store and what
the parties keep to themselves. -/
theorem State.FailClean.keepsWhileFailing {s : State P Q} (hs : s.FailClean left right)
    (i : SideStep P.Op ⊕ SideStep Q.Op) : KeepsWhileFailing left right s i := by
  intro t hstep hfail
  rcases hfail with ⟨rfl, hfail⟩ | ⟨rfl, hfail⟩
  · obtain ⟨⟨store, side⟩, hside, rfl⟩ := Option.map_eq_some_iff.mp hstep
    have hkeeps := hs.1.keeps hfail hside
    exact ⟨hkeeps.1, hkeeps.2.1, rfl⟩
  · obtain ⟨⟨store, side⟩, hside, rfl⟩ := Option.map_eq_some_iff.mp hstep
    have hkeeps := hs.2.keeps hfail hside
    exact ⟨hkeeps.1, rfl, hkeeps.2.1⟩

/-- Programs that change nothing while they may still fail leave no trace when they
fail, whatever the other party does. -/
theorem along_keepsWhileFailing (hleft : ∀ own op, (P.call own op).FailsClean left)
    (hright : ∀ own op, (Q.call own op).FailsClean right) {s : State P Q}
    (hs : s.FailClean left right) (is : List (SideStep P.Op ⊕ SideStep Q.Op)) :
    Machine.Along step (KeepsWhileFailing left right) s is := by
  have hkeep : ∀ (s : State P Q) (i : SideStep P.Op ⊕ SideStep Q.Op) (t : State P Q),
      s.FailClean left right → True → Duplex.step s i = some t → t.FailClean left right :=
    fun s i t hs _ hstep => hs.step hleft hright hstep
  have hkeeps : ∀ (s : State P Q) (i : SideStep P.Op ⊕ SideStep Q.Op),
      s.FailClean left right → True → KeepsWhileFailing left right s i :=
    fun s i hs _ => hs.keepsWhileFailing i
  exact Machine.Along.of_invariant hkeep hkeeps hs (Machine.along_true s is)

end Failing

end Duplex

import Aicl.Foundation.Machine
import Aicl.Isa.Tags

/-!
# The buffer pool of the Rust core

{lit}`BufferPool` of {lit}`core-rust/src/local_path.rs`: buffers that are kept for reuse in
tiers by their capacity.  {lit}`get` takes the first tier that is large enough, in the
order in which the capacities were given; {lit}`put` takes the first tier of exactly the
capacity of the buffer.

Main results:

- Theorem {lit}`BufferPool.get_spec` and {lit}`BufferPool.put_spec`: what a call does to
  the tiers.
- Theorem {lit}`PoolRun.disciplined_iff`: when every buffer that is handed out has the
  smallest capacity that is large enough.
-/

namespace Aicl.CoreRust

/-- A {lit}`Vec<u8>`: which one it is, how many bytes it has room for, and the bytes in
it. -/
structure VecU8 where
  label : Nat
  capacity : Nat
  data : Bytes
  length_le : data.length ≤ capacity
deriving DecidableEq

namespace VecU8

/-- {lit}`Vec::with_capacity`: a new buffer. -/
def withCapacity (label capacity : Nat) : VecU8 := ⟨label, capacity, [], Nat.zero_le _⟩

/-- {lit}`clear`: the capacity stays. -/
def clear (buf : VecU8) : VecU8 := { buf with data := [], length_le := Nat.zero_le _ }

end VecU8

/-- A tier of the pool; the last buffer of {lit}`free_list` comes first. -/
structure BufferTier where
  capacity : Nat
  freeList : List VecU8
deriving DecidableEq

/-- A pool of buffers for reuse. -/
structure BufferPool where
  tiers : List BufferTier
deriving DecidableEq

namespace BufferPool

/-- {lit}`with_tiers`. -/
def withTiers (capacities : List Nat) : BufferPool :=
  ⟨capacities.map fun cap => { capacity := cap, freeList := [] }⟩

/-- The capacities of the standard tiers. -/
def standardCapacities : List Nat := [256, 1024, 4096, 16 * 1024, 64 * 1024, 256 * 1024]

/-- {lit}`BufferPool::new`. -/
def new : BufferPool := withTiers standardCapacities

/-- The loop of {lit}`get` over the tiers; a buffer that is allocated gets the label. -/
def getLoop (label minCapacity : Nat) : List BufferTier → VecU8 × List BufferTier
  | [] => (.withCapacity label minCapacity, [])
  | tier :: tiers =>
      if minCapacity ≤ tier.capacity then
        match tier.freeList with
        | buf :: rest => (buf, { tier with freeList := rest } :: tiers)
        | [] => (.withCapacity label tier.capacity, tier :: tiers)
      else
        let (buf, tiers) := getLoop label minCapacity tiers
        (buf, tier :: tiers)

/-- {lit}`get`. -/
def get (pool : BufferPool) (label minCapacity : Nat) : VecU8 × BufferPool :=
  let (buf, tiers) := getLoop label minCapacity pool.tiers
  (buf, ⟨tiers⟩)

/-- The loop of {lit}`put` over the tiers. -/
def putLoop (cap : Nat) (buf : VecU8) : List BufferTier → List BufferTier
  | [] => []
  | tier :: tiers =>
      if tier.capacity = cap then
        if tier.freeList.length < 64 then
          { tier with freeList := buf :: tier.freeList } :: tiers
        else tier :: tiers
      else tier :: putLoop cap buf tiers

/-- {lit}`put`: the buffer is cleared first. -/
def put (pool : BufferPool) (buf : VecU8) : BufferPool :=
  ⟨putLoop buf.capacity buf.clear pool.tiers⟩

/-- {lit}`pooled_count`. -/
def pooledCount (pool : BufferPool) : Nat :=
  (pool.tiers.map fun t => t.freeList.length).sum

/-! ## What a call does to the tiers -/

/-- The labels of the buffers in the tiers. -/
def labels (tiers : List BufferTier) : List Nat :=
  tiers.flatMap fun tier => tier.freeList.map VecU8.label

/-- A tier holds at most 64 buffers, all of them empty and of its capacity. -/
structure TierRegular (tier : BufferTier) : Prop where
  length_le : tier.freeList.length ≤ 64
  empty : ∀ buf ∈ tier.freeList, buf.data = []
  capacity : ∀ buf ∈ tier.freeList, buf.capacity = tier.capacity

/-- Every tier is regular. -/
def Regular (tiers : List BufferTier) : Prop := ∀ tier ∈ tiers, TierRegular tier

/-- The capacity that {lit}`get` looks for: that of the first tier that is large enough, or
what was asked for. -/
def firstFit (capacities : List Nat) (minCapacity : Nat) : Nat :=
  (capacities.find? fun cap => minCapacity ≤ cap).getD minCapacity

/-- What {lit}`get` hands out from regular tiers and what it leaves: the buffer is empty and
of the capacity that was looked for, and comes from a tier or is new. -/
structure Hands (label minCapacity : Nat) (tiers : List BufferTier) (buf : VecU8)
    (after : List BufferTier) : Prop where
  regular : Regular after
  capacities : after.map BufferTier.capacity = tiers.map BufferTier.capacity
  data : buf.data = []
  capacity : buf.capacity = firstFit (tiers.map BufferTier.capacity) minCapacity
  labels : (labels tiers).Perm (buf.label :: labels after) ∨
    buf.label = label ∧ labels after = labels tiers

variable {label minCapacity : Nat} {tier : BufferTier} {tiers : List BufferTier}

/-- The labels of a tier and of those after it. -/
theorem labels_cons (tier : BufferTier) (tiers : List BufferTier) :
    labels (tier :: tiers) = tier.freeList.map VecU8.label ++ labels tiers :=
  List.flatMap_cons

/-- All tiers are regular when the first one and those after it are. -/
theorem regular_cons : Regular (tier :: tiers) ↔ TierRegular tier ∧ Regular tiers :=
  List.forall_mem_cons

/-- A tier without its last buffer is regular. -/
theorem TierRegular.pop (h : TierRegular tier) {buf : VecU8} {rest : List VecU8}
    (hlist : tier.freeList = buf :: rest) : TierRegular { tier with freeList := rest } := by
  have hlength := h.length_le
  have hmem : ∀ b ∈ rest, b ∈ tier.freeList := by
    intro b hb
    rw [hlist]
    exact List.mem_cons_of_mem _ hb
  rw [hlist, List.length_cons] at hlength
  exact ⟨Nat.le_of_succ_le hlength, fun b hb => h.empty b (hmem b hb),
    fun b hb => h.capacity b (hmem b hb)⟩

/-- A tier with room and one more empty buffer of its capacity is regular. -/
theorem TierRegular.push (h : TierRegular tier) (hroom : tier.freeList.length < 64) {buf : VecU8}
    (hdata : buf.data = []) (hcapacity : buf.capacity = tier.capacity) :
    TierRegular { tier with freeList := buf :: tier.freeList } :=
  ⟨hroom, List.forall_mem_cons.mpr ⟨hdata, h.empty⟩,
    List.forall_mem_cons.mpr ⟨hcapacity, h.capacity⟩⟩

/-- A tier that is large enough gives its last buffer. -/
theorem getLoop_pop (hfits : minCapacity ≤ tier.capacity) {buf : VecU8} {rest : List VecU8}
    (hlist : tier.freeList = buf :: rest) :
    getLoop label minCapacity (tier :: tiers) = (buf, { tier with freeList := rest } :: tiers) := by
  rw [getLoop, if_pos hfits]
  simp only [hlist]

/-- A tier that is large enough and empty gives a new buffer. -/
theorem getLoop_alloc (hfits : minCapacity ≤ tier.capacity) (hlist : tier.freeList = []) :
    getLoop label minCapacity (tier :: tiers) =
      (.withCapacity label tier.capacity, tier :: tiers) := by
  rw [getLoop, if_pos hfits]
  simp only [hlist]

/-- A tier that is too small is passed over. -/
theorem getLoop_next (hfits : ¬ minCapacity ≤ tier.capacity) :
    getLoop label minCapacity (tier :: tiers) =
      ((getLoop label minCapacity tiers).1, tier :: (getLoop label minCapacity tiers).2) :=
  if_neg hfits

/-- What {lit}`get` does. -/
theorem getLoop_hands (label minCapacity : Nat) {tiers : List BufferTier} (h : Regular tiers) :
    Hands label minCapacity tiers (getLoop label minCapacity tiers).1
      (getLoop label minCapacity tiers).2 := by
  induction tiers with
  | nil => exact ⟨h, rfl, rfl, rfl, .inr ⟨rfl, rfl⟩⟩
  | cons tier tiers ih =>
      rcases regular_cons.mp h with ⟨htier, htiers⟩
      by_cases hfits : minCapacity ≤ tier.capacity
      · have hfirst : tier.capacity =
            firstFit ((tier :: tiers).map BufferTier.capacity) minCapacity := by
          simp [firstFit, hfits]
        cases hlist : tier.freeList with
        | nil =>
            rw [getLoop_alloc hfits hlist]
            exact ⟨h, rfl, rfl, hfirst, .inr ⟨rfl, rfl⟩⟩
        | cons buf rest =>
            have hmem : buf ∈ tier.freeList := by
              rw [hlist]
              exact List.mem_cons_self
            rw [getLoop_pop hfits hlist]
            refine ⟨regular_cons.mpr ⟨htier.pop hlist, htiers⟩, rfl, htier.empty buf hmem,
              (htier.capacity buf hmem).trans hfirst, .inl ?_⟩
            rw [labels_cons, labels_cons, hlist]
            rfl
      · have hnext := ih htiers
        rw [getLoop_next hfits]
        refine ⟨regular_cons.mpr ⟨htier, hnext.regular⟩, ?_, hnext.data, ?_, ?_⟩
        · rw [List.map_cons, List.map_cons, hnext.capacities]
        · rw [hnext.capacity]
          simp [firstFit, hfits]
        · rw [labels_cons, labels_cons]
          rcases hnext.labels with hperm | ⟨hnew, hsame⟩
          · left
            exact (hperm.append_left _).trans List.perm_middle
          · right
            exact ⟨hnew, by rw [hsame]⟩

/-- What {lit}`put` does with a buffer: it joins a tier, or it is dropped. -/
structure Takes (buf : VecU8) (tiers after : List BufferTier) : Prop where
  regular : Regular after
  capacities : after.map BufferTier.capacity = tiers.map BufferTier.capacity
  labels : (labels after).Perm (buf.label :: labels tiers) ∨ labels after = labels tiers

/-- What {lit}`put` does. -/
theorem putLoop_takes {tiers : List BufferTier} (h : Regular tiers) {buf : VecU8}
    (hdata : buf.data = []) : Takes buf tiers (putLoop buf.capacity buf tiers) := by
  induction tiers with
  | nil => exact ⟨h, rfl, .inr rfl⟩
  | cons tier tiers ih =>
      rcases regular_cons.mp h with ⟨htier, htiers⟩
      by_cases hcap : tier.capacity = buf.capacity
      · rw [putLoop, if_pos hcap]
        by_cases hroom : tier.freeList.length < 64
        · rw [if_pos hroom]
          refine ⟨regular_cons.mpr ⟨htier.push hroom hdata hcap.symm, htiers⟩, rfl, .inl ?_⟩
          rw [labels_cons, labels_cons]
          rfl
        · rw [if_neg hroom]
          exact ⟨h, rfl, .inr rfl⟩
      · have hnext := ih htiers
        rw [putLoop, if_neg hcap]
        refine ⟨regular_cons.mpr ⟨htier, hnext.regular⟩, ?_, ?_⟩
        · rw [List.map_cons, List.map_cons, hnext.capacities]
        · rw [labels_cons, labels_cons]
          rcases hnext.labels with hperm | hsame
          · left
            exact (hperm.append_left _).trans List.perm_middle
          · right
            rw [hsame]

end BufferPool

/-! ## Runs -/

/-- Labels that are in use: no two are the same, and none is one that is yet to be given. -/
structure InUse (labels : List Nat) (fresh : Nat) : Prop where
  nodup : labels.Nodup
  lt_fresh : ∀ label ∈ labels, label < fresh

namespace InUse

variable {labels labels' : List Nat} {fresh : Nat}

/-- The order of labels does not matter, and labels may go out of use. -/
theorem subperm (h : InUse labels fresh) (hsub : labels'.Subperm labels) : InUse labels' fresh := by
  constructor
  · rcases hsub with ⟨kept, hperm, hkept⟩
    exact hperm.nodup_iff.mp (h.nodup.sublist hkept)
  · exact fun label hlabel => h.lt_fresh label (hsub.subset hlabel)

/-- A new label is given. -/
theorem give (h : InUse labels fresh) : InUse (fresh :: labels) (fresh + 1) := by
  constructor
  · rw [List.nodup_cons]
    exact ⟨fun hmem => (h.lt_fresh fresh hmem).false, h.nodup⟩
  · intro label hlabel
    rcases List.mem_cons.mp hlabel with rfl | hmem
    · exact Nat.lt_succ_self _
    · exact Nat.lt_succ_of_lt (h.lt_fresh label hmem)

/-- Labels stay in use when others are given. -/
theorem succ (h : InUse labels fresh) : InUse labels (fresh + 1) :=
  ⟨h.nodup, fun label hlabel => Nat.lt_succ_of_lt (h.lt_fresh label hlabel)⟩

end InUse

/-- A pool, the buffers that are held outside of it, and the label of the next buffer that is
allocated. -/
structure PoolRun where
  pool : BufferPool
  held : List Nat
  fresh : Nat

/-- What happens to a pool: a buffer is taken out, a holder puts its buffer back, with any
capacity and contents that it has by then, or a buffer comes up elsewhere. -/
inductive PoolAction where
  | get (minCapacity : Nat)
  | put (buf : VecU8)
  | create

namespace PoolRun

open BufferPool (labels Regular firstFit)

/-- A new pool. -/
def start (capacities : List Nat) : PoolRun := ⟨.withTiers capacities, [], 0⟩

/-- One action; only what is held can be put back. -/
def step (s : PoolRun) : PoolAction → Option PoolRun
  | .get minCapacity =>
      let taken := s.pool.get s.fresh minCapacity
      some ⟨taken.2, taken.1.label :: s.held, s.fresh + 1⟩
  | .put buf =>
      if buf.label ∈ s.held then some ⟨s.pool.put buf, s.held.erase buf.label, s.fresh⟩ else none
  | .create => some ⟨s.pool, s.fresh :: s.held, s.fresh + 1⟩

/-- The buffer that {lit}`get` hands out is empty and large enough, it has the smallest
capacity of a tier that is large enough if there is one, and nobody holds it. -/
def Disciplined (capacities : List Nat) (s : PoolRun) : PoolAction → Prop
  | .get minCapacity =>
      let buf := (s.pool.get s.fresh minCapacity).1
      buf.data = [] ∧ minCapacity ≤ buf.capacity ∧
        ((∃ cap ∈ capacities, minCapacity ≤ cap) →
            IsLeast { cap | cap ∈ capacities ∧ minCapacity ≤ cap } buf.capacity) ∧
          buf.label ∉ s.held
  | _ => True

/-- The first of the capacities that is large enough is the smallest one that is. -/
def InOrder (capacities : List Nat) : PoolAction → Prop
  | .get minCapacity =>
      ∀ first ∈ capacities.find? fun cap => minCapacity ≤ cap,
        ∀ cap ∈ capacities, minCapacity ≤ cap → first ≤ cap
  | _ => True

/-- What holds between actions. -/
structure Inv (capacities : List Nat) (s : PoolRun) : Prop where
  regular : Regular s.pool.tiers
  capacities_eq : s.pool.tiers.map BufferTier.capacity = capacities
  inUse : InUse (labels s.pool.tiers ++ s.held) s.fresh

variable {capacities : List Nat} {s t : PoolRun} {a : PoolAction}

/-- A new pool is empty. -/
theorem Inv.start (capacities : List Nat) : Inv capacities (start capacities) := by
  have hempty : ∀ tier ∈ (BufferPool.withTiers capacities).tiers, tier.freeList = [] := by
    intro tier htier
    rcases List.mem_map.mp htier with ⟨cap, _, rfl⟩
    rfl
  constructor
  · intro tier htier
    have hlist := hempty tier htier
    constructor <;> simp [hlist]
  · exact (List.map_map ..).trans (List.map_id _)
  · have hlabels : labels (BufferPool.withTiers capacities).tiers = [] := by
      rw [labels, List.flatMap_eq_nil_iff]
      intro tier htier
      rw [hempty tier htier]
      rfl
    constructor <;> simp [PoolRun.start, hlabels]

/-- What {lit}`get` hands out of a pool. -/
theorem Inv.hands (h : Inv capacities s) (minCapacity : Nat) :
    BufferPool.Hands s.fresh minCapacity s.pool.tiers (s.pool.get s.fresh minCapacity).1
      (s.pool.get s.fresh minCapacity).2.tiers :=
  BufferPool.getLoop_hands s.fresh minCapacity h.regular

/-- An action keeps the invariant. -/
theorem Inv.step (h : Inv capacities s) (hstep : PoolRun.step s a = some t) : Inv capacities t := by
  cases a with
  | get minCapacity =>
      have hhands := h.hands minCapacity
      cases hstep
      refine ⟨hhands.regular, hhands.capacities.trans h.capacities_eq, ?_⟩
      rcases hhands.labels with hperm | ⟨hnew, hsame⟩
      · have hall := List.perm_middle.trans (hperm.symm.append_right s.held)
        exact (h.inUse.subperm hall.subperm).succ
      · have hall : (labels s.pool.tiers ++ s.fresh :: s.held).Perm
            (s.fresh :: (labels s.pool.tiers ++ s.held)) := List.perm_middle
        simp only [hsame, hnew]
        exact h.inUse.give.subperm hall.subperm
  | put buf =>
      have htakes := @BufferPool.putLoop_takes _ h.regular buf.clear rfl
      simp only [PoolRun.step] at hstep
      split at hstep
      · next hheld =>
          cases hstep
          refine ⟨htakes.regular, htakes.capacities.trans h.capacities_eq, h.inUse.subperm ?_⟩
          rcases htakes.labels with hperm | hsame
          · have hback := (List.perm_cons_erase hheld).append_left (labels s.pool.tiers)
            have hall := (hperm.append_right (s.held.erase buf.label)).trans
              (List.perm_middle.symm.trans hback.symm)
            exact hall.subperm
          · have hless : (s.held.erase buf.label).Sublist s.held := List.erase_sublist
            exact hsame ▸ (hless.append_left (labels s.pool.tiers)).subperm
      · cases hstep
  | create =>
      cases hstep
      refine ⟨h.regular, h.capacities_eq, ?_⟩
      exact h.inUse.give.subperm List.perm_middle.subperm

/-- The buffer that is handed out is not held. -/
theorem Inv.not_held (h : Inv capacities s) (minCapacity : Nat) :
    (s.pool.get s.fresh minCapacity).1.label ∉ s.held := by
  intro hheld
  rcases (h.hands minCapacity).labels with hperm | ⟨hnew, _⟩
  · have hpooled := hperm.symm.subset List.mem_cons_self
    exact (List.nodup_append.mp h.inUse.nodup).2.2 _ hpooled _ hheld rfl
  · have hlt := h.inUse.lt_fresh _ (List.mem_append_right _ hheld)
    exact hlt.ne hnew

/-- The capacity that is looked for is large enough. -/
theorem le_firstFit (capacities : List Nat) (minCapacity : Nat) :
    minCapacity ≤ firstFit capacities minCapacity := by
  unfold firstFit
  cases hfind : capacities.find? fun cap => minCapacity ≤ cap with
  | none => exact le_rfl
  | some first => simpa using List.find?_some hfind

/-- The first capacity that is large enough is the least one exactly when the capacities are
in order. -/
theorem isLeast_firstFit_iff (capacities : List Nat) (minCapacity : Nat) :
    ((∃ cap ∈ capacities, minCapacity ≤ cap) →
        IsLeast { cap | cap ∈ capacities ∧ minCapacity ≤ cap } (firstFit capacities minCapacity)) ↔
      InOrder capacities (.get minCapacity) := by
  have hle := le_firstFit capacities minCapacity
  unfold firstFit at hle ⊢
  simp only [InOrder]
  cases hfind : capacities.find? fun cap => minCapacity ≤ cap with
  | none =>
      have hnone := List.find?_eq_none.mp hfind
      apply iff_of_true
      · rintro ⟨cap, hcap, hfits⟩
        exact absurd hfits (by simpa using hnone cap hcap)
      · exact nofun
  | some first =>
      have hmem := List.mem_of_find?_eq_some hfind
      rw [hfind] at hle
      simp only [Option.getD_some, Option.mem_some_iff, forall_eq'] at hle ⊢
      constructor
      · intro hleast cap hcap hfits
        exact (hleast ⟨cap, hcap, hfits⟩).2 ⟨hcap, hfits⟩
      · intro horder _
        exact ⟨⟨hmem, hle⟩, fun cap hcap => horder cap hcap.1 hcap.2⟩

/-- A buffer is handed out with discipline when the capacities are in order. -/
theorem Inv.disciplined_call_iff (h : Inv capacities s) (a : PoolAction) :
    Disciplined capacities s a ↔ InOrder capacities a := by
  cases a with
  | get minCapacity =>
      have hhands := h.hands minCapacity
      have hcapacity := hhands.capacity
      rw [h.capacities_eq] at hcapacity
      have hfits := le_firstFit capacities minCapacity
      rw [← isLeast_firstFit_iff]
      simp only [Disciplined, hcapacity, hhands.data, hfits, h.not_held minCapacity, true_and,
        not_false_eq_true, and_true]
  | put buf => exact Iff.rfl
  | create => exact Iff.rfl

/-- Along a run, buffers are handed out with discipline when the capacities are in order. -/
theorem along_disciplined_iff (capacities : List Nat) (actions : List PoolAction) :
    Machine.Along step (Disciplined capacities) (start capacities) actions ↔
      Machine.Along step (fun _ a => InOrder capacities a) (start capacities) actions :=
  Machine.along_congr_of_invariant (fun _ _ _ h _ hstep => h.step hstep)
    (fun _ a h => h.disciplined_call_iff a) (Inv.start capacities)

/-- In every run of a pool, tiers hold at most 64 buffers, all empty and of their capacity;
and every buffer that is handed out is empty, held by nobody and of the smallest capacity
that is large enough, exactly when every time the first capacity that is large enough is
the smallest one. -/
theorem disciplined_iff (capacities : List Nat) (actions : List PoolAction) :
    (Machine.Along step (Disciplined capacities) (start capacities) actions ∧
        ∀ s, Machine.run step (start capacities) actions = some s →
          s.pool.tiers.map BufferTier.capacity = capacities ∧ Regular s.pool.tiers) ↔
      Machine.Along step (fun _ a => InOrder capacities a) (start capacities) actions := by
  rw [along_disciplined_iff]
  apply and_iff_left
  intro s hrun
  have hinv : Inv capacities s :=
    Machine.invariant_of_steps (fun _ _ _ h hstep => h.step hstep) (Inv.start capacities) hrun
  exact ⟨hinv.capacities_eq, hinv.regular⟩

/-- With the larger tier in front, a small request takes a buffer of the larger capacity. -/
theorem get_takes_larger :
    ¬ ∀ capacities actions,
      Machine.Along step (Disciplined capacities) (start capacities) actions := by
  intro h
  have hdisciplined : Disciplined [4096, 256] (start [4096, 256]) (.get 100) :=
    (h [4096, 256] [.get 100]).1
  have hleast := hdisciplined.2.2.1 ⟨256, by simp, by decide⟩
  have hle : 4096 ≤ 256 := hleast.2 ⟨by simp, by decide⟩
  exact absurd hle (by decide)

/-- Capacities that are sorted are in order. -/
theorem inOrder_of_sorted (h : capacities.Pairwise (· ≤ ·)) (a : PoolAction) :
    InOrder capacities a := by
  cases a with
  | get minCapacity =>
      intro first hfirst cap hcap hfits
      rcases List.find?_eq_some_iff_append.mp hfirst with ⟨_, before, after, hsplit, hbefore⟩
      rw [hsplit] at h hcap
      rcases List.mem_append.mp hcap with hcap | hcap
      · exact absurd hfits (by simpa using hbefore cap hcap)
      · rcases List.mem_cons.mp hcap with rfl | hcap
        · exact le_rfl
        · exact List.rel_of_pairwise_cons (List.pairwise_append.mp h).2.1 hcap
  | put buf => trivial
  | create => trivial

/-- A pool with the standard tiers hands out all buffers with discipline. -/
theorem standard_disciplined (actions : List PoolAction) :
    Machine.Along step (Disciplined BufferPool.standardCapacities)
      (start BufferPool.standardCapacities) actions := by
  have hsorted : BufferPool.standardCapacities.Pairwise (· ≤ ·) := by decide
  rw [along_disciplined_iff]
  exact Machine.along_of_forall (fun a _ => inOrder_of_sorted hsorted a) _

end PoolRun

end Aicl.CoreRust

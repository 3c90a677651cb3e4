import Aicl.CoreCpp.Model
import Aicl.CoreRust.LocalPath

/-!
# Cancelling calls of the C++ adapter

The table of sessions of {lit}`AICLModelAdapter` in
{lit}`core-cpp/src/aicl_adapter.cpp`.  A call enters its session at its start and
takes the entry out at its end; {lit}`handle_cancel` looks its id up.  The table is
keyed by the first eight bytes of an id.  Every access to it holds the lock, and
nothing else in these functions is shared, so that calls and cancellations
interleave by these accesses.

Main results:

- Theorem {lit}`uuidToKey_eq_iff`: which ids share a key.
- Theorem {lit}`SessionTable.cancels_exactly`: in every run of calls that do not
  share a key, cancellation hits its call and no call loses its session.
- Theorem {lit}`SessionTable.nonce_ids_collide`: ids of the local path share
  their key.
-/

namespace Aicl.CoreCpp

/-! ## Keys -/

/-- {lit}`k = (k << 8) | u[i]`. -/
def keyStep (k : UInt64) (b : UInt8) : UInt64 := k <<< 8 ||| b.toUInt64

/-- {lit}`uuid_to_key`: the loop over the first eight bytes. -/
def uuidToKey (u : Uuid) : UInt64 := (u.bytes.take 8).foldl keyStep 0

/-- One round of the loop, while nothing is shifted out. -/
theorem keyStep_toNat {k : UInt64} {b : UInt8} (hk : k.toNat * 256 < 2 ^ 64) :
    (keyStep k b).toNat = k.toNat * 256 + b.toNat := by
  have hshift : (k <<< 8).toNat = k.toNat <<< 8 := by
    rw [UInt64.toNat_shiftLeft, Nat.shiftLeft_eq, Nat.shiftLeft_eq]
    exact Nat.mod_eq_of_lt hk
  rw [keyStep, UInt64.toNat_or, hshift, UInt8.toNat_toUInt64,
    ← Nat.shiftLeft_add_eq_or_of_lt b.toNat_lt, Nat.shiftLeft_eq]

/-- The loop reads a big-endian number. -/
theorem foldl_keyStep_toNat (bs : Bytes) {k : UInt64} (hk : (k.toNat + 1) * 256 ^ bs.length ≤ 2 ^ 64) :
    (bs.foldl keyStep k).toNat = k.toNat * 256 ^ bs.length + BigEndian.ofBytes bs := by
  induction bs generalizing k with
  | nil => simp [BigEndian.ofBytes]
  | cons b bs ih =>
      have hpos : 0 < 256 ^ bs.length := Nat.pow_pos (by decide)
      have hb : b.toNat + 1 ≤ 256 := b.toNat_lt
      rw [List.length_cons, Nat.pow_succ, Nat.mul_comm _ 256, ← Nat.mul_assoc] at hk
      have hround : (keyStep k b).toNat = k.toNat * 256 + b.toNat := by
        apply keyStep_toNat
        calc k.toNat * 256 < (k.toNat + 1) * 256 := by omega
          _ ≤ (k.toNat + 1) * 256 * 256 ^ bs.length := Nat.le_mul_of_pos_right _ hpos
          _ ≤ 2 ^ 64 := hk
      have hnext : ((keyStep k b).toNat + 1) * 256 ^ bs.length ≤ 2 ^ 64 := by
        refine (Nat.mul_le_mul_right _ ?_).trans hk
        rw [hround]
        omega
      rw [List.foldl_cons, ih hnext, hround, BigEndian.ofBytes, List.length_cons, Nat.pow_succ]
      ring

/-- The first eight bytes of an id. -/
def Uuid.head (u : Uuid) : Bytes := u.bytes.take 8

/-- Two ids share a key exactly when they share their first eight bytes. -/
theorem uuidToKey_eq_iff {u v : Uuid} : uuidToKey u = uuidToKey v ↔ u.head = v.head := by
  have hlength : ∀ w : Uuid, w.head.length = 8 := by
    intro w
    simp [Uuid.head, w.length_eq]
  have hread : ∀ w : Uuid, (uuidToKey w).toNat = BigEndian.ofBytes w.head := by
    intro w
    have hfold := foldl_keyStep_toNat w.head (k := 0) (by rw [hlength]; decide)
    rw [UInt64.toNat_zero, Nat.zero_mul, Nat.zero_add] at hfold
    exact hfold
  constructor
  · intro h
    apply BigEndian.ofBytes_inj ((hlength u).trans (hlength v).symm)
    rw [← hread, ← hread, h]
  · intro h
    exact congrArg (List.foldl keyStep 0) h

/-! ## The table of sessions -/

/-- A call that has started and not ended, with the number of its session. -/
structure Call where
  session : Nat
  correlationId : Uuid
deriving DecidableEq, Repr

/-- The table holds weak pointers, here session numbers; the calls in flight own
their sessions.  {lit}`cancelled` are the sessions that were cancelled so far. -/
structure SessionTable where
  sessions : UnorderedMap UInt64 Nat
  inFlight : List Call
  cancelled : List Nat
  fresh : Nat

/-- What the parties do: a call starts; it ends and takes its entry out; it is left
by an exception that nobody catches, which destroys the session but not the entry;
an id is cancelled. -/
inductive CallStep where
  | start (id : Uuid)
  | complete (call : Call)
  | unwind (call : Call)
  | cancel (id : Uuid)
deriving DecidableEq, Repr

namespace SessionTable

/-- No call has started. -/
def new : SessionTable := ⟨∅, [], [], 0⟩

/-- {lit}`it->second.lock()` of the entry of a key: a session that is still owned. -/
def lock (t : SessionTable) (key : UInt64) : Option Nat :=
  (t.sessions.lookup key).filter fun session => ∃ call ∈ t.inFlight, call.session = session

/-- One step; a call can only end when it is in flight. -/
def step (t : SessionTable) : CallStep → Option SessionTable
  | .start id =>
      some
        { t with
          sessions := t.sessions.insert (uuidToKey id) t.fresh
          inFlight := t.inFlight ++ [⟨t.fresh, id⟩]
          fresh := t.fresh + 1 }
  | .complete call =>
      if call ∈ t.inFlight then
        some
          { t with
            sessions := t.sessions.erase (uuidToKey call.correlationId)
            inFlight := t.inFlight.erase call }
      else none
  | .unwind call =>
      if call ∈ t.inFlight then some { t with inFlight := t.inFlight.erase call } else none
  | .cancel id => some { t with cancelled := t.cancelled ++ (t.lock (uuidToKey id)).toList }

/-- The ids of the calls in flight stay distinct. -/
def DistinctIds (t : SessionTable) : CallStep → Prop
  | .start id => ∀ call ∈ t.inFlight, call.correlationId ≠ id
  | _ => True

/-- The calls in flight do not share the first half of their ids, and an id that is
cancelled shares it with its own call only. -/
def ApartIds (t : SessionTable) : CallStep → Prop
  | .start id => ∀ call ∈ t.inFlight, call.correlationId.head ≠ id.head
  | .cancel id => ∀ call ∈ t.inFlight, call.correlationId.head = id.head → call.correlationId = id
  | _ => True

/-- A cancellation cancels the session of the call in flight with that id, and no
other; the end of a call leaves the entries of the other calls. -/
def HitsExactly (t : SessionTable) (s : CallStep) : Prop :=
  ∀ t', t.step s = some t' →
    match s with
    | .cancel id => ∀ session, session ∈ t'.cancelled ↔ session ∈ t.cancelled ∨
        ∃ call ∈ t.inFlight, call.session = session ∧ call.correlationId = id
    | .complete call => ∀ other ∈ t.inFlight, other ≠ call →
        t.sessions.lookup (uuidToKey other.correlationId) = some other.session →
        t'.sessions.lookup (uuidToKey other.correlationId) = some other.session
    | _ => True

/-- The calls in flight have keys of their own, each is found under its key, and an
entry that is still owned belongs to the call with its key. -/
structure Tracked (t : SessionTable) : Prop where
  apart : t.inFlight.Pairwise fun a b => a.correlationId.head ≠ b.correlationId.head
  lookup_eq : ∀ call ∈ t.inFlight,
    t.sessions.lookup (uuidToKey call.correlationId) = some call.session
  key_eq : ∀ key session, t.sessions.lookup key = some session →
    ∀ call ∈ t.inFlight, call.session = session → uuidToKey call.correlationId = key
  session_lt : ∀ call ∈ t.inFlight, call.session < t.fresh
  entry_lt : ∀ key session, t.sessions.lookup key = some session → session < t.fresh

namespace Tracked

variable {t : SessionTable}

/-- Nothing is tracked at first. -/
theorem new : SessionTable.new.Tracked where
  apart := .nil
  lookup_eq _ hcall := absurd hcall (List.not_mem_nil)
  key_eq _ _ hentry := absurd hentry (by simp [SessionTable.new])
  session_lt _ hcall := absurd hcall (List.not_mem_nil)
  entry_lt _ _ hentry := absurd hentry (by simp [SessionTable.new])

/-- Two calls in flight have different keys. -/
theorem key_ne (h : t.Tracked) {a b : Call} (ha : a ∈ t.inFlight) (hb : b ∈ t.inFlight)
    (hne : a ≠ b) : uuidToKey a.correlationId ≠ uuidToKey b.correlationId := by
  intro hkey
  have : Std.Symm fun a b : Call => a.correlationId.head ≠ b.correlationId.head :=
    ⟨fun _ _ hab => hab.symm⟩
  exact h.apart.forall ha hb hne (uuidToKey_eq_iff.mp hkey)

/-- A call that starts under a key of its own is tracked. -/
theorem start (h : t.Tracked) {id : Uuid}
    (hid : ∀ call ∈ t.inFlight, call.correlationId.head ≠ id.head) :
    Tracked
      { t with
        sessions := t.sessions.insert (uuidToKey id) t.fresh
        inFlight := t.inFlight ++ [⟨t.fresh, id⟩]
        fresh := t.fresh + 1 } where
  apart := by
    apply List.pairwise_append.mpr
    refine ⟨h.apart, List.pairwise_singleton _ _, ?_⟩
    intro a ha b hb
    rw [List.mem_singleton.mp hb]
    exact hid a ha
  lookup_eq := by
    intro call hcall
    rcases List.mem_append.mp hcall with hcall | hcall
    · have hkey : uuidToKey call.correlationId ≠ uuidToKey id := fun hkey =>
        hid call hcall (uuidToKey_eq_iff.mp hkey)
      exact (AList.lookup_insert_ne hkey).trans (h.lookup_eq call hcall)
    · rw [List.mem_singleton.mp hcall]
      exact AList.lookup_insert _
  key_eq := by
    intro key session hentry call hcall hsession
    by_cases hkey : key = uuidToKey id
    · subst hkey
      have hfresh : t.fresh = session :=
        Option.some.inj ((AList.lookup_insert t.sessions).symm.trans hentry)
      rcases List.mem_append.mp hcall with hcall | hcall
      · exact absurd (h.session_lt call hcall) (by omega)
      · rw [List.mem_singleton.mp hcall]
    · have hold : t.sessions.lookup key = some session :=
        (AList.lookup_insert_ne hkey).symm.trans hentry
      rcases List.mem_append.mp hcall with hcall | hcall
      · exact h.key_eq key session hold call hcall hsession
      · have hfresh : t.fresh = session := by
          rw [List.mem_singleton.mp hcall] at hsession
          exact hsession
        exact absurd (h.entry_lt key session hold) (by omega)
  session_lt := by
    intro call hcall
    rcases List.mem_append.mp hcall with hcall | hcall
    · exact Nat.lt_succ_of_lt (h.session_lt call hcall)
    · rw [List.mem_singleton.mp hcall]
      exact Nat.lt_succ_self t.fresh
  entry_lt := by
    intro key session hentry
    by_cases hkey : key = uuidToKey id
    · subst hkey
      have hfresh : t.fresh = session :=
        Option.some.inj ((AList.lookup_insert t.sessions).symm.trans hentry)
      exact hfresh ▸ Nat.lt_succ_self t.fresh
    · have hold : t.sessions.lookup key = some session :=
        (AList.lookup_insert_ne hkey).symm.trans hentry
      exact Nat.lt_succ_of_lt (h.entry_lt key session hold)

/-- A call that is no longer in flight need not be tracked. -/
theorem erase (h : t.Tracked) (call : Call) :
    Tracked { t with inFlight := t.inFlight.erase call } where
  apart := h.apart.sublist List.erase_sublist
  lookup_eq other hother := h.lookup_eq other (List.mem_of_mem_erase hother)
  key_eq key session hentry other hother := h.key_eq key session hentry other
    (List.mem_of_mem_erase hother)
  session_lt other hother := h.session_lt other (List.mem_of_mem_erase hother)
  entry_lt := h.entry_lt

/-- A call in flight that is not the one taken out is another one. -/
theorem ne_of_mem_erase (h : t.Tracked) {call other : Call} (hother : other ∈ t.inFlight.erase call) :
    other ≠ call := by
  have hnodup : t.inFlight.Nodup := by
    apply h.apart.imp
    rintro a b hne rfl
    exact hne rfl
  exact (hnodup.mem_erase_iff.mp hother).1

/-- The end of a call takes no entry of another call. -/
theorem lookup_erase (h : t.Tracked) {call other : Call} (hcall : call ∈ t.inFlight)
    (hother : other ∈ t.inFlight) (hne : other ≠ call) :
    (t.sessions.erase (uuidToKey call.correlationId)).lookup (uuidToKey other.correlationId) =
      some other.session :=
  (AList.lookup_erase_ne (h.key_ne hother hcall hne)).trans (h.lookup_eq other hother)

/-- A call that ends leaves the others tracked. -/
theorem complete (h : t.Tracked) {call : Call} (hcall : call ∈ t.inFlight) :
    Tracked
      { t with
        sessions := t.sessions.erase (uuidToKey call.correlationId)
        inFlight := t.inFlight.erase call } where
  apart := (h.erase call).apart
  lookup_eq other hother :=
    h.lookup_erase hcall (List.mem_of_mem_erase hother) (h.ne_of_mem_erase hother)
  key_eq key session hentry other hother hsession := by
    have hkey : key ≠ uuidToKey call.correlationId := by
      rintro rfl
      rw [AList.lookup_erase] at hentry
      cases hentry
    rw [AList.lookup_erase_ne hkey] at hentry
    exact (h.erase call).key_eq key session hentry other hother hsession
  session_lt := (h.erase call).session_lt
  entry_lt key session hentry := by
    have hkey : key ≠ uuidToKey call.correlationId := by
      rintro rfl
      rw [AList.lookup_erase] at hentry
      cases hentry
    rw [AList.lookup_erase_ne hkey] at hentry
    exact h.entry_lt key session hentry

/-- Looking up an id finds the session of the call in flight with that id, and
nothing when there is none. -/
theorem lock_eq_some_iff (h : t.Tracked) {id : Uuid}
    (hid : ∀ call ∈ t.inFlight, call.correlationId.head = id.head → call.correlationId = id)
    {session : Nat} : t.lock (uuidToKey id) = some session ↔
      ∃ call ∈ t.inFlight, call.session = session ∧ call.correlationId = id := by
  rw [lock, Option.filter_eq_some_iff, decide_eq_true_iff]
  constructor
  · intro ⟨hentry, call, hcall, hsession⟩
    have hkey := h.key_eq _ session hentry call hcall hsession
    exact ⟨call, hcall, hsession, hid call hcall (uuidToKey_eq_iff.mp hkey)⟩
  · intro ⟨call, hcall, hsession, hcallId⟩
    have hlookup := h.lookup_eq call hcall
    rw [hcallId, hsession] at hlookup
    exact ⟨hlookup, call, hcall, hsession⟩

end Tracked

/-- Steps of calls with keys of their own keep the calls tracked. -/
theorem tracked_step (t : SessionTable) (s : CallStep) (t' : SessionTable) (h : t.Tracked)
    (hapart : t.ApartIds s) (hstep : t.step s = some t') : t'.Tracked := by
  cases s with
  | start id =>
      cases hstep
      exact h.start hapart
  | complete call =>
      simp only [step] at hstep
      split at hstep
      · next hcall =>
          cases hstep
          exact h.complete hcall
      · cases hstep
  | unwind call =>
      simp only [step] at hstep
      split at hstep
      · cases hstep
        exact h.erase call
      · cases hstep
  | cancel id =>
      cases hstep
      exact ⟨h.apart, h.lookup_eq, h.key_eq, h.session_lt, h.entry_lt⟩

/-- While the calls are tracked, a cancellation hits its call and the end of a call
its own entry. -/
theorem hitsExactly_of_tracked (t : SessionTable) (s : CallStep) (h : t.Tracked)
    (hapart : t.ApartIds s) : t.HitsExactly s := by
  intro t' hstep
  cases s with
  | start id => trivial
  | unwind call => trivial
  | cancel id =>
      cases hstep
      intro session
      simp only [List.mem_append, Option.mem_toList]
      exact or_congr_right (h.lock_eq_some_iff hapart)
  | complete call =>
      simp only [step] at hstep
      split at hstep
      · next hcall =>
          cases hstep
          intro other hother hne _
          exact h.lookup_erase hcall hother hne
      · cases hstep

/-- In every run in which the calls in flight do not share the first eight bytes of
their ids, and no cancelled id shares them with another call, every cancellation
hits exactly its call and no call loses its entry to another. -/
theorem cancels_exactly (steps : List CallStep) (hapart : Machine.Along step ApartIds new steps) :
    Machine.Along step HitsExactly new steps :=
  Machine.Along.of_invariant tracked_step hitsExactly_of_tracked Tracked.new hapart

/-! ## Ids of the local path -/

instance (t : SessionTable) (s : CallStep) : Decidable (t.ApartIds s) :=
  match s with
  | .start _ => inferInstanceAs (Decidable (∀ call ∈ t.inFlight, _))
  | .complete _ => .isTrue trivial
  | .unwind _ => .isTrue trivial
  | .cancel _ => inferInstanceAs (Decidable (∀ call ∈ t.inFlight, _))

instance (t : SessionTable) (s : CallStep) : Decidable (t.DistinctIds s) :=
  match s with
  | .start _ => inferInstanceAs (Decidable (∀ call ∈ t.inFlight, _))
  | .complete _ => .isTrue trivial
  | .unwind _ => .isTrue trivial
  | .cancel _ => .isTrue trivial

/-- An id of {lit}`LocalNonce`. -/
def nonceId (n : UInt64) : Uuid where
  bytes := (CoreRust.LocalNonce.idOf n).bytes
  length_eq := (CoreRust.LocalNonce.idOf n).length_eq

/-- An id whose first byte is given. -/
def randomId (b : UInt8) : Uuid := ⟨b :: List.replicate 15 0, rfl⟩

/-- Two calls whose ids differ at once: one is cancelled, then both end. -/
theorem cancels_exactly_random : Machine.Along step HitsExactly new
    [.start (randomId 1), .start (randomId 2), .cancel (randomId 1),
      .complete ⟨0, randomId 1⟩, .cancel (randomId 2), .complete ⟨1, randomId 2⟩] :=
  cancels_exactly _ (by decide)

/-- All ids of the local path share one key. -/
theorem nonce_ids_collide (m n : UInt64) : uuidToKey (nonceId m) = uuidToKey (nonceId n) :=
  uuidToKey_eq_iff.mpr rfl

/-- Two calls with ids of the local path: cancelling the first cancels the second. -/
theorem cancel_hits_other :
    ¬ ∀ steps : List CallStep, Machine.Along step DistinctIds new steps →
      Machine.Along step HitsExactly new steps := by
  intro h
  have hdistinct : Machine.Along step DistinctIds new
      [.start (nonceId 1), .start (nonceId 2), .cancel (nonceId 1)] := by decide
  have hcancel := (((h _ hdistinct).2 _ rfl).2 _ rfl).1 _ rfl 1
  have hother := hcancel.mp (by decide)
  revert hother
  decide

end SessionTable

end Aicl.CoreCpp

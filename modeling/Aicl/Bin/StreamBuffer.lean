import Aicl.Bin.StreamRounds
import Aicl.Foundation.Crc32
import Aicl.Foundation.Machine

/-!
# What stays in the streaming buffer

A feed drops the bytes before the packet that it waits for, and the packets that it
returned.  When it waits for no packet it keeps all bytes behind the last packet
returned, whether or not a packet can start there.

Main results:

- Theorem {lit}`scanRound_cases`: what one round of the loop can do.
- Theorem {lit}`feed_awaits_iff`: when the bytes kept are those of one packet.
- Theorem {lit}`along_awaitsPacket_iff`: the same along every run.
-/

namespace Aicl.Bin

open Isa.Frame

variable {crc32 : Bytes → UInt32}

/-! ## Bytes of a stream -/

/-- The first valid header in a byte string starts at this position. -/
def FirstHeader (crc32 : Bytes → UInt32) (x : Bytes) (k : Nat) : Prop :=
  HeaderOk crc32 (x.drop k) ∧ ∀ i < k, ¬ HeaderOk crc32 (x.drop i)

/-- Complete packets with any bytes between them, and then less than a header or
the start of a packet, with any bytes in front. -/
inductive Tidy (crc32 : Bytes → UInt32) : Bytes → Prop
  | few {x : Bytes} : x.length < headerSize → Tidy crc32 x
  | waits {x : Bytes} {k : Nat} : FirstHeader crc32 x k →
      (x.drop k).length < frameSize (x.drop k) → Tidy crc32 x
  | packet {x : Bytes} {k : Nat} : FirstHeader crc32 x k →
      frameSize (x.drop k) ≤ (x.drop k).length →
      Tidy crc32 (x.drop (k + frameSize (x.drop k))) → Tidy crc32 x

/-- Less than a header, or the start of a packet that is not complete. -/
def Awaiting (crc32 : Bytes → UInt32) (x : Bytes) : Prop :=
  x.length < headerSize ∨ HeaderOk crc32 x ∧ x.length < frameSize x

/-- There is one first header. -/
theorem FirstHeader.unique {x : Bytes} {j k : Nat} (hj : FirstHeader crc32 x j)
    (hk : FirstHeader crc32 x k) : j = k := by
  rcases Nat.lt_trichotomy j k with hlt | heq | hlt
  · exact absurd hj.1 (hk.2 j hlt)
  · exact heq
  · exact absurd hk.1 (hj.2 k hlt)

/-- Without a valid header only a few bytes are tidy. -/
theorem tidy_iff_of_silent {x : Bytes} (h : ∀ i, ¬ HeaderOk crc32 (x.drop i)) :
    Tidy crc32 x ↔ x.length < headerSize := by
  constructor
  · intro htidy
    cases htidy with
    | few hfew => exact hfew
    | waits hfirst _ => exact absurd hfirst.1 (h _)
    | packet hfirst _ _ => exact absurd hfirst.1 (h _)
  · exact .few

/-- Behind a complete packet the rest decides. -/
theorem tidy_iff_of_packet {x : Bytes} {k : Nat} (hk : FirstHeader crc32 x k)
    (hcomplete : frameSize (x.drop k) ≤ (x.drop k).length) :
    Tidy crc32 x ↔ Tidy crc32 (x.drop (k + frameSize (x.drop k))) := by
  constructor
  · intro htidy
    cases htidy with
    | few hfew =>
        have hlong := hk.1.length_le
        rw [List.length_drop] at hlong
        omega
    | waits hfirst hshort =>
        rw [hfirst.unique hk] at hshort
        omega
    | packet hfirst _ hrest =>
        rw [hfirst.unique hk] at hrest
        exact hrest
  · exact .packet hk hcomplete

/-- Bytes that wait for one packet are bounded. -/
theorem Awaiting.length_lt {x : Bytes} (h : Awaiting crc32 x) :
    x.length < headerSize + maxTlvValueSize + checksumSize := by
  rcases h with hfew | ⟨hheader, hshort⟩
  · exact hfew.trans_le (Nat.le_add_right_of_le (Nat.le_add_right _ _))
  · have hlimit := hheader.limit
    have htrailer : (if HasTrailer x then checksumSize else 0) ≤ checksumSize := by
      split
      · exact le_refl _
      · exact Nat.zero_le _
    simp only [frameSize, total] at hshort
    simp only [headerSize]
    omega

/-! ## Searching -/

/-- Nothing is found when there is nothing. -/
theorem not_prefix_of_find_none {sub data : Bytes} (hsub : sub ≠ []) {start : Nat}
    (h : find sub data start = none) : ∀ i, start ≤ i → ¬ sub <+: data.drop i := by
  have hnone : ∀ x : Bytes, findIn sub x = none → ∀ i, ¬ sub <+: x.drop i := by
    intro x hx
    induction x with
    | nil =>
        intro i hprefix
        rw [List.drop_nil, List.prefix_nil] at hprefix
        exact hsub hprefix
    | cons b bs ih =>
        rw [findIn] at hx
        split at hx
        · cases hx
        · next hfront =>
            intro i
            cases i with
            | zero => exact fun hprefix => hfront (List.isPrefixOf_iff_prefix.mpr hprefix)
            | succ i => exact ih (Option.map_eq_none_iff.mp hx) i
  intro i hi hprefix
  apply hnone (data.drop start) (Option.map_eq_none_iff.mp h) (i - start)
  rwa [List.drop_drop, Nat.add_sub_cancel' hi]

/-- Nothing is passed over. -/
theorem not_prefix_of_find_some {sub data : Bytes} {start idx : Nat}
    (h : find sub data start = some idx) : ∀ i, start ≤ i → i < idx → ¬ sub <+: data.drop i := by
  have hfirst : ∀ x : Bytes, ∀ n, findIn sub x = some n → ∀ i < n, ¬ sub <+: x.drop i := by
    intro x
    induction x with
    | nil =>
        intro n hn
        rw [findIn] at hn
        split at hn
        · cases hn
          exact fun i hi => absurd hi (Nat.not_lt_zero i)
        · cases hn
    | cons b bs ih =>
        intro n hn
        rw [findIn] at hn
        split at hn
        · cases hn
          exact fun i hi => absurd hi (Nat.not_lt_zero i)
        · next hfront =>
            rcases Option.map_eq_some_iff.mp hn with ⟨m, hm, hn⟩
            intro i hi
            cases i with
            | zero => exact fun hprefix => hfront (List.isPrefixOf_iff_prefix.mpr hprefix)
            | succ i => exact ih m hm i (by omega)
  rcases Option.map_eq_some_iff.mp h with ⟨n, hn, hidx⟩
  intro i hi hlt hprefix
  apply hfirst (data.drop start) n hn (i - start) (by omega)
  rwa [List.drop_drop, Nat.add_sub_cancel' hi]

/-- A valid header starts with the magic. -/
theorem HeaderOk.magic_prefix {x : Bytes} (h : HeaderOk crc32 x) : Isa.Frame.magic <+: x := by
  rw [← h.magic_eq]
  exact List.take_prefix 4 x

/-- Fewer bytes than a header are no header. -/
theorem not_headerOk_of_short {buf : Bytes} {i : Nat} (h : buf.length < i + headerSize) :
    ¬ HeaderOk crc32 (buf.drop i) := by
  intro hheader
  have hlong := hheader.length_le
  rw [List.length_drop] at hlong
  simp only [headerSize] at h hlong
  omega

/-- The check of a header in the middle of a buffer. -/
theorem validateHeader_slice_isOk_iff {buf : Bytes} {idx : Nat}
    (hlong : headerSize ≤ (buf.drop idx).length) :
    (validateHeader crc32 (getSlice buf idx (idx + headerSize))).isOk = true ↔
      HeaderOk crc32 (buf.drop idx) := by
  have hslice : getSlice buf idx (idx + headerSize) = (buf.drop idx).take headerSize := by
    rw [getSlice, Nat.add_sub_cancel_left]
  rw [hslice, Outcome.isOk_iff, ← headerOk_take hlong]
  constructor
  · intro hreturns
    rcases hreturns with ⟨_, hok⟩
    exact (validateHeader_decides _).eq_ok_iff.mp hok
  · intro hok
    exact ⟨(), (validateHeader_decides _).eq_ok_iff.mpr hok⟩

/-- A header that no other one precedes behind a position is the first one there. -/
theorem firstHeader_drop {buf : Bytes} {start idx : Nat} (hle : start ≤ idx)
    (hheader : HeaderOk crc32 (buf.drop idx))
    (hbefore : ∀ i, start ≤ i → i < idx → ¬ HeaderOk crc32 (buf.drop i)) :
    FirstHeader crc32 (buf.drop start) (idx - start) := by
  constructor
  · rw [List.drop_drop, Nat.add_sub_cancel' hle]
    exact hheader
  · intro i hi
    rw [List.drop_drop]
    exact hbefore _ (Nat.le_add_right _ _) (by omega)

/-! ## One round -/

/-- What one round of the loop can do: stop where it is, because the limit is
reached or no valid header follows; go on behind bytes that are no valid header;
stop at a packet that is not complete; or decode a packet and go on behind it. -/
theorem scanRound_cases {maxPerFeed : Int} {buf : Bytes} {s : Scan} {r : Round}
    (h : scanRound crc32 maxPerFeed buf s = .ok r) :
    (r = .stop s ∧ (maxPerFeed ≤ s.results.length ∨
      ∀ i, s.scan ≤ i → ¬ HeaderOk crc32 (buf.drop i))) ∨
    ∃ idx, s.scan ≤ idx ∧ (∀ i, s.scan ≤ i → i < idx → ¬ HeaderOk crc32 (buf.drop i)) ∧
      ((¬ HeaderOk crc32 (buf.drop idx) ∧ r = .next { s with scan := idx + 1 }) ∨
        HeaderOk crc32 (buf.drop idx) ∧
          ((buf.drop idx).length < frameSize (buf.drop idx) ∧
              r = .stop { s with firstIncomplete := some idx } ∨
            frameSize (buf.drop idx) ≤ (buf.drop idx).length ∧ ∃ view,
              r = .next
                { s with
                  scan := idx + frameSize (buf.drop idx)
                  results := s.results ++ [view]
                  lastConsumed := idx + frameSize (buf.drop idx) })) := by
  unfold scanRound at h
  split at h
  next hroom =>
    split at h
    next hfind =>
      cases h
      refine .inl ⟨rfl, .inr fun i hi hheader => ?_⟩
      exact not_prefix_of_find_none (by decide) hfind i hi hheader.magic_prefix
    next idx hfind =>
      have hsilent : ∀ i, s.scan ≤ i → i < idx → ¬ HeaderOk crc32 (buf.drop i) :=
        fun i hi hlt hheader => not_prefix_of_find_some hfind i hi hlt hheader.magic_prefix
      split at h
      next hcut =>
        cases h
        refine .inl ⟨rfl, .inr fun i hi => ?_⟩
        rcases Nat.lt_or_ge i idx with hlt | hge
        · exact hsilent i hi hlt
        · exact not_headerOk_of_short (by omega)
      next hin =>
        refine .inr ⟨idx, le_of_find hfind, hsilent, ?_⟩
        have hlong : headerSize ≤ (buf.drop idx).length := by
          rw [List.length_drop]
          omega
        have hvalid := @validateHeader_slice_isOk_iff crc32 buf idx hlong
        split at h
        next hok =>
          refine .inr ⟨hvalid.mp hok, ?_⟩
          have hidx : (buf.take idx).length = idx := List.length_take_of_le (by omega)
          have hend := @packetEnd_eq (buf.take idx) (buf.drop idx) hlong
          rw [List.take_append_drop, hidx] at hend
          rw [hend, Outcome.ok_bind] at h
          split at h
          next hincomplete =>
            cases h
            refine .inl ⟨?_, rfl⟩
            rw [List.length_drop]
            omega
          next hcomplete =>
            rcases Outcome.bind_eq_ok_iff.mp h with ⟨view, _, h⟩
            cases h
            refine .inr ⟨?_, view, rfl⟩
            rw [List.length_drop]
            omega
        next hbad =>
          cases h
          exact .inl ⟨fun hheader => hbad (hvalid.mpr hheader), rfl⟩
  next hroom =>
    cases h
    refine .inl ⟨rfl, ?_⟩
    by_cases hlimit : maxPerFeed ≤ s.results.length
    · exact .inl hlimit
    · exact .inr fun i hi => not_headerOk_of_short (by omega)

/-! ## One feed -/

/-- What the loop keeps waits for one packet exactly when the bytes behind the last
packet before the loop are tidy, if the limit is not reached and no valid header
was passed over. -/
theorem scanLoop_awaiting_iff {maxPerFeed : Int} {buf : Bytes} {s s' : Scan}
    (h : scanLoop crc32 maxPerFeed buf s = .ok s') (hlimit : (s'.results.length : Int) < maxPerFeed)
    (hfirst : s.firstIncomplete = none) (hle : s.lastConsumed ≤ s.scan)
    (hsilent : ∀ i, s.lastConsumed ≤ i → i < s.scan → ¬ HeaderOk crc32 (buf.drop i)) :
    Awaiting crc32 (buf.drop s'.keepFrom) ↔ Tidy crc32 (buf.drop s.lastConsumed) := by
  induction hn : buf.length - s.scan using Nat.strong_induction_on generalizing s with
  | _ n ih =>
      rw [scanLoop_eq] at h
      have ⟨r, hround, h⟩ := Outcome.bind_eq_ok_iff.mp h
      rcases scanRound_cases hround with ⟨rfl, hstop⟩ | ⟨idx, hscan, hpassed, hcase⟩
      · -- no valid header is left
        have hs : s = s' := Outcome.ok.inj h
        rw [← hs] at hlimit ⊢
        have hnone : ∀ i, ¬ HeaderOk crc32 ((buf.drop s.lastConsumed).drop i) := by
          intro i
          rw [List.drop_drop]
          rcases hstop with hmax | hnone
          · omega
          · rcases Nat.lt_or_ge (s.lastConsumed + i) s.scan with hlt | hge
            · exact hsilent _ (Nat.le_add_right _ _) hlt
            · exact hnone _ hge
        rw [tidy_iff_of_silent hnone, Scan.keepFrom, hfirst, Option.getD_none]
        exact or_iff_left fun hheader => hnone 0 (by rw [List.drop_zero]; exact hheader.1)
      · have hbefore : ∀ i, s.lastConsumed ≤ i → i < idx → ¬ HeaderOk crc32 (buf.drop i) := by
          intro i hi hlt
          rcases Nat.lt_or_ge i s.scan with hold | hnew
          · exact hsilent i hi hold
          · exact hpassed i hnew hlt
        have hdrop : (buf.drop s.lastConsumed).drop (idx - s.lastConsumed) = buf.drop idx := by
          rw [List.drop_drop, Nat.add_sub_cancel' (hle.trans hscan)]
        rcases hcase with ⟨hbad, rfl⟩ | ⟨hheader, hcase⟩
        · -- no valid header at this position
          have hmore := (scanRound_next hround).1
          simp only [headerSize] at hmore
          have hnext : ∀ i, s.lastConsumed ≤ i → i < idx + 1 → ¬ HeaderOk crc32 (buf.drop i) := by
            intro i hi hlt
            rcases Nat.lt_succ_iff_lt_or_eq.mp hlt with hlt | heq
            · exact hbefore i hi hlt
            · rw [heq]
              exact hbad
          exact ih (buf.length - (idx + 1)) (by omega) (s := { s with scan := idx + 1 }) h hfirst
            (by show s.lastConsumed ≤ idx + 1; omega) hnext rfl
        · have hk := firstHeader_drop (hle.trans hscan) hheader hbefore
          rcases hcase with ⟨hshort, rfl⟩ | ⟨hcomplete, view, rfl⟩
          · -- a packet that is not complete
            cases h
            refine iff_of_true (.inr ⟨hheader, hshort⟩) (.waits hk ?_)
            rw [hdrop]
            exact hshort
          · -- a complete packet
            have hmore := (scanRound_next hround).1
            have hpos : 0 < frameSize (buf.drop idx) := by
              simp only [frameSize, total]
              omega
            have hrest : (buf.drop s.lastConsumed).drop
                (idx - s.lastConsumed + frameSize ((buf.drop s.lastConsumed).drop
                  (idx - s.lastConsumed))) = buf.drop (idx + frameSize (buf.drop idx)) := by
              rw [hdrop, List.drop_drop]
              congr 1
              omega
            have htidy := tidy_iff_of_packet hk (by rw [hdrop]; exact hcomplete)
            rw [hrest] at htidy
            rw [htidy]
            simp only [headerSize] at hmore
            let next : Scan :=
              { s with
                scan := idx + frameSize (buf.drop idx)
                results := s.results ++ [view]
                lastConsumed := idx + frameSize (buf.drop idx) }
            exact ih (buf.length - (idx + frameSize (buf.drop idx))) (by omega) (s := next) h hfirst
              (le_refl _) (fun i hi hlt => absurd hlt (Nat.not_lt_of_le hi)) rfl

/-- After a feed that returned fewer packets than the limit, the bytes kept are
less than a header or the start of one packet exactly when the bytes before it were
tidy. -/
theorem feed_awaits_iff {d d' : StreamingDecoder} {data : Bytes} {packets : List PacketView}
    (h : d.feed crc32 data = (.ok packets, d')) (hlimit : (packets.length : Int) < d.maxPerFeed) :
    Awaiting crc32 d'.buf ↔ Tidy crc32 (d.buf ++ data) := by
  rw [feed_eq] at h
  cases hloop : scanLoop crc32 d.maxPerFeed (d.buf ++ data) .start with
  | ok s =>
      rw [hloop] at h
      cases h
      exact scanLoop_awaiting_iff hloop hlimit rfl (le_refl 0)
        fun i _ hlt => absurd hlt (Nat.not_lt_zero i)
  | err e =>
      rw [hloop] at h
      cases h
  | panic =>
      rw [hloop] at h
      cases h

/-! ## Runs -/

/-- One feed that does not raise. -/
def feedStep (crc32 : Bytes → UInt32) (d : StreamingDecoder) (data : Bytes) :
    Option StreamingDecoder :=
  match d.feed crc32 data with
  | (.ok _, d') => some d'
  | _ => none

/-- A feed that does not raise and does not stop at the limit leaves less than a
header or the start of a packet that is not complete. -/
def AwaitsPacket (crc32 : Bytes → UInt32) (d : StreamingDecoder) (data : Bytes) : Prop :=
  ∀ packets d', d.feed crc32 data = (.ok packets, d') → (packets.length : Int) < d.maxPerFeed →
    Awaiting crc32 d'.buf

/-- A feed that does not raise and does not stop at the limit finds tidy bytes. -/
def FindsTidy (crc32 : Bytes → UInt32) (d : StreamingDecoder) (data : Bytes) : Prop :=
  ∀ packets d', d.feed crc32 data = (.ok packets, d') → (packets.length : Int) < d.maxPerFeed →
    Tidy crc32 (d.buf ++ data)

/-- Every feed of a run leaves nothing but what may become a packet exactly when
every feed finds tidy bytes. -/
theorem along_awaitsPacket_iff (crc32 : Bytes → UInt32) (maxPerFeed : Int) (chunks : List Bytes) :
    Machine.Along (feedStep crc32) (AwaitsPacket crc32) (.new maxPerFeed) chunks ↔
      Machine.Along (feedStep crc32) (FindsTidy crc32) (.new maxPerFeed) chunks := by
  apply Machine.along_congr
  intro d data
  constructor
  · intro h packets d' hfeed hlimit
    exact (feed_awaits_iff hfeed hlimit).mp (h packets d' hfeed hlimit)
  · intro h packets d' hfeed hlimit
    exact (feed_awaits_iff hfeed hlimit).mpr (h packets d' hfeed hlimit)

/-! ## Garbage -/

/-- No magic stands in zeros. -/
theorem find_magic_zeros (n : Nat) : find Isa.Frame.magic (List.replicate n 0) 0 = none := by
  have hnone : findIn Isa.Frame.magic (List.replicate n 0) = none := by
    induction n with
    | zero => rfl
    | succ n ih =>
        rw [List.replicate_succ, findIn, ih]
        rfl
  rw [find, List.drop_zero, hnone]
  rfl

/-- Zeros are kept, however many there are. -/
theorem feed_zeros (crc32 : Bytes → UInt32) (maxPerFeed : Int) (n : Nat) :
    (StreamingDecoder.new maxPerFeed).feed crc32 (List.replicate n 0) =
      (.ok [], { buf := List.replicate n 0, maxPerFeed := maxPerFeed }) := by
  have hround : scanRound crc32 maxPerFeed (List.replicate n 0) .start = .ok (.stop .start) := by
    unfold scanRound
    split
    · rw [Scan.start, find_magic_zeros]
      rfl
    · rfl
  rw [feed_eq, StreamingDecoder.new, List.nil_append, scanLoop_eq, hround]
  rfl

/-- The bytes of garbage stay in the buffer without bound, and fifty-six of them
are no part of a packet any more. -/
theorem garbage_stays :
    (∀ n, ((StreamingDecoder.new 256).feed Crc32.ieee (List.replicate n 0)).2.pending = n) ∧
      ¬ ∀ (crc32 : Bytes → UInt32) (maxPerFeed : Int) (chunks : List Bytes),
        Machine.Along (feedStep crc32) (AwaitsPacket crc32) (.new maxPerFeed) chunks := by
  constructor
  · intro n
    rw [feed_zeros]
    exact List.length_replicate
  · intro h
    have hawaits := (h Crc32.ieee 256 [List.replicate 56 0]).1 [] _ (feed_zeros _ _ _) (by decide)
    rcases hawaits with hfew | ⟨hheader, _⟩
    · exact absurd hfew (by decide)
    · exact absurd hheader.magic_eq (by decide)

end Aicl.Bin

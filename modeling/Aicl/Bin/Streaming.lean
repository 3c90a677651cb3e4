import Aicl.Bin.Decode

/-!
# The streaming decoder of the Python package

{lit}`StreamingDecoder` of {lit}`aicl/bin/streaming.py`.  The loop of {lit}`feed` is
one round at a time; an exception of {lit}`decode` leaves {lit}`feed` with the
buffer extended and not trimmed.  The checksum function is a parameter.

Main definitions:

- Definition {lit}`scanRound`: one round of the loop.
- Definition {lit}`StreamingDecoder.feed`: bytes in, packets out.
- Definition {lit}`Drains`: feeding nothing until nothing is returned.
-/

namespace Aicl.Bin

/-! ## Searching -/

/-- Where a byte string first occurs in another. -/
def findIn (sub : Bytes) : Bytes → Option Nat
  | [] => if sub.isEmpty then some 0 else none
  | b :: bs => if sub.isPrefixOf (b :: bs) then some 0 else (findIn sub bs).map (· + 1)

/-- {lit}`find` with a start; {lit}`-1` is {lit}`none`. -/
def find (sub data : Bytes) (start : Nat) : Option Nat :=
  (findIn sub (data.drop start)).map (start + ·)

/-- A byte string at the start is found there. -/
theorem find_of_prefix {sub data : Bytes} {start : Nat} (h : sub <+: data.drop start) :
    find sub data start = some start := by
  unfold find
  cases hdrop : data.drop start with
  | nil =>
      rw [hdrop, List.prefix_nil] at h
      subst h
      rfl
  | cons b bs =>
      rw [hdrop] at h
      rw [findIn, if_pos (List.isPrefixOf_iff_prefix.mpr h)]
      rfl

/-- Nothing is found before the start. -/
theorem le_of_find {sub data : Bytes} {start idx : Nat} (h : find sub data start = some idx) :
    start ≤ idx := by
  obtain ⟨n, _, rfl⟩ := Option.map_eq_some_iff.mp h
  exact Nat.le_add_right _ _

/-! ## Scanning a buffer -/

/-- The variables of the loop; {lit}`none` stands for a {lit}`first_incomplete` of
{lit}`-1`. -/
structure Scan where
  scan : Nat
  results : List PacketView
  firstIncomplete : Option Nat
  lastConsumed : Nat

/-- The variables before the first round. -/
def Scan.start : Scan :=
  { scan := 0, results := [], firstIncomplete := none, lastConsumed := 0 }

/-- How a round ends: the loop is left, or goes on. -/
inductive Round where
  | stop (s : Scan)
  | next (s : Scan)

/-- Where the packet whose header starts at an index ends: behind its payload, or
behind the trailer that its flags announce. -/
def packetEnd (buf : Bytes) (idx : Nat) : PyResult Nat := do
  let payloadLength ← unpackWord 4 buf (idx + 44)
  let pktEnd := idx + headerSize + payloadLength
  let high ← getItem buf (idx + 6)
  let low ← getItem buf (idx + 7)
  let hasTrailer := ((high.toNat <<< 8) ||| low.toNat) &&& 0x0100
  pure (if hasTrailer ≠ 0 then pktEnd + 4 else pktEnd)

/-- A packet ends behind its header. -/
theorem le_of_packetEnd {buf : Bytes} {idx pktEnd : Nat} (h : packetEnd buf idx = .ok pktEnd) :
    idx + headerSize ≤ pktEnd := by
  obtain ⟨payloadLength, _, h⟩ := Outcome.bind_eq_ok_iff.mp h
  obtain ⟨_, _, h⟩ := Outcome.bind_eq_ok_iff.mp h
  obtain ⟨_, _, h⟩ := Outcome.bind_eq_ok_iff.mp h
  obtain rfl := Outcome.ok.inj h
  split <;> omega

section Checksum

variable (crc32 : Bytes → UInt32)

/-- One round of the loop of {lit}`feed`, its condition included. -/
def scanRound (maxPerFeed : Int) (buf : Bytes) (s : Scan) : PyResult Round :=
  if s.scan + headerSize ≤ buf.length ∧ (s.results.length : Int) < maxPerFeed then
    match find Isa.Frame.magic buf s.scan with
    | none => pure (.stop s)
    | some idx =>
        if buf.length < idx + headerSize then pure (.stop s)
        else if (validateHeader crc32 (getSlice buf idx (idx + headerSize))).isOk then do
          let pktEnd ← packetEnd buf idx
          if buf.length < pktEnd then pure (.stop { s with firstIncomplete := some idx })
          else
            let view ← decode crc32 (getSlice buf idx pktEnd)
            pure (.next
              { s with scan := pktEnd, results := s.results ++ [view], lastConsumed := pktEnd })
        else pure (.next { s with scan := idx + 1 })
  else pure (.stop s)

/-- The loop moves on in every round that does not leave it. -/
theorem scanRound_next {crc32 : Bytes → UInt32} {maxPerFeed : Int} {buf : Bytes} {s s' : Scan}
    (h : scanRound crc32 maxPerFeed buf s = .ok (.next s')) :
    s.scan + headerSize ≤ buf.length ∧ s.scan < s'.scan := by
  unfold scanRound at h
  split at h
  next hcond =>
    refine ⟨hcond.1, ?_⟩
    split at h
    next => cases h
    next idx hfind =>
      have hle := le_of_find hfind
      split at h
      next => cases h
      next =>
        split at h
        next =>
          obtain ⟨pktEnd, hend, h⟩ := Outcome.bind_eq_ok_iff.mp h
          have hlt := le_of_packetEnd hend
          simp only [headerSize] at hlt
          split at h
          next => cases h
          next =>
            obtain ⟨_, _, h⟩ := Outcome.bind_eq_ok_iff.mp h
            cases h
            show s.scan < pktEnd
            omega
        next =>
          cases h
          exact Nat.lt_succ_of_le hle
  next => cases h

/-- The loop of {lit}`feed`. -/
def scanLoop (maxPerFeed : Int) (buf : Bytes) (s : Scan) : PyResult Scan :=
  match _hround : scanRound crc32 maxPerFeed buf s with
  | .ok (.stop s') => .ok s'
  | .ok (.next s') => scanLoop maxPerFeed buf s'
  | .err e => .err e
  | .panic => .panic
termination_by buf.length - s.scan
decreasing_by
  have hnext := scanRound_next _hround
  simp only [headerSize] at hnext
  omega

end Checksum

/-! ## The decoder -/

/-- Incremental decoder for a stream of bytes. -/
structure StreamingDecoder where
  buf : Bytes
  maxPerFeed : Int
deriving DecidableEq

namespace StreamingDecoder

/-- {lit}`__init__`. -/
def new (maxPacketsPerFeed : Int) : StreamingDecoder := { buf := [], maxPerFeed := maxPacketsPerFeed }

/-- {lit}`feed`: the packets or the exception, and the decoder afterwards. -/
def feed (crc32 : Bytes → UInt32) (d : StreamingDecoder) (data : Bytes) :
    PyResult (List PacketView) × StreamingDecoder :=
  let buf := d.buf ++ data
  match scanLoop crc32 d.maxPerFeed buf .start with
  | .ok s =>
      let buf := match s.firstIncomplete with
        | some firstIncomplete => buf.drop firstIncomplete
        | none => if 0 < s.lastConsumed then buf.drop s.lastConsumed else buf
      (.ok s.results, { d with buf })
  | .err e => (.err e, { d with buf })
  | .panic => (.panic, { d with buf })

/-- {lit}`pending`. -/
def pending (d : StreamingDecoder) : Nat := d.buf.length

/-- One {lit}`feed` after the other, whether or not they raise: what each of them
ends in, and the decoder afterwards. -/
def feeds (crc32 : Bytes → UInt32) (d : StreamingDecoder) :
    List Bytes → List (PyResult (List PacketView)) × StreamingDecoder
  | [] => ([], d)
  | data :: chunks =>
      let first := d.feed crc32 data
      let rest := first.2.feeds crc32 chunks
      (first.1 :: rest.1, rest.2)

/-- Feeding nothing until nothing is returned: the packets, and the decoder
afterwards. -/
inductive Drains (crc32 : Bytes → UInt32) :
    StreamingDecoder → List PacketView → StreamingDecoder → Prop
  | stop {d d' : StreamingDecoder} : d.feed crc32 [] = (.ok [], d') → Drains crc32 d [] d'
  | more {d d' d'' : StreamingDecoder} {v : PacketView} {vs ws : List PacketView} :
      d.feed crc32 [] = (.ok (v :: vs), d') → Drains crc32 d' ws d'' →
      Drains crc32 d (v :: vs ++ ws) d''

end StreamingDecoder

/-- The packets that one {lit}`feed` returned. -/
def packetsOf : PyResult (List PacketView) → List PacketView
  | .ok packets => packets
  | _ => []

/-- The packets that came back from a run of {lit}`feed`s. -/
def returned (outcomes : List (PyResult (List PacketView))) : List PacketView :=
  outcomes.flatMap packetsOf

end Aicl.Bin

import Aicl.Bin.Accepts
import Aicl.Bin.Streaming
import Aicl.Foundation.Framing

/-!
# What one feed does to a stream of frames

A frame of a stream has a valid header and ends where its header says, with or
without the trailer that its flags announce; what {lit}`decode` says about the rest
of it is left open.

Main results:

- Theorem {lit}`scanRound_of_header`: a round at a valid header.
- Theorem {lit}`scanLoop_frames`: the loop decodes complete frames in order, up to
  the limit of the feed.
- Theorem {lit}`feed_frames`: a feed returns what the complete frames decode to and
  keeps the other bytes, or raises and keeps all bytes.
-/

namespace Aicl.Bin

open Isa.Frame

variable {crc32 : Bytes → UInt32}

/-! ## Frames of a stream -/

/-- The size that a header announces: header, payload and trailer. -/
def frameSize (data : Bytes) : Nat :=
  total data + if HasTrailer data then checksumSize else 0

/-- A frame of a stream: a valid header, and as many bytes as it announces. -/
structure IsFrame (crc32 : Bytes → UInt32) (f : Bytes) : Prop where
  header : HeaderOk crc32 f
  length_eq : f.length = frameSize f

/-- A frame is not empty. -/
theorem IsFrame.ne_nil {f : Bytes} (h : IsFrame crc32 f) : f ≠ [] := by
  rintro rfl
  exact absurd h.header.length_le (by decide)

/-- Buffers with the same header announce the same size. -/
theorem frameSize_congr {x y : Bytes} (h : x.take headerSize = y.take headerSize) :
    frameSize x = frameSize y := by
  have hfield : ∀ {a b : Nat}, b ≤ headerSize → field x a b = field y a b := by
    intro a b hb
    rw [← field_take hb, h, field_take hb]
  have hflags : flags x = flags y := congrArg BigEndian.ofBytes (hfield (by decide))
  have hlen : payloadLen x = payloadLen y := congrArg BigEndian.ofBytes (hfield (by decide))
  simp only [frameSize, total, HasTrailer, hflags, hlen]

/-- Buffers with the same header have it valid or not. -/
theorem headerOk_congr {x y : Bytes} (hx : headerSize ≤ x.length) (hy : headerSize ≤ y.length)
    (h : x.take headerSize = y.take headerSize) : HeaderOk crc32 x ↔ HeaderOk crc32 y := by
  rw [← headerOk_take hx, h, headerOk_take hy]

/-- The header of a buffer that starts with another one. -/
theorem take_of_prefix {x y : Bytes} (hx : headerSize ≤ x.length) (h : x <+: y) :
    x.take headerSize = y.take headerSize := by
  obtain ⟨z, rfl⟩ := h
  rw [List.take_append_of_le_length hx]

/-! ## One round -/

/-- The flag word, byte by byte. -/
theorem flags_eq {x : Bytes} (h : headerSize ≤ x.length) :
    ∃ high low : UInt8, x[6]? = some high ∧ x[7]? = some low ∧
      (high.toNat <<< 8) ||| low.toNat = flags x := by
  have hle : 56 ≤ x.length := h
  have hseven : 7 < x.length := by omega
  have hfield : field x 6 8 = [x[6], x[7]] := by
    rw [field, List.drop_eq_getElem_cons (by omega), List.drop_eq_getElem_cons hseven]
    rfl
  refine ⟨x[6], x[7], List.getElem?_eq_getElem _, List.getElem?_eq_getElem _, ?_⟩
  rw [flags, hfield, ← Nat.shiftLeft_add_eq_or_of_lt (x[7].toNat_lt), Nat.shiftLeft_eq]
  simp [BigEndian.ofBytes]

/-- The end of a packet is where its header says. -/
theorem packetEnd_eq {pre x : Bytes} (h : headerSize ≤ x.length) :
    packetEnd (pre ++ x) pre.length = .ok (pre.length + frameSize x) := by
  have hle : 56 ≤ x.length := h
  obtain ⟨high, low, hhigh, hlow, hflags⟩ := flags_eq h
  have hitem : ∀ i, (pre ++ x)[pre.length + i]? = x[i]? := by
    intro i
    rw [List.getElem?_append_right (Nat.le_add_right _ _), Nat.add_sub_cancel_left]
  have hlength : BigEndian.ofBytes (field (pre ++ x) (pre.length + 44) (pre.length + 44 + 4)) =
      payloadLen x := congrArg BigEndian.ofBytes (field_append_right pre x 44 48)
  have hsize : frameSize x = headerSize + payloadLen x + if HasTrailer x then 4 else 0 := rfl
  unfold packetEnd getItem
  rw [unpackWord_eq (by rw [List.length_append]; omega), Outcome.ok_bind, hitem, hitem, hhigh, hlow,
    Outcome.ok_bind, Outcome.ok_bind, hlength, hsize]
  simp only [hflags, Outcome.pure_eq]
  refine congrArg Outcome.ok ?_
  by_cases hflag : HasTrailer x
  · rw [if_pos hflag, if_pos (show flags x &&& 0x0100 ≠ 0 from hflag), Nat.add_assoc,
      Nat.add_assoc, Nat.add_assoc]
  · rw [if_neg hflag, if_neg (show ¬ flags x &&& 0x0100 ≠ 0 from hflag), Nat.add_assoc,
      Nat.add_zero]

/-- A round at a valid header waits for the rest of the packet, or decodes it. -/
theorem scanRound_of_header {maxPerFeed : Int} {pre x : Bytes} {s : Scan}
    (hscan : s.scan = pre.length) (hlimit : (s.results.length : Int) < maxPerFeed)
    (h : HeaderOk crc32 x) :
    scanRound crc32 maxPerFeed (pre ++ x) s =
      if x.length < frameSize x then .ok (.stop { s with firstIncomplete := some pre.length })
      else decode crc32 (x.take (frameSize x)) >>= fun view =>
        .ok (.next
          { s with
            scan := pre.length + frameSize x
            results := s.results ++ [view]
            lastConsumed := pre.length + frameSize x }) := by
  have hle := h.length_le
  have hlength : (pre ++ x).length = pre.length + x.length := List.length_append
  have hprefix : Isa.Frame.magic <+: (pre ++ x).drop pre.length := by
    rw [List.drop_left, ← h.magic_eq]
    exact List.take_prefix 4 x
  have hslice : ∀ n, getSlice (pre ++ x) pre.length (pre.length + n) = x.take n := by
    intro n
    rw [getSlice, List.drop_left, Nat.add_sub_cancel_left]
  have hvalid : (validateHeader crc32 (x.take headerSize)).isOk = true :=
    Outcome.isOk_iff.mpr ⟨(), (validateHeader_decides _).eq_ok_iff.mpr ((headerOk_take hle).mpr h)⟩
  unfold scanRound
  rw [if_pos ⟨by omega, hlimit⟩, hscan, find_of_prefix hprefix]
  simp only [hslice, hvalid]
  rw [if_neg (by omega), if_pos trivial, packetEnd_eq hle, Outcome.ok_bind, hslice, hlength]
  simp only [Nat.add_lt_add_iff_left]
  rfl

/-- A round at a complete frame decodes it. -/
theorem scanRound_of_frame {maxPerFeed : Int} {pre f rest : Bytes} (hf : IsFrame crc32 f) {s : Scan}
    (hscan : s.scan = pre.length) (hlimit : (s.results.length : Int) < maxPerFeed) :
    scanRound crc32 maxPerFeed (pre ++ (f ++ rest)) s =
      decode crc32 f >>= fun view =>
        .ok (.next
          { s with
            scan := pre.length + f.length
            results := s.results ++ [view]
            lastConsumed := pre.length + f.length }) := by
  have htake := take_of_prefix hf.header.length_le (List.prefix_append f rest)
  have hlong : headerSize ≤ (f ++ rest).length := by
    rw [List.length_append]
    exact hf.header.length_le.trans (Nat.le_add_right _ _)
  have hheader := (headerOk_congr hf.header.length_le hlong htake).mp hf.header
  have hsize : frameSize (f ++ rest) = f.length :=
    (frameSize_congr htake).symm.trans hf.length_eq.symm
  rw [scanRound_of_header hscan hlimit hheader, hsize,
    if_neg (by rw [List.length_append]; omega), List.take_left]

/-- A round that finds no room for a header, or no room for a result. -/
theorem scanRound_of_not {maxPerFeed : Int} {buf : Bytes} {s : Scan}
    (h : ¬ (s.scan + headerSize ≤ buf.length ∧ (s.results.length : Int) < maxPerFeed)) :
    scanRound crc32 maxPerFeed buf s = .ok (.stop s) := by
  unfold scanRound
  rw [if_neg h]
  rfl

/-! ## The loop -/

/-- The loop, unrolled once. -/
theorem scanLoop_eq (maxPerFeed : Int) (buf : Bytes) (s : Scan) :
    scanLoop crc32 maxPerFeed buf s =
      scanRound crc32 maxPerFeed buf s >>= fun round =>
        match round with
        | .stop s' => .ok s'
        | .next s' => scanLoop crc32 maxPerFeed buf s' := by
  rw [scanLoop]
  cases scanRound crc32 maxPerFeed buf s with
  | ok round => cases round <;> rfl
  | err e => rfl
  | panic => rfl

/-- Where the bytes start that {lit}`feed` keeps. -/
def Scan.keepFrom (s : Scan) : Nat := s.firstIncomplete.getD s.lastConsumed

/-- What a list of frames decodes to, up to the first one that is refused. -/
def decodeAll (crc32 : Bytes → UInt32) : List Bytes → PyResult (List PacketView)
  | [] => .ok []
  | f :: fs => do
      let view ← decode crc32 f
      let views ← decodeAll crc32 fs
      pure (view :: views)

/-- What has arrived of the next frame. -/
def IsPart (crc32 : Bytes → UInt32) (part : Bytes) : Prop :=
  part = [] ∨ ∃ f, IsFrame crc32 f ∧ part <+: f ∧ part.length < f.length

/-- The loop stops at a part of a frame. -/
theorem scanLoop_part {maxPerFeed : Int} {pre part : Bytes} (hpart : IsPart crc32 part) {s : Scan}
    (hscan : s.scan = pre.length) (hlast : s.keepFrom = pre.length) :
    ∃ s', scanLoop crc32 maxPerFeed (pre ++ part) s = .ok s' ∧ s'.results = s.results ∧
      s'.keepFrom = pre.length := by
  rw [scanLoop_eq]
  by_cases hroom : s.scan + headerSize ≤ (pre ++ part).length ∧ (s.results.length : Int) < maxPerFeed
  · rw [List.length_append, hscan] at hroom
    have hlong : headerSize ≤ part.length := Nat.add_le_add_iff_left.mp hroom.1
    rcases hpart with rfl | ⟨f, hf, hprefix, hlt⟩
    · exact absurd hlong (by decide)
    · have htake := take_of_prefix hlong hprefix
      have hheader := (headerOk_congr hlong hf.header.length_le htake).mpr hf.header
      have hshort : part.length < frameSize part := by
        rwa [frameSize_congr htake, ← hf.length_eq]
      rw [scanRound_of_header hscan hroom.2 hheader, if_pos hshort]
      exact ⟨_, rfl, rfl, rfl⟩
  · rw [scanRound_of_not hroom]
    exact ⟨s, rfl, rfl, hlast⟩

/-- The loop decodes complete frames in order, as many as the feed may still
return. -/
theorem scanLoop_frames {maxPerFeed : Int} {part : Bytes} (hpart : IsPart crc32 part)
    {done : List Bytes} (hdone : ∀ f ∈ done, IsFrame crc32 f) {pre : Bytes} {s : Scan}
    (hscan : s.scan = pre.length) (hfirst : s.firstIncomplete = none)
    (hlast : s.lastConsumed = pre.length) {k : Nat}
    (hk : (maxPerFeed - s.results.length).toNat = k) :
    (scanLoop crc32 maxPerFeed (pre ++ (done.flatten ++ part)) s >>= fun s' =>
        .ok (s'.results, s'.keepFrom)) =
      decodeAll crc32 (done.take k) >>= fun views =>
        .ok (s.results ++ views, (pre ++ (done.take k).flatten).length) := by
  have hkeep : s.keepFrom = pre.length := by rw [Scan.keepFrom, hfirst, hlast, Option.getD_none]
  induction done generalizing pre s k with
  | nil =>
      obtain ⟨s', hloop, hresults, hkeep'⟩ := @scanLoop_part _ maxPerFeed _ _ hpart _ hscan hkeep
      rw [List.take_nil, List.flatten_nil, List.nil_append, hloop, decodeAll, Outcome.ok_bind,
        Outcome.ok_bind, hresults, hkeep', List.append_nil, List.append_nil]
  | cons f fs ih =>
      have hf := hdone f List.mem_cons_self
      by_cases hlimit : (s.results.length : Int) < maxPerFeed
      · obtain ⟨k, rfl⟩ : ∃ n, k = n + 1 := ⟨k - 1, by omega⟩
        have hsplit : (f :: fs).flatten ++ part = f ++ (fs.flatten ++ part) := by
          rw [List.flatten_cons, List.append_assoc]
        rw [hsplit, scanLoop_eq, scanRound_of_frame hf hscan hlimit, List.take_succ_cons, decodeAll]
        cases hdecode : decode crc32 f with
        | ok view =>
            have hlen : pre.length + f.length = (pre ++ f).length := List.length_append.symm
            let next : Scan :=
              { s with
                scan := pre.length + f.length
                results := s.results ++ [view]
                lastConsumed := pre.length + f.length }
            have hk' : (maxPerFeed - next.results.length).toNat = k := by
              simp only [next, List.length_append, List.length_singleton]
              omega
            have hkeep' : next.keepFrom = (pre ++ f).length := by
              simp only [next, Scan.keepFrom, hfirst, Option.getD_none, hlen]
            have hrest := ih (fun x hx => hdone x (List.mem_cons_of_mem _ hx)) (s := next) hlen
              hfirst hlen hk' hkeep'
            rw [List.append_assoc] at hrest
            simp only [Outcome.ok_bind, Outcome.bind_assoc, Outcome.pure_eq]
            refine hrest.trans ?_
            simp only [next, List.append_assoc, List.singleton_append, List.flatten_cons]
        | err e => rfl
        | panic => rfl
      · obtain rfl : k = 0 := by omega
        rw [scanLoop_eq, scanRound_of_not fun h => hlimit h.2, List.take_zero, decodeAll,
          Outcome.ok_bind, Outcome.ok_bind, Outcome.ok_bind, hkeep, List.append_nil,
          List.flatten_nil, List.append_nil]

/-! ## One feed -/

/-- Where {lit}`feed` trims the buffer. -/
theorem feed_eq (d : StreamingDecoder) (data : Bytes) :
    d.feed crc32 data =
      match scanLoop crc32 d.maxPerFeed (d.buf ++ data) .start >>= fun s =>
          .ok (s.results, s.keepFrom) with
      | .ok (results, keepFrom) => (.ok results, { d with buf := (d.buf ++ data).drop keepFrom })
      | .err e => (.err e, { d with buf := d.buf ++ data })
      | .panic => (.panic, { d with buf := d.buf ++ data }) := by
  unfold StreamingDecoder.feed
  dsimp only
  cases scanLoop crc32 d.maxPerFeed (d.buf ++ data) .start with
  | ok s =>
      simp only [Outcome.ok_bind, Scan.keepFrom]
      cases s.firstIncomplete with
      | some k => rfl
      | none =>
          rw [Option.getD_none]
          by_cases hpos : 0 < s.lastConsumed
          · simp only [if_pos hpos]
          · simp only [Nat.eq_zero_of_not_pos hpos, List.drop_zero, ite_self]
  | err e => rfl
  | panic => rfl

/-- A feed returns what the first complete frames decode to and keeps all bytes
behind them, or raises and keeps all bytes. -/
theorem feed_frames {d : StreamingDecoder} {data part : Bytes} {done : List Bytes}
    (harrived : d.buf ++ data = done.flatten ++ part) (hdone : ∀ f ∈ done, IsFrame crc32 f)
    (hpart : IsPart crc32 part) :
    d.feed crc32 data =
      match decodeAll crc32 (done.take d.maxPerFeed.toNat) with
      | .ok views =>
          (.ok views, { d with buf := (done.drop d.maxPerFeed.toNat).flatten ++ part })
      | .err e => (.err e, { d with buf := done.flatten ++ part })
      | .panic => (.panic, { d with buf := done.flatten ++ part }) := by
  have hloop := @scanLoop_frames crc32 d.maxPerFeed _ hpart _ hdone [] .start rfl rfl rfl _ rfl
  have hk : (d.maxPerFeed - (Scan.start.results.length : Int)).toNat = d.maxPerFeed.toNat := by
    simp [Scan.start]
  rw [hk, List.nil_append] at hloop
  rw [feed_eq, harrived, hloop]
  cases decodeAll crc32 (done.take d.maxPerFeed.toNat) with
  | ok views =>
      have hsplit : done.flatten = (done.take d.maxPerFeed.toNat).flatten ++
          (done.drop d.maxPerFeed.toNat).flatten := by
        rw [← List.flatten_append, List.take_append_drop]
      simp only [Outcome.ok_bind, Scan.start, List.nil_append]
      rw [hsplit, List.append_assoc, List.drop_left]
  | err e => rfl
  | panic => rfl

end Aicl.Bin

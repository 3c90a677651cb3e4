import Aicl.Bin.Encode
import Aicl.Bin.StreamRounds
import Aicl.Foundation.Crc32

/-!
# Streams of frames, chunk by chunk

What a streaming decoder makes of a stream of frames, however the stream is cut
into chunks.  Whatever the frames hold, packets come back in order and once; all
of them come back when all frames decode.  A frame that {lit}`decode` refuses is
never left behind.

Main results:

- Theorem {lit}`feeds_deliver`: a run returns the packets of some first frames and
  keeps the others.
- Theorem {lit}`feeds_reassemble`: packets that are encoded, concatenated and cut
  into chunks come back as they were.
- Theorem {lit}`feeds_of_refused`: a refused frame in front raises in every feed.
- Theorem {lit}`recovers_iff`: a run gets past all frames exactly when all of them
  decode.
-/

namespace Aicl.Bin

open Isa.Frame
open Framing (Cut exists_cut)
open StreamingDecoder (feeds Drains)

variable {crc32 : Bytes → UInt32}

/-! ## Lists of frames -/

/-- A frame and the packet that it decodes to. -/
def DecodesTo (crc32 : Bytes → UInt32) (f : Bytes) (v : PacketView) : Prop :=
  decode crc32 f = .ok v

/-- A list of frames decodes when every frame does. -/
theorem decodeAll_eq_ok_iff {fs : List Bytes} {views : List PacketView} :
    decodeAll crc32 fs = .ok views ↔ List.Forall₂ (DecodesTo crc32) fs views := by
  induction fs generalizing views with
  | nil =>
      constructor
      · intro h
        cases h
        exact .nil
      · intro h
        cases h
        rfl
  | cons f fs ih =>
      constructor
      · intro h
        obtain ⟨view, hview, h⟩ := Outcome.bind_eq_ok_iff.mp h
        obtain ⟨rest, hrest, h⟩ := Outcome.bind_eq_ok_iff.mp h
        cases h
        exact .cons hview (ih.mp hrest)
      · intro h
        cases h with
        | @cons _ view _ rest hview hrest =>
            have hview : decode crc32 f = .ok view := hview
            rw [decodeAll, hview, ih.mpr hrest]
            rfl

/-- Frames of which each decodes to something decode to a list of packets. -/
theorem exists_views {fs : List Bytes} (h : ∀ f ∈ fs, ∃ v, decode crc32 f = .ok v) :
    ∃ views, List.Forall₂ (DecodesTo crc32) fs views := by
  induction fs with
  | nil => exact ⟨[], .nil⟩
  | cons f fs ih =>
      obtain ⟨v, hv⟩ := h f List.mem_cons_self
      obtain ⟨views, hviews⟩ := ih fun x hx => h x (List.mem_cons_of_mem _ hx)
      exact ⟨v :: views, .cons hv hviews⟩

/-- Frames that decode to a list of packets each decode to something. -/
theorem decodes_of_mem {fs : List Bytes} {views : List PacketView}
    (h : List.Forall₂ (DecodesTo crc32) fs views) : ∀ f ∈ fs, ∃ v, decode crc32 f = .ok v := by
  induction h with
  | nil => simp
  | @cons f v fs views hv _ ih =>
      intro x hx
      rcases List.mem_cons.mp hx with rfl | hx
      · exact ⟨v, hv⟩
      · exact ih x hx

/-- The frames of a list decode to one list of packets. -/
theorem decodesTo_unique {fs : List Bytes} {views views' : List PacketView}
    (h : List.Forall₂ (DecodesTo crc32) fs views) (h' : List.Forall₂ (DecodesTo crc32) fs views') :
    views = views' :=
  Outcome.ok.inj ((decodeAll_eq_ok_iff.mpr h).symm.trans (decodeAll_eq_ok_iff.mpr h'))

/-- A part of the next frame is what a cut leaves over. -/
theorem isPart_of_cut {frames done todo : List Bytes} {arrived rest part : Bytes}
    (hframes : ∀ f ∈ frames, IsFrame crc32 f) (h : Cut frames arrived rest done todo part) :
    IsPart crc32 part := by
  cases todo with
  | nil => exact .inl h.part_eq_nil
  | cons f fs =>
      have hmem : f ∈ frames := by simp [h.frames_eq]
      exact .inr ⟨f, hframes f hmem, h.part_prefix, h.incomplete f fs rfl⟩

/-! ## Safety -/

/-- A feed decodes complete frames of a stream and keeps what has arrived of the
next one. -/
theorem feed_cut {frames : List Bytes} (hframes : ∀ f ∈ frames, IsFrame crc32 f)
    {d : StreamingDecoder} {data rest : Bytes} (h : (d.buf ++ data) ++ rest = frames.flatten) :
    ∃ done todo part, Cut frames (d.buf ++ data) rest done todo part ∧
      d.feed crc32 data =
        match decodeAll crc32 (done.take d.maxPerFeed.toNat) with
        | .ok views =>
            (.ok views, { d with buf := (done.drop d.maxPerFeed.toNat).flatten ++ part })
        | .err e => (.err e, { d with buf := done.flatten ++ part })
        | .panic => (.panic, { d with buf := done.flatten ++ part }) := by
  obtain ⟨done, todo, part, hcut⟩ := exists_cut (fun f hf => (hframes f hf).ne_nil) h
  have hdone : ∀ f ∈ done, IsFrame crc32 f := fun f hf =>
    hframes f (by rw [hcut.frames_eq]; exact List.mem_append_left _ hf)
  exact ⟨done, todo, part, hcut,
    feed_frames hcut.arrived_eq hdone (isPart_of_cut hframes hcut)⟩

/-- One feed returns the packets of some first frames and keeps the others. -/
theorem feed_delivers {frames : List Bytes} (hframes : ∀ f ∈ frames, IsFrame crc32 f)
    {d : StreamingDecoder} {data rest : Bytes} (h : (d.buf ++ data) ++ rest = frames.flatten) :
    ∃ delivered todo, frames = delivered ++ todo ∧
      List.Forall₂ (DecodesTo crc32) delivered (packetsOf (d.feed crc32 data).1) ∧
      (d.feed crc32 data).2.buf ++ rest = todo.flatten := by
  obtain ⟨done, todo, part, hcut, hfeed⟩ := feed_cut hframes h
  rw [hfeed]
  cases hall : decodeAll crc32 (done.take d.maxPerFeed.toNat) with
  | ok views =>
      refine ⟨done.take d.maxPerFeed.toNat, done.drop d.maxPerFeed.toNat ++ todo, ?_,
        decodeAll_eq_ok_iff.mp hall, ?_⟩
      · rw [← List.append_assoc, List.take_append_drop, hcut.frames_eq]
      · rw [List.append_assoc, hcut.todo_eq, List.flatten_append]
  | err e =>
      refine ⟨[], frames, rfl, .nil, ?_⟩
      rw [← hcut.arrived_eq, h]
  | panic =>
      refine ⟨[], frames, rfl, .nil, ?_⟩
      rw [← hcut.arrived_eq, h]

/-- A run returns the packets of some first frames, in order and once, and keeps
the others. -/
theorem feeds_deliver {frames : List Bytes} (hframes : ∀ f ∈ frames, IsFrame crc32 f)
    {d : StreamingDecoder} {chunks : List Bytes} {rest : Bytes}
    (h : d.buf ++ chunks.flatten ++ rest = frames.flatten) :
    ∃ delivered todo, frames = delivered ++ todo ∧
      List.Forall₂ (DecodesTo crc32) delivered (returned (feeds crc32 d chunks).1) ∧
      (feeds crc32 d chunks).2.buf ++ rest = todo.flatten := by
  induction chunks generalizing d frames with
  | nil =>
      rw [List.flatten_nil, List.append_nil] at h
      exact ⟨[], frames, rfl, .nil, h⟩
  | cons data chunks ih =>
      rw [List.flatten_cons, ← List.append_assoc, List.append_assoc] at h
      obtain ⟨first, frames', rfl, hfirst, hkept⟩ := feed_delivers hframes h
      rw [← List.append_assoc] at hkept
      obtain ⟨second, todo, rfl, hsecond, hrest⟩ :=
        ih (fun f hf => hframes f (List.mem_append_right _ hf)) hkept
      exact ⟨first ++ second, todo, (List.append_assoc _ _ _).symm,
        List.rel_append hfirst hsecond, hrest⟩

/-! ## Liveness -/

/-- A feed of frames that decode does not raise. -/
theorem feed_isOk {frames : List Bytes} (hframes : ∀ f ∈ frames, IsFrame crc32 f)
    (hdecode : ∀ f ∈ frames, ∃ v, decode crc32 f = .ok v)
    {d : StreamingDecoder} {data rest : Bytes} (h : (d.buf ++ data) ++ rest = frames.flatten) :
    ∃ packets, (d.feed crc32 data).1 = .ok packets := by
  obtain ⟨done, todo, part, hcut, hfeed⟩ := feed_cut hframes h
  obtain ⟨views, hviews⟩ : ∃ views,
      List.Forall₂ (DecodesTo crc32) (done.take d.maxPerFeed.toNat) views := by
    refine exists_views fun f hf => hdecode f ?_
    rw [hcut.frames_eq]
    exact List.mem_append_left _ (List.mem_of_mem_take hf)
  rw [hfeed, decodeAll_eq_ok_iff.mpr hviews]
  exact ⟨views, rfl⟩

/-- A run over frames that decode does not raise. -/
theorem feeds_isOk {frames : List Bytes} (hframes : ∀ f ∈ frames, IsFrame crc32 f)
    (hdecode : ∀ f ∈ frames, ∃ v, decode crc32 f = .ok v)
    {d : StreamingDecoder} {chunks : List Bytes} {rest : Bytes}
    (h : d.buf ++ chunks.flatten ++ rest = frames.flatten) :
    ∃ received : List (List PacketView), (feeds crc32 d chunks).1 = received.map .ok := by
  induction chunks generalizing d frames with
  | nil => exact ⟨[], rfl⟩
  | cons data chunks ih =>
      rw [List.flatten_cons, ← List.append_assoc, List.append_assoc] at h
      obtain ⟨packets, hpackets⟩ := feed_isOk hframes hdecode h
      obtain ⟨first, frames', rfl, _, hkept⟩ := feed_delivers hframes h
      rw [← List.append_assoc] at hkept
      obtain ⟨received, hreceived⟩ :=
        ih (fun f hf => hframes f (List.mem_append_right _ hf))
          (fun f hf => hdecode f (List.mem_append_right _ hf)) hkept
      refine ⟨packets :: received, ?_⟩
      rw [StreamingDecoder.feeds, hpackets, hreceived, List.map_cons]

/-- What a run without exceptions returned. -/
theorem returned_map_ok (received : List (List PacketView)) :
    returned (received.map .ok) = received.flatten := by
  induction received with
  | nil => rfl
  | cons packets received ih =>
      rw [List.map_cons, returned, List.flatMap_cons, ← returned, ih]
      rfl

/-- A feed leaves the limit as it is. -/
theorem feed_maxPerFeed (d : StreamingDecoder) (data : Bytes) :
    (d.feed crc32 data).2.maxPerFeed = d.maxPerFeed := by
  rw [feed_eq]
  split <;> rfl

/-- A run leaves the limit as it is. -/
theorem feeds_maxPerFeed (d : StreamingDecoder) (chunks : List Bytes) :
    (feeds crc32 d chunks).2.maxPerFeed = d.maxPerFeed := by
  induction chunks generalizing d with
  | nil => rfl
  | cons data chunks ih => rw [StreamingDecoder.feeds, ih, feed_maxPerFeed]

/-- Feeding nothing returns as many of the buffered frames as the limit allows. -/
theorem feed_nil {d : StreamingDecoder} {frames : List Bytes}
    (hframes : ∀ f ∈ frames, IsFrame crc32 f) {views : List PacketView}
    (hviews : List.Forall₂ (DecodesTo crc32) frames views) (hbuf : d.buf = frames.flatten) :
    d.feed crc32 [] =
      (.ok (views.take d.maxPerFeed.toNat),
        { d with buf := (frames.drop d.maxPerFeed.toNat).flatten }) := by
  have harrived : d.buf ++ [] = frames.flatten ++ [] := by rw [hbuf]
  have hall : decodeAll crc32 (frames.take d.maxPerFeed.toNat) =
      .ok (views.take d.maxPerFeed.toNat) :=
    decodeAll_eq_ok_iff.mpr (List.forall₂_take _ hviews)
  rw [feed_frames harrived hframes (.inl rfl), hall, List.append_nil]

/-- Feeding nothing often enough returns all buffered frames. -/
theorem drains_of_frames {frames : List Bytes} (hframes : ∀ f ∈ frames, IsFrame crc32 f)
    {views : List PacketView} (hviews : List.Forall₂ (DecodesTo crc32) frames views)
    {d : StreamingDecoder} (hmax : 1 ≤ d.maxPerFeed) (hbuf : d.buf = frames.flatten) :
    Drains crc32 d views { d with buf := [] } := by
  induction hn : frames.length using Nat.strong_induction_on generalizing frames views d with
  | _ n ih =>
      have hfeed := feed_nil hframes hviews hbuf
      obtain ⟨k, hk⟩ : ∃ k, d.maxPerFeed.toNat = k + 1 := ⟨d.maxPerFeed.toNat - 1, by omega⟩
      rw [hk] at hfeed
      cases hviews with
      | nil => exact .stop hfeed
      | @cons f v fs vs hv hvs =>
          rw [List.take_succ_cons, List.drop_succ_cons] at hfeed
          have hlt : (fs.drop k).length < n := by
            rw [← hn, List.length_drop, List.length_cons]
            omega
          have hrest := ih _ hlt (fun x hx => hframes x (List.mem_cons_of_mem _ (List.mem_of_mem_drop hx)))
            (List.forall₂_drop k hvs) (d := { d with buf := (fs.drop k).flatten }) hmax rfl rfl
          have hviews : v :: vs.take k ++ vs.drop k = v :: vs := by
            rw [List.cons_append, List.take_append_drop]
          exact hviews ▸ .more hfeed hrest

/-- A stream of frames that decode comes back as it was: no feed raises, and what
the feeds return, up to the one that returns nothing, is what the frames decode
to. -/
theorem feeds_drain {frames : List Bytes} (hframes : ∀ f ∈ frames, IsFrame crc32 f)
    {views : List PacketView} (hviews : List.Forall₂ (DecodesTo crc32) frames views)
    {maxPerFeed : Int} (hmax : 1 ≤ maxPerFeed) {chunks : List Bytes}
    (hchunks : chunks.flatten = frames.flatten) :
    ∃ (received : List (List PacketView)) (d : StreamingDecoder) (rest : List PacketView)
        (d' : StreamingDecoder),
      feeds crc32 (.new maxPerFeed) chunks = (received.map .ok, d) ∧ Drains crc32 d rest d' ∧
        received.flatten ++ rest = views ∧ d'.pending = 0 := by
  have hstart : (StreamingDecoder.new maxPerFeed).buf ++ chunks.flatten ++ [] = frames.flatten := by
    rw [List.append_nil, hchunks]
    rfl
  have hdecode := decodes_of_mem hviews
  obtain ⟨received, hreceived⟩ := feeds_isOk hframes hdecode hstart
  obtain ⟨delivered, todo, rfl, hdelivered, hkept⟩ := feeds_deliver hframes hstart
  rw [List.append_nil] at hkept
  rw [hreceived, returned_map_ok] at hdelivered
  obtain ⟨rest, hrest⟩ := exists_views fun f hf => hdecode f (List.mem_append_right _ hf)
  have hmax' : 1 ≤ (feeds crc32 (.new maxPerFeed) chunks).2.maxPerFeed := by
    rw [feeds_maxPerFeed]
    exact hmax
  have hdrains :=
    drains_of_frames (fun f hf => hframes f (List.mem_append_right _ hf)) hrest hmax' hkept
  refine ⟨received, _, rest, _, Prod.ext hreceived rfl, hdrains, ?_, rfl⟩
  exact decodesTo_unique (List.rel_append hdelivered hrest) hviews

/-! ## Encoded packets -/

/-- What the encoder writes is a frame of a stream, if the decoder takes its
header and the flags announce a trailer only when there is one. -/
theorem isFrame_of_encode {p : Packet} {checksum : Bool} {frame : Bytes}
    (hencode : encode crc32 p checksum = .ok frame)
    (hflags : checksum = false → p.flags.land FLAG_HAS_TRAILER = 0)
    (hheader : HeaderOk crc32 frame) : IsFrame crc32 frame := by
  obtain ⟨body, fields, _, hfields, hframe⟩ := encode_eq_ok hencode
  refine ⟨hheader, ?_⟩
  have hassoc : frame = fields.bytes crc32 ++
      (body ++ trailerOf crc32 checksum (fields.bytes crc32 ++ body)) :=
    hframe.trans (List.append_assoc _ _ _)
  have hmod := hfields.payloadLen_mod
  have htotal : total frame = (fields.bytes crc32 ++ body).length := hassoc ▸ total_bytes hmod
  have htrailer : HasTrailer frame ↔ checksum = true := by
    rw [HasTrailer, hassoc, flags_bytes, Nat.mod_eq_of_lt hfields.flags_lt]
    exact wireFlags_trailer hflags hfields.flags_eq
  have hlen : (trailerOf crc32 checksum (fields.bytes crc32 ++ body)).length =
      if HasTrailer frame then checksumSize else 0 := by
    cases checksum with
    | true =>
        rw [if_pos (htrailer.mpr rfl)]
        exact BigEndian.toBytes_length 4 _
    | false =>
        rw [if_neg fun h => Bool.noConfusion (htrailer.mp h)]
        rfl
  rw [frameSize, htotal, ← hlen, ← List.length_append, ← hframe]

/-- Packets that are encoded, concatenated and cut into chunks come back as they
were, whatever their payloads hold: no feed raises, and what the feeds return, up
to the one that returns nothing, is what the frames decode to. -/
theorem feeds_reassemble (crc32 : Bytes → UInt32) (sent : List (Packet × Bool))
    (frames : List Bytes) (views : List PacketView) (maxPerFeed : Int) (chunks : List Bytes)
    (hencode : List.Forall₂ (fun s f => encode crc32 s.1 s.2 = .ok f) sent frames)
    (hflags : ∀ s ∈ sent, s.2 = false → s.1.flags.land FLAG_HAS_TRAILER = 0)
    (hviews : List.Forall₂ (fun f v => decode crc32 f = .ok v) frames views)
    (hmax : 1 ≤ maxPerFeed) (hchunks : chunks.flatten = frames.flatten) :
    ∃ (received : List (List PacketView)) (d : StreamingDecoder) (rest : List PacketView)
        (d' : StreamingDecoder),
      feeds crc32 (.new maxPerFeed) chunks = (received.map .ok, d) ∧ Drains crc32 d rest d' ∧
        received.flatten ++ rest = views ∧ d'.pending = 0 := by
  refine feeds_drain ?_ hviews hmax hchunks
  have hdecode := decodes_of_mem hviews
  clear hviews hchunks
  induction hencode with
  | nil => simp
  | @cons s f sent frames hs _ ih =>
      intro x hx
      rcases List.mem_cons.mp hx with rfl | hx
      · obtain ⟨v, hv⟩ := hdecode x List.mem_cons_self
        exact isFrame_of_encode hs (hflags s List.mem_cons_self) (decode_eq_ok_iff.mp hv).1.header
      · exact ih (fun s' hs' => hflags s' (List.mem_cons_of_mem _ hs'))
          (fun y hy => hdecode y (List.mem_cons_of_mem _ hy)) x hx

/-- A ping. -/
def ping : Packet where
  sessionId := List.replicate 16 0
  messageId := List.replicate 16 1
  operation := 0x04
  sessionId_length := Isa.Frame.zeroId_length
  messageId_length := Isa.Frame.oneId_length
  correlationId_length := Isa.Frame.zeroId_length
  symbols_wellFormed := noSymbols_wellFormed
  responseSymbols_wellFormed := noSymbols_wellFormed
  metadata_nodupKeys := noMetadata_nodupKeys

/-- A ping with a checksum and one without come back, cut inside the first header
and one packet at a time. -/
theorem feeds_reassemble_pings :
    ∃ first second v w, encode Crc32.ieee ping true = .ok first ∧
      encode Crc32.ieee ping false = .ok second ∧ decode Crc32.ieee first = .ok v ∧
      decode Crc32.ieee second = .ok w ∧
      ∃ (received : List (List PacketView)) (d : StreamingDecoder) (rest : List PacketView)
          (d' : StreamingDecoder),
        feeds Crc32.ieee (.new 1) [first.take 50, first.drop 50 ++ second] =
            (received.map .ok, d) ∧
          Drains Crc32.ieee d rest d' ∧ received.flatten ++ rest = [v, w] ∧ d'.pending = 0 := by
  have hfirst : (encode Crc32.ieee ping true >>= decode Crc32.ieee).isOk = true := by
    decide +kernel
  have hsecond : (encode Crc32.ieee ping false >>= decode Crc32.ieee).isOk = true := by
    decide +kernel
  obtain ⟨v, hv⟩ := Outcome.isOk_iff.mp hfirst
  obtain ⟨w, hw⟩ := Outcome.isOk_iff.mp hsecond
  obtain ⟨first, hfirst, hv⟩ := Outcome.bind_eq_ok_iff.mp hv
  obtain ⟨second, hsecond, hw⟩ := Outcome.bind_eq_ok_iff.mp hw
  refine ⟨first, second, v, w, hfirst, hsecond, hv, hw, ?_⟩
  refine feeds_reassemble Crc32.ieee [(ping, true), (ping, false)] [first, second] [v, w] 1 _
    (.cons hfirst (.cons hsecond .nil)) ?_ (.cons hv (.cons hw .nil)) (by decide) ?_
  · simp only [List.forall_mem_cons]
    exact ⟨fun h => Bool.noConfusion h, fun _ => by decide, by simp⟩
  · simp only [List.flatten_cons, List.flatten_nil, List.append_nil, ← List.append_assoc,
      List.take_append_drop]

/-! ## Frames that are refused -/

/-- A refused frame in front of the buffer raises in every feed, and nothing is
ever trimmed again. -/
theorem feeds_of_refused {bad : Bytes} (hbad : IsFrame crc32 bad) {e : PyError}
    (hdecode : decode crc32 bad = .err e) {d : StreamingDecoder} (hmax : 1 ≤ d.maxPerFeed)
    (hbuf : bad <+: d.buf) (chunks : List Bytes) :
    feeds crc32 d chunks =
      (chunks.map fun _ => .err e, { d with buf := d.buf ++ chunks.flatten }) := by
  induction chunks generalizing d with
  | nil => rw [StreamingDecoder.feeds, List.flatten_nil, List.append_nil, List.map_nil]
  | cons data chunks ih =>
      obtain ⟨more, hmore⟩ := hbuf
      have harrived : d.buf ++ data = [] ++ (bad ++ (more ++ data)) := by
        rw [← hmore, List.append_assoc, List.nil_append]
      have hfeed : d.feed crc32 data = (.err e, { d with buf := d.buf ++ data }) := by
        rw [feed_eq, harrived, scanLoop_eq, scanRound_of_frame hbad rfl (by simpa [Scan.start]),
          hdecode]
        rfl
      rw [StreamingDecoder.feeds, hfeed]
      dsimp only
      rw [ih (d := { d with buf := d.buf ++ data }) hmax ⟨more ++ data, by rw [← hmore, List.append_assoc]⟩,
        List.flatten_cons, List.append_assoc, List.map_cons]

/-- What a frame decodes to, if it does. -/
def decoded? (crc32 : Bytes → UInt32) (f : Bytes) : Option PacketView :=
  match decode crc32 f with
  | .ok v => some v
  | _ => none

/-- The decoder gets past all frames of a stream: after the chunks and enough empty
feeds, every frame that decodes was returned, once and in order, and nothing is
left in the buffer. -/
def Recovers (crc32 : Bytes → UInt32) (maxPerFeed : Int) (chunks frames : List Bytes) : Prop :=
  ∃ n, returned (feeds crc32 (.new maxPerFeed) (chunks ++ List.replicate n [])).1 =
      frames.filterMap (decoded? crc32) ∧
    (feeds crc32 (.new maxPerFeed) (chunks ++ List.replicate n [])).2.pending = 0

/-- A run over two lists of chunks. -/
theorem feeds_append (d : StreamingDecoder) (chunks chunks' : List Bytes) :
    feeds crc32 d (chunks ++ chunks') =
      ((feeds crc32 d chunks).1 ++ (feeds crc32 (feeds crc32 d chunks).2 chunks').1,
        (feeds crc32 (feeds crc32 d chunks).2 chunks').2) := by
  induction chunks generalizing d with
  | nil => rfl
  | cons data chunks ih => rw [List.cons_append, StreamingDecoder.feeds, ih]; rfl

/-- Feeding nothing until nothing is returned is a run of empty chunks. -/
theorem feeds_of_drains {d d' : StreamingDecoder} {views : List PacketView}
    (h : Drains crc32 d views d') :
    ∃ n, returned (feeds crc32 d (List.replicate n [])).1 = views ∧
      (feeds crc32 d (List.replicate n [])).2 = d' := by
  induction h with
  | stop hfeed =>
      refine ⟨1, ?_, ?_⟩
      · rw [List.replicate_one, StreamingDecoder.feeds, hfeed]
        rfl
      · rw [List.replicate_one, StreamingDecoder.feeds, hfeed]
        rfl
  | more hfeed _ ih =>
      obtain ⟨n, hviews, hd⟩ := ih
      refine ⟨n + 1, ?_, ?_⟩
      · rw [List.replicate_succ, StreamingDecoder.feeds, hfeed, returned, List.flatMap_cons,
          ← returned, hviews]
        rfl
      · rw [List.replicate_succ, StreamingDecoder.feeds, hfeed]
        exact hd

/-- The packets of frames that all decode. -/
theorem filterMap_decoded? {frames : List Bytes} {views : List PacketView}
    (h : List.Forall₂ (DecodesTo crc32) frames views) :
    frames.filterMap (decoded? crc32) = views := by
  induction h with
  | nil => rfl
  | @cons f v _ _ hv _ ih =>
      have hsome : decoded? crc32 f = some v := by
        have hv : decode crc32 f = .ok v := hv
        rw [decoded?, hv]
      rw [List.filterMap_cons_some hsome, ih]

/-- A run that gets past all frames has decoded all of them. -/
theorem decodes_of_recovers {maxPerFeed : Int} {chunks frames : List Bytes}
    (hframes : ∀ f ∈ frames, IsFrame crc32 f) (hchunks : chunks.flatten = frames.flatten)
    (h : Recovers crc32 maxPerFeed chunks frames) : ∀ f ∈ frames, ∃ v, decode crc32 f = .ok v := by
  obtain ⟨n, _, hpending⟩ := h
  have hstart : (StreamingDecoder.new maxPerFeed).buf ++
      (chunks ++ List.replicate n []).flatten ++ [] = frames.flatten := by
    simp [StreamingDecoder.new, hchunks]
  obtain ⟨delivered, todo, rfl, hdelivered, hkept⟩ := feeds_deliver hframes hstart
  -- nothing is left in the buffer, so no frame is left
  rw [List.append_nil, List.eq_nil_of_length_eq_zero hpending] at hkept
  have hnone : todo = [] := by
    cases todo with
    | nil => rfl
    | cons f fs =>
        have hne := (hframes f (by simp)).ne_nil
        exact absurd (List.append_eq_nil_iff.mp hkept.symm).1 hne
  subst hnone
  rw [List.append_nil]
  exact decodes_of_mem hdelivered

/-- However a stream of frames is cut into chunks, the decoder gets past all of
them exactly when all of them decode. -/
theorem recovers_iff (crc32 : Bytes → UInt32) (maxPerFeed : Int) (frames chunks : List Bytes)
    (hmax : 1 ≤ maxPerFeed) (hframes : ∀ f ∈ frames, IsFrame crc32 f)
    (hchunks : chunks.flatten = frames.flatten) :
    Recovers crc32 maxPerFeed chunks frames ↔ ∀ f ∈ frames, ∃ v, decode crc32 f = .ok v := by
  constructor
  · exact decodes_of_recovers hframes hchunks
  · intro h
    obtain ⟨views, hviews⟩ := exists_views h
    obtain ⟨received, d, rest, d', hrun, hdrains, hall, hpending⟩ :=
      feeds_drain hframes hviews hmax hchunks
    obtain ⟨n, hrest, hd'⟩ := feeds_of_drains hdrains
    refine ⟨n, ?_, ?_⟩
    · rw [feeds_append, hrun]
      dsimp only
      rw [returned, List.flatMap_append, ← returned, ← returned, hrest, returned_map_ok, hall,
        filterMap_decoded? hviews]
    · rw [feeds_append, hrun]
      dsimp only
      rw [hd', hpending]

/-- The frame of a request with a given payload. -/
def requestFrame (payload : Bytes) : Bytes :=
  Header.bytes Crc32.ieee
    { version := 0x0100
      flags := 0x0001
      messageId := List.replicate 16 0
      correlationId := List.replicate 16 0
      deadlineMs := 0
      payloadLen := payload.length
      messageId_length := Isa.Frame.zeroId_length
      correlationId_length := Isa.Frame.zeroId_length } ++ payload

/-- Such a frame has a valid header, whatever its payload is. -/
theorem isFrame_requestFrame {payload : Bytes} (h : payload.length ≤ maxTlvValueSize) :
    IsFrame Crc32.ieee (requestFrame payload) := by
  have hmod : payload.length % 2 ^ 32 = payload.length :=
    Nat.mod_eq_of_lt (h.trans_lt (by decide))
  have hlen : payloadLen (requestFrame payload) = payload.length := by
    rw [requestFrame, payloadLen_bytes, hmod]
  have hflag : ¬ HasTrailer (requestFrame payload) := by
    have hclear : ¬ 0x0001 % 2 ^ 16 &&& 0x0100 ≠ 0 := by decide
    rw [HasTrailer, requestFrame, flags_bytes]
    exact hclear
  refine ⟨⟨?_, ?_, ?_, ?_, hlen.trans_le h⟩, ?_⟩
  · simp [requestFrame, headerSize]
  · exact field_magic
  · exact version_bytes
  · exact headerCrcOk_bytes
  · rw [frameSize, if_neg hflag, total, hlen, requestFrame, List.length_append,
      Header.bytes_length, Nat.add_zero]

/-- The decoder gets past two requests without operands, however they are cut. -/
theorem recovers_requests :
    Recovers Crc32.ieee 256 [requestFrame [0x00, 0x00], requestFrame [0x04, 0x00]]
      [requestFrame [0x00, 0x00], requestFrame [0x04, 0x00]] := by
  refine (recovers_iff Crc32.ieee 256 _ _ (by decide) ?_ rfl).mpr ?_
  · simp only [List.forall_mem_cons]
    exact ⟨isFrame_requestFrame (by decide), isFrame_requestFrame (by decide), by simp⟩
  · simp only [List.forall_mem_cons]
    exact ⟨Outcome.isOk_iff.mp (by decide +kernel), Outcome.isOk_iff.mp (by decide +kernel),
      by simp⟩

/-- A frame whose operand has a reserved tag is never left behind: the request
after it does not come back. -/
theorem refused_frame_stays :
    ¬ ∀ (maxPerFeed : Int) (frames chunks : List Bytes), 1 ≤ maxPerFeed →
      (∀ f ∈ frames, IsFrame Crc32.ieee f) → chunks.flatten = frames.flatten →
        Recovers Crc32.ieee maxPerFeed chunks frames := by
  intro h
  let frames := [requestFrame [0x00, 0x01, 0x0B], requestFrame [0x00, 0x00]]
  have hframes : ∀ f ∈ frames, IsFrame Crc32.ieee f := by
    simp only [frames, List.forall_mem_cons]
    exact ⟨isFrame_requestFrame (by decide), isFrame_requestFrame (by decide), by simp⟩
  have hrecovers := h 256 frames frames (by decide) hframes rfl
  obtain ⟨v, hv⟩ := decodes_of_recovers hframes rfl hrecovers _ List.mem_cons_self
  have hrefused : (decode Crc32.ieee (requestFrame [0x00, 0x01, 0x0B])).isOk = false := by
    decide +kernel
  rw [hv] at hrefused
  cases hrefused

end Aicl.Bin

import Aicl.Bin.Decode

/-!
# What the Python decoder accepts

The decoder of the Python package as conditions on the bytes of a frame, and the
view that it returns.  The conditions mention the fields of the header and the
operand grammar only.

Main results:

- Theorem {lit}`validateHeader_decides`: the checks on a header.
- Theorem {lit}`readContents_eq_ok_iff`: the operands of a payload; bytes that
  follow them are not looked at.
- Theorem {lit}`decode_eq_ok_iff`: the views that are returned.
- Theorem {lit}`decode_ne_panic`: decoding returns or raises.
-/

namespace Aicl.Bin

open Isa (Varint Tree DerivesList IsNull Payload phrases_derives_iff)
open Isa.Frame
open Outcome (Decides Reads)

variable {crc32 : Bytes → UInt32}

/-! ## The header -/

/-- What {lit}`validate_header` requires. -/
structure HeaderOk (crc32 : Bytes → UInt32) (data : Bytes) : Prop where
  length_le : headerSize ≤ data.length
  magic_eq : field data 0 4 = magic
  version_eq : version data = 0x0100
  headerCrc : HeaderCrcOk crc32 data
  limit : payloadLen data ≤ maxTlvValueSize

/-- An unsigned word inside the buffer. -/
theorem unpackWord_eq {w offset : Nat} {data : Bytes} (h : offset + w ≤ data.length) :
    unpackWord w data offset = .ok (BigEndian.ofBytes (field data offset (offset + w))) := by
  unfold unpackWord
  rw [unpackFrom_of_le h]
  rfl

/-- The checks on a header. -/
theorem validateHeader_decides (data : Bytes) :
    (validateHeader crc32 data).Decides (HeaderOk crc32 data) := by
  unfold validateHeader raiseIf
  refine Decides.congr (P := ¬ data.length < headerSize ∧ ¬ getSlice data 0 4 ≠ magic ∧
    ¬ version data ∉ supportedVersionWords ∧
      ¬ BigEndian.ofBytes (field data 52 56) ≠ (crc32 (getSlice data 0 headerCrcScope)).toNat ∧
        ¬ maxTlvValueSize < payloadLen data)
    (Decides.bind (Outcome.failIf_decides _ _) fun hlen => ?_) ?_
  · have hle : 56 ≤ data.length := Nat.le_of_not_lt hlen
    refine Decides.bind (Outcome.failIf_decides _ _) fun _ => ?_
    rw [unpackWord_eq (by omega), Outcome.ok_bind]
    refine Decides.bind (Outcome.failIf_decides _ _) fun _ => ?_
    rw [unpackWord_eq (by simp only [headerCrcScope]; omega), Outcome.ok_bind]
    refine Decides.bind (Outcome.failIf_decides _ _) fun _ => ?_
    rw [unpackWord_eq (by omega), Outcome.ok_bind]
    exact Outcome.failIf_decides _ _
  · simp only [not_lt, not_not, supportedVersionWords, List.mem_singleton]
    constructor
    · rintro ⟨hlen, hmagic, hversion, hcrc, hlimit⟩
      exact ⟨hlen, hmagic, hversion, hcrc, hlimit⟩
    · rintro ⟨hlen, hmagic, hversion, hcrc, hlimit⟩
      exact ⟨hlen, hmagic, hversion, hcrc, hlimit⟩

/-- A header is valid on its own exactly when it is in front of its frame. -/
theorem headerOk_take {data : Bytes} (h : headerSize ≤ data.length) :
    HeaderOk crc32 (data.take headerSize) ↔ HeaderOk crc32 data := by
  have hfield : ∀ {a b : Nat}, b ≤ headerSize → field (data.take headerSize) a b = field data a b :=
    field_take
  have hlen : (data.take headerSize).length = headerSize := List.length_take_of_le h
  have htake : (data.take headerSize).take 52 = data.take 52 := by
    rw [List.take_take]
    rfl
  have hmagic : field (data.take headerSize) 0 4 = field data 0 4 := hfield (by decide)
  have hversion : version (data.take headerSize) = version data :=
    congrArg BigEndian.ofBytes (hfield (by decide))
  have hcrc : HeaderCrcOk crc32 (data.take headerSize) ↔ HeaderCrcOk crc32 data := by
    rw [HeaderCrcOk, HeaderCrcOk, htake, hfield (by decide)]
  have hpayload : payloadLen (data.take headerSize) = payloadLen data :=
    congrArg BigEndian.ofBytes (hfield (by decide))
  constructor
  · rintro ⟨_, h1, h2, h3, h4⟩
    exact ⟨h, hmagic ▸ h1, hversion ▸ h2, hcrc.mp h3, hpayload ▸ h4⟩
  · rintro ⟨_, h1, h2, h3, h4⟩
    exact ⟨Nat.le_of_eq hlen.symm, hmagic.symm ▸ h1, hversion.symm ▸ h2, hcrc.mpr h3,
      hpayload.symm ▸ h4⟩

/-! ## The payload -/

/-- The operands at the front of a payload, as a view reads them: a payload
without a count has none. -/
def Holds (payload : Bytes) (ts : List Tree) : Prop :=
  (payload.length ≤ 1 ∧ ts = []) ∨
    ∃ opcode b post, payload = b ++ post ∧ Payload IsNull opcode ts b

/-- The symbols of a view, put in their places. -/
def Contents.ofSymbols (symbols : List Symbol) : Contents :=
  symbols.foldl Contents.file .empty

/-- One round of the operand loop of a view. -/
theorem fileStep_reads {L : Nat} (i : Nat) (c : Contents) :
    Reads L (fileStep i c)
      (fun c' b => ∃ t, Isa.Derives IsNull t b ∧ c' = c.file (toSymbol t)) IsOperandError := by
  refine ((decodeSymbol_reads L).map c.file).congr fun c' b => ?_
  constructor
  · rintro ⟨_, ⟨t, ht, rfl⟩, rfl⟩
    exact ⟨t, ht, rfl⟩
  · rintro ⟨t, ht, rfl⟩
    exact ⟨_, ⟨t, ht, rfl⟩, rfl⟩

/-- The operand loop of a view. -/
theorem fileLoop_read {L : Nat} (n : Nat) :
    Reads L (Outcome.loop fileStep n 0 .empty)
      (fun c b => ∃ ts, ts.length = n ∧ DerivesList IsNull ts b ∧
        c = Contents.ofSymbols (toSymbols ts)) IsOperandError := by
  refine (Reads.loop fileStep_reads n 0 .empty).congr fun c b => ?_
  simp only [phrases_derives_iff, Contents.ofSymbols, toSymbols_eq_map, List.foldl_map]

/-- A count and that many operands. -/
theorem countedContents_read {L : Nat} :
    Reads L
      (fun data pos => decodeVarint data pos >>= fun r =>
        Outcome.loop fileStep r.1 0 .empty data r.2)
      (fun c b => ∃ ts len body, b = len ++ body ∧ Varint ts.length len ∧
        DerivesList IsNull ts body ∧ c = Contents.ofSymbols (toSymbols ts)) IsOperandError := by
  refine (decodeVarint_reads.bind fun n _ _ => fileLoop_read n).congr fun c b => ?_
  constructor
  · rintro ⟨n, len, body, rfl, hv, ts, rfl, hts, rfl⟩
    exact ⟨ts, len, body, rfl, hv, hts, rfl⟩
  · rintro ⟨ts, len, body, rfl, hv, hts, rfl⟩
    exact ⟨ts.length, len, body, rfl, hv, ts, rfl, hts, rfl⟩

/-- Reading the operands of a payload, as a postcondition. -/
theorem readContents_sat (payload : Bytes) :
    (readContents payload).Sat
      (fun c => ∃ ts, Holds payload ts ∧ c = Contents.ofSymbols (toSymbols ts))
      IsOperandError := by
  unfold readContents
  split
  next hlong =>
    obtain ⟨opcode, rest, rfl⟩ : ∃ opcode rest, payload = opcode :: rest :=
      List.exists_cons_of_length_pos (by omega)
    have hread := countedContents_read.sound [opcode] rest (Nat.lt_succ_self _)
    rw [← Outcome.bind_assoc]
    refine Outcome.Sat.bind hread ?_
    rintro ⟨c, pos⟩ ⟨b, post, rfl, ⟨ts, len, body, rfl, hv, hts, rfl⟩, _⟩
    exact ⟨ts, .inr ⟨opcode, opcode :: (len ++ body), post, rfl, .mk hv hts⟩, rfl⟩
  next hshort => exact ⟨[], .inl ⟨by omega, rfl⟩, rfl⟩

/-- Every operand list at the front of a payload is read. -/
theorem readContents_of_holds {payload : Bytes} {ts : List Tree} (h : Holds payload ts) :
    readContents payload = .ok (Contents.ofSymbols (toSymbols ts)) := by
  unfold readContents
  rcases h with ⟨hshort, rfl⟩ | ⟨opcode, b, post, rfl, hb⟩
  · rw [if_neg (by omega)]
    rfl
  · cases hb with
    | @mk len body hv hts =>
        have hpos := hv.1.length_pos
        have hread := countedContents_read.complete
          ⟨ts, len, body, rfl, hv, hts, rfl⟩ [opcode] post (Nat.lt_succ_self _)
        rw [if_pos (by simp only [List.length_append, List.length_cons]; omega),
          ← Outcome.bind_assoc]
        refine Outcome.bind_eq_ok_iff.mpr ⟨_, hread, rfl⟩

/-- The operands of a payload. -/
theorem readContents_eq_ok_iff {payload : Bytes} {c : Contents} :
    readContents payload = .ok c ↔
      ∃ ts, Holds payload ts ∧ c = Contents.ofSymbols (toSymbols ts) := by
  constructor
  · exact (readContents_sat payload).of_eq_ok
  · rintro ⟨ts, h, rfl⟩
    exact readContents_of_holds h

/-! ## Frames -/

/-- Where the bytes of a view end: a frame that goes on after its payload is
taken to have a trailer, which counts as part of the payload. -/
def payloadEnd (data : Bytes) : Nat :=
  if total data < data.length then total data + checksumSize else total data

/-- The bytes that a view reads its operands from. -/
def region (data : Bytes) : Bytes := field data headerSize (payloadEnd data)

/-- What {lit}`decode` requires of a frame before it reads the operands. -/
structure FrameOk (crc32 : Bytes → UInt32) (data : Bytes) : Prop where
  header : HeaderOk crc32 data
  complete : total data ≤ data.length
  trailer : total data < data.length →
    total data + checksumSize ≤ data.length ∧ TrailerCrcOk crc32 data

/-- The header of a frame. -/
def headerOf (data : Bytes) : Header where
  magic := field data 0 4
  version := version data
  flags := flags data
  messageId := field data 8 24
  correlationId := field data 24 40
  deadlineMs := BigEndian.ofBytes (field data 40 44)
  payloadLength := payloadLen data

/-- The view of a frame with given operands. -/
def viewOf (data : Bytes) (ts : List Tree) : PacketView where
  raw := data
  hdrEnd := headerSize
  payEnd := payloadEnd data
  hdr := headerOf data
  operation := operationOf (region data)
  contents := .ofSymbols (toSymbols ts)

/-- A valid header is unpacked. -/
theorem unpackHeader_eq {data : Bytes} (h : HeaderOk crc32 data) :
    unpackHeader (getSlice data 0 headerSize) = .ok (headerOf data) := by
  have hle := h.length_le
  have hlen : (data.take headerSize).length = headerSize := List.length_take_of_le hle
  have hslice : getSlice data 0 headerSize = data.take headerSize := rfl
  have hwhole : getSlice (data.take headerSize) 0 (0 + headerSize) = data.take headerSize := by
    rw [Nat.zero_add, getSlice, List.drop_zero, Nat.sub_zero, List.take_take, Nat.min_self]
  have hfield : ∀ {a b : Nat}, b ≤ headerSize →
      getSlice (data.take headerSize) a b = field data a b := field_take
  have hmagic : ¬ field data 0 4 ≠ magic := not_not_intro h.magic_eq
  have hversion : ¬ version data ∉ supportedVersionWords := by simp [supportedVersionWords, h.version_eq]
  have hfour : getSlice (data.take headerSize) 0 4 = field data 0 4 := hfield (by decide)
  have hword : BigEndian.ofBytes (getSlice (data.take headerSize) 4 6) = version data :=
    congrArg BigEndian.ofBytes (hfield (by decide))
  unfold unpackHeader raiseIf
  rw [hslice, Outcome.failIf_of_not (by omega), Outcome.ok_bind, unpackFrom_of_le (by omega),
    Outcome.ok_bind, hwhole]
  simp only [hfour, hword]
  rw [Outcome.failIf_of_not hmagic, Outcome.ok_bind, Outcome.failIf_of_not hversion,
    Outcome.ok_bind]
  simp only [headerOf, flags, payloadLen, hfield (show 8 ≤ headerSize by decide),
    hfield (show 24 ≤ headerSize by decide), hfield (show 40 ≤ headerSize by decide),
    hfield (show 44 ≤ headerSize by decide), hfield (show 48 ≤ headerSize by decide)]
  rfl

/-- A view of a frame with a valid header is made from its operands. -/
theorem init_eq {data : Bytes} (h : HeaderOk crc32 data) {payEnd : Nat}
    (hend : payEnd = payloadEnd data) :
    PacketView.init data headerSize payEnd =
      readContents (region data) >>= fun contents =>
        .ok { viewOf data [] with contents := contents } := by
  subst hend
  unfold PacketView.init
  rw [unpackHeader_eq h, Outcome.ok_bind]
  rfl

/-- The trailer check of a frame. -/
theorem validateTrailer_decides {data : Bytes} :
    (validateTrailer crc32 (getSlice data 0 (total data))
      (BigEndian.ofBytes (field data (total data) (total data + 4)))).Decides
        (TrailerCrcOk crc32 data) := by
  refine Decides.congr (Outcome.failIf_decides _ _) ?_
  rw [not_not, eq_comm]
  rfl

/-- What is left to do when the header is valid. -/
theorem decode_of_headerOk {data : Bytes} (h : HeaderOk crc32 data) :
    decode crc32 data = (do
      raiseIf (data.length < total data) .truncatedPacketError
        (s!"Buffer truncated: declared payload_length={payloadLen data}, " ++
          s!"available={data.length - headerSize}")
      if total data < data.length then
        let expectedCrc ← unpackWord 4 data (total data)
        validateTrailer crc32 (getSlice data 0 (total data)) expectedCrc
        PacketView.init data headerSize (total data + checksumSize)
      else PacketView.init data headerSize (total data)) := by
  have hle := h.length_le
  have hle' : 56 ≤ data.length := hle
  have hval : validateHeader crc32 (getSlice data 0 headerSize) = .ok () :=
    (validateHeader_decides _).eq_ok_iff.mpr ((headerOk_take hle).mpr h)
  unfold decode
  rw [raiseIf, Outcome.failIf_of_not (by omega), Outcome.ok_bind, hval, Outcome.ok_bind,
    unpackWord_eq (by omega), Outcome.ok_bind, validateFlags, Outcome.pure_eq, Outcome.ok_bind,
    unpackWord_eq (by omega), Outcome.ok_bind]
  rfl

/-- A frame that meets the conditions is read. -/
theorem decode_of_frameOk {data : Bytes} (h : FrameOk crc32 data) :
    decode crc32 data =
      readContents (region data) >>= fun contents =>
        .ok { viewOf data [] with contents := contents } := by
  rw [decode_of_headerOk h.header, raiseIf,
    Outcome.failIf_of_not (Nat.not_lt_of_le h.complete), Outcome.ok_bind]
  split
  next hlong =>
    rcases h.trailer hlong with ⟨hroom, hcrc⟩
    have hroom' : total data + 4 ≤ data.length := hroom
    rw [unpackWord_eq hroom', Outcome.ok_bind, validateTrailer_decides.eq_ok_iff.mpr hcrc,
      Outcome.ok_bind]
    exact init_eq h.header (if_pos hlong).symm
  next hexact => exact init_eq h.header (if_neg hexact).symm

/-! ## Frames that are refused -/

/-- An exception of the package. -/
def PyError.IsPackage (e : PyError) : Prop := ∃ cls message, e = .bin cls message

/-- A guard raises an exception of the package. -/
theorem raiseIf_sat (c : Prop) [Decidable c] (cls : AiclBinError) (message : String) :
    (raiseIf c cls message).Sat (fun _ => ¬ c) PyError.IsPackage := by
  unfold raiseIf Outcome.failIf
  split
  next => exact ⟨cls, message, rfl⟩
  next h => exact h

/-- The checks on a header raise exceptions of the package. -/
theorem validateHeader_sat {data : Bytes} (h : headerSize ≤ data.length) :
    (validateHeader crc32 data).Sat (fun _ => HeaderOk crc32 data) PyError.IsPackage := by
  have hle : 56 ≤ data.length := h
  have hraises : (validateHeader crc32 data).Sat (fun _ => True) PyError.IsPackage := by
    unfold validateHeader
    refine (raiseIf_sat _ _ _).bind fun _ _ => (raiseIf_sat _ _ _).bind fun _ _ => ?_
    rw [unpackWord_eq (by omega), Outcome.ok_bind]
    refine (raiseIf_sat _ _ _).bind fun _ _ => ?_
    rw [unpackWord_eq (by simp only [headerCrcScope]; omega), Outcome.ok_bind]
    refine (raiseIf_sat _ _ _).bind fun _ _ => ?_
    rw [unpackWord_eq (by omega), Outcome.ok_bind]
    exact (raiseIf_sat _ _ _).mono (fun _ _ => trivial) fun _ he => he
  cases hval : validateHeader crc32 data with
  | ok u => exact (validateHeader_decides data).eq_ok_iff.mp hval
  | err e => exact hraises.of_eq_err hval
  | panic => exact hraises.ne_panic hval

/-- The frame goes on after its payload, but not for a whole trailer. -/
def CutTrailer (crc32 : Bytes → UInt32) (data : Bytes) : Prop :=
  HeaderOk crc32 data ∧ total data < data.length ∧ data.length < total data + checksumSize

/-- A frame that does not meet the conditions is refused: by an exception of the
package, unless its trailer is cut off. -/
theorem decode_refused {data : Bytes} (h : ¬ FrameOk crc32 data) :
    (decode crc32 data).Sat (fun _ => False) fun e =>
      (e.IsPackage ∧ ¬ CutTrailer crc32 data) ∨ (e = .structError ∧ CutTrailer crc32 data) := by
  by_cases hheader : HeaderOk crc32 data
  · rw [decode_of_headerOk hheader]
    by_cases hcut : data.length < total data
    · rw [raiseIf, Outcome.failIf, if_pos hcut]
      exact .inl ⟨⟨_, _, rfl⟩, fun hshort => by have hlong := hshort.2.1; omega⟩
    · have hcomplete : total data ≤ data.length := Nat.le_of_not_lt hcut
      rw [raiseIf, Outcome.failIf_of_not hcut, Outcome.ok_bind]
      by_cases hlong : total data < data.length
      · rw [if_pos hlong]
        by_cases hroom : total data + 4 ≤ data.length
        · have hcrc : ¬ TrailerCrcOk crc32 data :=
            fun hcrc => h ⟨hheader, hcomplete, fun _ => ⟨hroom, hcrc⟩⟩
          rw [unpackWord_eq hroom, Outcome.ok_bind]
          have hraises : (validateTrailer crc32 (getSlice data 0 (total data))
              (BigEndian.ofBytes (field data (total data) (total data + 4)))).Sat
                (fun _ => False) PyError.IsPackage := by
            refine (raiseIf_sat _ _ _).mono ?_ fun _ he => he
            intro _ heq
            exact hcrc (not_not.mp heq).symm
          refine Outcome.Sat.bind (hraises.mono (fun _ hok => hok) ?_) fun _ hok => hok.elim
          intro e he
          refine .inl ⟨he, fun hshort => ?_⟩
          have hend : data.length < total data + 4 := hshort.2.2
          omega
        · have hshort : CutTrailer crc32 data := ⟨hheader, hlong, Nat.lt_of_not_le hroom⟩
          unfold unpackWord unpackFrom
          rw [if_neg hroom]
          exact .inr ⟨rfl, hshort⟩
      · exact absurd ⟨hheader, hcomplete, fun hlong' => absurd hlong' hlong⟩ h
  · have hnot : ¬ CutTrailer crc32 data := fun hshort => hheader hshort.1
    unfold decode
    refine Outcome.Sat.bind ((raiseIf_sat _ _ _).mono (fun _ hc => hc) fun _ he => .inl ⟨he, hnot⟩) ?_
    intro _ hlen
    have hle : headerSize ≤ data.length := Nat.le_of_not_lt hlen
    have hslice : headerSize ≤ (getSlice data 0 headerSize).length :=
      Nat.le_of_eq (List.length_take_of_le hle).symm
    refine Outcome.Sat.bind ((validateHeader_sat hslice).mono (fun _ hok => hok)
      fun _ he => .inl ⟨he, hnot⟩) ?_
    intro _ hok
    exact absurd ((headerOk_take hle).mp hok) hheader

/-- A frame that is not refused before its operands are read meets the
conditions. -/
theorem decode_sat (data : Bytes) :
    (decode crc32 data).Sat
      (fun v => FrameOk crc32 data ∧ ∃ ts, Holds (region data) ts ∧ v = viewOf data ts)
      fun _ => True := by
  by_cases h : FrameOk crc32 data
  · rw [decode_of_frameOk h]
    refine ((readContents_sat (region data)).mono (fun _ hc => hc) fun _ _ => trivial).bind ?_
    rintro _ ⟨ts, hts, rfl⟩
    exact ⟨h, ts, hts, rfl⟩
  · exact (decode_refused h).mono (fun _ hok => hok.elim) fun _ _ => trivial

/-- The views that are returned. -/
theorem decode_eq_ok_iff {data : Bytes} {v : PacketView} :
    decode crc32 data = .ok v ↔
      FrameOk crc32 data ∧ ∃ ts, Holds (region data) ts ∧ v = viewOf data ts := by
  constructor
  · exact (decode_sat data).of_eq_ok
  · rintro ⟨h, ts, hts, rfl⟩
    rw [decode_of_frameOk h, readContents_of_holds hts]
    rfl

/-- Decoding returns or raises. -/
theorem decode_ne_panic (data : Bytes) : decode crc32 data ≠ .panic :=
  (decode_sat data).ne_panic

/-- A header with a deadline that declares a payload of {lit}`n` bytes and no
trailer. -/
def plainHeader (deadlineMs n : Nat) : Isa.Frame.Header where
  version := 0x0100
  flags := 0
  messageId := List.replicate 16 0
  correlationId := List.replicate 16 0
  deadlineMs := deadlineMs
  payloadLen := n
  messageId_length := zeroId_length
  correlationId_length := zeroId_length

end Aicl.Bin

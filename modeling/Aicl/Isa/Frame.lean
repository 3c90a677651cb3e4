import Aicl.Isa.Tags

/-!
# The frame of AICL-ISA

Section 7 of the instruction set: a frame is a header of 56 bytes, the payload
whose length the header declares, and an optional trailer.  The fields of the
header are numbers at fixed offsets; both implementations read them there.

Main results:

- Definition {lit}`Frame.payload`: the declared payload of a frame.
- Definition {lit}`Frame.Header.bytes`: the header with given fields.
- Theorem {lit}`Frame.headerCrcOk_bytes`: such a header carries its checksum.
-/

namespace Aicl.Isa.Frame

/-- The bytes of a frame from one offset up to another. -/
def field (data : Bytes) (a b : Nat) : Bytes :=
  (data.drop a).take (b - a)

/-- The version word: major in the high byte, minor in the low one. -/
def version (data : Bytes) : Nat := BigEndian.ofBytes (field data 4 6)

/-- The flag word. -/
def flags (data : Bytes) : Nat := BigEndian.ofBytes (field data 6 8)

/-- The declared payload length. -/
def payloadLen (data : Bytes) : Nat := BigEndian.ofBytes (field data 44 48)

/-- Where the declared payload ends. -/
def total (data : Bytes) : Nat := 56 + payloadLen data

/-- The declared payload. -/
def payload (data : Bytes) : Bytes := field data 56 (total data)

/-- The flags announce a trailer. -/
def HasTrailer (data : Bytes) : Prop := flags data &&& 0x0100 ≠ 0

instance (data : Bytes) : Decidable (HasTrailer data) := by
  unfold HasTrailer
  infer_instance

/-- The header checksum covers the 52 bytes before it. -/
def HeaderCrcOk (crc32 : Bytes → UInt32) (data : Bytes) : Prop :=
  BigEndian.ofBytes (field data 52 56) = (crc32 (data.take 52)).toNat

instance (crc32 : Bytes → UInt32) (data : Bytes) : Decidable (HeaderCrcOk crc32 data) := by
  unfold HeaderCrcOk
  infer_instance

/-- The trailer checksum covers the header and the payload. -/
def TrailerCrcOk (crc32 : Bytes → UInt32) (data : Bytes) : Prop :=
  BigEndian.ofBytes (field data (total data) (total data + 4)) =
    (crc32 (data.take (total data))).toNat

instance (crc32 : Bytes → UInt32) (data : Bytes) : Decidable (TrailerCrcOk crc32 data) := by
  unfold TrailerCrcOk
  infer_instance

/-- A field inside the data has its width. -/
theorem field_length {data : Bytes} {a b : Nat} (hb : b ≤ data.length) :
    (field data a b).length = b - a := by
  simp only [field, List.length_take, List.length_drop]
  omega

/-- The field between two parts of a concatenation. -/
theorem field_append {pre mid post : Bytes} {a b : Nat} (ha : pre.length = a)
    (hb : a + mid.length = b) : field (pre ++ (mid ++ post)) a b = mid := by
  subst ha hb
  simp [field]

/-- Fields behind a prefix are fields of what follows it. -/
theorem field_append_right (pre data : Bytes) (a b : Nat) :
    field (pre ++ data) (pre.length + a) (pre.length + b) = field data a b := by
  rw [field, field, List.drop_length_add_append, Nat.add_sub_add_left]

/-- Fields that end within a prefix are fields of the prefix. -/
theorem field_take {data : Bytes} {a b n : Nat} (h : b ≤ n) :
    field (data.take n) a b = field data a b := by
  simp only [field, List.drop_take, List.take_take]
  congr 1
  omega

/-- The payload has its declared length. -/
theorem payload_length {data : Bytes} (h : total data ≤ data.length) :
    (payload data).length = payloadLen data := by
  unfold payload
  rw [field_length h, total, Nat.add_sub_cancel_left]

/-- The declared length is a 32-bit number. -/
theorem payloadLen_lt (data : Bytes) : payloadLen data < 2 ^ 32 := by
  have hlt := BigEndian.ofBytes_lt (field data 44 48)
  have hlen : (field data 44 48).length ≤ 4 := List.length_take_le _ _
  calc payloadLen data < 256 ^ (field data 44 48).length := hlt
    _ ≤ 256 ^ 4 := Nat.pow_le_pow_right (by decide) hlen

/-! ## Frames with given fields -/

/-- The ASCII bytes of {lit}`AICL`. -/
def magic : Bytes := [0x41, 0x49, 0x43, 0x4C]

/-- The fields of a header; identifiers have sixteen bytes. -/
structure Header where
  version : Nat
  flags : Nat
  messageId : Bytes
  correlationId : Bytes
  deadlineMs : Nat
  payloadLen : Nat
  messageId_length : messageId.length = 16
  correlationId_length : correlationId.length = 16

/-- An identifier of zeros has sixteen bytes. -/
theorem zeroId_length : (List.replicate 16 (0 : UInt8)).length = 16 := rfl

/-- An identifier of ones has sixteen bytes. -/
theorem oneId_length : (List.replicate 16 (1 : UInt8)).length = 16 := rfl

namespace Header

/-- The 52 bytes that the header checksum covers. -/
def covered (h : Header) : Bytes :=
  magic ++ (BigEndian.toBytes 2 h.version ++ (BigEndian.toBytes 2 h.flags ++
    (h.messageId ++ (h.correlationId ++ (BigEndian.toBytes 4 h.deadlineMs ++
      (BigEndian.toBytes 4 h.payloadLen ++ List.replicate 4 0))))))

/-- The header: the covered bytes and their checksum. -/
def bytes (crc32 : Bytes → UInt32) (h : Header) : Bytes :=
  h.covered ++ BigEndian.toBytes 4 (crc32 h.covered).toNat

@[simp] theorem covered_length (h : Header) : h.covered.length = 52 := by
  simp [covered, magic, h.messageId_length, h.correlationId_length]

@[simp] theorem bytes_length (crc32 : Bytes → UInt32) (h : Header) :
    (h.bytes crc32).length = 56 := by
  simp [bytes]

end Header

variable {crc32 : Bytes → UInt32} {h : Header} {rest : Bytes}

/-- Fields of the covered bytes are fields of the frame. -/
theorem field_covered {a b : Nat} (hb : b ≤ 52) :
    field (h.bytes crc32 ++ rest) a b = field h.covered a b := by
  have htake : (h.bytes crc32 ++ rest).take 52 = h.covered := by
    rw [Header.bytes, List.append_assoc, List.take_left' h.covered_length]
  rw [← htake, field_take hb]

/-- The magic bytes of a frame with given fields. -/
@[simp] theorem field_magic : field (h.bytes crc32 ++ rest) 0 4 = magic := by
  rw [field_covered (by decide)]
  exact @field_append [] magic _ 0 4 rfl rfl

/-- The version of a frame with given fields. -/
@[simp] theorem version_bytes : version (h.bytes crc32 ++ rest) = h.version % 2 ^ 16 := by
  have hfield : field h.covered 4 6 = BigEndian.toBytes 2 h.version :=
    @field_append magic _ _ 4 6 rfl (by simp)
  rw [version, field_covered (by decide), hfield]
  exact BigEndian.ofBytes_toBytes_mod 2 h.version

/-- The flags of a frame with given fields. -/
theorem field_flags :
    field (h.bytes crc32 ++ rest) 6 8 = BigEndian.toBytes 2 h.flags := by
  rw [field_covered (by decide), Header.covered, ← List.append_assoc]
  exact field_append (by simp [magic]) (by simp)

/-- The message id of a frame with given fields. -/
theorem field_messageId : field (h.bytes crc32 ++ rest) 8 24 = h.messageId := by
  rw [field_covered (by decide), Header.covered, ← List.append_assoc, ← List.append_assoc]
  exact field_append (by simp [magic]) (by simp [h.messageId_length])

/-- The correlation id of a frame with given fields. -/
theorem field_correlationId : field (h.bytes crc32 ++ rest) 24 40 = h.correlationId := by
  rw [field_covered (by decide), Header.covered, ← List.append_assoc, ← List.append_assoc,
    ← List.append_assoc]
  exact field_append (by simp [magic, h.messageId_length]) (by simp [h.correlationId_length])

/-- The deadline of a frame with given fields. -/
theorem field_deadlineMs :
    field (h.bytes crc32 ++ rest) 40 44 = BigEndian.toBytes 4 h.deadlineMs := by
  rw [field_covered (by decide), Header.covered, ← List.append_assoc, ← List.append_assoc,
    ← List.append_assoc, ← List.append_assoc]
  exact field_append (by simp [magic, h.messageId_length, h.correlationId_length]) (by simp)

/-- The declared length of a frame with given fields. -/
theorem field_payloadLen :
    field (h.bytes crc32 ++ rest) 44 48 = BigEndian.toBytes 4 h.payloadLen := by
  rw [field_covered (by decide), Header.covered, ← List.append_assoc, ← List.append_assoc,
    ← List.append_assoc, ← List.append_assoc, ← List.append_assoc]
  exact field_append (by simp [magic, h.messageId_length, h.correlationId_length]) (by simp)

/-- The flags of a frame with given fields, as a number. -/
@[simp] theorem flags_bytes : flags (h.bytes crc32 ++ rest) = h.flags % 2 ^ 16 := by
  rw [flags, field_flags]
  exact BigEndian.ofBytes_toBytes_mod 2 h.flags

/-- The declared length of a frame with given fields, as a number. -/
@[simp] theorem payloadLen_bytes :
    payloadLen (h.bytes crc32 ++ rest) = h.payloadLen % 2 ^ 32 := by
  rw [payloadLen, field_payloadLen]
  exact BigEndian.ofBytes_toBytes_mod 4 h.payloadLen

/-- A header with given fields carries its checksum. -/
theorem headerCrcOk_bytes : HeaderCrcOk crc32 (h.bytes crc32 ++ rest) := by
  have hfield : field (h.bytes crc32 ++ rest) 52 56 =
      BigEndian.toBytes 4 (crc32 h.covered).toNat := by
    rw [Header.bytes, List.append_assoc]
    exact field_append h.covered_length (by simp)
  have htake : (h.bytes crc32 ++ rest).take 52 = h.covered := by
    rw [Header.bytes, List.append_assoc, List.take_left' h.covered_length]
  rw [HeaderCrcOk, hfield, htake]
  exact BigEndian.ofBytes_toBytes (crc32 h.covered).toNat_lt

/-- The payload of a frame with given fields, when its length is declared. -/
theorem payload_bytes {body trailer : Bytes} (hlen : h.payloadLen % 2 ^ 32 = body.length) :
    payload (h.bytes crc32 ++ (body ++ trailer)) = body := by
  rw [payload, total, payloadLen_bytes, hlen]
  exact field_append (h.bytes_length crc32) rfl

/-- Where the payload of a frame with given fields ends. -/
theorem total_bytes {body : Bytes} (hlen : h.payloadLen % 2 ^ 32 = body.length) :
    total (h.bytes crc32 ++ rest) = (h.bytes crc32 ++ body).length := by
  rw [total, payloadLen_bytes, hlen, List.length_append, h.bytes_length]

/-- A checksum of header and payload after the payload is a valid trailer. -/
theorem trailerCrcOk_bytes {body : Bytes} (hlen : h.payloadLen % 2 ^ 32 = body.length) :
    TrailerCrcOk crc32 ((h.bytes crc32 ++ body) ++
      (BigEndian.toBytes 4 (crc32 (h.bytes crc32 ++ body)).toNat ++ rest)) := by
  have htotal := @total_bytes crc32 h
    (body ++ (BigEndian.toBytes 4 (crc32 (h.bytes crc32 ++ body)).toNat ++ rest)) _ hlen
  rw [← List.append_assoc] at htotal
  rw [TrailerCrcOk, htotal, List.take_left, field_append rfl (by rw [BigEndian.toBytes_length])]
  exact BigEndian.ofBytes_toBytes (crc32 (h.bytes crc32 ++ body)).toNat_lt

end Aicl.Isa.Frame

import Aicl.Bin.Encode
import Aicl.Bin.Views

/-!
# Reading back the records

Every record of a rich field is laid out by hand in one file and taken apart by
offsets in another.  The records below are read back as they were written; a
{lit}`BlobRef` and an {lit}`AckInfo` are not, since their constructors are given
the parts in another order than they were taken.

Main results:

- Theorems {lit}`Identity.fromBytes_toBytes` to
  {lit}`metadataOfValue_metadataToBytes`: what each layout reads back.
- Theorem {lit}`BlobRef.ofValue_ne`: no value is read back as a {lit}`BlobRef`.
-/

namespace Aicl.Bin

/-! ## Numbers and texts at an offset -/

/-- The bytes of a text, counted. -/
theorem bytes_length (s : Utf8String) : s.bytes.length = s.length := rfl

/-- A byte behind a prefix. -/
theorem readByte_append_right {pre data : Bytes} {i : Nat} (h : pre.length ≤ i) :
    readByte (pre ++ data) i = readByte data (i - pre.length) := by
  rw [readByte, readByte, getItem, getItem, List.getElem?_append_right h]

/-- A byte at the front. -/
theorem readByte_front {n i : Nat} {post : Bytes} (hi : i = 0) (hn : n < 256 ^ 1) :
    readByte (BigEndian.toBytes 1 n ++ post) i = .ok n := by
  subst hi
  have hread : readByte (BigEndian.toBytes 1 n ++ post) 0 =
      .ok (BigEndian.ofBytes (BigEndian.toBytes 1 n)) := by
    simp [readByte, getItem, BigEndian.toBytes, BigEndian.ofBytes]
  rw [hread, BigEndian.ofBytes_toBytes hn]

/-- A slice behind a prefix. -/
theorem getSlice_append_right {pre data : Bytes} {a b : Nat} (h : pre.length ≤ a) :
    getSlice (pre ++ data) a b = getSlice data (a - pre.length) (b - pre.length) := by
  have hwidth : b - pre.length - (a - pre.length) = b - a := by omega
  rw [getSlice, getSlice, hwidth, List.drop_append, List.drop_of_length_le h, List.nil_append]

/-- The bytes of a field behind a prefix. -/
theorem unpackFrom_append_right {w : Nat} {pre data : Bytes} {i : Nat} (h : pre.length ≤ i) :
    unpackFrom w (pre ++ data) i = unpackFrom w data (i - pre.length) := by
  have hroom : i + w ≤ (pre ++ data).length ↔ i - pre.length + w ≤ data.length := by
    rw [List.length_append]
    omega
  have hstop : i + w - pre.length = i - pre.length + w := by omega
  simp only [unpackFrom, hroom, getSlice_append_right h, hstop]

/-- The bytes of a field at the front. -/
theorem unpackFrom_front {w i : Nat} {raw post : Bytes} (hi : i = 0) (hraw : raw.length = w) :
    unpackFrom w (raw ++ post) i = .ok raw := by
  subst hi hraw
  rw [unpackFrom_of_le (by simp), Nat.zero_add]
  simp [getSlice]

/-- A word behind a prefix. -/
theorem unpackWord_append_right {w : Nat} {pre data : Bytes} {i : Nat} (h : pre.length ≤ i) :
    unpackWord w (pre ++ data) i = unpackWord w data (i - pre.length) := by
  rw [unpackWord, unpackWord, unpackFrom_append_right h]

/-- A word at the front. -/
theorem unpackWord_front {w n i : Nat} {post : Bytes} (hi : i = 0) (hn : n < 256 ^ w) :
    unpackWord w (BigEndian.toBytes w n ++ post) i = .ok n := by
  rw [unpackWord, unpackFrom_front hi (BigEndian.toBytes_length w n), Outcome.ok_bind,
    BigEndian.ofBytes_toBytes hn]
  rfl

/-- A signed number behind a prefix. -/
theorem unpackSigned_append_right {w : Nat} {pre data : Bytes} {i : Nat} (h : pre.length ≤ i) :
    unpackSigned w (pre ++ data) i = unpackSigned w data (i - pre.length) := by
  rw [unpackSigned, unpackSigned, unpackFrom_append_right h]

/-- A signed number at the front. -/
theorem unpackSigned_front {w i : Nat} {v : Int} {raw post : Bytes} (hi : i = 0) (hw : 0 < w)
    (hraw : packInt true w v = .ok raw) : unpackSigned w (raw ++ post) i = .ok v := by
  rw [unpackSigned, unpackFrom_front hi (packInt_length hraw), Outcome.ok_bind]
  obtain ⟨hrange, rfl⟩ := packInt_eq_ok_iff.mp hraw
  rw [unpackInt_packed hw hrange]
  rfl

/-- A text behind a prefix. -/
theorem readText_append_right {pre data : Bytes} {a b : Nat} (h : pre.length ≤ a) :
    readText (pre ++ data) a b = readText data (a - pre.length) (b - pre.length) := by
  rw [readText, readText, getSlice_append_right h]

/-- The bytes of a text are decoded. -/
theorem decodeUtf8_bytes (s : Utf8String) : decodeUtf8 s.bytes = .ok s := by
  rw [decodeUtf8, Utf8String.ofBytes?_bytes]

/-- A text at the front. -/
theorem readText_front {s : Utf8String} {a b : Nat} {post : Bytes} (ha : a = 0)
    (hb : b = s.length) : readText (s.bytes ++ post) a b = .ok s := by
  subst ha hb
  have hslice : getSlice (s.bytes ++ post) 0 s.length = s.bytes := by
    rw [getSlice, List.drop_zero, Nat.sub_zero, List.take_left' (bytes_length s)]
  rw [readText, hslice, decodeUtf8_bytes]

/-! ## Packed fields -/

/-- The first field of several, when it is unsigned. -/
theorem pack_unsigned {w : Nat} {v : Int} {fields : List (Format × Int)} {bs : Bytes}
    (h : pack (((false, w), v) :: fields) = .ok bs) :
    ∃ n rest, v = (n : Nat) ∧ n < 256 ^ w ∧ pack fields = .ok rest ∧
      bs = BigEndian.toBytes w n ++ rest := by
  obtain ⟨raw, hraw, h⟩ := Outcome.bind_eq_ok_iff.mp h
  obtain ⟨rest, hrest, h⟩ := Outcome.bind_eq_ok_iff.mp h
  cases h
  obtain ⟨n, hv, hn, rfl⟩ := packInt_unsigned hraw
  exact ⟨n, rest, hv, hn, hrest, rfl⟩

/-- The length of a text in front of it. -/
theorem pack_length {w n : Nat} {fields : List (Format × Int)} {bs : Bytes}
    (h : pack (((false, w), (n : Int)) :: fields) = .ok bs) :
    ∃ rest, n < 256 ^ w ∧ pack fields = .ok rest ∧ bs = BigEndian.toBytes w n ++ rest := by
  obtain ⟨m, rest, hm, hlt, hrest, rfl⟩ := pack_unsigned h
  obtain rfl : n = m := Int.ofNat_inj.mp hm
  exact ⟨rest, hlt, hrest, rfl⟩

/-- The first field of several, when it is signed. -/
theorem pack_signed {w : Nat} {v : Int} {fields : List (Format × Int)} {bs : Bytes}
    (h : pack (((true, w), v) :: fields) = .ok bs) :
    ∃ raw rest, packInt true w v = .ok raw ∧ raw.length = w ∧ pack fields = .ok rest ∧
      bs = raw ++ rest := by
  obtain ⟨raw, hraw, h⟩ := Outcome.bind_eq_ok_iff.mp h
  obtain ⟨rest, hrest, h⟩ := Outcome.bind_eq_ok_iff.mp h
  cases h
  exact ⟨raw, rest, hraw, packInt_length hraw, hrest, rfl⟩

/-- No field is left. -/
theorem pack_nil {bs : Bytes} (h : pack [] = .ok bs) : bs = [] := by
  cases h
  rfl

/-! ## Records -/

/-- A {lit}`QoS` is read back. -/
theorem QoS.ofValue_toBytes {q : QoS} {v : Bytes} (h : q.toBytes = .ok v) :
    QoS.ofValue v = .ok (some q) := by
  obtain ⟨priorityClass, v1, h1, hlt1, hv1, rfl⟩ := pack_unsigned h
  obtain ⟨reliability, v2, h2, hlt2, hv2, rfl⟩ := pack_unsigned hv1
  obtain ⟨ordering, v3, h3, hlt3, hv3, rfl⟩ := pack_unsigned hv2
  obtain ⟨deliveryMode, v4, h4, hlt4, hv4, rfl⟩ := pack_unsigned hv3
  obtain ⟨maxRetries, v5, h5, hlt5, hv5, rfl⟩ := pack_unsigned hv4
  obtain ⟨retryDelayMs, v6, h6, hlt6, hv6, rfl⟩ := pack_unsigned hv5
  obtain rfl := pack_nil hv6
  cases q
  simp only at h1 h2 h3 h4 h5 h6
  subst h1 h2 h3 h4 h5 h6
  rw [QoS.ofValue, if_neg (by simp)]
  simp (disch := first | assumption | omega |
    (simp only [BigEndian.toBytes_length]; first | done | omega)) only [
      readByte_append_right, readByte_front, unpackWord_append_right, unpackWord_front,
      Outcome.ok_bind, Outcome.pure_eq]

/-- A {lit}`ChunkInfo` is read back. -/
theorem ChunkInfo.ofValue_toBytes {c : ChunkInfo} {v : Bytes} (h : c.toBytes = .ok v) :
    ChunkInfo.ofValue v = .ok (some c) := by
  obtain ⟨totalChunks, v1, h1, hlt1, hv1, rfl⟩ := pack_unsigned h
  obtain ⟨chunkIndex, v2, h2, hlt2, hv2, rfl⟩ := pack_unsigned hv1
  obtain ⟨originalSize, v3, h3, hlt3, hv3, rfl⟩ := pack_unsigned hv2
  obtain ⟨chunkOffset, v4, h4, hlt4, hv4, rfl⟩ := pack_unsigned hv3
  obtain ⟨chunkSize, v5, h5, hlt5, hv5, rfl⟩ := pack_unsigned hv4
  obtain rfl := pack_nil hv5
  cases c
  simp only at h1 h2 h3 h4 h5
  subst h1 h2 h3 h4 h5
  rw [ChunkInfo.ofValue, if_neg (by simp)]
  simp (disch := first | assumption | omega |
    (simp only [BigEndian.toBytes_length]; first | done | omega)) only [
      readByte_append_right, readByte_front, unpackWord_append_right, unpackWord_front,
      Outcome.ok_bind, Outcome.pure_eq]

/-- A {lit}`Backpressure` is read back. -/
theorem Backpressure.ofValue_toBytes {bp : Backpressure} {v : Bytes} (h : bp.toBytes = .ok v) :
    Backpressure.ofValue v = .ok (some bp) := by
  obtain ⟨queueDepth, v1, h1, hlt1, hv1, rfl⟩ := pack_unsigned h
  obtain ⟨maxQueue, v2, h2, hlt2, hv2, rfl⟩ := pack_unsigned hv1
  obtain ⟨dropReason, v3, h3, hlt3, hv3, rfl⟩ := pack_unsigned hv2
  obtain ⟨retryAfterMs, v4, h4, hlt4, hv4, rfl⟩ := pack_unsigned hv3
  obtain rfl := pack_nil hv4
  cases bp
  simp only at h1 h2 h3 h4
  subst h1 h2 h3 h4
  rw [Backpressure.ofValue, if_neg (by simp)]
  simp (disch := first | assumption | omega |
    (simp only [BigEndian.toBytes_length]; first | done | omega)) only [
      unpackWord_append_right, unpackWord_front, Outcome.ok_bind, Outcome.pure_eq]

/-- An {lit}`Identity` is read back. -/
theorem Identity.fromBytes_toBytes {o : Identity} {v : Bytes} (h : o.toBytes = .ok v) :
    Identity.fromBytes v = .ok o := by
  unfold Identity.toBytes at h
  split at h
  next => cases h
  next =>
    obtain ⟨head, hhead, h⟩ := Outcome.bind_eq_ok_iff.mp h
    obtain ⟨tail, htail, h⟩ := Outcome.bind_eq_ok_iff.mp h
    cases h
    obtain ⟨idType, v1, h1, hlt1, hv1, rfl⟩ := pack_unsigned hhead
    obtain ⟨v2, hlt2, hv2, rfl⟩ := pack_length hv1
    obtain rfl := pack_nil hv2
    obtain ⟨instanceId, v3, h3, hlt3, hv3, rfl⟩ := pack_unsigned htail
    obtain rfl := pack_nil hv3
    rcases o with ⟨_, name, _⟩
    simp only at h1 h3
    subst h1 h3
    simp only [List.append_assoc, List.nil_append]
    rw [Identity.fromBytes, if_neg (by simp)]
    simp (disch := first | assumption | omega |
      (simp only [BigEndian.toBytes_length, bytes_length]; first | done | omega)) only [
        readByte_append_right, readByte_front, unpackWord_append_right, unpackWord_front,
        readText_append_right, readText_front, Outcome.ok_bind, Outcome.pure_eq]
    rw [if_neg]
    simp only [List.length_append, BigEndian.toBytes_length, bytes_length, List.length_nil]
    omega

/-- A {lit}`TraceEntry` is read back. -/
theorem TraceEntry.ofValue_toBytes {e : TraceEntry} {v : Bytes} (h : e.toBytes = .ok v) :
    TraceEntry.ofValue v = .ok e := by
  obtain ⟨head, hhead, h⟩ := Outcome.bind_eq_ok_iff.mp h
  obtain ⟨tail, htail, h⟩ := Outcome.bind_eq_ok_iff.mp h
  cases h
  obtain ⟨actorType, v1, h1, hlt1, hv1, rfl⟩ := pack_unsigned hhead
  obtain ⟨v2, hlt2, hv2, rfl⟩ := pack_length hv1
  obtain ⟨v3, hlt3, hv3, rfl⟩ := pack_length hv2
  obtain rfl := pack_nil hv3
  obtain ⟨timestamp, v4, hts, hts_len, hv4, rfl⟩ := pack_signed htail
  obtain ⟨duration, v5, hdur, hdur_len, hv5, rfl⟩ := pack_signed hv4
  obtain rfl := pack_nil hv5
  rcases e with ⟨_, actorName, action, timestampMs, durationUs⟩
  simp only at h1 hts hdur
  subst h1
  simp only [List.append_assoc, List.nil_append]
  rw [TraceEntry.ofValue]
  simp (disch := first | assumption | omega |
    (simp only [BigEndian.toBytes_length, bytes_length]; first | done | omega)) only [
      readByte_append_right, readByte_front, readText_append_right, readText_front,
      unpackSigned_append_right, unpackSigned_front, Outcome.ok_bind, Outcome.pure_eq]

/-- A {lit}`ModelInvocation` is read back. -/
theorem ModelInvocation.ofValue_toBytes {m : ModelInvocation} {v : Bytes} (h : m.toBytes = .ok v) :
    ModelInvocation.ofValue v = .ok (some m) := by
  obtain ⟨head, hhead, h⟩ := Outcome.bind_eq_ok_iff.mp h
  obtain ⟨timeout, htimeout, h⟩ := Outcome.bind_eq_ok_iff.mp h
  cases h
  obtain ⟨v1, hlt1, hv1, rfl⟩ := pack_length hhead
  obtain ⟨v2, hlt2, hv2, rfl⟩ := pack_length hv1
  obtain ⟨v3, hlt3, hv3, rfl⟩ := pack_length hv2
  obtain rfl := pack_nil hv3
  obtain ⟨timeoutMs, v4, h4, hlt4, hv4, rfl⟩ := pack_unsigned htimeout
  obtain rfl := pack_nil hv4
  rcases m with ⟨modelName, task, parametersJson, _⟩
  simp only at h4
  subst h4
  simp only [List.append_assoc, List.nil_append]
  rw [ModelInvocation.ofValue, if_neg (by simp; omega)]
  simp (disch := first | assumption | omega |
    (simp only [BigEndian.toBytes_length, bytes_length]; first | done | omega)) only [
      readByte_append_right, readByte_front, readText_append_right, readText_front,
      unpackWord_append_right, unpackWord_front, Outcome.ok_bind, Outcome.pure_eq]
  rw [if_pos]
  simp only [List.length_append, BigEndian.toBytes_length, bytes_length, List.length_nil]
  omega

/-- A {lit}`ToolInvocation` is read back. -/
theorem ToolInvocation.ofValue_toBytes {ti : ToolInvocation} {v : Bytes} (h : ti.toBytes = .ok v) :
    ToolInvocation.ofValue v = .ok (some ti) := by
  obtain ⟨head, hhead, h⟩ := Outcome.bind_eq_ok_iff.mp h
  obtain ⟨timeout, htimeout, h⟩ := Outcome.bind_eq_ok_iff.mp h
  cases h
  obtain ⟨v1, hlt1, hv1, rfl⟩ := pack_length hhead
  obtain ⟨v2, hlt2, hv2, rfl⟩ := pack_length hv1
  obtain rfl := pack_nil hv2
  obtain ⟨timeoutMs, v3, h3, hlt3, hv3, rfl⟩ := pack_unsigned htimeout
  obtain rfl := pack_nil hv3
  rcases ti with ⟨toolName, parametersJson, _⟩
  simp only at h3
  subst h3
  simp only [List.append_assoc, List.nil_append]
  rw [ToolInvocation.ofValue, if_neg (by simp)]
  simp (disch := first | assumption | omega |
    (simp only [BigEndian.toBytes_length, bytes_length]; first | done | omega)) only [
      readByte_append_right, readByte_front, readText_append_right, readText_front,
      unpackWord_append_right, unpackWord_front, Outcome.ok_bind, Outcome.pure_eq]
  rw [if_pos]
  simp only [List.length_append, BigEndian.toBytes_length, bytes_length, List.length_nil]
  omega

/-- An {lit}`ErrorInfo` without its empty details, which are written like
missing ones. -/
def ErrorInfo.identified (e : ErrorInfo) : ErrorInfo :=
  { e with details := e.details.filter fun d => decide (d.length ≠ 0) }

/-- Details that are not empty are kept. -/
theorem filter_details {details : Option Utf8String} {text : Utf8String}
    (h : details.getD .empty = text) :
    (details.filter fun d => decide (d.length ≠ 0)) = if text.length = 0 then none else some text := by
  cases details with
  | none =>
      subst h
      rfl
  | some d =>
      obtain rfl : d = text := h
      by_cases hempty : d.length = 0 <;> simp [Option.filter, hempty]

/-- An {lit}`ErrorInfo` is read back, up to empty details. -/
theorem ErrorInfo.ofValue_toBytes {e : ErrorInfo} {v : Bytes} (h : e.toBytes = .ok v) :
    ErrorInfo.ofValue v = .ok (some e.identified) := by
  obtain ⟨head, hhead, h⟩ := Outcome.bind_eq_ok_iff.mp h
  obtain ⟨len, hlen, h⟩ := Outcome.bind_eq_ok_iff.mp h
  cases h
  obtain ⟨errorCode, v1, h1, hlt1, hv1, rfl⟩ := pack_unsigned hhead
  obtain ⟨severity, v2, h2, hlt2, hv2, rfl⟩ := pack_unsigned hv1
  obtain ⟨v3, hlt3, hv3, rfl⟩ := pack_length hv2
  obtain rfl := pack_nil hv3
  obtain ⟨v4, hlt4, hv4, rfl⟩ := pack_length hlen
  obtain rfl := pack_nil hv4
  rcases e with ⟨_, _, message, details⟩
  simp only at h1 h2 hlt4
  subst h1 h2
  simp only [List.append_assoc, List.nil_append]
  generalize htext : details.getD .empty = text at hlt4 ⊢
  rw [ErrorInfo.ofValue, if_neg (by simp; omega), ← List.append_nil text.bytes]
  simp (disch := first | assumption | omega |
    (simp only [BigEndian.toBytes_length, bytes_length]; first | done | omega)) only [
      readByte_append_right, readByte_front, readText_append_right, readText_front,
      unpackWord_append_right, unpackWord_front, Outcome.ok_bind, Outcome.pure_eq]
  rw [if_neg (by simp only [List.length_append, BigEndian.toBytes_length, bytes_length]; omega),
    if_pos (by simp only [List.length_append, BigEndian.toBytes_length, bytes_length]; omega)]
  simp only [ErrorInfo.identified, filter_details htext]
  split
  next => rfl
  next => rfl

/-- The text of an {lit}`AckInfo` is read back as its type. -/
theorem AckInfo.ofValue_toBytes {a : AckInfo} {v : Bytes} (h : a.toBytes = .ok v) :
    AckInfo.ofValue v = .ok (some { ackType := a.message }) := by
  obtain ⟨head, hhead, h⟩ := Outcome.bind_eq_ok_iff.mp h
  cases h
  obtain ⟨v1, _, hv1, rfl⟩ := @pack_length 1 0 [] head hhead
  obtain rfl := pack_nil hv1
  have hdrop : (BigEndian.toBytes 1 0 ++ [] ++ a.message.bytes).drop 1 = a.message.bytes := rfl
  rw [AckInfo.ofValue, hdrop, decodeUtf8_bytes]
  rfl

/-- No value is read back as a {lit}`BlobRef`: a text is assigned to its size. -/
theorem BlobRef.ofValue_ne {v : Bytes} {o : BlobRefObject} (h : BlobRef.ofValue v = .ok o)
    (br : BlobRef) : o ≠ br.object := by
  unfold BlobRef.ofValue at h
  obtain ⟨refType, _, h⟩ := Outcome.bind_eq_ok_iff.mp h
  obtain ⟨il, _, h⟩ := Outcome.bind_eq_ok_iff.mp h
  obtain ⟨size, _, h⟩ := Outcome.bind_eq_ok_iff.mp h
  obtain ⟨offset, _, h⟩ := Outcome.bind_eq_ok_iff.mp h
  obtain ⟨identifier, _, h⟩ := Outcome.bind_eq_ok_iff.mp h
  cases h
  intro heq
  exact PyValue.noConfusion (congrArg BlobRefObject.size heq)

/-! ## Names in a row -/

/-- The parts of a split do not contain the separator. -/
theorem not_mem_of_mem_splitOn {sep : UInt8} {bs part : Bytes} (h : part ∈ bs.splitOn sep) :
    sep ∉ part := by
  induction bs generalizing part with
  | nil =>
      rw [List.splitOn_nil, List.mem_singleton] at h
      rw [h]
      exact List.not_mem_nil
  | cons b bs ih =>
      rw [List.splitOn_cons_eq_if_modifyHead] at h
      split at h
      next =>
        rcases List.mem_cons.mp h with rfl | h
        · exact List.not_mem_nil
        · exact ih h
      next hb =>
        cases hparts : bs.splitOn sep with
        | nil => exact absurd hparts (List.splitOn_ne_nil sep bs)
        | cons first parts =>
            rw [hparts, List.modifyHead_cons] at h
            rw [hparts] at ih
            rcases List.mem_cons.mp h with rfl | h
            · rw [List.mem_cons, not_or]
              exact ⟨fun heq => hb (by rw [heq]; exact BEq.rfl), ih List.mem_cons_self⟩
            · exact ih (List.mem_cons_of_mem _ h)

/-- Every decoded name is one of the parts, and not empty. -/
theorem mem_of_decodeNames {parts : List Bytes} {names : List Utf8String}
    (h : decodeNames parts = .ok names) :
    ∀ name ∈ names, name.bytes ∈ parts ∧ name.bytes ≠ [] := by
  induction parts generalizing names with
  | nil =>
      cases h
      simp
  | cons t ts ih =>
      rw [decodeNames] at h
      split at h
      next =>
        intro name hname
        have ⟨hmem, hne⟩ := ih h name hname
        exact ⟨List.mem_cons_of_mem _ hmem, hne⟩
      next hempty =>
        obtain ⟨first, hfirst, h⟩ := Outcome.bind_eq_ok_iff.mp h
        obtain ⟨rest, hrest, h⟩ := Outcome.bind_eq_ok_iff.mp h
        cases h
        have hbytes : first.bytes = t := by
          unfold decodeUtf8 at hfirst
          split at hfirst
          next s hs =>
            cases hfirst
            exact Utf8String.ofBytes?_eq_some_iff.mp hs
          next => cases hfirst
        refine List.forall_mem_cons.mpr ⟨?_, ?_⟩
        · rw [hbytes]
          exact ⟨List.mem_cons_self, by simpa using hempty⟩
        · intro name hname
          have ⟨hmem, hne⟩ := ih hrest name hname
          exact ⟨List.mem_cons_of_mem _ hmem, hne⟩

/-- Names that are not empty are decoded one by one. -/
theorem decodeNames_bytes {names : List Utf8String} (h : ∀ name ∈ names, name.length ≠ 0) :
    decodeNames (names.map Utf8String.bytes) = .ok names := by
  induction names with
  | nil => rfl
  | cons name names ih =>
      have hempty : ¬ name.bytes.isEmpty = true := by
        rw [List.isEmpty_iff]
        exact fun hnil => h name List.mem_cons_self (congrArg List.length hnil)
      rw [List.map_cons, decodeNames, if_neg hempty, decodeUtf8_bytes, Outcome.ok_bind,
        ih fun n hn => h n (List.mem_cons_of_mem _ hn)]
      rfl

/-- Names with commas between them are read back exactly when none of them is empty
or contains a comma. -/
theorem splitNames_joinComma_iff (names : List Utf8String) :
    splitNames (joinComma names) = .ok names ↔
      ∀ name ∈ names, name.length ≠ 0 ∧ 0x2C ∉ name.bytes := by
  constructor
  · intro h name hname
    have ⟨hpart, hne⟩ := mem_of_decodeNames h name hname
    exact ⟨fun hzero => hne (List.length_eq_zero_iff.mp hzero), not_mem_of_mem_splitOn hpart⟩
  · intro h
    cases names with
    | nil => rfl
    | cons name names =>
        have hcommas : ∀ part ∈ (name :: names).map Utf8String.bytes, (0x2C : UInt8) ∉ part :=
          List.forall_mem_map.mpr fun n hn => (h n hn).2
        have hne : (name :: names).map Utf8String.bytes ≠ [] := List.cons_ne_nil _ _
        rw [splitNames, joinComma, List.splitOn_intercalate _ hcommas hne]
        exact decodeNames_bytes fun n hn => (h n hn).1

/-- One name is read back exactly when it contains no comma. -/
theorem splitNames_eq_singleton_iff {name : Utf8String} (hne : name.length ≠ 0) :
    splitNames name.bytes = .ok [name] ↔ 0x2C ∉ name.bytes := by
  have hjoin : joinComma [name] = name.bytes := by simp [joinComma]
  have hsplit := splitNames_joinComma_iff [name]
  rw [hjoin, List.forall_mem_singleton] at hsplit
  exact hsplit.trans (and_iff_right hne)

/-! ## Metadata -/

/-- The loop of {lit}`metadata` reads on from any place. -/
theorem metadataLoop_append {m : List (Utf8String × Utf8String)} {v : Bytes}
    (h : metadataToBytes m = .ok v) (pre : Bytes) {fuel : Nat} (hfuel : v.length < fuel)
    {result : List (Utf8String × Utf8String)} (hnodup : Dict.NodupKeys (result ++ m)) :
    metadataLoop (pre ++ v) fuel result pre.length = .ok (result ++ m) := by
  induction m generalizing v pre fuel result with
  | nil =>
      cases h
      obtain ⟨fuel, rfl⟩ : ∃ k, fuel = k + 1 := ⟨fuel - 1, by omega⟩
      rw [metadataLoop, if_neg (by simp), List.append_nil]
      rfl
  | cons e m ih =>
      rcases e with ⟨k, value⟩
      obtain ⟨klen, hklen, h⟩ := Outcome.bind_eq_ok_iff.mp h
      obtain ⟨vlen, hvlen, h⟩ := Outcome.bind_eq_ok_iff.mp h
      obtain ⟨rest, hrest, h⟩ := Outcome.bind_eq_ok_iff.mp h
      cases h
      obtain ⟨v1, hlt1, hv1, rfl⟩ := pack_length hklen
      obtain rfl := pack_nil hv1
      obtain ⟨v2, hlt2, hv2, rfl⟩ := pack_length hvlen
      obtain rfl := pack_nil hv2
      obtain ⟨fuel, rfl⟩ : ∃ k, fuel = k + 1 := ⟨fuel - 1, by omega⟩
      simp only [List.append_nil] at hfuel ⊢
      rw [metadataLoop, if_pos (by simp)]
      simp (disch := first | assumption | omega |
        (simp only [BigEndian.toBytes_length, bytes_length]; first | done | omega)) only [
          readByte_append_right, readByte_front, readText_append_right, readText_front,
          unpackWord_append_right, unpackWord_front, Outcome.ok_bind, Outcome.pure_eq]
      have hnew : k ∉ result.map Prod.fst := by
        rw [Dict.NodupKeys, List.map_append, List.nodup_append] at hnodup
        intro hmem
        exact hnodup.2.2 k hmem k List.mem_cons_self rfl
      have hnext := ih hrest
        (pre ++ (BigEndian.toBytes 1 k.length ++ (k.bytes ++ (BigEndian.toBytes 2 value.length ++
          value.bytes))))
        (show rest.length < fuel by
          simp only [List.length_append, BigEndian.toBytes_length] at hfuel
          omega)
        (show Dict.NodupKeys (result ++ [(k, value)] ++ m) by simpa using hnodup)
      simp only [List.append_assoc, List.singleton_append] at hnext
      rw [if_neg, if_neg, Dict.set_of_not_mem hnew]
      · convert hnext using 2
        simp only [List.length_append, BigEndian.toBytes_length, bytes_length]
        omega
      all_goals
        simp only [List.length_append, BigEndian.toBytes_length, bytes_length]
        omega

/-- Reading a byte returns or raises. -/
theorem readByte_ne_panic (data : Bytes) (i : Nat) : readByte data i ≠ .panic := by
  unfold readByte getItem
  split <;> simp

/-- Reading a word returns or raises. -/
theorem unpackWord_ne_panic (w : Nat) (data : Bytes) (i : Nat) : unpackWord w data i ≠ .panic := by
  unfold unpackWord unpackFrom
  split <;> simp

/-- Reading a text returns or raises. -/
theorem readText_ne_panic (data : Bytes) (a b : Nat) : readText data a b ≠ .panic := by
  unfold readText decodeUtf8
  split <;> simp

/-- A round for each byte that is left is enough. -/
theorem metadataLoop_ne_panic {v : Bytes} {fuel pos : Nat} (h : v.length - pos < fuel)
    (result : List (Utf8String × Utf8String)) : metadataLoop v fuel result pos ≠ .panic := by
  induction fuel generalizing pos result with
  | zero => omega
  | succ fuel ih =>
      intro hpanic
      rw [metadataLoop] at hpanic
      split at hpanic
      next hpos =>
        rcases Outcome.bind_eq_panic_iff.mp hpanic with hread | ⟨kl, _, hpanic⟩
        · exact readByte_ne_panic _ _ hread
        dsimp only at hpanic
        split at hpanic
        next => cases hpanic
        rcases Outcome.bind_eq_panic_iff.mp hpanic with hread | ⟨k, _, hpanic⟩
        · exact readText_ne_panic _ _ _ hread
        rcases Outcome.bind_eq_panic_iff.mp hpanic with hread | ⟨vl, _, hpanic⟩
        · exact unpackWord_ne_panic _ _ _ hread
        split at hpanic
        next => cases hpanic
        rcases Outcome.bind_eq_panic_iff.mp hpanic with hread | ⟨value, _, hpanic⟩
        · exact readText_ne_panic _ _ _ hread
        exact ih (by omega) _ hpanic
      next => cases hpanic

/-- Reading metadata returns or raises. -/
theorem metadataOfValue_ne_panic (v : Bytes) : metadataOfValue v ≠ .panic :=
  metadataLoop_ne_panic (by omega) []

/-- Metadata are read back. -/
theorem metadataOfValue_metadataToBytes {m : List (Utf8String × Utf8String)} {v : Bytes}
    (h : metadataToBytes m = .ok v) (hnodup : Dict.NodupKeys m) : metadataOfValue v = .ok m :=
  metadataLoop_append h [] (Nat.lt_succ_self _) hnodup

end Aicl.Bin

import Aicl.Bin.RoundTrip
import Aicl.Foundation.Crc32

/-!
# Packets that the encoder sends and the decoder refuses

The size of the payload of a packet, computed from the packet.  The encoder of the
Python package sends payloads of less than {lit}`2 ^ 32` bytes; its decoder reads
{lit}`MAX_TLV_VALUE_SIZE` bytes.

Main results:

- Theorem {lit}`encodeSymbol_length`: the size of an operand.
- Theorem {lit}`appendExtensions_sizes`: the sizes of the rich fields.
- Theorem {lit}`encode_readsBack_iff`: an encoded packet is read back exactly when
  its payload keeps the limit of the decoder.
-/

namespace Aicl.Bin

open Isa.Frame

/-! ## Sizes of operands -/

/-- The size of a byte string with its length in front. -/
def countedSize (n : Nat) : Nat := Leb128.width n + n

mutual

/-- The number of bytes that a symbol takes. -/
def Symbol.writtenSize : Symbol → Nat
  | .int t _ => 1 + t.width
  | .f32 _ => 1 + 4
  | .f64 _ => 1 + 8
  | .bool _ => 1 + 1
  | .string value => 1 + countedSize value.length
  | .bytes value => 1 + countedSize value.length
  | .uuid value => 1 + value.length
  | .bufRef _ _ _ => 1 + (8 + (4 + 4))
  | .list items => 1 + (Leb128.width items.length + itemsSize items)
  | .map entries => 1 + (Leb128.width entries.length + entriesSize entries)
  | .null => 1
  | .other _ value => 1 + countedSize value.length

/-- The number of bytes that symbols take back to back. -/
def itemsSize : List Symbol → Nat
  | [] => 0
  | s :: items => s.writtenSize + itemsSize items

/-- The number of bytes that the entries of a map take. -/
def entriesSize : List (Utf8String × Symbol) → Nat
  | [] => 0
  | (key, s) :: entries => countedSize key.length + (s.writtenSize + entriesSize entries)

end

/-- Symbols in two parts. -/
theorem itemsSize_append (ss ss' : List Symbol) :
    itemsSize (ss ++ ss') = itemsSize ss + itemsSize ss' := by
  induction ss with
  | nil => rw [List.nil_append, itemsSize, Nat.zero_add]
  | cons s ss ih => rw [List.cons_append, itemsSize, ih, itemsSize, Nat.add_assoc]

/-- A byte string with its length in front takes its size. -/
theorem encodeCounted_size {raw b : Bytes} (hb : encodeCounted raw = .ok b) :
    b.length = countedSize raw.length := by
  rw [encodeCounted_eq] at hb
  cases hb
  rw [List.length_append, Leb128.emit_four_length, countedSize]

/-- The items of a list take their sizes, if each item does. -/
theorem encodeItems_size {items : List Symbol}
    (h : ∀ s ∈ items, ∀ b, encodeSymbol s = .ok b → b.length = s.writtenSize) {b : Bytes}
    (hb : encodeItems items = .ok b) : b.length = itemsSize items := by
  induction items generalizing b with
  | nil =>
      cases hb
      rfl
  | cons s items ih =>
      have ⟨raw, hraw, hb⟩ := Outcome.bind_eq_ok_iff.mp hb
      have ⟨rest, hrest, hb⟩ := Outcome.bind_eq_ok_iff.mp hb
      cases hb
      rw [List.length_append, h s List.mem_cons_self raw hraw,
        ih (fun x hx => h x (List.mem_cons_of_mem _ hx)) hrest, itemsSize]

/-- The entries of a map take their sizes, if each value does. -/
theorem encodeEntries_size {entries : List (Utf8String × Symbol)}
    (h : ∀ e ∈ entries, ∀ b, encodeSymbol e.2 = .ok b → b.length = e.2.writtenSize) {b : Bytes}
    (hb : encodeEntries entries = .ok b) : b.length = entriesSize entries := by
  induction entries generalizing b with
  | nil =>
      cases hb
      rfl
  | cons e entries ih =>
      have ⟨key, s⟩ := e
      have ⟨kb, hkb, hb⟩ := Outcome.bind_eq_ok_iff.mp hb
      have ⟨raw, hraw, hb⟩ := Outcome.bind_eq_ok_iff.mp hb
      have ⟨rest, hrest, hb⟩ := Outcome.bind_eq_ok_iff.mp hb
      cases hb
      rw [List.length_append, List.length_append, encodeCounted_size hkb,
        h (key, s) List.mem_cons_self raw hraw,
        ih (fun x hx => h x (List.mem_cons_of_mem _ hx)) hrest, entriesSize]
      rfl

/-- A tag takes one byte more than what follows it. -/
theorem tagged_length {tag : UInt8} {x : PyResult Bytes} {n : Nat} {b : Bytes}
    (hx : ∀ raw, x = .ok raw → raw.length = n)
    (hb : (x >>= fun raw => pure (tag :: raw)) = .ok b) : b.length = 1 + n := by
  rcases Outcome.bind_eq_ok_iff.mp hb with ⟨raw, hraw, hb⟩
  rw [← Outcome.ok.inj hb, List.length_cons, hx raw hraw, Nat.add_comm]

/-- The same for a number of items in front of them. -/
theorem counted_length {α : Type} {tag : UInt8} {items : List α} {x : PyResult Bytes} {n : Nat}
    {b : Bytes} (hx : ∀ body, x = .ok body → body.length = n)
    (hb : (encodeVarint items.length >>= fun len => x >>= fun body =>
      pure (tag :: (len ++ body))) = .ok b) : b.length = 1 + (Leb128.width items.length + n) := by
  rcases Outcome.bind_eq_ok_iff.mp hb with ⟨len, hlen, hb⟩
  rcases Outcome.bind_eq_ok_iff.mp hb with ⟨body, hbody, hb⟩
  rw [encodeVarint_length] at hlen
  rw [← Outcome.ok.inj hb, ← Outcome.ok.inj hlen, List.length_cons, List.length_append,
    Leb128.emit_four_length, hx body hbody, Nat.add_comm]

/-- A symbol takes its size. -/
theorem encodeSymbol_length (s : Symbol) {b : Bytes} (hb : encodeSymbol s = .ok b) :
    b.length = s.writtenSize := by
  induction s using Symbol.induct generalizing b with
  | leaf s hleaf =>
      cases s with
      | int t value =>
          rw [encodeSymbol] at hb
          exact tagged_length (fun raw hraw => packInt_length hraw) hb
      | f32 value =>
          rcases Outcome.bind_eq_ok_iff.mp hb with ⟨raw, hraw, hb⟩
          cases hb
          unfold packF32 at hraw
          split at hraw
          · cases hraw
            rw [List.length_cons, BigEndian.toBytes_length, Symbol.writtenSize]
          · cases hraw
      | f64 value =>
          cases hb
          rw [List.length_cons, packF64, BigEndian.toBytes_length, Symbol.writtenSize]
      | bool value =>
          cases hb
          rfl
      | string value =>
          rw [encodeSymbol] at hb
          exact tagged_length (fun raw hraw => encodeCounted_size hraw) hb
      | bytes value =>
          rw [encodeSymbol] at hb
          exact tagged_length (fun raw hraw => encodeCounted_size hraw) hb
      | uuid value =>
          rcases Outcome.bind_eq_ok_iff.mp hb with ⟨_, _, hb⟩
          cases hb
          rw [List.length_cons, Symbol.writtenSize, Nat.add_comm]
      | bufRef id offset length =>
          rcases Outcome.bind_eq_ok_iff.mp hb with ⟨rawId, hid, hb⟩
          rcases Outcome.bind_eq_ok_iff.mp hb with ⟨rawOffset, hoffset, hb⟩
          rcases Outcome.bind_eq_ok_iff.mp hb with ⟨rawLength, hlength, hb⟩
          cases hb
          rw [List.length_cons, List.length_append, List.length_append, packInt_length hid,
            packInt_length hoffset, packInt_length hlength, Symbol.writtenSize]
      | null =>
          cases hb
          rfl
      | other tag value =>
          rw [encodeSymbol] at hb
          split at hb
          · exact tagged_length (fun raw hraw => encodeCounted_size hraw) hb
          · cases hb
      | list items => exact hleaf.elim
      | map entries => exact hleaf.elim
  | list items ih =>
      rw [encodeSymbol] at hb
      exact counted_length (fun body hbody => encodeItems_size (fun s hs b => ih s hs) hbody) hb
  | map entries ih =>
      rw [encodeSymbol] at hb
      exact counted_length (fun body hbody => encodeEntries_size (fun e he b => ih e he) hbody) hb

/-! ## Sizes of rich fields -/

/-- The vendor operands that a step appends have values of these sizes. -/
def HasSizes (step : PyResult (List Symbol)) (sizes : List Nat) : Prop :=
  ∀ exts, step = .ok exts → exts.map Symbol.writtenSize = sizes.map fun n => 1 + countedSize n

/-- A step that appends nothing. -/
theorem hasSizes_nil : HasSizes (pure []) [] := by
  intro exts h
  cases h
  rfl

/-- Two steps, one after the other. -/
theorem HasSizes.append {step step' : PyResult (List Symbol)} {sizes sizes' : List Nat}
    (h : HasSizes step sizes) (h' : HasSizes step' sizes') :
    HasSizes (step >>= fun first => step' >>= fun rest => pure (first ++ rest))
      (sizes ++ sizes') := by
  intro exts heq
  have ⟨first, hfirst, heq⟩ := Outcome.bind_eq_ok_iff.mp heq
  have ⟨rest, hrest, heq⟩ := Outcome.bind_eq_ok_iff.mp heq
  cases heq
  rw [List.map_append, List.map_append, h first hfirst, h' rest hrest]

/-- Many steps, one after the other. -/
theorem hasSizes_appendAll {steps : List (PyResult (List Symbol))} {sizes : List (List Nat)}
    (h : List.Forall₂ HasSizes steps sizes) : HasSizes (appendAll steps) sizes.flatten := by
  induction h with
  | nil => exact hasSizes_nil
  | cons hstep _ ih => exact hstep.append ih

/-- A field under a vendor tag. -/
theorem hasSizes_extIf {tag : UInt8} {c : Bool} {raw : PyResult Bytes} {n : Nat}
    (h : ∀ b, raw = .ok b → b.length = n) :
    HasSizes (extIf c tag raw) (if c then [n] else []) := by
  cases c with
  | true =>
      intro exts heq
      have ⟨b, hb, heq⟩ := Outcome.bind_eq_ok_iff.mp heq
      cases heq
      rw [← h b hb]
      rfl
  | false => exact hasSizes_nil

/-- A field that may be missing. -/
theorem hasSizes_extOption {α : Type} {tag : UInt8} {toBytes : α → PyResult Bytes} {size : α → Nat}
    (h : ∀ a b, toBytes a = .ok b → b.length = size a) (field : Option α) :
    HasSizes (extOption tag toBytes field) (field.toList.map size) := by
  cases field with
  | none => exact hasSizes_nil
  | some a => exact hasSizes_extIf (c := true) (h a)

/-- The size of a byte string that may be missing; an empty one is left out. -/
def bytesSizes (value : Option Bytes) : List Nat :=
  let raw := value.getD []
  if !raw.isEmpty then [raw.length] else []

/-- A byte string that may be missing. -/
theorem hasSizes_extBytes (tag : UInt8) (value : Option Bytes) :
    HasSizes (extBytes tag value) (bytesSizes value) := by
  apply hasSizes_extIf
  intro b hb
  cases hb
  rfl

/-- A list of fields. -/
theorem hasSizes_extEach {α : Type} {tag : UInt8} {toBytes : α → PyResult Bytes} {size : α → Nat}
    (h : ∀ a b, toBytes a = .ok b → b.length = size a) (fields : List α) :
    HasSizes (extEach tag toBytes fields) (fields.map size) := by
  induction fields with
  | nil => exact hasSizes_nil
  | cons a fields ih => exact (hasSizes_extIf (c := true) (h a)).append ih

/-- The size of names with commas between them. -/
def namesSize (names : List Utf8String) : Nat :=
  (names.map Utf8String.length).sum + (names.length - 1)

/-- Names with commas between them take their size. -/
theorem joinComma_length (names : List Utf8String) : (joinComma names).length = namesSize names := by
  cases names with
  | nil => rfl
  | cons name names =>
      induction names generalizing name with
      | nil => simp [joinComma, namesSize, Utf8String.length]
      | cons name' names ih =>
          have hjoin : joinComma (name :: name' :: names) =
              name.bytes ++ (0x2C :: joinComma (name' :: names)) := by
            simp [joinComma, List.intercalate]
          rw [hjoin, List.length_append, List.length_cons, ih name']
          simp only [namesSize, List.map_cons, List.sum_cons, List.length_cons, Utf8String.length]
          omega

/-- Packed fields take the widths of their formats. -/
theorem pack_size {fields : List (Format × Int)} {b : Bytes} (h : pack fields = .ok b) :
    b.length = (fields.map fun f => f.1.2).sum := by
  induction fields generalizing b with
  | nil =>
      cases h
      rfl
  | cons f fields ih =>
      have ⟨raw, hraw, h⟩ := Outcome.bind_eq_ok_iff.mp h
      have ⟨rest, hrest, h⟩ := Outcome.bind_eq_ok_iff.mp h
      cases h
      rw [List.length_append, packInt_length hraw, ih hrest, List.map_cons, List.sum_cons]

/-- The size of an {lit}`Identity`. -/
theorem Identity.toBytes_length {o : Identity} {b : Bytes} (h : o.toBytes = .ok b) :
    b.length = 6 + o.name.length := by
  unfold Identity.toBytes at h
  split at h
  · cases h
  · have ⟨head, hhead, h⟩ := Outcome.bind_eq_ok_iff.mp h
    have ⟨tail, htail, h⟩ := Outcome.bind_eq_ok_iff.mp h
    cases h
    have hhead : head.length = 2 := pack_size hhead
    have htail : tail.length = 4 := pack_size htail
    simp only [List.length_append, hhead, htail, Utf8String.length]
    omega

/-- The size of a {lit}`TraceEntry`. -/
theorem TraceEntry.toBytes_length {e : TraceEntry} {b : Bytes} (h : e.toBytes = .ok b) :
    b.length = 15 + (e.actorName.length + e.action.length) := by
  have ⟨head, hhead, h⟩ := Outcome.bind_eq_ok_iff.mp h
  have ⟨tail, htail, h⟩ := Outcome.bind_eq_ok_iff.mp h
  cases h
  have hhead : head.length = 3 := pack_size hhead
  have htail : tail.length = 12 := pack_size htail
  simp only [List.length_append, hhead, htail, Utf8String.length]
  omega

/-- The size of a {lit}`BlobRef`. -/
theorem BlobRef.toBytes_length {br : BlobRef} {b : Bytes} (h : br.toBytes = .ok b) :
    b.length = 12 + br.identifier.length := by
  have ⟨head, hhead, h⟩ := Outcome.bind_eq_ok_iff.mp h
  have ⟨offset, hoffset, h⟩ := Outcome.bind_eq_ok_iff.mp h
  cases h
  have ⟨_, ha, hhead⟩ := Outcome.bind_eq_ok_iff.mp hhead
  have ⟨_, hb, hhead⟩ := Outcome.bind_eq_ok_iff.mp hhead
  have ⟨_, hc, hhead⟩ := Outcome.bind_eq_ok_iff.mp hhead
  cases hhead
  have hoffset : offset.length = 4 := pack_size hoffset
  simp only [List.length_append, List.length_reverse, packInt_length ha, packInt_length hb,
    packInt_length hc, hoffset, List.length_cons, List.length_nil, Utf8String.length]
  omega

/-- The size of an {lit}`ErrorInfo`. -/
theorem ErrorInfo.toBytes_length {e : ErrorInfo} {b : Bytes} (h : e.toBytes = .ok b) :
    b.length = 7 + (e.message.length + (e.details.getD .empty).length) := by
  have ⟨head, hhead, h⟩ := Outcome.bind_eq_ok_iff.mp h
  have ⟨len, hlen, h⟩ := Outcome.bind_eq_ok_iff.mp h
  cases h
  have hhead : head.length = 5 := pack_size hhead
  have hlen : len.length = 2 := pack_size hlen
  simp only [List.length_append, hhead, hlen, Utf8String.length]
  omega

/-- The size of an {lit}`AckInfo`. -/
theorem AckInfo.toBytes_length {a : AckInfo} {b : Bytes} (h : a.toBytes = .ok b) :
    b.length = 1 + a.message.length := by
  have ⟨head, hhead, h⟩ := Outcome.bind_eq_ok_iff.mp h
  cases h
  have hhead : head.length = 1 := pack_size hhead
  rw [List.length_append, hhead]
  rfl

/-- The size of a {lit}`ModelInvocation`. -/
theorem ModelInvocation.toBytes_length {m : ModelInvocation} {b : Bytes} (h : m.toBytes = .ok b) :
    b.length = 7 + (m.modelName.length + (m.task.length + m.parametersJson.length)) := by
  have ⟨head, hhead, h⟩ := Outcome.bind_eq_ok_iff.mp h
  have ⟨timeout, htimeout, h⟩ := Outcome.bind_eq_ok_iff.mp h
  cases h
  have hhead : head.length = 3 := pack_size hhead
  have htimeout : timeout.length = 4 := pack_size htimeout
  simp only [List.length_append, hhead, htimeout, Utf8String.length]
  omega

/-- The size of a {lit}`ToolInvocation`. -/
theorem ToolInvocation.toBytes_length {ti : ToolInvocation} {b : Bytes} (h : ti.toBytes = .ok b) :
    b.length = 6 + (ti.toolName.length + ti.parametersJson.length) := by
  have ⟨head, hhead, h⟩ := Outcome.bind_eq_ok_iff.mp h
  have ⟨timeout, htimeout, h⟩ := Outcome.bind_eq_ok_iff.mp h
  cases h
  have hhead : head.length = 2 := pack_size hhead
  have htimeout : timeout.length = 4 := pack_size htimeout
  simp only [List.length_append, hhead, htimeout, Utf8String.length]
  omega

/-- The size of {lit}`metadata`. -/
def metadataSize (items : List (Utf8String × Utf8String)) : Nat :=
  (items.map fun e => 3 + (e.1.length + e.2.length)).sum

/-- Metadata take their size. -/
theorem metadataToBytes_length {items : List (Utf8String × Utf8String)} {b : Bytes}
    (h : metadataToBytes items = .ok b) : b.length = metadataSize items := by
  induction items generalizing b with
  | nil =>
      cases h
      rfl
  | cons e items ih =>
      rcases e with ⟨k, v⟩
      have ⟨klen, hklen, h⟩ := Outcome.bind_eq_ok_iff.mp h
      have ⟨vlen, hvlen, h⟩ := Outcome.bind_eq_ok_iff.mp h
      have ⟨rest, hrest, h⟩ := Outcome.bind_eq_ok_iff.mp h
      cases h
      have hklen : klen.length = 1 := pack_size hklen
      have hvlen : vlen.length = 2 := pack_size hvlen
      simp only [List.length_append, hklen, hvlen, ih hrest, metadataSize, List.map_cons,
        List.sum_cons, Utf8String.length]
      omega

/-- The sizes of the values of the vendor operands of a packet, in order. -/
def Packet.extensionSizes (p : Packet) : List Nat :=
  List.flatten
    [ bytesSizes (some p.sessionId),
      p.origin.toList.map fun o => 6 + o.name.length,
      if !p.targets.isEmpty then [namesSize p.targets] else [],
      bytesSizes (some p.intent.bytes),
      if !p.responseSymbols.isEmpty then [itemsSize p.responseSymbols] else [],
      if p.confidence != 0x3FF0000000000000 then [8] else [],
      if p.priority != 128 then [1] else [],
      if !p.capabilities.isEmpty then [namesSize p.capabilities] else [],
      p.qos.toList.map fun _ => 12,
      bytesSizes p.security,
      p.trace.map fun e => 15 + (e.actorName.length + e.action.length),
      p.chunkInfo.toList.map fun _ => 14,
      p.blobRefs.map fun br => 12 + br.identifier.length,
      p.backpressure.toList.map fun _ => 12,
      p.errorInfo.toList.map fun e => 7 + (e.message.length + (e.details.getD .empty).length),
      p.ackInfo.toList.map fun a => 1 + a.message.length,
      if !p.targetCaps.isEmpty then [namesSize p.targetCaps] else [],
      bytesSizes (some p.schemaId.bytes),
      bytesSizes p.streamId,
      bytesSizes p.partialResult,
      p.modelInvocation.toList.map fun m =>
        7 + (m.modelName.length + (m.task.length + m.parametersJson.length)),
      p.toolInvocation.toList.map fun ti => 6 + (ti.toolName.length + ti.parametersJson.length),
      if !p.metadata.isEmpty then [metadataSize p.metadata] else [] ]

/-- The vendor operands of a packet have these sizes. -/
theorem appendExtensions_sizes (p : Packet) : HasSizes p.appendExtensions p.extensionSizes := by
  have hnames : ∀ names : List Utf8String, ∀ b, (.ok (joinComma names) : PyResult Bytes) = .ok b →
      b.length = namesSize names := by
    intro names b hb
    cases hb
    exact joinComma_length names
  apply hasSizes_appendAll
  refine .cons (hasSizes_extBytes _ _) <| .cons (hasSizes_extOption ?_ _) <|
    .cons (hasSizes_extIf (hnames _)) <| .cons (hasSizes_extBytes _ _) <|
    .cons (hasSizes_extIf ?_) <| .cons (hasSizes_extIf ?_) <| .cons (hasSizes_extIf ?_) <|
    .cons (hasSizes_extIf (hnames _)) <| .cons (hasSizes_extOption ?_ _) <|
    .cons (hasSizes_extBytes _ _) <| .cons (hasSizes_extEach ?_ _) <|
    .cons (hasSizes_extOption ?_ _) <| .cons (hasSizes_extEach ?_ _) <|
    .cons (hasSizes_extOption ?_ _) <| .cons (hasSizes_extOption ?_ _) <|
    .cons (hasSizes_extOption ?_ _) <| .cons (hasSizes_extIf (hnames _)) <|
    .cons (hasSizes_extBytes _ _) <| .cons (hasSizes_extBytes _ _) <|
    .cons (hasSizes_extBytes _ _) <| .cons (hasSizes_extOption ?_ _) <|
    .cons (hasSizes_extOption ?_ _) <| .cons (hasSizes_extIf ?_) .nil
  · exact fun o b => Identity.toBytes_length
  · exact fun b => encodeItems_size fun s _ b => encodeSymbol_length s
  · intro b hb
    cases hb
    exact BigEndian.toBytes_length 8 _
  · exact fun b => pack_size
  · exact fun q b => pack_size
  · exact fun e b => TraceEntry.toBytes_length
  · exact fun c b => pack_size
  · exact fun br b => BlobRef.toBytes_length
  · exact fun bp b => pack_size
  · exact fun e b => ErrorInfo.toBytes_length
  · exact fun a b => AckInfo.toBytes_length
  · exact fun m b => ModelInvocation.toBytes_length
  · exact fun ti b => ToolInvocation.toBytes_length
  · exact fun b => metadataToBytes_length

/-! ## Payloads and frames -/

/-- The number of bytes that the payload of a packet takes. -/
def Packet.payloadSize (p : Packet) : Nat :=
  1 + (Leb128.width (p.symbols.length + p.extensionSizes.length) +
    (itemsSize p.symbols + (p.extensionSizes.map fun n => 1 + countedSize n).sum))

/-- The size of symbols is the sum of their sizes. -/
theorem itemsSize_eq_sum (ss : List Symbol) : itemsSize ss = (ss.map Symbol.writtenSize).sum := by
  induction ss with
  | nil => rfl
  | cons s ss ih => rw [itemsSize, ih, List.map_cons, List.sum_cons]

/-- A payload takes its size. -/
theorem buildPayload_length {p : Packet} {payload : Bytes} (h : p.buildPayload = .ok payload) :
    payload.length = p.payloadSize := by
  have ⟨exts, hexts, h⟩ := Outcome.bind_eq_ok_iff.mp h
  have ⟨count, hcount, h⟩ := Outcome.bind_eq_ok_iff.mp h
  have ⟨body, hbody, h⟩ := Outcome.bind_eq_ok_iff.mp h
  cases h
  rw [encodeVarint_length] at hcount
  cases hcount
  have hsizes := appendExtensions_sizes p exts hexts
  have hlength : exts.length = p.extensionSizes.length := by
    simpa using congrArg List.length hsizes
  have hitems := encodeItems_size (fun s _ b => encodeSymbol_length s) hbody
  rw [List.length_cons, List.length_append, Leb128.emit_four_length, hitems, itemsSize_append,
    itemsSize_eq_sum exts, hsizes, List.length_append, hlength, Packet.payloadSize, Nat.add_comm]

variable {crc32 : Bytes → UInt32} {p : Packet} {checksum : Bool} {frame : Bytes}

/-- A frame of the encoder declares the size of the payload. -/
theorem payloadLen_of_encode (h : encode crc32 p checksum = .ok frame) :
    payloadLen frame = p.payloadSize := by
  have ⟨body, fields, hbody, hfields, hframe⟩ := encode_eq_ok h
  rw [hframe, hfields.declared, buildPayload_length hbody]

/-- A frame is read, and the header fields of the packet and its operation come
back; the flags announce the trailer of a checksum. -/
def ReadsBack (crc32 : Bytes → UInt32) (p : Packet) (checksum : Bool) (frame : Bytes) : Prop :=
  ∃ v, decode crc32 frame = .ok v ∧ (v.operation : Int) = p.operation % 256 ∧
    (v.flags : Int) = (if checksum then p.flags.lor FLAG_HAS_TRAILER else p.flags) ∧
    v.messageId = p.messageId ∧ v.correlationId = p.correlationId ∧
    (v.deadlineMs : Int) = p.deadlineMs

/-- The opcode byte is the operation, cut to a byte. -/
theorem Packet.opcodeByte_toNat (p : Packet) : (p.opcodeByte.toNat : Int) = p.operation % 256 := by
  rw [Packet.opcodeByte, UInt8.toNat_ofNat']
  omega

/-- An encoded packet is read back exactly when its payload keeps the limit of the
decoder. -/
theorem encode_readsBack_iff (crc32 : Bytes → UInt32) (p : Packet) (checksum : Bool)
    {frame : Bytes} (h : encode crc32 p checksum = .ok frame) :
    ReadsBack crc32 p checksum frame ↔ p.payloadSize ≤ maxTlvValueSize := by
  rw [← payloadLen_of_encode h]
  constructor
  · intro ⟨v, hv, _⟩
    exact (decode_eq_ok_iff.mp hv).1.header.limit
  · intro hlimit
    have ⟨_, v, _, hv, hshows⟩ := decode_of_encode h hlimit
    refine ⟨v, hv, ?_, hshows.flags, hshows.messageId, hshows.correlationId, hshows.deadlineMs⟩
    rw [hshows.operation, p.opcodeByte_toNat]

/-- A number in the range of its format is packed. -/
theorem packInt_of_inRange {signed : Bool} {w : Nat} {v : Int} (h : InRange signed w v) :
    packInt signed w v = .ok (BigEndian.toBytes w (v % (256 ^ w : Nat)).toNat) :=
  if_pos h

/-- Two numbers in the ranges of their formats are packed. -/
theorem pack_pair_returns (f f' : Format) {v v' : Int} (h : InRange f.1 f.2 v)
    (h' : InRange f'.1 f'.2 v') : ∃ b, pack [(f, v), (f', v')] = .ok b := by
  simp only [pack, packInt_of_inRange h, packInt_of_inRange h', Outcome.ok_bind, Outcome.pure_eq]
  exact ⟨_, rfl⟩

/-- The header of a packet is written when its numbers are in the ranges of their
fields. -/
theorem packHeader_returns (crc32 : Bytes → UInt32) {flags : Int} {n : Nat}
    (hversion : p.version ∈ supportedVersions) (hflags : InRange false 2 flags)
    (hdeadline : InRange false 4 p.deadlineMs) (hn : n < 2 ^ 32) :
    ∃ header, packHeader crc32 p.version flags p.messageId p.correlationId p.deadlineMs n =
      .ok header := by
  have hversion' : InRange false 2 p.version := by
    rw [List.mem_singleton.mp hversion]
    decide
  have hn' : InRange false 4 (n : Int) := ⟨by omega, by exact_mod_cast hn⟩
  have hlarge : ¬ 0xFFFFFFFF < p.deadlineMs := by
    have hlt := hdeadline.2
    norm_num at hlt
    omega
  have ⟨words, hwords⟩ := pack_pair_returns fmtH fmtH hversion' hflags
  have ⟨tail, htail⟩ := pack_pair_returns fmtI fmtI hdeadline hn'
  unfold packHeader raiseIf
  rw [Outcome.failIf_of_not (not_not.mpr hversion),
    Outcome.failIf_of_not (not_not.mpr p.messageId_length),
    Outcome.failIf_of_not (not_not.mpr p.correlationId_length),
    Outcome.failIf_of_not (by omega : ¬ 0xFFFFFFFF < n), Outcome.failIf_of_not hlarge, hwords, htail]
  exact ⟨_, rfl⟩

/-- A packet is encoded when its payload is written and fits 32 bits, and its
numbers are in the ranges of the header fields. -/
theorem encode_returns (crc32 : Bytes → UInt32) {payload : Bytes}
    (hpayload : p.buildPayload = .ok payload) (hversion : p.version ∈ supportedVersions)
    (hflags : InRange false 2 (wireFlags p checksum)) (hdeadline : InRange false 4 p.deadlineMs)
    (hn : payload.length < 2 ^ 32) : ∃ frame, encode crc32 p checksum = .ok frame := by
  have ⟨header, hheader⟩ := packHeader_returns crc32 hversion hflags hdeadline hn
  unfold wireFlags at hheader
  unfold encode
  rw [hpayload, Outcome.ok_bind]
  dsimp only
  rw [hheader, Outcome.ok_bind]
  exact ⟨_, rfl⟩

/-! ## Packets that are too large for the decoder -/

/-- A request with a byte string of zeros. -/
def bulkPacket (n : Nat) : Packet where
  sessionId := List.replicate 16 0
  messageId := List.replicate 16 1
  symbols := [.bytes (List.replicate n 0)]
  sessionId_length := Isa.Frame.zeroId_length
  messageId_length := Isa.Frame.oneId_length
  correlationId_length := Isa.Frame.zeroId_length
  symbols_wellFormed := by
    intro s hs
    rw [List.mem_singleton.mp hs]
    exact .of_leaf trivial trivial
  responseSymbols_wellFormed := noSymbols_wellFormed
  metadata_nodupKeys := noMetadata_nodupKeys

/-- The size of its payload. -/
theorem bulkPacket_payloadSize (n : Nat) : (bulkPacket n).payloadSize = 21 + countedSize n := by
  have hexts : (bulkPacket n).extensionSizes = [16] := rfl
  have hitems : itemsSize (bulkPacket n).symbols = 1 + countedSize n := by
    simp [bulkPacket, itemsSize, Symbol.writtenSize]
  have hwidth : Leb128.width ((bulkPacket n).symbols.length + [16].length) = 1 := rfl
  have hsession : ([16].map fun n => 1 + countedSize n).sum = 18 := rfl
  rw [Packet.payloadSize, hexts, hitems, hwidth, hsession]
  omega

/-- Its payload is written. -/
theorem buildPayload_bulkPacket (n : Nat) : ∃ payload, (bulkPacket n).buildPayload = .ok payload := by
  have hexts : (bulkPacket n).appendExtensions = .ok [.other 0x80 (List.replicate 16 0)] := rfl
  have hbytes : encodeSymbol (.bytes (List.replicate n 0)) =
      .ok (S_BYTES :: (Leb128.emit 4 (List.replicate n (0 : UInt8)).length ++
        List.replicate n 0)) := by
    rw [encodeSymbol, encodeCounted_eq]
    rfl
  have hitems : encodeItems [.bytes (List.replicate n 0), .other 0x80 (List.replicate 16 0)] =
      .ok ((S_BYTES :: (Leb128.emit 4 (List.replicate n (0 : UInt8)).length ++ List.replicate n 0)) ++
        (0x80 :: 0x10 :: List.replicate 16 0)) := by
    rw [encodeItems, hbytes]
    rfl
  unfold Packet.buildPayload
  rw [hexts, Outcome.ok_bind]
  dsimp only [bulkPacket, List.singleton_append]
  rw [encodeVarint_length, Outcome.ok_bind, hitems]
  exact ⟨_, rfl⟩

/-- It is encoded when the size of its payload fits 32 bits. -/
theorem encode_bulkPacket (crc32 : Bytes → UInt32) {n : Nat} (h : 21 + countedSize n < 2 ^ 32) :
    ∃ frame, encode crc32 (bulkPacket n) false = .ok frame := by
  have ⟨payload, hpayload⟩ := buildPayload_bulkPacket n
  rw [← bulkPacket_payloadSize, ← buildPayload_length hpayload] at h
  have hversion : (bulkPacket n).version ∈ supportedVersions := List.mem_singleton.mpr rfl
  have hflags : InRange false 2 (wireFlags (bulkPacket n) false) := by
    show InRange false 2 FLAG_REQUEST
    decide
  have hdeadline : InRange false 4 (bulkPacket n).deadlineMs := by
    show InRange false 4 0
    decide
  exact encode_returns crc32 hpayload hversion hflags hdeadline h

/-- A request with a byte string of seven zeros is read back. -/
theorem encode_readsBack_sample :
    ∃ frame, encode Crc32.ieee (bulkPacket 7) false = .ok frame ∧
      ReadsBack Crc32.ieee (bulkPacket 7) false frame := by
  have ⟨frame, hframe⟩ := encode_bulkPacket Crc32.ieee (n := 7) (by decide)
  refine ⟨frame, hframe, (encode_readsBack_iff Crc32.ieee (bulkPacket 7) false hframe).mpr ?_⟩
  rw [bulkPacket_payloadSize]
  decide

/-- A request with a byte string of sixteen mebibytes is encoded, and is not read
back. -/
theorem encode_bulk_refused :
    ¬ ∀ (crc32 : Bytes → UInt32) (p : Packet) (checksum : Bool) (frame : Bytes),
      encode crc32 p checksum = .ok frame → ReadsBack crc32 p checksum frame := by
  intro h
  have ⟨frame, hframe⟩ := encode_bulkPacket Crc32.ieee (n := 2 ^ 24) (by decide)
  have ⟨v, hv, _⟩ := h Crc32.ieee (bulkPacket (2 ^ 24)) false frame hframe
  have hlimit := (decode_eq_ok_iff.mp hv).1.header.limit
  rw [payloadLen_of_encode hframe, bulkPacket_payloadSize] at hlimit
  exact absurd hlimit (by decide)

end Aicl.Bin

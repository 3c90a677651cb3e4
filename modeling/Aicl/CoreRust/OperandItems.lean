import Aicl.CoreRust.OperandLocality
import Aicl.CoreRust.Validate
import Aicl.Foundation.Checked

/-!
# The nested calls of the operand decoder

Where {lit}`decode_operand` calls itself and where the operand loops of a packet call it,
in terms of the grammar: behind a count and the operands or entries that are well formed.
A build of the decoder that makes additional checks does what the decoder does under the
conditions of the calls that are reached.

Main results:

- Theorem {lit}`sequence_panicsUnless`: a count and a loop over operands.
- Theorem {lit}`list_panicsUnless`: the list arm, with the conditions of its items.
- Theorem {lit}`map_panicsUnless`: the map arm, with the conditions of its values.
- Theorem {lit}`OperandPath.startsOperand`: inside a complete operand, only complete
  operands are reached.
-/

namespace Aicl.CoreRust

open Isa (Varint Tree Derives DerivesList DerivesEntries IsNullOrReserved Layout Payload
  EntryPhrase phrases_derives_iff phrases_entry_iff)
open Outcome (Reads PanicsUnless Forward PrefixFree)

/-! ## Paths -/

/-- Where {lit}`decode_operand`, called on {lit}`data`, calls itself on item {lit}`i` of a
list or on the value of entry {lit}`i` of a map: what precedes it is well formed. -/
inductive ItemAt : Bytes → Nat → Bytes → Prop
  | list {count : Nat} {len items rest : Bytes} {ts : List Tree} : Varint count len →
      DerivesList IsNullOrReserved ts items → ts.length < count →
      ItemAt (0x17 :: (len ++ (items ++ rest))) ts.length rest
  | map {count : Nat} {len entries keyLen rest : Bytes} {es : List (Utf8String × Tree)}
      {key : Utf8String} : Varint count len → DerivesEntries IsNullOrReserved es entries →
      es.length < count → Varint key.length keyLen →
      ItemAt (0x18 :: (len ++ (entries ++ (keyLen ++ (key.bytes ++ rest))))) es.length rest

/-- The positions that lead from an operand to one inside it. -/
inductive OperandPath : Bytes → List Nat → Bytes → Prop
  | here {data : Bytes} : OperandPath data [] data
  | item {data rest target : Bytes} {i : Nat} {path : List Nat} : ItemAt data i rest →
      OperandPath rest path target → OperandPath data (i :: path) target

/-- Where the operand loop of {lit}`validate_header` decodes operand {lit}`i`. -/
inductive OperandAt : Bytes → Nat → Bytes → Prop
  | mk {opcode : UInt8} {count : Nat} {len operands rest : Bytes} {ts : List Tree} :
      Varint count len → DerivesList IsNullOrReserved ts operands → ts.length < count →
      OperandAt (opcode :: (len ++ (operands ++ rest))) ts.length rest

/-- The place of operand {lit}`i` behind a count and the operands before it. -/
def SequenceAt (body : Bytes) (i : Nat) (rest : Bytes) : Prop :=
  ∃ count len items, body = len ++ (items ++ rest) ∧ Varint count len ∧ i < count ∧
    ∃ ts, ts.length = i ∧ DerivesList IsNullOrReserved ts items

/-- A place behind a count is a {lit}`u32`. -/
theorem SequenceAt.toNat_ofNat {body rest : Bytes} {i : Nat} (h : SequenceAt body i rest) :
    (UInt32.ofNat i).toNat = i := by
  obtain ⟨count, len, items, -, hlen, hi, -⟩ := h
  exact UInt32.toNat_ofNat_of_lt' (hi.trans (hlen.lt.trans (by decide)))

/-! ## Items that are reached -/

/-- The items of a list that decoding reaches. -/
theorem itemAt_list_iff {body rest : Bytes} {i : Nat} :
    ItemAt (0x17 :: body) i rest ↔ SequenceAt body i rest := by
  constructor
  · intro h
    generalize hdata : 0x17 :: body = data at h
    cases h with
    | list hlen hts hlt =>
        obtain rfl := (List.cons.inj hdata).2
        exact ⟨_, _, _, rfl, hlen, hlt, _, rfl, hts⟩
    | map => exact absurd (List.cons.inj hdata).1 (by decide)
  · rintro ⟨count, len, items, rfl, hlen, hlt, ts, rfl, hts⟩
    exact .list hlen hts hlt

/-- The values of a map that decoding reaches. -/
theorem itemAt_map_iff {body rest : Bytes} {i : Nat} :
    ItemAt (0x18 :: body) i rest ↔ ∃ count len entries keyLen, ∃ key : Utf8String,
      body = len ++ (entries ++ (keyLen ++ (key.bytes ++ rest))) ∧ Varint count len ∧ i < count ∧
        Varint key.length keyLen ∧
          ∃ es, es.length = i ∧ DerivesEntries IsNullOrReserved es entries := by
  constructor
  · intro h
    generalize hdata : 0x18 :: body = data at h
    cases h with
    | list => exact absurd (List.cons.inj hdata).1 (by decide)
    | map hlen hes hlt hkey =>
        obtain rfl := (List.cons.inj hdata).2
        exact ⟨_, _, _, _, _, rfl, hlen, hlt, hkey, _, rfl, hes⟩
  · rintro ⟨count, len, entries, keyLen, key, rfl, hlen, hlt, hkey, es, rfl, hes⟩
    exact .map hlen hes hlt hkey

/-- Only lists and maps have items. -/
theorem not_itemAt {tag : UInt8} (hlist : tag ≠ 0x17) (hmap : tag ≠ 0x18) {body rest : Bytes}
    {i : Nat} : ¬ ItemAt (tag :: body) i rest := by
  intro h
  generalize hdata : tag :: body = data at h
  cases h with
  | list => exact hlist (List.cons.inj hdata).1
  | map => exact hmap (List.cons.inj hdata).1

/-- The operands of a payload that decoding reaches. -/
theorem operandAt_iff {opcode : UInt8} {body rest : Bytes} {i : Nat} :
    OperandAt (opcode :: body) i rest ↔ SequenceAt body i rest := by
  constructor
  · intro h
    cases h with
    | mk hlen hts hlt => exact ⟨_, _, _, rfl, hlen, hlt, _, rfl, hts⟩
  · rintro ⟨count, len, items, rfl, hlen, hlt, ts, rfl, hts⟩
    exact .mk hlen hts hlt

/-- The counts that can stand behind a byte. -/
theorem forall_readVarint_iff (tag : UInt8) {body : Bytes} {F : Nat → Nat → Prop} :
    (∀ r, readVarint (tag :: body) 1 = .ok r → F r.1.toNat r.2) ↔
      ∀ count len rest, body = len ++ rest → Varint count len → F count (1 + len.length) := by
  have hcount : ∀ {v n}, readVarint ([tag] ++ body) [tag].length = .ok (v, n) ↔
      ∃ b post, body = b ++ post ∧ Varint v.toNat b ∧ n = [tag].length + b.length :=
    readVarint_reads.eq_ok_iff (Nat.lt_succ_self body.length)
  constructor
  · intro h count len rest hsplit hlen
    have hnat := hlen.toNat_ofNat
    have hF := h _ (hcount.mpr ⟨len, rest, hsplit, hnat.symm ▸ hlen, rfl⟩)
    rwa [hnat] at hF
  · intro h r hr
    obtain ⟨len, rest, hsplit, hlen, hpos⟩ := hcount.mp hr
    rw [hpos]
    exact h _ len rest hsplit hlen

/-- The rounds that a counted loop reaches, in terms of the phrases that it reads. -/
theorem rounds_iff {σ : Type} {L : Nat} {step : Nat → σ → Bytes → Nat → AiclResult (σ × Nat)}
    {G : Nat → σ → Bytes → Prop} {s₀ : σ}
    (hloop : ∀ n, Reads L (Outcome.loop step n 0 s₀) (G n) NotUnknownType) (tag : UInt8)
    {body : Bytes} (hbody : body.length < L) {F : Nat → Nat → Prop} :
    (∀ r, readVarint (tag :: body) 1 = .ok r → ∀ k < r.1.toNat, ∀ r',
        Outcome.loop step k 0 s₀ (tag :: body) r.2 = .ok r' → F k r'.2) ↔
      ∀ count len phrases rest, body = len ++ (phrases ++ rest) → Varint count len →
        ∀ k < count, ∀ s, G k s phrases → F k (1 + len.length + phrases.length) := by
  have hreach : ∀ {len post : Bytes} {k s n}, body = len ++ post →
      (Outcome.loop step k 0 s₀ (tag :: body) (1 + len.length) = .ok (s, n) ↔
        ∃ b rest, post = b ++ rest ∧ G k s b ∧ n = 1 + len.length + b.length) := by
    intro len post k s n hsplit
    have hshort : post.length < L := by
      rw [hsplit, List.length_append] at hbody
      omega
    have hread : Outcome.loop step k 0 s₀ ((tag :: len) ++ post) (tag :: len).length = .ok (s, n) ↔
        ∃ b rest, post = b ++ rest ∧ G k s b ∧ n = (tag :: len).length + b.length :=
      (hloop k).eq_ok_iff hshort
    rw [List.length_cons, Nat.add_comm len.length] at hread
    rw [hsplit]
    exact hread
  have hcounts := @forall_readVarint_iff tag body fun count pos => ∀ k < count, ∀ r',
    Outcome.loop step k 0 s₀ (tag :: body) pos = .ok r' → F k r'.2
  rw [hcounts]
  constructor
  · intro h count len phrases rest hsplit hlen k hk s hG
    exact h count len _ hsplit hlen k hk (s, _) ((hreach hsplit).mpr ⟨phrases, rest, rfl, hG, rfl⟩)
  · intro h count len post hsplit hlen k hk r' hr'
    obtain ⟨phrases, rest, hpost, hG, hend⟩ := (hreach hsplit).mp hr'
    rw [hpost] at hsplit
    rw [hend]
    exact h count len phrases rest hsplit hlen k hk r'.1 hG

/-! ## Calls with conditions -/

variable {dec : Bytes → UInt32 → AiclResult (Operand × Nat)} {data : Bytes}

/-- A nested call at a position after the first byte. -/
theorem nestedOperand_panicsUnless {dec' : Bytes → UInt32 → AiclResult (Operand × Nat)}
    {F : Bytes → Prop} {idx : UInt32}
    (hcall : ∀ rest, rest.length < data.length →
      PanicsUnless (F rest) (dec' rest idx) (dec rest idx))
    {pos : Nat} (hpos : 1 ≤ pos) :
    PanicsUnless (pos ≤ data.length → F (data.drop pos))
      (nestedOperand dec' idx data pos) (nestedOperand dec idx data pos) := by
  unfold nestedOperand
  by_cases hle : pos ≤ data.length
  · have hshort : (data.drop pos).length < data.length := by
      rw [List.length_drop]
      omega
    rw [Outcome.sliceFrom_of_le hle]
    exact ((hcall _ hshort).bind_left _).congr (by simp [hle])
  · simp only [Outcome.sliceFrom, hle, if_false, Outcome.panic_bind]
    exact (PanicsUnless.refl _).congr (by simp)

/-- What remains after counted phrases. -/
theorem drop_phrases (tag : UInt8) {body len phrases rest : Bytes}
    (h : body = len ++ (phrases ++ rest)) :
    1 + len.length + phrases.length ≤ (tag :: body).length ∧
      (tag :: body).drop (1 + len.length + phrases.length) = rest := by
  have hlen : 1 + len.length + phrases.length = (tag :: (len ++ phrases)).length := by
    simp only [List.length_cons, List.length_append]
    omega
  have hsplit : tag :: body = (tag :: (len ++ phrases)) ++ rest := by simp [h]
  rw [hlen, hsplit, List.drop_left]
  exact ⟨by simp, rfl⟩

/-- A count and as many checked rounds: the condition is that of every round in front of
which the grammar's phrases stand. -/
theorem counted_panicsUnless {σ γ : Type} {G : Nat → σ → Bytes → Prop} {s₀ : σ} (tag : UInt8)
    {body : Bytes} (step' step : Nat → σ → Bytes → Nat → AiclResult (σ × Nat))
    (F : Nat → Nat → Prop)
    (hstep : ∀ i s pos, 1 ≤ pos →
      PanicsUnless (F i pos) (step' i s (tag :: body) pos) (step i s (tag :: body) pos))
    (hforward : ∀ i s, Forward (step i s))
    (hloop : ∀ n, Reads (body.length + 1) (Outcome.loop step n 0 s₀) (G n) NotUnknownType)
    (g : σ × Nat → AiclResult γ) :
    PanicsUnless
      (∀ count len phrases rest, body = len ++ (phrases ++ rest) → Varint count len →
        ∀ k < count, ∀ s, G k s phrases → F k (1 + len.length + phrases.length))
      (readVarint (tag :: body) 1 >>= fun r =>
        Outcome.loop step' r.1.toNat 0 s₀ (tag :: body) r.2 >>= g)
      (readVarint (tag :: body) 1 >>= fun r =>
        Outcome.loop step r.1.toNat 0 s₀ (tag :: body) r.2 >>= g) := by
  refine PanicsUnless.congr ?_ (rounds_iff hloop tag (Nat.lt_succ_self _))
  refine PanicsUnless.bind_right fun r hr => PanicsUnless.bind_left g ?_
  have hpos := readVarint_forward _ _ r hr
  have hrun := PanicsUnless.loop hstep hforward r.1.toNat 0 s₀ r.2 hpos
  simpa only [Nat.zero_add] using hrun

/-- A count and as many checked rounds over operands: the condition is that of every
operand that is reached. -/
theorem sequence_panicsUnless {σ γ : Type} {G : Nat → σ → Bytes → Prop} {s₀ : σ} (tag : UInt8)
    {body : Bytes} (step' step : Nat → σ → Bytes → Nat → AiclResult (σ × Nat))
    (F : Nat → Bytes → Prop)
    (hstep : ∀ i s pos, 1 ≤ pos →
      PanicsUnless (pos ≤ (tag :: body).length → F i ((tag :: body).drop pos))
        (step' i s (tag :: body) pos) (step i s (tag :: body) pos))
    (hforward : ∀ i s, Forward (step i s))
    (hloop : ∀ n, Reads (body.length + 1) (Outcome.loop step n 0 s₀) (G n) NotUnknownType)
    (hG : ∀ k b, (∃ s, G k s b) ↔ ∃ ts, ts.length = k ∧ DerivesList IsNullOrReserved ts b)
    (g : σ × Nat → AiclResult γ) :
    PanicsUnless (∀ i rest, SequenceAt body i rest → F i rest)
      (readVarint (tag :: body) 1 >>= fun r =>
        Outcome.loop step' r.1.toNat 0 s₀ (tag :: body) r.2 >>= g)
      (readVarint (tag :: body) 1 >>= fun r =>
        Outcome.loop step r.1.toNat 0 s₀ (tag :: body) r.2 >>= g) := by
  have hcounted := counted_panicsUnless tag step' step
    (fun i pos => pos ≤ (tag :: body).length → F i ((tag :: body).drop pos)) hstep hforward hloop g
  refine hcounted.congr ⟨?_, ?_⟩
  · rintro hfit i rest ⟨count, len, items, hbody, hlen, hi, hts⟩
    obtain ⟨s, hs⟩ := (hG i items).mpr hts
    obtain ⟨hle, hdrop⟩ := drop_phrases tag hbody
    exact hdrop ▸ hfit count len items rest hbody hlen i hi s hs hle
  · intro hfit count len items rest hbody hlen k hk s hs _
    rw [(drop_phrases tag hbody).2]
    exact hfit k rest ⟨count, len, items, hbody, hlen, hk, (hG k items).mp ⟨s, hs⟩⟩

/-- The keys that can stand after counted phrases, and what remains after them. -/
theorem entry_round_iff (tag : UInt8) {body len phrases post : Bytes}
    (h : body = len ++ (phrases ++ post)) {idx : UInt32} {message : String} {P : Bytes → Prop} :
    (∀ r, readString idx message (tag :: body) (1 + len.length + phrases.length) = .ok r →
        r.2 ≤ (tag :: body).length → P ((tag :: body).drop r.2)) ↔
      ∀ (key : Utf8String) keyLen rest, post = keyLen ++ (key.bytes ++ rest) →
        Varint key.length keyLen → P rest := by
  have hsplit : tag :: body = (tag :: (len ++ phrases)) ++ post := by simp [h]
  have hpos : 1 + len.length + phrases.length = (tag :: (len ++ phrases)).length := by
    simp only [List.length_cons, List.length_append]
    omega
  rw [hpos, hsplit]
  generalize tag :: (len ++ phrases) = pre
  have hread : ∀ {key n}, readString idx message (pre ++ post) pre.length = .ok (key, n) ↔ _ :=
    (readString_reads idx message).eq_ok_iff (Nat.lt_succ_self post.length)
  have hdrop : ∀ {b rest : Bytes}, post = b ++ rest →
      pre.length + b.length ≤ (pre ++ post).length ∧
        (pre ++ post).drop (pre.length + b.length) = rest := by
    intro b rest hpost
    rw [hpost, ← List.append_assoc, ← List.length_append, List.drop_left]
    exact ⟨by simp, rfl⟩
  constructor
  · intro h key keyLen rest hpost hkey
    have hpost' : post = (keyLen ++ key.bytes) ++ rest := by rw [hpost, List.append_assoc]
    have hr := hread.mpr ⟨keyLen ++ key.bytes, rest, hpost', ⟨keyLen, rfl, hkey⟩, rfl⟩
    exact (hdrop hpost').2 ▸ h _ hr (hdrop hpost').1
  · intro h r hr _
    obtain ⟨b, rest, hpost, ⟨keyLen, hb, hkey⟩, hend⟩ := hread.mp hr
    rw [hend, (hdrop hpost).2]
    rw [hb, List.append_assoc] at hpost
    exact h r.1 keyLen rest hpost hkey

/-- The phrases that the loop over a list reads. -/
theorem exists_items_iff (k : Nat) (b : Bytes) :
    (∃ ops, ∃ ts, ts.length = k ∧ DerivesList IsNullOrReserved ts b ∧ ops = toOperands ts) ↔
      ∃ ts, ts.length = k ∧ DerivesList IsNullOrReserved ts b := by
  constructor
  · rintro ⟨_, ts, hk, hts, rfl⟩
    exact ⟨ts, hk, hts⟩
  · rintro ⟨ts, hk, hts⟩
    exact ⟨_, ts, hk, hts, rfl⟩

section Arms

variable {body : Bytes} (hdec : ReadsOperands (body.length + 1) dec)
  (dec' : Nat → Bytes → UInt32 → AiclResult (Operand × Nat)) (F : Nat → Bytes → Prop)
include hdec

/-- A count and as many operands that are collected, where {lit}`dec' i` is called on
operand {lit}`i`. -/
theorem items_panicsUnless {γ : Type} (tag : UInt8) (index : Nat → UInt32)
    (hcall : ∀ i rest, rest.length < (tag :: body).length →
      PanicsUnless (F i rest) (dec' i rest (index i)) (dec rest (index i)))
    (g : List Operand × Nat → AiclResult γ) :
    PanicsUnless (∀ i rest, SequenceAt body i rest → F i rest)
      (readVarint (tag :: body) 1 >>= fun r =>
        Outcome.loop (fun i => itemStep (dec' i) index i) r.1.toNat 0 [] (tag :: body) r.2 >>= g)
      (readVarint (tag :: body) 1 >>= fun r =>
        Outcome.loop (itemStep dec index) r.1.toNat 0 [] (tag :: body) r.2 >>= g) :=
  sequence_panicsUnless tag _ (itemStep dec index) F
    (fun i _ _ hpos => (nestedOperand_panicsUnless (hcall i) hpos).bind_left _)
    (itemStep_forward _) (items_read hdec _) exists_items_iff g

/-- The list arm, where {lit}`dec' i` is called on item {lit}`i`. -/
theorem list_panicsUnless (idx : UInt32)
    (hcall : ∀ i rest, rest.length < (0x17 :: body).length →
      PanicsUnless (F i rest) (dec' i rest (idx * 1000 + UInt32.ofNat i))
        (dec rest (idx * 1000 + UInt32.ofNat i))) :
    PanicsUnless (∀ i rest, ItemAt (0x17 :: body) i rest → F i rest)
      (readVarint (0x17 :: body) 1 >>= fun r =>
        Outcome.loop (fun i => itemStep (dec' i) (fun i => idx * 1000 + UInt32.ofNat i) i)
          r.1.toNat 0 [] (0x17 :: body) r.2 >>= fun r => pure (Operand.list r.1, r.2))
      (decodeValue dec .list idx (0x17 :: body) 1) := by
  simp only [itemAt_list_iff]
  exact items_panicsUnless hdec dec' F 0x17 (fun i => idx * 1000 + UInt32.ofNat i) hcall _

/-- The map arm, where {lit}`dec' i` is called on the value of entry {lit}`i`. -/
theorem map_panicsUnless (idx : UInt32)
    (hcall : ∀ i rest, rest.length < (0x18 :: body).length →
      PanicsUnless (F i rest) (dec' i rest (idx * 1000 + UInt32.ofNat i))
        (dec rest (idx * 1000 + UInt32.ofNat i))) :
    PanicsUnless (∀ i rest, ItemAt (0x18 :: body) i rest → F i rest)
      (readVarint (0x18 :: body) 1 >>= fun r =>
        Outcome.loop (fun i => entryStep (dec' i) idx i) r.1.toNat 0 [] (0x18 :: body) r.2 >>=
          fun r => pure (Operand.map r.1, r.2))
      (decodeValue dec .map idx (0x18 :: body) 1) := by
  have hcounted := counted_panicsUnless 0x18
    (fun i => entryStep (dec' i) idx i) (entryStep dec idx)
    (fun i pos => ∀ r, readString idx s!"map key {i}: invalid UTF-8" (0x18 :: body) pos = .ok r →
      r.2 ≤ (0x18 :: body).length → F i ((0x18 :: body).drop r.2))
    (fun i map pos hpos => PanicsUnless.bind_right fun r hr =>
      (nestedOperand_panicsUnless (hcall i)
        (hpos.trans (readString_forward _ _ _ _ r hr))).bind_left _)
    (entryStep_forward idx) (entries_read hdec idx) fun r => pure (Operand.map r.1, r.2)
  refine hcounted.congr ⟨?_, ?_⟩
  · intro hfit i rest hitem
    obtain ⟨count, len, entries, keyLen, key, hbody, hlen, hi, hkey, es, hes, hentries⟩ :=
      itemAt_map_iff.mp hitem
    have hround := hfit count len entries _ hbody hlen i hi _ ⟨es, hes, hentries, rfl⟩
    rw [entry_round_iff 0x18 hbody] at hround
    exact hround key keyLen rest rfl hkey
  · intro hfit count len entries post hbody hlen k hk m hm
    obtain ⟨es, hes, hentries, -⟩ := hm
    rw [entry_round_iff 0x18 hbody]
    intro key keyLen rest hpost hkey
    rw [hpost] at hbody
    exact hfit k rest (itemAt_map_iff.mpr
      ⟨count, len, entries, keyLen, key, hbody, hlen, hk, hkey, es, hes, hentries⟩)

end Arms

/-- The type table knows one tag for lists and one for maps. -/
theorem fromU8_nested_cases (tag : UInt8) :
    tag = 0x17 ∨ tag = 0x18 ∨
      (OperandType.fromU8 tag ≠ .list ∧ OperandType.fromU8 tag ≠ .map) ∧ tag ≠ 0x17 ∧ tag ≠ 0x18 :=
  UInt8.forall_of_fin (p := fun tag => tag = 0x17 ∨ tag = 0x18 ∨
    (OperandType.fromU8 tag ≠ .list ∧ OperandType.fromU8 tag ≠ .map) ∧ tag ≠ 0x17 ∧ tag ≠ 0x18)
    (by decide +kernel) tag

/-! ## Operands that are complete -/

/-- A buffer starts with an operand. -/
def StartsOperand (data : Bytes) : Prop :=
  ∃ t b post, data = b ++ post ∧ Derives IsNullOrReserved t b

/-- The operands of the lenient grammar are prefix-free. -/
theorem derives_prefixFree : PrefixFree (Derives IsNullOrReserved) := by
  intro t t' b b' s s' h h' heq
  obtain ⟨ht, hb, -⟩ := Isa.Derives.unique t h h' heq
  exact ⟨ht, hb⟩

/-- So are the entries of maps. -/
theorem entryPhrase_prefixFree : PrefixFree (EntryPhrase IsNullOrReserved) := by
  rintro ⟨key, t⟩ ⟨key', t'⟩ b b' s s' ⟨len, body, rfl, hkey, ht⟩ ⟨len', body', rfl, hkey', ht'⟩ heq
  simp only [List.append_assoc] at heq
  obtain ⟨rfl, hbytes, hrest⟩ := hkey.unique_value hkey' heq
  obtain ⟨rfl, rfl, -⟩ := Isa.Derives.unique t ht ht' hrest
  exact ⟨Prod.ext (Utf8String.ext_bytes hbytes) rfl, by rw [hbytes]⟩

/-- Behind a complete sequence's count and fewer operands than it has, there is another
one. -/
theorem SequenceAt.startsOperand {len items post rest : Bytes} {ts : List Tree} {i : Nat}
    (h : SequenceAt (len ++ (items ++ post)) i rest) (hlen : Varint ts.length len)
    (hts : DerivesList IsNullOrReserved ts items) : StartsOperand rest := by
  obtain ⟨count, len', items', heq, hlen', hi, ts', rfl, hts'⟩ := h
  obtain ⟨rfl, rfl, hrest⟩ := hlen.unique hlen' heq
  obtain ⟨t, b, tail, ht, hsplit⟩ := derives_prefixFree.starts_of_phrases
    (phrases_derives_iff.mpr hts) (phrases_derives_iff.mpr hts') hi hrest
  exact ⟨t, b, tail, hsplit, ht⟩

/-- A complete operand has the layout that its tag says. -/
theorem StartsOperand.layout {tag : UInt8} {rest : Bytes} (h : StartsOperand (tag :: rest)) :
    ∃ t body post, rest = body ++ post ∧ Layout IsNullOrReserved tag (Isa.kindOf tag) t body := by
  obtain ⟨t, b, post, hsplit, ht⟩ := h
  cases b with
  | nil => exact absurd ht.length_pos (Nat.lt_irrefl 0)
  | cons tag' body =>
      obtain ⟨rfl, hrest⟩ := List.cons.inj hsplit
      exact ⟨t, body, post, hrest, (Isa.derives_cons_iff IsNullOrReserved.standalone).mp ht⟩

/-- The items of a complete operand are complete. -/
theorem ItemAt.startsOperand {data rest : Bytes} {i : Nat} (h : ItemAt data i rest)
    (hdata : StartsOperand data) : StartsOperand rest := by
  cases h with
  | list hlen hts hlt =>
      obtain ⟨_, body, post, hsplit, ts', len', items', -, rfl, hlen', hts'⟩ := hdata.layout
      rw [List.append_assoc] at hsplit
      have hplace := itemAt_list_iff.mp (@ItemAt.list _ _ _ rest _ hlen hts hlt)
      rw [hsplit] at hplace
      exact hplace.startsOperand hlen' hts'
  | @map count len entries keyLen rest es key hlen hes hlt hkey =>
      obtain ⟨_, body, post, hsplit, es', len', entries', -, rfl, hlen', hes'⟩ := hdata.layout
      rw [List.append_assoc] at hsplit
      obtain ⟨rfl, -, hrest⟩ := hlen'.unique hlen hsplit.symm
      obtain ⟨e, c, tail, ⟨keyLen', value, rfl, hkey', ht⟩, hentry⟩ :=
        entryPhrase_prefixFree.starts_of_phrases
          (phrases_entry_iff.mpr hes') (phrases_entry_iff.mpr hes) hlt hrest
      rw [List.append_assoc, List.append_assoc] at hentry
      obtain ⟨-, -, hvalue⟩ := hkey.unique_value hkey' hentry
      exact ⟨e.2, value, tail, hvalue, ht⟩

/-- What is reached inside a complete operand is complete. -/
theorem OperandPath.startsOperand {data target : Bytes} {path : List Nat}
    (h : OperandPath data path target) (hdata : StartsOperand data) : StartsOperand target := by
  induction h with
  | here => exact hdata
  | item hitem _ ih => exact ih (hitem.startsOperand hdata)

/-- The operands of a complete payload are complete. -/
theorem OperandAt.startsOperand {opcode : UInt8} {ts : List Tree} {b post rest : Bytes} {i : Nat}
    (hb : Payload IsNullOrReserved opcode ts b) (h : OperandAt (b ++ post) i rest) :
    StartsOperand rest := by
  cases hb with
  | mk hlen hts =>
      rw [List.cons_append, List.append_assoc, operandAt_iff] at h
      exact h.startsOperand hlen hts

end Aicl.CoreRust

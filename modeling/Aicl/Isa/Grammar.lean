import Aicl.Foundation.Leb128
import Aicl.Foundation.Utf8
import Aicl.Isa.Tags

/-!
# The operand grammar of AICL-ISA

Sections 3, 4 and 7 of the instruction set as a relation between syntax trees
and byte strings.  A payload is an opcode byte, a varint {lit}`n` and {lit}`n`
operands; an operand is a tag byte followed by what its layout says.  The
relation takes the set of tags that stand alone as a parameter: the instruction
set has one of them, {lit}`NULL`, and a reader that takes other tags for
{lit}`NULL` has more.

Main results:

- Theorem {lit}`Varint.unique`: a byte string starts with at most one varint.
- Theorem {lit}`Derives.unique`: a byte string starts with at most one operand.
- Theorem {lit}`Payload.strict_or_holdsReserved`: what a lenient reader accepts is
  a payload of the instruction set or holds a reserved tag.
-/

namespace Aicl.Isa

/-! ## Varints -/

/-- The varints of section 4: LEB128 numerals of at most four bytes. -/
def Varint (n : Nat) (bs : Bytes) : Prop :=
  Leb128 n bs ∧ bs.length ≤ 4

/-- The bounded reader returns the varint that a byte string starts with. -/
theorem Varint.read_append {n : Nat} {bs : Bytes} (h : Varint n bs) (post : Bytes) :
    Leb128.read 4 0 0 (bs ++ post) = some (n, bs.length) :=
  Leb128.read_eq_some_iff.mpr ⟨bs, post, rfl, h.1, rfl, h.2⟩

/-- A byte string starts with at most one varint. -/
theorem Varint.unique {n n' : Nat} {bs bs' post post' : Bytes} (h : Varint n bs)
    (h' : Varint n' bs') (heq : bs ++ post = bs' ++ post') :
    n = n' ∧ bs = bs' ∧ post = post' := by
  have hread := h.read_append post
  rw [heq, h'.read_append post'] at hread
  simp only [Option.some.injEq, Prod.mk.injEq] at hread
  obtain ⟨hbs, hpost⟩ := List.append_inj heq hread.2.symm
  exact ⟨hread.1.symm, hbs, hpost⟩

/-- A byte string starts with at most one value with its length in front. -/
theorem Varint.unique_value {v v' len len' post post' : Bytes} (h : Varint v.length len)
    (h' : Varint v'.length len') (heq : len ++ (v ++ post) = len' ++ (v' ++ post')) :
    len = len' ∧ v = v' ∧ post = post' := by
  obtain ⟨hlength, hlen, hrest⟩ := h.unique h' heq
  obtain ⟨hv, hpost⟩ := List.append_inj hrest hlength
  exact ⟨hlen, hv, hpost⟩

/-- A varint is below {lit}`2 ^ 28`. -/
theorem Varint.lt {n : Nat} {bs : Bytes} (h : Varint n bs) : n < 2 ^ 28 :=
  calc n < 128 ^ bs.length := h.1.lt_pow
    _ ≤ 128 ^ 4 := Nat.pow_le_pow_right (by decide) h.2
    _ = 2 ^ 28 := by decide

/-- A varint is a {lit}`u32`. -/
theorem Varint.toNat_ofNat {n : Nat} {bs : Bytes} (h : Varint n bs) :
    (UInt32.ofNat n).toNat = n :=
  UInt32.toNat_ofNat_of_lt' (h.lt.trans (by decide))

/-! ## Syntax trees -/

/-- What an operand says, before any reader interprets it: fixed-width values as
raw bytes, maps as the entries in the order they are written. -/
inductive Tree where
  | fixed (t : FixedType) (value : Bytes)
  | bool (value : Bool)
  | str (value : Utf8String)
  | bytes (value : Bytes)
  | list (items : List Tree)
  | map (entries : List (Utf8String × Tree))
  | bare (tag : UInt8)
  | vendor (tag : UInt8) (data : Bytes)

/-- Induction over syntax trees, with the hypothesis for every item of a list
and every value of a map. -/
theorem Tree.induct {P : Tree → Prop} (fixed : ∀ t value, P (.fixed t value))
    (bool : ∀ value, P (.bool value)) (str : ∀ value, P (.str value))
    (bytes : ∀ value, P (.bytes value))
    (list : ∀ items, (∀ t ∈ items, P t) → P (.list items))
    (map : ∀ entries, (∀ e ∈ entries, P e.2) → P (.map entries))
    (bare : ∀ tag, P (.bare tag)) (vendor : ∀ tag data, P (.vendor tag data)) :
    ∀ t, P t
  | .fixed t value => fixed t value
  | .bool value => bool value
  | .str value => str value
  | .bytes value => bytes value
  | .list items => list items fun t _ =>
      Tree.induct fixed bool str bytes list map bare vendor t
  | .map entries => map entries fun e _ =>
      Tree.induct fixed bool str bytes list map bare vendor e.2
  | .bare tag => bare tag
  | .vendor tag data => vendor tag data
termination_by t => sizeOf t
decreasing_by
  · rename_i h
    have hlt := List.sizeOf_lt_of_mem h
    simp only [Tree.list.sizeOf_spec]
    omega
  · rename_i h
    have hlt := List.sizeOf_lt_of_mem h
    obtain ⟨k, t⟩ := e
    simp only [Tree.map.sizeOf_spec, Prod.mk.sizeOf_spec] at hlt ⊢
    omega

/-! ## Derivations -/

mutual

/-- The byte strings of an operand. -/
inductive Derives (bare : UInt8 → Prop) : Tree → Bytes → Prop
  | fixed {t : FixedType} {value : Bytes} : value.length = t.width →
      Derives bare (.fixed t value) (t.tag :: value)
  | bool {value : Bool} : Derives bare (.bool value) [0x10, if value then 1 else 0]
  | str {value : Utf8String} {len : Bytes} : Varint value.length len →
      Derives bare (.str value) (0x11 :: (len ++ value.bytes))
  | bytes {value len : Bytes} : Varint value.length len →
      Derives bare (.bytes value) (0x12 :: (len ++ value))
  | list {items : List Tree} {len body : Bytes} : Varint items.length len →
      DerivesList bare items body → Derives bare (.list items) (0x17 :: (len ++ body))
  | map {entries : List (Utf8String × Tree)} {len body : Bytes} : Varint entries.length len →
      DerivesEntries bare entries body → Derives bare (.map entries) (0x18 :: (len ++ body))
  | bare {tag : UInt8} : bare tag → Derives bare (.bare tag) [tag]
  | vendor {tag : UInt8} {data len : Bytes} : 0x80 ≤ tag → Varint data.length len →
      Derives bare (.vendor tag data) (tag :: (len ++ data))

/-- The byte strings of a sequence of operands. -/
inductive DerivesList (bare : UInt8 → Prop) : List Tree → Bytes → Prop
  | nil : DerivesList bare [] []
  | cons {t : Tree} {ts : List Tree} {b bs : Bytes} : Derives bare t b →
      DerivesList bare ts bs → DerivesList bare (t :: ts) (b ++ bs)

/-- The byte strings of a sequence of map entries. -/
inductive DerivesEntries (bare : UInt8 → Prop) : List (Utf8String × Tree) → Bytes → Prop
  | nil : DerivesEntries bare [] []
  | cons {key : Utf8String} {t : Tree} {es : List (Utf8String × Tree)} {len b bs : Bytes} :
      Varint key.length len → Derives bare t b → DerivesEntries bare es bs →
      DerivesEntries bare ((key, t) :: es) (len ++ (key.bytes ++ (b ++ bs)))

end

/-- The byte strings of a payload: opcode, operand count, operands. -/
inductive Payload (bare : UInt8 → Prop) : UInt8 → List Tree → Bytes → Prop
  | mk {opcode : UInt8} {ts : List Tree} {len body : Bytes} : Varint ts.length len →
      DerivesList bare ts body → Payload bare opcode ts (opcode :: (len ++ body))

/-- {lit}`NULL` is the one tag that the instruction set lets stand alone. -/
def IsNull (tag : UInt8) : Prop := tag = 0x19

/-- The tags that stand alone for a reader that takes reserved tags for
{lit}`NULL`. -/
def IsNullOrReserved (tag : UInt8) : Prop := tag = 0x19 ∨ IsReserved tag

/-- The payloads of the instruction set. -/
abbrev WellFormed (payload : Bytes) : Prop :=
  ∃ opcode ts, Payload IsNull opcode ts payload

/-- An operand has at least its tag byte. -/
theorem Derives.length_pos {bare : UInt8 → Prop} {t : Tree} {b : Bytes} (h : Derives bare t b) :
    0 < b.length := by
  cases h <;> simp

/-- A sequence of operands has at least one byte each. -/
theorem DerivesList.length_le {bare : UInt8 → Prop} {ts : List Tree} {b : Bytes} :
    DerivesList bare ts b → ts.length ≤ b.length
  | .nil => by simp
  | .cons h hs => by
      have hpos := h.length_pos
      have hrest := hs.length_le
      simp only [List.length_cons, List.length_append]
      omega

/-- A sequence of entries has at least one byte each. -/
theorem DerivesEntries.length_le {bare : UInt8 → Prop} {es : List (Utf8String × Tree)}
    {b : Bytes} : DerivesEntries bare es b → es.length ≤ b.length
  | .nil => by simp
  | .cons _ h hs => by
      have hpos := h.length_pos
      have hrest := hs.length_le
      simp only [List.length_cons, List.length_append]
      omega

/-! ### More tags that stand alone -/

mutual

/-- A derivation stays one when more tags stand alone. -/
theorem Derives.mono {bare bare' : UInt8 → Prop} (hb : ∀ tag, bare tag → bare' tag) {t : Tree}
    {b : Bytes} : Derives bare t b → Derives bare' t b
  | .fixed h => .fixed h
  | .bool => .bool
  | .str h => .str h
  | .bytes h => .bytes h
  | .list h hs => .list h (hs.mono hb)
  | .map h hs => .map h (hs.mono hb)
  | .bare h => .bare (hb _ h)
  | .vendor h h' => .vendor h h'

/-- A derivation of a sequence stays one when more tags stand alone. -/
theorem DerivesList.mono {bare bare' : UInt8 → Prop} (hb : ∀ tag, bare tag → bare' tag)
    {ts : List Tree} {b : Bytes} : DerivesList bare ts b → DerivesList bare' ts b
  | .nil => .nil
  | .cons h hs => .cons (h.mono hb) (hs.mono hb)

/-- A derivation of entries stays one when more tags stand alone. -/
theorem DerivesEntries.mono {bare bare' : UInt8 → Prop} (hb : ∀ tag, bare tag → bare' tag)
    {es : List (Utf8String × Tree)} {b : Bytes} :
    DerivesEntries bare es b → DerivesEntries bare' es b
  | .nil => .nil
  | .cons hk h hs => .cons hk (h.mono hb) (hs.mono hb)

end

/-- A payload stays one when more tags stand alone. -/
theorem Payload.mono {bare bare' : UInt8 → Prop} (hb : ∀ tag, bare tag → bare' tag)
    {opcode : UInt8} {ts : List Tree} {payload : Bytes} (h : Payload bare opcode ts payload) :
    Payload bare' opcode ts payload := by
  cases h with
  | mk hlen hts => exact .mk hlen (hts.mono hb)

/-- {lit}`NULL` stands alone for both readers. -/
theorem IsNull.orReserved (tag : UInt8) (h : IsNull tag) : IsNullOrReserved tag := .inl h

/-! ## What the tag byte announces -/

/-- The operands and the bytes after the tag byte that a layout allows. -/
def Layout (bare : UInt8 → Prop) (tag : UInt8) : Kind → Tree → Bytes → Prop
  | .fixed ft, t, body => t = .fixed ft body ∧ body.length = ft.width
  | .bool, t, body => ∃ v, t = .bool v ∧ body = [if v then 1 else 0]
  | .str, t, body => ∃ s len, t = .str s ∧ body = len ++ s.bytes ∧ Varint s.length len
  | .bytes, t, body => ∃ v len, t = .bytes v ∧ body = len ++ v ∧ Varint v.length len
  | .list, t, body => ∃ ts len b, t = .list ts ∧ body = len ++ b ∧ Varint ts.length len ∧
      DerivesList bare ts b
  | .map, t, body => ∃ es len b, t = .map es ∧ body = len ++ b ∧ Varint es.length len ∧
      DerivesEntries bare es b
  | .vendor, t, body => ∃ v len, t = .vendor tag v ∧ body = len ++ v ∧ Varint v.length len
  | .null, t, body => t = .bare tag ∧ body = [] ∧ bare tag
  | .reserved, t, body => t = .bare tag ∧ body = [] ∧ bare tag

/-- The tags that stand alone are without a value in the tag table. -/
def Standalone (bare : UInt8 → Prop) : Prop :=
  ∀ tag, bare tag → kindOf tag = .null ∨ kindOf tag = .reserved

/-- {lit}`NULL` is without a value. -/
theorem IsNull.standalone : Standalone IsNull := by
  rintro tag rfl
  exact .inl rfl

/-- The reserved tags are without a value as well. -/
theorem IsNullOrReserved.standalone : Standalone IsNullOrReserved := by
  rintro tag (rfl | h)
  · exact .inl rfl
  · exact .inr ((kindOf_eq_reserved_iff tag).mpr h)

/-- A tag without a value in the tag table is {lit}`NULL` or reserved. -/
theorem isNullOrReserved_of_kind {tag : UInt8} (h : kindOf tag = .null ∨ kindOf tag = .reserved) :
    IsNullOrReserved tag := by
  rcases h with h | h
  · have htag := tag?_kindOf tag
    rw [h] at htag
    exact .inl (htag _ rfl).symm
  · exact .inr ((kindOf_eq_reserved_iff tag).mp h)

/-- What is made of a value with its length in front is made of the tree that holds
the value. -/
theorem exists_value_iff {V S : Type} {P : V → Bytes → Prop} (tree : V → Tree) (f : Tree → S)
    {s : S} :
    (∃ v, (∃ len, P v len) ∧ s = f (tree v)) ↔
      ∃ t, (∃ v len, t = tree v ∧ P v len) ∧ s = f t := by
  constructor
  · rintro ⟨v, ⟨len, h⟩, rfl⟩
    exact ⟨tree v, ⟨v, len, rfl, h⟩, rfl⟩
  · rintro ⟨_, ⟨v, len, rfl, h⟩, rfl⟩
    exact ⟨v, ⟨len, h⟩, rfl⟩

/-- What is made of a counted sequence is made of the tree that holds the sequence. -/
theorem exists_sequence_iff {X Y S : Type} {D : List X → Bytes → Prop} {body : Bytes}
    (tree : List X → Tree) (f : List X → Y) (g : Y → S) (h : Tree → S)
    (htree : ∀ xs, h (tree xs) = g (f xs)) {s : S} :
    (∃ n len b y, body = len ++ b ∧ Varint n len ∧ (∃ xs, xs.length = n ∧ D xs b ∧ y = f xs) ∧
        s = g y) ↔
      ∃ t, (∃ xs len b, t = tree xs ∧ body = len ++ b ∧ Varint xs.length len ∧ D xs b) ∧
        s = h t := by
  constructor
  · rintro ⟨_, len, b, _, hbody, hlen, ⟨xs, rfl, hxs, rfl⟩, rfl⟩
    exact ⟨_, ⟨xs, len, b, rfl, hbody, hlen, hxs⟩, (htree xs).symm⟩
  · rintro ⟨_, ⟨xs, len, b, rfl, hbody, hlen, hxs⟩, rfl⟩
    exact ⟨_, len, b, _, hbody, hlen, ⟨xs, rfl, hxs, rfl⟩, htree xs⟩

/-- The layout of an operand is the one that its tag byte announces. -/
theorem derives_cons_iff {bare : UInt8 → Prop} (hbare : Standalone bare) {tag : UInt8} {t : Tree}
    {body : Bytes} : Derives bare t (tag :: body) ↔ Layout bare tag (kindOf tag) t body := by
  constructor
  · intro h
    cases h with
    | @fixed ft _ hw =>
        rw [kindOf_tag]
        exact ⟨rfl, hw⟩
    | bool => exact ⟨_, rfl, rfl⟩
    | str hlen => exact ⟨_, _, rfl, rfl, hlen⟩
    | bytes hlen => exact ⟨_, _, rfl, rfl, hlen⟩
    | list hlen hs => exact ⟨_, _, _, rfl, rfl, hlen, hs⟩
    | map hlen hs => exact ⟨_, _, _, rfl, rfl, hlen, hs⟩
    | bare hb =>
        rcases hbare tag hb with hkind | hkind <;> (rw [hkind]; exact ⟨rfl, rfl, hb⟩)
    | vendor htag hlen =>
        rw [(kindOf_eq_vendor_iff tag).mpr htag]
        exact ⟨_, _, rfl, rfl, hlen⟩
  · intro h
    have htag := tag?_kindOf tag
    cases hkind : kindOf tag with
    | fixed ft =>
        rw [hkind] at h htag
        obtain ⟨rfl, hw⟩ := h
        obtain rfl := htag ft.tag rfl
        exact .fixed hw
    | bool =>
        rw [hkind] at h htag
        obtain ⟨v, rfl, rfl⟩ := h
        obtain rfl := htag _ rfl
        exact .bool
    | str =>
        rw [hkind] at h htag
        obtain ⟨v, len, rfl, rfl, hlen⟩ := h
        obtain rfl := htag _ rfl
        exact .str hlen
    | bytes =>
        rw [hkind] at h htag
        obtain ⟨v, len, rfl, rfl, hlen⟩ := h
        obtain rfl := htag _ rfl
        exact .bytes hlen
    | list =>
        rw [hkind] at h htag
        obtain ⟨ts, len, b, rfl, rfl, hlen, hs⟩ := h
        obtain rfl := htag _ rfl
        exact .list hlen hs
    | map =>
        rw [hkind] at h htag
        obtain ⟨es, len, b, rfl, rfl, hlen, hs⟩ := h
        obtain rfl := htag _ rfl
        exact .map hlen hs
    | vendor =>
        rw [hkind] at h
        obtain ⟨v, len, rfl, rfl, hlen⟩ := h
        exact .vendor ((kindOf_eq_vendor_iff tag).mp hkind) hlen
    | null =>
        rw [hkind] at h
        obtain ⟨rfl, rfl, hb⟩ := h
        exact .bare hb
    | reserved =>
        rw [hkind] at h
        obtain ⟨rfl, rfl, hb⟩ := h
        exact .bare hb

/-- An operand starts with a tag byte. -/
theorem Derives.exists_cons {bare : UInt8 → Prop} {t : Tree} {b : Bytes} (h : Derives bare t b) :
    ∃ tag body, b = tag :: body := by
  cases h <;> exact ⟨_, _, rfl⟩

/-! ## Unambiguity -/

/-- The uniqueness statement for one tree, as the induction carries it. -/
def Tree.Unique (t : Tree) : Prop :=
  ∀ {t' : Tree} {b b' s s' : Bytes}, Derives IsNullOrReserved t b →
    Derives IsNullOrReserved t' b' → b ++ s = b' ++ s' → t = t' ∧ b = b' ∧ s = s'

/-- Sequences of equal length that start the same byte string are equal. -/
theorem DerivesList.unique_of {ts : List Tree} (ih : ∀ t ∈ ts, t.Unique) :
    ∀ {ts' : List Tree} {b b' s s' : Bytes}, ts.length = ts'.length →
      DerivesList IsNullOrReserved ts b → DerivesList IsNullOrReserved ts' b' →
      b ++ s = b' ++ s' → ts = ts' ∧ b = b' ∧ s = s' := by
  induction ts with
  | nil =>
      intro ts' b b' s s' hlen h h' heq
      cases ts' with
      | nil =>
          cases h
          cases h'
          exact ⟨rfl, rfl, heq⟩
      | cons t' ts' => simp at hlen
  | cons t ts ihts =>
      intro ts' b b' s s' hlen h h' heq
      cases ts' with
      | nil => simp at hlen
      | cons t' ts' =>
          cases h with
          | cons ht hts =>
              cases h' with
              | cons ht' hts' =>
                  simp only [List.append_assoc] at heq
                  obtain ⟨rfl, rfl, hrest⟩ := ih t List.mem_cons_self ht ht' heq
                  obtain ⟨rfl, rfl, rfl⟩ := ihts (fun u hu => ih u (List.mem_cons_of_mem _ hu))
                    (by simpa using hlen) hts hts' hrest
                  exact ⟨rfl, rfl, rfl⟩

/-- Entry sequences of equal length that start the same byte string are equal. -/
theorem DerivesEntries.unique_of {es : List (Utf8String × Tree)} (ih : ∀ e ∈ es, e.2.Unique) :
    ∀ {es' : List (Utf8String × Tree)} {b b' s s' : Bytes}, es.length = es'.length →
      DerivesEntries IsNullOrReserved es b → DerivesEntries IsNullOrReserved es' b' →
      b ++ s = b' ++ s' → es = es' ∧ b = b' ∧ s = s' := by
  induction es with
  | nil =>
      intro es' b b' s s' hlen h h' heq
      cases es' with
      | nil =>
          cases h
          cases h'
          exact ⟨rfl, rfl, heq⟩
      | cons e' es' => simp at hlen
  | cons e es ihes =>
      intro es' b b' s s' hlen h h' heq
      cases es' with
      | nil => simp at hlen
      | cons e' es' =>
          cases h with
          | cons hk ht hes =>
              cases h' with
              | cons hk' ht' hes' =>
                  simp only [List.append_assoc] at heq
                  obtain ⟨rfl, hkey, hvalue⟩ := Varint.unique_value hk hk' heq
                  obtain rfl := Utf8String.ext_bytes hkey
                  obtain ⟨rfl, rfl, hrest⟩ := ih _ List.mem_cons_self ht ht' hvalue
                  obtain ⟨rfl, rfl, rfl⟩ := ihes (fun u hu => ih u (List.mem_cons_of_mem _ hu))
                    (by simpa using hlen) hes hes' hrest
                  exact ⟨rfl, rfl, rfl⟩

/-- The layouts of one tag allow at most one operand at the front of a byte
string, when they do for the operands nested in it. -/
theorem Layout.unique {tag : UInt8} {k : Kind} {t t' : Tree} {body body' s s' : Bytes}
    (hlist : ∀ ts, t = .list ts → ∀ u ∈ ts, u.Unique)
    (hmap : ∀ es, t = .map es → ∀ e ∈ es, e.2.Unique)
    (h : Layout IsNullOrReserved tag k t body) (h' : Layout IsNullOrReserved tag k t' body')
    (heq : body ++ s = body' ++ s') : t = t' ∧ body = body' ∧ s = s' := by
  cases k with
  | fixed ft =>
      obtain ⟨rfl, hw⟩ := h
      obtain ⟨rfl, hw'⟩ := h'
      obtain ⟨rfl, rfl⟩ := List.append_inj heq (hw.trans hw'.symm)
      exact ⟨rfl, rfl, rfl⟩
  | bool =>
      obtain ⟨v, rfl, rfl⟩ := h
      obtain ⟨v', rfl, rfl⟩ := h'
      cases v <;> cases v' <;> simp_all
  | str =>
      obtain ⟨v, len, rfl, rfl, hlen⟩ := h
      obtain ⟨v', len', rfl, rfl, hlen'⟩ := h'
      simp only [List.append_assoc] at heq
      obtain ⟨rfl, hv, rfl⟩ := Varint.unique_value hlen hlen' heq
      obtain rfl := Utf8String.ext_bytes hv
      exact ⟨rfl, rfl, rfl⟩
  | bytes =>
      obtain ⟨v, len, rfl, rfl, hlen⟩ := h
      obtain ⟨v', len', rfl, rfl, hlen'⟩ := h'
      simp only [List.append_assoc] at heq
      obtain ⟨rfl, rfl, rfl⟩ := Varint.unique_value hlen hlen' heq
      exact ⟨rfl, rfl, rfl⟩
  | list =>
      obtain ⟨ts, len, b, rfl, rfl, hlen, hs⟩ := h
      obtain ⟨ts', len', b', rfl, rfl, hlen', hs'⟩ := h'
      simp only [List.append_assoc] at heq
      obtain ⟨hn, rfl, hrest⟩ := hlen.unique hlen' heq
      obtain ⟨rfl, rfl, rfl⟩ := DerivesList.unique_of (hlist ts rfl) hn hs hs' hrest
      exact ⟨rfl, rfl, rfl⟩
  | map =>
      obtain ⟨es, len, b, rfl, rfl, hlen, hs⟩ := h
      obtain ⟨es', len', b', rfl, rfl, hlen', hs'⟩ := h'
      simp only [List.append_assoc] at heq
      obtain ⟨hn, rfl, hrest⟩ := hlen.unique hlen' heq
      obtain ⟨rfl, rfl, rfl⟩ := DerivesEntries.unique_of (hmap es rfl) hn hs hs' hrest
      exact ⟨rfl, rfl, rfl⟩
  | vendor =>
      obtain ⟨v, len, rfl, rfl, hlen⟩ := h
      obtain ⟨v', len', rfl, rfl, hlen'⟩ := h'
      simp only [List.append_assoc] at heq
      obtain ⟨rfl, rfl, rfl⟩ := Varint.unique_value hlen hlen' heq
      exact ⟨rfl, rfl, rfl⟩
  | null =>
      obtain ⟨rfl, rfl, _⟩ := h
      obtain ⟨rfl, rfl, _⟩ := h'
      exact ⟨rfl, rfl, heq⟩
  | reserved =>
      obtain ⟨rfl, rfl, _⟩ := h
      obtain ⟨rfl, rfl, _⟩ := h'
      exact ⟨rfl, rfl, heq⟩

/-- A byte string starts with at most one operand, when it does for the operands
nested in it. -/
theorem Tree.unique_of {t : Tree} (hlist : ∀ ts, t = .list ts → ∀ u ∈ ts, u.Unique)
    (hmap : ∀ es, t = .map es → ∀ e ∈ es, e.2.Unique) : t.Unique := by
  intro t' b b' s s' h h' heq
  obtain ⟨tag, body, rfl⟩ := h.exists_cons
  obtain ⟨tag', body', rfl⟩ := h'.exists_cons
  simp only [List.cons_append, List.cons.injEq] at heq
  obtain ⟨rfl, hbody⟩ := heq
  have hlayout := (derives_cons_iff IsNullOrReserved.standalone).mp h
  have hlayout' := (derives_cons_iff IsNullOrReserved.standalone).mp h'
  obtain ⟨rfl, rfl, rfl⟩ := Layout.unique hlist hmap hlayout hlayout' hbody
  exact ⟨rfl, rfl, rfl⟩

/-- A byte string starts with at most one operand. -/
theorem Derives.unique (t : Tree) : t.Unique := by
  induction t using Tree.induct with
  | list items ih =>
      refine Tree.unique_of ?_ (by simp)
      rintro ts ⟨⟩
      exact ih
  | map entries ih =>
      refine Tree.unique_of (by simp) ?_
      rintro es ⟨⟩
      exact ih
  | _ => exact Tree.unique_of (by simp) (by simp)

/-- Two sequences of equally many operands at the front of one byte string are
equal. -/
theorem DerivesList.unique {ts ts' : List Tree} {b b' s s' : Bytes}
    (hlen : ts.length = ts'.length) (h : DerivesList IsNullOrReserved ts b)
    (h' : DerivesList IsNullOrReserved ts' b') (heq : b ++ s = b' ++ s') :
    ts = ts' ∧ b = b' ∧ s = s' :=
  DerivesList.unique_of (fun t _ => Derives.unique t) hlen h h' heq

/-- A byte string starts with at most one payload. -/
theorem Payload.unique {opcode opcode' : UInt8} {ts ts' : List Tree} {b b' s s' : Bytes}
    (h : Payload IsNullOrReserved opcode ts b) (h' : Payload IsNullOrReserved opcode' ts' b')
    (heq : b ++ s = b' ++ s') : opcode = opcode' ∧ ts = ts' ∧ b = b' ∧ s = s' := by
  cases h with
  | mk hlen hts =>
      cases h' with
      | mk hlen' hts' =>
          simp only [List.cons_append, List.append_assoc, List.cons.injEq] at heq
          obtain ⟨rfl, hbody⟩ := heq
          obtain ⟨hn, rfl, hrest⟩ := hlen.unique hlen' hbody
          obtain ⟨rfl, rfl, rfl⟩ := DerivesList.unique hn hts hts' hrest
          exact ⟨rfl, rfl, rfl, rfl⟩

/-! ## Reserved tags in the way of a reader -/

mutual

/-- Reading one operand at the front of the bytes runs into a reserved tag. -/
inductive Reaches : Bytes → Prop
  | here {tag : UInt8} {rest : Bytes} : IsReserved tag → Reaches (tag :: rest)
  | list {n : Nat} {len rest : Bytes} : Varint n len → ReachesIn n rest →
      Reaches (0x17 :: (len ++ rest))
  | map {n : Nat} {len rest : Bytes} : Varint n len → ReachesInEntries n rest →
      Reaches (0x18 :: (len ++ rest))

/-- Reading that many operands runs into a reserved tag: in the first one, or
after a first one that the instruction set allows. -/
inductive ReachesIn : Nat → Bytes → Prop
  | first {n : Nat} {rest : Bytes} : Reaches rest → ReachesIn (n + 1) rest
  | later {n : Nat} {t : Tree} {b rest : Bytes} : Derives IsNull t b → ReachesIn n rest →
      ReachesIn (n + 1) (b ++ rest)

/-- Reading that many map entries runs into a reserved tag. -/
inductive ReachesInEntries : Nat → Bytes → Prop
  | first {n : Nat} {key : Utf8String} {len rest : Bytes} : Varint key.length len →
      Reaches rest → ReachesInEntries (n + 1) (len ++ (key.bytes ++ rest))
  | later {n : Nat} {key : Utf8String} {t : Tree} {len b rest : Bytes} :
      Varint key.length len → Derives IsNull t b → ReachesInEntries n rest →
      ReachesInEntries (n + 1) (len ++ (key.bytes ++ (b ++ rest)))

end

/-- A payload holds a reserved tag: reading its operands, at any depth, runs into
one. -/
def HoldsReserved (payload : Bytes) : Prop :=
  ∃ opcode n len rest, payload = opcode :: (len ++ rest) ∧ Varint n len ∧ ReachesIn n rest

mutual

/-- An operand that a lenient reader accepts is one of the instruction set, or
makes a reader run into a reserved tag. -/
theorem Derives.strict_or_reaches {t : Tree} {b : Bytes} (s : Bytes) :
    Derives IsNullOrReserved t b → Derives IsNull t b ∨ Reaches (b ++ s)
  | .fixed h => .inl (.fixed h)
  | .bool => .inl .bool
  | .str h => .inl (.str h)
  | .bytes h => .inl (.bytes h)
  | .list h hs => by
      rcases hs.strict_or_reaches s with hs | hs
      · exact .inl (.list h hs)
      · simp only [List.cons_append, List.append_assoc]
        exact .inr (.list h hs)
  | .map h hs => by
      rcases hs.strict_or_reaches s with hs | hs
      · exact .inl (.map h hs)
      · simp only [List.cons_append, List.append_assoc]
        exact .inr (.map h hs)
  | .bare h => by
      rcases h with h | h
      · exact .inl (.bare h)
      · exact .inr (.here h)
  | .vendor h h' => .inl (.vendor h h')

/-- The same for a sequence of operands. -/
theorem DerivesList.strict_or_reaches {ts : List Tree} {b : Bytes} (s : Bytes) :
    DerivesList IsNullOrReserved ts b → DerivesList IsNull ts b ∨ ReachesIn ts.length (b ++ s)
  | .nil => .inl .nil
  | @DerivesList.cons _ _ _ b bs h hs => by
      simp only [List.append_assoc]
      rcases h.strict_or_reaches (bs ++ s) with h | h
      · rcases hs.strict_or_reaches s with hs | hs
        · exact .inl (.cons h hs)
        · exact .inr (.later h hs)
      · exact .inr (.first h)

/-- The same for a sequence of map entries. -/
theorem DerivesEntries.strict_or_reaches {es : List (Utf8String × Tree)} {b : Bytes} (s : Bytes) :
    DerivesEntries IsNullOrReserved es b →
      DerivesEntries IsNull es b ∨ ReachesInEntries es.length (b ++ s)
  | .nil => .inl .nil
  | @DerivesEntries.cons _ _ _ _ _ b bs hk h hs => by
      simp only [List.append_assoc]
      rcases h.strict_or_reaches (bs ++ s) with h | h
      · rcases hs.strict_or_reaches s with hs | hs
        · exact .inl (.cons hk h hs)
        · exact .inr (.later hk h hs)
      · exact .inr (.first hk h)

end

/-- A payload that a lenient reader accepts is one of the instruction set, or
holds a reserved tag. -/
theorem Payload.strict_or_holdsReserved {opcode : UInt8} {ts : List Tree} {payload : Bytes}
    (h : Payload IsNullOrReserved opcode ts payload) :
    Payload IsNull opcode ts payload ∨ HoldsReserved payload := by
  cases h with
  | @mk len body hlen hs =>
      rcases hs.strict_or_reaches [] with hs | hs
      · exact .inl (.mk hlen hs)
      · exact .inr ⟨opcode, ts.length, len, body, rfl, hlen, by simpa using hs⟩

end Aicl.Isa

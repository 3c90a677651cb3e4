import Aicl.CoreRust.OperandEncode

/-!
# Operand round trips

Decoding what the operand encoder of the Rust core wrote.  The encoder writes
the tag of a vendor operand twice, before its length and after it, and the
decoder reads it once; every other operand comes back.

Main results:

- Theorem {lit}`decodeOperand_encodeOperand`: an operand without vendor operands
  is read back, whatever follows it.
- Theorem {lit}`not_roundTrips_vendor`: no vendor operand is.
- Theorem {lit}`all_roundTrips_iff`: the operands that are read back, with all
  that is nested in them, are the ones without vendor operands; where no map
  holds a vendor operand, the operand itself is read back only then.
-/

namespace Aicl.CoreRust

open Isa (Varint Tree Derives DerivesList IsNull IsNullOrReserved Layout)

/-- The operand is read back from its encoding, under every index and whatever
follows. -/
def RoundTrips (op : Operand) : Prop :=
  ∀ (s : Bytes) (idx : UInt32),
    decodeOperand (encodeOperand op ++ s) idx = .ok (op, (encodeOperand op).length)

/-! ## Operands that come back -/

/-- An operand without vendor operands is read back. -/
theorem decodeOperand_encodeOperand (op : Operand) (hsorted : op.All Operand.MapSorted)
    (hshort : op.All Operand.Short) (hvendor : op.All Operand.NotVendor) : RoundTrips op := by
  intro s idx
  have hspells := (encodeOperand_spells op hsorted hshort hvendor).lenient
  exact decodeOperand_eq_ok_iff.mpr ⟨_, s, rfl, hspells, rfl⟩

/-- An operand without vendor operands is the only reading of its encoding. -/
theorem reads_exactly {op : Operand} (hsorted : op.All Operand.MapSorted)
    (hshort : op.All Operand.Short) (hvendor : op.All Operand.NotVendor) {t : Tree}
    {b post s : Bytes} (ht : Derives IsNullOrReserved t b)
    (heq : b ++ post = encodeOperand op ++ s) : post = s := by
  obtain ⟨u, hu, _⟩ := (encodeOperand_spells op hsorted hshort hvendor).lenient
  exact (Derives.unique t ht hu heq).2.2

/-! ## Vendor operands -/

/-- A byte written before a byte string and found after it is left over. -/
theorem eq_cons_of_append_eq {x : UInt8} {data post s : Bytes}
    (h : data ++ post = x :: (data ++ s)) : post = x :: s := by
  induction data generalizing x with
  | nil => exact h
  | cons d data ih =>
      simp only [List.cons_append, List.cons.injEq] at h
      obtain ⟨rfl, h⟩ := h
      exact ih h

/-- Only a vendor operand is interpreted as one. -/
theorem eq_vendor_of_toOperand {t : Tree} {tag : UInt8} {data : Bytes}
    (h : toOperand t = .vendor tag data) : t = .vendor tag data := by
  cases t with
  | vendor tag' data' => simpa [toOperand] using h
  | fixed ft value => cases ft <;> simp [toOperand, Operand.ofFixed] at h
  | _ => simp [toOperand] at h

/-- The layout of a vendor operand. -/
theorem layout_of_vendor {tag tag' : UInt8} {data body : Bytes}
    (h : Derives IsNullOrReserved (.vendor tag data) (tag' :: body)) :
    tag' = tag ∧ ∃ len, body = len ++ data ∧ Varint data.length len := by
  cases h with
  | vendor _ hlen => exact ⟨rfl, _, rfl, hlen⟩

/-- Reading a vendor operand back, where it is read back, leaves a byte. -/
theorem vendor_leaves {tag : UInt8} {data : Bytes} (hshort : data.length < 2 ^ 28) {t : Tree}
    {b post s : Bytes} (ht : Derives IsNullOrReserved t b)
    (hop : toOperand t = .vendor tag data)
    (heq : b ++ post = encodeOperand (.vendor tag data) ++ s) : post = tag :: s := by
  obtain rfl := eq_vendor_of_toOperand hop
  obtain ⟨tag', body, rfl⟩ := ht.exists_cons
  obtain ⟨rfl, len, rfl, hlen⟩ := layout_of_vendor ht
  simp only [encodeOperand, encodeValue, List.cons_append, List.append_assoc, List.cons.injEq]
    at heq
  obtain ⟨_, _, hrest⟩ := hlen.unique (encodeLen_varint hshort) heq.2
  exact eq_cons_of_append_eq hrest

/-- A vendor operand is never read back. -/
theorem not_roundTrips_vendor {tag : UInt8} {data : Bytes} (hshort : data.length < 2 ^ 28) :
    ¬ RoundTrips (.vendor tag data) := by
  intro h
  obtain ⟨b, post, heq, ⟨t, ht, hop⟩, hlen⟩ := decodeOperand_eq_ok_iff.mp (h [] 0)
  have hpost := vendor_leaves hshort ht hop.symm heq.symm
  have hcount := congrArg List.length heq
  simp only [hpost, List.append_nil, List.length_append, List.length_cons] at hcount
  omega

/-! ## Vendor operands outside maps -/

/-- No map holds a vendor operand. -/
def Operand.VendorFreeMap : Operand → Prop
  | .map m => ∀ e ∈ m, e.2.All Operand.NotVendor
  | _ => True

/-- One byte of the vendor range is left over. -/
def LeavesByte (post s : Bytes) : Prop :=
  ∃ v, 0x80 ≤ v ∧ post = v :: s

/-- Any reading of the operand ends where its encoding does, or leaves a byte
because the operand holds a vendor operand. -/
def ReadsToEnd (op : Operand) : Prop :=
  ∀ {t : Tree} {b post s : Bytes}, Derives IsNullOrReserved t b → toOperand t = op →
    b ++ post = encodeOperand op ++ s →
    (op.All Operand.NotVendor ∧ post = s) ∨ LeavesByte post s

/-- A byte left over in front of an operand is taken for its tag, and a byte is
left over again. -/
theorem shifted_operand {op : Operand} (hshort : op.Short) {v : UInt8} (hv : 0x80 ≤ v) {t : Tree}
    {b post s : Bytes} (ht : Derives IsNullOrReserved t b) (hop : toOperand t = op)
    (heq : b ++ post = v :: (encodeOperand op ++ s)) : LeavesByte post s := by
  obtain ⟨tag, body, rfl⟩ := ht.exists_cons
  simp only [List.cons_append, List.cons.injEq] at heq
  obtain ⟨rfl, heq⟩ := heq
  have hlayout := (Isa.derives_cons_iff Isa.IsNullOrReserved.standalone).mp ht
  rw [(Isa.kindOf_eq_vendor_iff tag).mpr hv] at hlayout
  obtain ⟨data, len, rfl, rfl, hlen⟩ := hlayout
  subst hop
  simp only [toOperand, encodeOperand, encodeValue, Operand.kind, OperandType.toU8,
    List.cons_append, List.append_assoc] at heq
  -- the tag written first is now the first byte of the length
  obtain ⟨hnum, hbound⟩ := hlen
  generalize data.length = n at hnum
  cases hnum with
  | @last x hx =>
      simp only [List.cons_append, List.nil_append, List.cons.injEq] at heq
      obtain ⟨rfl, _⟩ := heq
      have hle := UInt8.le_iff_toNat_le.mp hv
      simp only [UInt8.reduceToNat] at hle
      omega
  | @more x m len' _ hm =>
      simp only [List.cons_append, List.cons.injEq] at heq
      have hlen' : Varint m len' := ⟨hm, Nat.le_of_succ_le hbound⟩
      obtain ⟨_, _, hrest⟩ := hlen'.unique (encodeLen_varint hshort) heq.2
      exact ⟨tag, hv, eq_cons_of_append_eq hrest⟩

/-- A byte left over in front of the items of a list is left over after them. -/
theorem shifted_items {items : List Operand} (hshort : ∀ op ∈ items, op.Short) {v : UInt8}
    (hv : 0x80 ≤ v) {ts : List Tree} {b post s : Bytes} (hts : DerivesList IsNullOrReserved ts b)
    (hops : toOperands ts = items) (heq : b ++ post = v :: (encodeItems items ++ s)) :
    LeavesByte post s := by
  induction items generalizing ts b v with
  | nil =>
      cases hts with
      | nil => exact ⟨v, hv, heq⟩
      | cons ht hts => simp [toOperands] at hops
  | cons op items ih =>
      cases hts with
      | nil => simp [toOperands] at hops
      | cons ht hts =>
          simp only [toOperands, List.cons.injEq] at hops
          rw [encodeItems_cons, List.append_assoc, List.append_assoc] at heq
          obtain ⟨v', hv', hrest⟩ :=
            shifted_operand (hshort op List.mem_cons_self) hv ht hops.1 heq
          exact ih (fun x hx => hshort x (List.mem_cons_of_mem _ hx)) hv' hts hops.2 hrest

/-- The items of a list are read to their end, or leave a byte. -/
theorem items_readToEnd {items : List Operand} (hshort : ∀ op ∈ items, op.Short)
    (hitems : ∀ op ∈ items, ReadsToEnd op) {ts : List Tree} {b post s : Bytes}
    (hts : DerivesList IsNullOrReserved ts b) (hops : toOperands ts = items)
    (heq : b ++ post = encodeItems items ++ s) :
    ((∀ op ∈ items, op.All Operand.NotVendor) ∧ post = s) ∨ LeavesByte post s := by
  induction items generalizing ts b with
  | nil =>
      cases hts with
      | nil => exact .inl ⟨by simp, heq⟩
      | cons ht hts => simp [toOperands] at hops
  | cons op items ih =>
      cases hts with
      | nil => simp [toOperands] at hops
      | cons ht hts =>
          simp only [toOperands, List.cons.injEq] at hops
          rw [encodeItems_cons, List.append_assoc, List.append_assoc] at heq
          have hrest : ∀ x ∈ items, x.Short := fun x hx => hshort x (List.mem_cons_of_mem _ hx)
          rcases hitems op List.mem_cons_self ht hops.1 heq with ⟨hop, htail⟩ | ⟨v, hv, htail⟩
          · refine (ih hrest (fun x hx => hitems x (List.mem_cons_of_mem _ hx)) hts hops.2
              htail).imp_left ?_
            rintro ⟨hall, hpost⟩
            exact ⟨List.forall_mem_cons.mpr ⟨hop, hall⟩, hpost⟩
          · exact .inr (shifted_items hrest hv hts hops.2 htail)

/-- Only a list is interpreted as one. -/
theorem eq_list_of_toOperand {t : Tree} {items : List Operand} (h : toOperand t = .list items) :
    ∃ ts, t = .list ts ∧ toOperands ts = items := by
  cases t with
  | list ts => exact ⟨ts, rfl, by simpa [toOperand] using h⟩
  | fixed ft value => cases ft <;> simp [toOperand, Operand.ofFixed] at h
  | _ => simp [toOperand] at h

/-- Where no map holds a vendor operand, every reading ends at the end of the
encoding or leaves a byte. -/
theorem readsToEnd (op : Operand) (hsorted : op.All Operand.MapSorted)
    (hshort : op.All Operand.Short) (hmaps : op.All Operand.VendorFreeMap)
    (htag : op.All Operand.VendorTag) : ReadsToEnd op := by
  induction op using Operand.induct with
  | leaf op hleaf =>
      intro t b post s ht hop heq
      by_cases hvendor : op.NotVendor
      · have hall := (Operand.all_leaf_iff hleaf).mpr hvendor
        exact .inl ⟨hall, reads_exactly hsorted hshort hall ht heq⟩
      · cases op with
        | vendor tag data =>
            exact .inr ⟨tag, htag.self, vendor_leaves hshort.self ht hop heq⟩
        | _ => exact absurd trivial hvendor
  | list items ih =>
      intro t b post s ht hop heq
      obtain ⟨_, hsorted⟩ := Operand.all_list_iff.mp hsorted
      obtain ⟨hcount, hshort⟩ := Operand.all_list_iff.mp hshort
      obtain ⟨_, hmaps⟩ := Operand.all_list_iff.mp hmaps
      obtain ⟨_, htag⟩ := Operand.all_list_iff.mp htag
      obtain ⟨ts, rfl, rfl⟩ := eq_list_of_toOperand hop
      cases ht with
      | @list _ len body hlen hts =>
          simp only [encodeOperand, encodeValue, List.cons_append, List.append_assoc,
            List.cons.injEq] at heq
          obtain ⟨_, _, hbody⟩ := hlen.unique (encodeLen_varint hcount) heq.2
          refine (items_readToEnd (fun x hx => (hshort x hx).self)
            (fun x hx => ih x hx (hsorted x hx) (hshort x hx) (hmaps x hx) (htag x hx)) hts rfl hbody).imp_left
            ?_
          rintro ⟨hall, hpost⟩
          exact ⟨Operand.all_list_iff.mpr ⟨trivial, hall⟩, hpost⟩
  | map m _ =>
      intro t b post s ht hop heq
      have hall : (Operand.map m).All Operand.NotVendor :=
        Operand.all_map_iff.mpr ⟨trivial, hmaps.self⟩
      exact .inl ⟨hall, reads_exactly hsorted hshort hall ht heq⟩

/-! ## The exact condition -/

/-- The operands that are read back together with everything nested in them are
those without vendor operands.  Where no map holds a vendor operand, an operand
is read back only if it holds none at all. -/
theorem all_roundTrips_iff (op : Operand) (hsorted : op.All Operand.MapSorted)
    (hshort : op.All Operand.Short) (htag : op.All Operand.VendorTag) :
    (op.All RoundTrips ↔ op.All Operand.NotVendor) ∧
      (op.All Operand.VendorFreeMap → (RoundTrips op ↔ op.All Operand.NotVendor)) := by
  refine ⟨⟨fun h x hx => ?_, fun h x hx => ?_⟩, fun hmaps => ⟨fun h => ?_, fun h => ?_⟩⟩
  · cases x with
    | vendor tag data => exact (not_roundTrips_vendor (hshort _ hx) (h _ hx)).elim
    | _ => exact trivial
  · exact decodeOperand_encodeOperand x (Nested.All.within hsorted hx)
      (Nested.All.within hshort hx) (Nested.All.within h hx)
  · obtain ⟨b, post, heq, ⟨t, ht, hop⟩, hlen⟩ := decodeOperand_eq_ok_iff.mp (h [] 0)
    rcases readsToEnd op hsorted hshort hmaps htag ht hop.symm heq.symm with
      ⟨hall, _⟩ | ⟨v, _, hpost⟩
    · exact hall
    · have hcount := congrArg List.length heq
      simp only [hpost, List.append_nil, List.length_append, List.length_cons] at hcount
      omega
  · exact decodeOperand_encodeOperand op hsorted hshort h

/-- The condition for a list that holds a vendor operand. -/
theorem all_roundTrips_vendorList :
    ((Operand.list [.u8 7, .vendor 0x80 []]).All RoundTrips ↔
        (Operand.list [.u8 7, .vendor 0x80 []]).All Operand.NotVendor) ∧
      ((Operand.list [.u8 7, .vendor 0x80 []]).All Operand.VendorFreeMap →
        (RoundTrips (.list [.u8 7, .vendor 0x80 []]) ↔
          (Operand.list [.u8 7, .vendor 0x80 []]).All Operand.NotVendor)) := by
  refine all_roundTrips_iff _ (Operand.all_list_iff.mpr ⟨trivial, ?_⟩)
    (Operand.all_list_iff.mpr ⟨by simp [Operand.Short], ?_⟩)
    (Operand.all_list_iff.mpr ⟨trivial, ?_⟩)
  · exact List.forall_mem_cons.mpr
      ⟨Operand.All.of_leaf trivial trivial, List.forall_mem_singleton.mpr (Operand.All.of_leaf trivial trivial)⟩
  · exact List.forall_mem_cons.mpr ⟨Operand.All.of_leaf trivial trivial,
      List.forall_mem_singleton.mpr (Operand.All.of_leaf trivial (by simp [Operand.Short]))⟩
  · exact List.forall_mem_cons.mpr ⟨Operand.All.of_leaf trivial trivial,
      List.forall_mem_singleton.mpr (Operand.All.of_leaf trivial (by simp [Operand.VendorTag]))⟩

/-- The vendor operand of one byte is read back as its own tag. -/
theorem vendor_not_readBack :
    ¬ ∀ op : Operand, op.All Operand.MapSorted → op.All Operand.Short →
      op.All Operand.VendorTag → RoundTrips op := by
  intro h
  have hread : decodeOperand (encodeOperand (.vendor 0x80 [0x07]) ++ []) 0 =
      .ok (.vendor 0x80 [0x80], 3) := rfl
  have hback := h (.vendor 0x80 [0x07]) (Operand.All.of_leaf trivial trivial)
    (Operand.All.of_leaf trivial (by simp [Operand.Short])) (Operand.All.of_leaf trivial (by simp [Operand.VendorTag]))
    [] 0
  rw [hread] at hback
  simp at hback

end Aicl.CoreRust

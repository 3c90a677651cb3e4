import Aicl.CoreRust.Gate

/-!
# What the gate decides about its policy

A safety policy bounds the operands of a packet at every depth.  The check of the
gate counts the depth in 32 bits and stops at the first depth above the limit, so
that the counter wraps only under the largest limit there is.

Main results:

- Theorem {lit}`SafetyPolicy.admits_iff_within`: below the largest limit on the
  depth, the check accepts what the policy bounds.
- Theorem {lit}`SafetyPolicy.admits_iff_lengths`: under the largest limit, the check
  looks at lengths only.
- Theorem {lit}`AiclGate.validatePacket_decides_iff`: when the check decides the
  policy, and that wider bounds refuse nothing more.
-/

namespace Aicl.CoreRust

open Nested (AtDepth)

/-- Something stands that many levels inside an operand. -/
def Operand.NestedTo (n : Nat) (op : Operand) : Prop := ∃ x, AtDepth n x op

namespace SafetyPolicy

/-! ## What a policy says -/

/-- Everything in an operand is within the bounds: its depth, counted without bound,
and its lengths. -/
def Within (policy : SafetyPolicy) (op : Operand) : Prop :=
  ∀ d x, AtDepth d x op → d ≤ policy.maxNestingDepth.toNat ∧ policy.AdmitsLengths x

/-- The number of operands is within its bound, and so is everything in them. -/
structure Keeps (policy : SafetyPolicy) (pkt : AiclPacket) : Prop where
  count_le : pkt.operands.length ≤ policy.maxOperandCount.toNat
  operands : ∀ op ∈ pkt.operands, policy.Within op

/-- The number of operands is within its bound, and so are all lengths in them. -/
structure KeepsLengths (policy : SafetyPolicy) (pkt : AiclPacket) : Prop where
  count_le : pkt.operands.length ≤ policy.maxOperandCount.toNat
  lengths : ∀ op ∈ pkt.operands, op.All policy.AdmitsLengths

/-- No bound that the check reads is tighter in the second policy. -/
structure Relaxes (policy policy' : SafetyPolicy) : Prop where
  maxOperandCount : policy.maxOperandCount ≤ policy'.maxOperandCount
  maxStringLength : policy.maxStringLength ≤ policy'.maxStringLength
  maxBytesLength : policy.maxBytesLength ≤ policy'.maxBytesLength
  maxNestingDepth : policy.maxNestingDepth ≤ policy'.maxNestingDepth

variable {policy policy' : SafetyPolicy} {op : Operand} {pkt : AiclPacket}

/-- A packet within the bounds has its lengths within them. -/
theorem Keeps.keepsLengths (h : policy.Keeps pkt) : policy.KeepsLengths pkt := by
  refine ⟨h.count_le, fun op hop x hx => ?_⟩
  have ⟨d, hd⟩ := Nested.within_iff.mp hx
  exact (h.operands op hop d x hd).2

/-! ## What the check accepts -/

/-- The counter of the check, as long as it has not wrapped. -/
theorem zero_add_ofNat_le_iff {d : Nat} (hd : d < 2 ^ 32) {limit : UInt32} :
    (0 : UInt32) + UInt32.ofNat d ≤ limit ↔ d ≤ limit.toNat := by
  rw [zero_add, UInt32.le_iff_toNat_le, UInt32.toNat_ofNat_of_lt' hd]

/-- Below the largest limit on the depth, the check accepts exactly what is within
the bounds. -/
theorem admits_iff_within (hlimit : policy.maxNestingDepth.toNat + 1 < 2 ^ 32) :
    policy.Admits 0 op ↔ policy.Within op := by
  constructor
  · intro h d x hx
    refine ⟨?_, (h d x hx).2⟩
    -- the first level below the limit would have been refused
    by_contra hdeep
    have ⟨y, hy⟩ := hx.exists_of_le (Nat.succ_le_of_lt (Nat.lt_of_not_le hdeep))
    have hcounted := (zero_add_ofNat_le_iff hlimit).mp (h _ y hy).1
    omega
  · intro h d x hx
    have ⟨hle, hlengths⟩ := h d x hx
    have hlt : d < 2 ^ 32 := by omega
    exact ⟨(zero_add_ofNat_le_iff hlt).mpr hle, hlengths⟩

/-- Under the largest limit on the depth, the check looks at lengths only. -/
theorem admits_iff_lengths (hlimit : ¬ policy.maxNestingDepth.toNat + 1 < 2 ^ 32) :
    policy.Admits 0 op ↔ op.All policy.AdmitsLengths := by
  have hpasses : ∀ counted : UInt32, counted ≤ policy.maxNestingDepth := by
    intro counted
    have hlt := counted.toNat_lt
    rw [UInt32.le_iff_toNat_le]
    omega
  constructor
  · intro h x hx
    have ⟨d, hd⟩ := Nested.within_iff.mp hx
    exact (h d x hd).2
  · intro h d x hx
    exact ⟨hpasses _, h x (Nested.within_iff.mpr ⟨d, hx⟩)⟩

/-- Under the largest limit on the depth, an operand is within the bounds when its
lengths are and it is not nested too deep for the counter. -/
theorem within_iff_lengths (hlimit : ¬ policy.maxNestingDepth.toNat + 1 < 2 ^ 32) :
    policy.Within op ↔ op.All policy.AdmitsLengths ∧ ¬ op.NestedTo (2 ^ 32) := by
  have hlargest : policy.maxNestingDepth.toNat = 2 ^ 32 - 1 := by
    have hlt := policy.maxNestingDepth.toNat_lt
    omega
  constructor
  · intro h
    constructor
    · intro x hx
      have ⟨d, hd⟩ := Nested.within_iff.mp hx
      exact (h d x hd).2
    · intro ⟨x, hx⟩
      have hle := (h _ x hx).1
      omega
  · intro ⟨hlengths, hshallow⟩ d x hx
    refine ⟨?_, hlengths x (Nested.within_iff.mpr ⟨d, hx⟩)⟩
    by_contra hdeep
    exact hshallow (hx.exists_of_le (by omega))

/-- Wider bounds admit the lengths of an operand again. -/
theorem Relaxes.admitsLengths (h : policy.Relaxes policy') (hop : policy.AdmitsLengths op) :
    policy'.AdmitsLengths op := by
  have hstring := UInt32.le_iff_toNat_le.mp h.maxStringLength
  have hbytes := UInt32.le_iff_toNat_le.mp h.maxBytesLength
  cases op with
  | str s => exact hop.trans hstring
  | bytes b => exact hop.trans hbytes
  | map entries => exact fun e he => (hop e he).trans hstring
  | _ => trivial

/-- Wider bounds admit a packet again. -/
theorem Relaxes.admitsPacket (h : policy.Relaxes policy') (hpkt : policy.AdmitsPacket pkt) :
    policy'.AdmitsPacket pkt := by
  constructor
  · exact UInt32.le_trans hpkt.count_le h.maxOperandCount
  · intro op hop d x hx
    have ⟨hdepth, hlengths⟩ := hpkt.operands op hop d x hx
    exact ⟨UInt32.le_trans hdepth h.maxNestingDepth, h.admitsLengths hlengths⟩

end SafetyPolicy

namespace AiclGate

/-! ## What the check decides -/

variable {gate : AiclGate} {pkt : AiclPacket}

/-- The check of the operand count does not lose digits of a count of 32 bits. -/
theorem ofNat_count_le_iff (hcount : pkt.operands.length < 2 ^ 32) :
    UInt32.ofNat pkt.operands.length ≤ gate.policy.maxOperandCount ↔
      pkt.operands.length ≤ gate.policy.maxOperandCount.toNat := by
  rw [UInt32.le_iff_toNat_le, UInt32.toNat_ofNat_of_lt' hcount]

/-- Below the largest limit on the depth, the check decides the policy. -/
theorem validatePacket_decides (hcount : pkt.operands.length < 2 ^ 32)
    (hlimit : gate.policy.maxNestingDepth.toNat + 1 < 2 ^ 32) :
    gate.validatePacket pkt = .ok () ↔ gate.policy.Keeps pkt := by
  rw [validatePacket_eq_ok_iff]
  constructor
  · intro h
    exact ⟨(ofNat_count_le_iff hcount).mp h.count_le,
      fun op hop => (SafetyPolicy.admits_iff_within hlimit).mp (h.operands op hop)⟩
  · intro h
    exact ⟨(ofNat_count_le_iff hcount).mpr h.count_le,
      fun op hop => (SafetyPolicy.admits_iff_within hlimit).mpr (h.operands op hop)⟩

/-- Under the largest limit on the depth, the check decides the lengths. -/
theorem validatePacket_decides_lengths (hcount : pkt.operands.length < 2 ^ 32)
    (hlimit : ¬ gate.policy.maxNestingDepth.toNat + 1 < 2 ^ 32) :
    gate.validatePacket pkt = .ok () ↔ gate.policy.KeepsLengths pkt := by
  rw [validatePacket_eq_ok_iff]
  constructor
  · intro h
    exact ⟨(ofNat_count_le_iff hcount).mp h.count_le,
      fun op hop => (SafetyPolicy.admits_iff_lengths hlimit).mp (h.operands op hop)⟩
  · intro h
    exact ⟨(ofNat_count_le_iff hcount).mpr h.count_le,
      fun op hop => (SafetyPolicy.admits_iff_lengths hlimit).mpr (h.lengths op hop)⟩

/-- The check decides the policy exactly when the limit on the depth is not the
largest one, or a count or a length is out of bounds, or no operand is nested too
deep for the counter.  Wider bounds never refuse what the check accepted. -/
theorem validatePacket_decides_iff (gate : AiclGate) (pkt : AiclPacket)
    (hcount : pkt.operands.length < 2 ^ 32) :
    ((gate.validatePacket pkt = .ok () ↔ gate.policy.Keeps pkt) ↔
      gate.policy.maxNestingDepth.toNat + 1 < 2 ^ 32 ∨ ¬ gate.policy.KeepsLengths pkt ∨
        ∀ op ∈ pkt.operands, ¬ op.NestedTo (2 ^ 32)) ∧
    ∀ policy', gate.policy.Relaxes policy' → gate.validatePacket pkt = .ok () →
      (gate.withPolicy policy').validatePacket pkt = .ok () := by
  constructor
  · by_cases hlimit : gate.policy.maxNestingDepth.toNat + 1 < 2 ^ 32
    · exact iff_of_true (validatePacket_decides hcount hlimit) (.inl hlimit)
    · rw [validatePacket_decides_lengths hcount hlimit, or_iff_right hlimit]
      constructor
      · intro h
        by_cases hlengths : gate.policy.KeepsLengths pkt
        · right
          intro op hop
          have hwithin := (h.mp hlengths).operands op hop
          exact ((SafetyPolicy.within_iff_lengths hlimit).mp hwithin).2
        · exact .inl hlengths
      · intro h
        refine ⟨fun hlengths => ?_, fun hkeeps => hkeeps.keepsLengths⟩
        refine ⟨hlengths.count_le, fun op hop => ?_⟩
        have hshallow := h.resolve_left (not_not.mpr hlengths) op hop
        exact (SafetyPolicy.within_iff_lengths hlimit).mpr ⟨hlengths.lengths op hop, hshallow⟩
  · intro policy' hrelaxes hok
    rw [validatePacket_eq_ok_iff] at hok ⊢
    exact hrelaxes.admitsPacket hok

/-- The new gate decides its policy about a request with a nested reference. -/
theorem validatePacket_decides_nestedRef :
    new.validatePacket nestedRef = .ok () ↔ new.policy.Keeps nestedRef :=
  (validatePacket_decides_iff new nestedRef (by decide)).1.mpr (.inl (by decide))

/-! ## A counter that wraps -/

/-- Lists in each other, a number of levels deep. -/
def nest : Nat → Operand
  | 0 => .null
  | n + 1 => .list [nest n]

/-- A property of leaves and of lists holds throughout such lists. -/
theorem all_nest {P : Operand → Prop} (hnull : P .null) (hlist : ∀ items, P (.list items)) :
    ∀ n, (nest n).All P
  | 0 => .of_leaf trivial hnull
  | n + 1 => Operand.all_list_iff.mpr
      ⟨hlist _, List.forall_mem_singleton.mpr (all_nest hnull hlist n)⟩

/-- The innermost of such lists stands at their depth. -/
theorem nest_nestedTo : ∀ n, (nest n).NestedTo n
  | 0 => ⟨.null, .here _⟩
  | n + 1 => by
      have ⟨x, hx⟩ := nest_nestedTo n
      have hmem : nest n ∈ Nested.children (nest (n + 1)) := List.mem_singleton_self _
      exact ⟨x, .child hmem hx⟩

/-- A request with such lists. -/
def nestedRequest (n : Nat) : AiclPacket where
  opcode := .call
  flags := .request
  messageId := some .zero
  correlationId := .zero
  deadlineMs := 0
  operands := [nest n]
  sorted := List.forall_mem_singleton.mpr (all_nest trivial (fun _ => trivial) n)

/-- The default policy with the largest limit on the depth. -/
def deepestPolicy : SafetyPolicy := { SafetyPolicy.default with maxNestingDepth := 0xFFFFFFFF }

/-- Under that policy, lists that are nested too deep for the counter are accepted. -/
theorem not_decides_nestedRequest {n : Nat} (hdeep : 2 ^ 32 ≤ n) :
    ¬ ((new.withPolicy deepestPolicy).validatePacket (nestedRequest n) = .ok () ↔
      deepestPolicy.Keeps (nestedRequest n)) := by
  have hlengths : deepestPolicy.KeepsLengths (nestedRequest n) := by
    refine ⟨show 1 ≤ deepestPolicy.maxOperandCount.toNat by decide, ?_⟩
    exact List.forall_mem_singleton.mpr <| all_nest trivial (fun _ => trivial) n
  have ⟨x, hx⟩ := nest_nestedTo n
  intro h
  have hcond := (validatePacket_decides_iff (new.withPolicy deepestPolicy) (nestedRequest n)
    (show 1 < 2 ^ 32 by decide)).1.mp h
  rcases hcond with hlimit | hbroken | hshallow
  · exact absurd hlimit (by decide)
  · exact hbroken hlengths
  · exact hshallow (nest n) (List.mem_singleton_self _) (hx.exists_of_le hdeep)

/-- The gate does not decide every policy. -/
theorem validatePacket_accepts_too_deep :
    ¬ ∀ (gate : AiclGate) (pkt : AiclPacket), pkt.operands.length < 2 ^ 32 →
      (gate.validatePacket pkt = .ok () ↔ gate.policy.Keeps pkt) := by
  intro h
  apply not_decides_nestedRequest (Nat.le_refl (2 ^ 32))
  exact h (new.withPolicy deepestPolicy) (nestedRequest (2 ^ 32)) (show 1 < 2 ^ 32 by decide)

end AiclGate

end Aicl.CoreRust

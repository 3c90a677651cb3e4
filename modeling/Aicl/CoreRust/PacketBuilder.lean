import Aicl.CoreRust.Codec

/-!
# The packet builder of the Rust core

{lit}`AiclPacketBuilder` of {lit}`core-rust/src/packet.rs`: the packets it starts
from, {lit}`input`, which puts an entry into the first map operand, and
{lit}`map_get`, which looks a key up in all of them in order.

Main results:

- Theorem {lit}`AiclPacket.mapGet_input`: one {lit}`input` updates what
  {lit}`map_get` answers at its key and nowhere else.
- Theorem {lit}`AiclPacketBuilder.inputs_update`: a sequence of them behaves as
  assignments to one map, and leaves the other operands alone.
-/

namespace Aicl.CoreRust

/-- {lit}`AiclFlags::insert`. -/
def AiclFlags.insert (flags flag : AiclFlags) : AiclFlags := ⟨flags.bits ||| flag.bits⟩

/-! ## Owned values -/

/-- A value of the Rust type {lit}`Operand`: its maps are sorted at every depth. -/
abbrev OwnedOperand := { op : Operand // op.All Operand.MapSorted }

namespace OwnedOperand

/-- An operand that holds no others. -/
def leaf (op : Operand) (hleaf : op.IsLeaf) (hsorted : op.MapSorted) : OwnedOperand :=
  ⟨op, .of_leaf hleaf hsorted⟩

/-- {lit}`Operand::Str`. -/
def str (s : Utf8String) : OwnedOperand := leaf (.str s) trivial trivial

/-- The strings of a list hold no maps. -/
theorem strs_sorted (items : List Utf8String) :
    (Operand.list (items.map .str)).All Operand.MapSorted :=
  Operand.all_list_iff.mpr ⟨trivial, List.forall_mem_map.mpr fun s _ => (str s).property⟩

/-- {lit}`Operand::List` of strings. -/
def strs (items : List Utf8String) : OwnedOperand := ⟨.list (items.map .str), strs_sorted items⟩

end OwnedOperand

/-- {lit}`BTreeMap<String, Operand>`: the entries in key order. -/
structure OperandMap where
  entries : List (Utf8String × Operand)
  sorted : (Operand.map entries).All Operand.MapSorted

namespace OperandMap

/-- The empty map is sorted. -/
theorem empty_sorted : (Operand.map []).All Operand.MapSorted :=
  Operand.all_map_iff.mpr ⟨List.Pairwise.nil, by simp⟩

/-- {lit}`BTreeMap::new`. -/
def empty : OperandMap := ⟨[], empty_sorted⟩

/-- {lit}`Operand::Map`. -/
def operand (m : OperandMap) : OwnedOperand := ⟨.map m.entries, m.sorted⟩

end OperandMap

/-- {lit}`BTreeMap::insert` keeps maps sorted at every depth. -/
theorem Operand.map_insert_sorted {m : List (Utf8String × Operand)}
    (hm : (Operand.map m).All Operand.MapSorted) (k : Utf8String) (v : OwnedOperand) :
    (Operand.map (SortedMap.insert k v.val m)).All Operand.MapSorted := by
  obtain ⟨hself, hvalues⟩ := Operand.all_map_iff.mp hm
  refine Operand.all_map_iff.mpr ⟨SortedMap.insert_sorted k v.val hself, fun e he => ?_⟩
  rcases SortedMap.mem_insert he with rfl | he
  · exact v.property
  · exact hvalues e he

/-! ## Packets -/

namespace AiclPacket

/-- A pushed operand keeps the operands sorted. -/
theorem push_sorted (pkt : AiclPacket) (op : OwnedOperand) :
    ∀ o ∈ pkt.operands ++ [op.val], o.All Operand.MapSorted := by
  intro o ho
  rcases List.mem_append.mp ho with ho | ho
  · exact pkt.sorted o ho
  · rw [List.mem_singleton.mp ho]
    exact op.property

/-- {lit}`operands.push`. -/
def push (pkt : AiclPacket) (op : OwnedOperand) : AiclPacket :=
  { pkt with operands := pkt.operands ++ [op.val], sorted := pkt.push_sorted op }

/-- A request: a new packet with the flag {lit}`REQUEST` and operands pushed one by one. -/
def request (opcode : AiclOpcode) (operands : List OwnedOperand) : AiclPacket :=
  let p := AiclPacket.new opcode
  operands.foldl push { p with flags := p.flags.insert .request }

/-- {lit}`AiclPacket::ping`. -/
def ping (nonce : UInt64) : AiclPacket := request .ping [.leaf (.u64 nonce) trivial trivial]

/-- {lit}`AiclPacket::call`. -/
def call (target : UInt16) (deadlineMs : UInt32) : AiclPacket :=
  request .call [.leaf (.ref target) trivial trivial, OperandMap.empty.operand,
    .leaf (.u32 deadlineMs) trivial trivial, .leaf (.u16 0) trivial trivial]

/-- {lit}`AiclPacket::classify`. -/
def classify (text : Utf8String) (labels : List Utf8String) (model : Utf8String) : AiclPacket :=
  request .classify [.str text, .strs labels, .str model]

/-- {lit}`AiclPacket::embed`. -/
def embed (model : Utf8String) (texts : List Utf8String) : AiclPacket :=
  request .embed [.str model, .strs texts]

/-- {lit}`AiclPacket::generate`. -/
def generate (prompt model : Utf8String) : AiclPacket :=
  request .execute [.str prompt, .str model]

/-- {lit}`AiclPacket::reason`. -/
def reason (problem : Utf8String) : AiclPacket := request .reason [.str problem]

/-- {lit}`AiclPacket::model_call`. -/
def modelCall (capRef : UInt16) (task : Utf8String) (inputs : OperandMap) : AiclPacket :=
  request .modelCall [.leaf (.ref capRef) trivial trivial, .str task, inputs.operand]

/-- {lit}`AiclPacket::tool_call`. -/
def toolCall (toolName : Utf8String) (params : OperandMap) : AiclPacket :=
  request .toolCall [.str toolName, params.operand]

/-- {lit}`AiclPacket::memory_read`. -/
def memoryRead (key : Utf8String) : AiclPacket := request .memoryRead [.str key]

/-- {lit}`AiclPacket::memory_write`. -/
def memoryWrite (key : Utf8String) (value : OwnedOperand) : AiclPacket :=
  request .memoryWrite [.str key, value]

/-! ## Looking a key up -/

/-- What a map operand holds under a key; other operands hold nothing. -/
def lookup (key : Utf8String) : Operand → Option Operand
  | .map m => Dict.get? key m
  | _ => none

/-- The value of a key in the first map that has it. -/
def mapGetIn (key : Utf8String) (operands : List Operand) : Option Operand :=
  operands.findSome? (lookup key)

/-- {lit}`AiclPacket::map_get`. -/
def mapGet (pkt : AiclPacket) (key : Utf8String) : Option Operand := mapGetIn key pkt.operands

/-! ## Putting an entry in -/

/-- Insert into the first map operand; push a new map if there is none. -/
def inputIn (k : Utf8String) (v : Operand) : List Operand → List Operand
  | [] => [.map (SortedMap.insert k v [])]
  | .map m :: ops => .map (SortedMap.insert k v m) :: ops
  | op :: ops => op :: inputIn k v ops

/-- Induction along the loop of {lit}`input`: it passes operands that are no maps. -/
theorem inputIn_induct {P : List Operand → Prop} (nil : P [])
    (map : ∀ m ops, P (.map m :: ops))
    (skip : ∀ op ops, (∀ m, op ≠ .map m) → P ops → P (op :: ops)) (ops : List Operand) :
    P ops := by
  induction ops with
  | nil => exact nil
  | cons op ops ih =>
      cases op with
      | map m => exact map m ops
      | _ => exact skip _ ops (by simp) ih

/-- An operand that is no map is passed. -/
theorem inputIn_skip {op : Operand} (hop : ∀ m, op ≠ .map m) (k : Utf8String) (v : Operand)
    (ops : List Operand) : inputIn k v (op :: ops) = op :: inputIn k v ops := by
  cases op with
  | map m => exact absurd rfl (hop m)
  | _ => rfl

/-- An operand that is no map holds no keys. -/
theorem lookup_skip {op : Operand} (hop : ∀ m, op ≠ .map m) (key : Utf8String) :
    lookup key op = none := by
  cases op with
  | map m => exact absurd rfl (hop m)
  | _ => rfl

/-- The first map of a list of operands is looked at first. -/
theorem mapGetIn_map (key : Utf8String) (m : List (Utf8String × Operand)) (ops : List Operand) :
    mapGetIn key (.map m :: ops) = (Dict.get? key m).or (mapGetIn key ops) := by
  simp only [mapGetIn, List.findSome?_cons, lookup]
  cases Dict.get? key m <;> rfl

/-- An operand that is no map is passed by the lookup. -/
theorem mapGetIn_skip {op : Operand} (hop : ∀ m, op ≠ .map m) (key : Utf8String)
    (ops : List Operand) : mapGetIn key (op :: ops) = mapGetIn key ops := by
  simp only [mapGetIn, List.findSome?_cons, lookup_skip hop key]

/-- The first map is the one that {lit}`input` writes and the one that {lit}`map_get`
reads first, so the new value shadows what the maps behind it hold. -/
theorem mapGetIn_inputIn (key k : Utf8String) (v : Operand) (ops : List Operand) :
    mapGetIn key (inputIn k v ops) = if key = k then some v else mapGetIn key ops := by
  induction ops using inputIn_induct with
  | nil =>
      rw [inputIn, mapGetIn_map, SortedMap.get?_insert_decEq]
      by_cases hkey : key = k
      · rw [if_pos hkey, if_pos hkey, Option.some_or]
      · rw [if_neg hkey, if_neg hkey]
        rfl
  | map m ops =>
      rw [inputIn, mapGetIn_map, mapGetIn_map, SortedMap.get?_insert_decEq]
      by_cases hkey : key = k
      · rw [if_pos hkey, if_pos hkey, Option.some_or]
      · rw [if_neg hkey, if_neg hkey]
  | skip op ops hop ih => rw [inputIn_skip hop, mapGetIn_skip hop, mapGetIn_skip hop, ih]

/-- The operands that are no maps. -/
def others (operands : List Operand) : List Operand :=
  operands.filter fun op => op matches .map _ |> not

/-- {lit}`input` touches maps only. -/
theorem others_inputIn (k : Utf8String) (v : Operand) (ops : List Operand) :
    others (inputIn k v ops) = others ops := by
  induction ops using inputIn_induct with
  | nil => rfl
  | map m ops => rfl
  | skip op ops hop ih =>
      rw [inputIn_skip hop]
      unfold others at ih ⊢
      rw [List.filter_cons, List.filter_cons, ih]

/-- {lit}`input` keeps the maps sorted. -/
theorem inputIn_sorted (k : Utf8String) (v : OwnedOperand) {ops : List Operand}
    (hops : ∀ op ∈ ops, op.All Operand.MapSorted) :
    ∀ op ∈ inputIn k v.val ops, op.All Operand.MapSorted := by
  induction ops using inputIn_induct with
  | nil =>
      rw [inputIn, List.forall_mem_singleton]
      exact Operand.map_insert_sorted OperandMap.empty_sorted k v
  | map m ops =>
      obtain ⟨hm, hops⟩ := List.forall_mem_cons.mp hops
      exact List.forall_mem_cons.mpr ⟨Operand.map_insert_sorted hm k v, hops⟩
  | skip op ops hop ih =>
      obtain ⟨hfirst, hops⟩ := List.forall_mem_cons.mp hops
      rw [inputIn_skip hop]
      exact List.forall_mem_cons.mpr ⟨hfirst, ih hops⟩

/-- The packet after {lit}`input`. -/
def input (pkt : AiclPacket) (k : Utf8String) (v : OwnedOperand) : AiclPacket :=
  { pkt with
    operands := inputIn k v.val pkt.operands
    sorted := inputIn_sorted k v pkt.sorted }

/-- One {lit}`input` updates what {lit}`map_get` answers at its key and nowhere else. -/
theorem mapGet_input (pkt : AiclPacket) (key k : Utf8String) (v : OwnedOperand) :
    (pkt.input k v).mapGet key = if key = k then some v.val else pkt.mapGet key :=
  mapGetIn_inputIn key k v.val pkt.operands

end AiclPacket

/-! ## The builder -/

/-- Fluent builder for packets. -/
structure AiclPacketBuilder where
  pkt : AiclPacket

namespace AiclPacketBuilder

/-- {lit}`AiclPacketBuilder::new`. -/
def new (opcode : AiclOpcode) : AiclPacketBuilder := ⟨.new opcode⟩

/-- {lit}`AiclPacketBuilder::ping`. -/
def ping (nonce : UInt64) : AiclPacketBuilder := ⟨.ping nonce⟩

/-- {lit}`AiclPacketBuilder::call`. -/
def call (target : UInt16) (deadlineMs : UInt32) : AiclPacketBuilder := ⟨.call target deadlineMs⟩

/-- {lit}`AiclPacketBuilder::classify`. -/
def classify (text : Utf8String) (labels : List Utf8String) (model : Utf8String) :
    AiclPacketBuilder := ⟨.classify text labels model⟩

/-- {lit}`AiclPacketBuilder::generate`. -/
def generate (prompt model : Utf8String) : AiclPacketBuilder := ⟨.generate prompt model⟩

/-- {lit}`AiclPacketBuilder::reason`. -/
def reason (problem : Utf8String) : AiclPacketBuilder := ⟨.reason problem⟩

/-- {lit}`AiclPacketBuilder::tool_call`. -/
def toolCall (toolName : Utf8String) (params : OperandMap) : AiclPacketBuilder :=
  ⟨.toolCall toolName params⟩

/-- {lit}`AiclPacketBuilder::model_call`. -/
def modelCall (capRef : UInt16) (task : Utf8String) (inputs : OperandMap) : AiclPacketBuilder :=
  ⟨.modelCall capRef task inputs⟩

/-- {lit}`AiclPacketBuilder::memory_read`. -/
def memoryRead (key : Utf8String) : AiclPacketBuilder := ⟨.memoryRead key⟩

/-- {lit}`AiclPacketBuilder::memory_write`. -/
def memoryWrite (key : Utf8String) (value : OwnedOperand) : AiclPacketBuilder :=
  ⟨.memoryWrite key value⟩

/-- {lit}`AiclPacketBuilder::embed`. -/
def embed (model : Utf8String) (texts : List Utf8String) : AiclPacketBuilder :=
  ⟨.embed model texts⟩

/-- {lit}`AiclPacketBuilder::input`. -/
def input (b : AiclPacketBuilder) (key : Utf8String) (value : OwnedOperand) : AiclPacketBuilder :=
  ⟨b.pkt.input key value⟩

/-- {lit}`AiclPacketBuilder::flag`. -/
def flag (b : AiclPacketBuilder) (f : AiclFlags) : AiclPacketBuilder :=
  ⟨{ b.pkt with flags := b.pkt.flags.insert f }⟩

/-- {lit}`AiclPacketBuilder::deadline_ms`. -/
def deadlineMs (b : AiclPacketBuilder) (ms : UInt32) : AiclPacketBuilder :=
  ⟨{ b.pkt with deadlineMs := ms }⟩

/-- {lit}`AiclPacketBuilder::correlation`. -/
def correlation (b : AiclPacketBuilder) (id : Id16) : AiclPacketBuilder :=
  ⟨{ b.pkt with correlationId := id }⟩

/-- {lit}`AiclPacketBuilder::build`. -/
def build (b : AiclPacketBuilder) : AiclPacket := b.pkt

/-- A sequence of calls of {lit}`input`. -/
def inputs (b : AiclPacketBuilder) (es : List (Utf8String × OwnedOperand)) : AiclPacketBuilder :=
  es.foldl (fun b e => b.input e.1 e.2) b

/-- After a sequence of inputs a key has its last value, or what it had before. -/
theorem mapGet_inputs (b : AiclPacketBuilder) (es : List (Utf8String × OwnedOperand))
    (key : Utf8String) :
    (b.inputs es).build.mapGet key =
      ((Dict.get? key es.reverse).map Subtype.val).or (b.build.mapGet key) := by
  induction es using List.reverseRecOn with
  | nil => rfl
  | append_singleton es e ih =>
      have hlast : (b.inputs (es ++ [e])).build = (b.inputs es).build.input e.1 e.2 := by
        simp only [inputs, List.foldl_append, List.foldl_cons, List.foldl_nil]
        rfl
      rw [hlast, AiclPacket.mapGet_input, List.reverse_concat, Dict.get?]
      by_cases hkey : key = e.1
      · rw [if_pos hkey, if_pos hkey]
        rfl
      · rw [if_neg hkey, if_neg hkey, ih]

/-- A sequence of inputs keeps the operands that are no maps. -/
theorem others_inputs (b : AiclPacketBuilder) (es : List (Utf8String × OwnedOperand)) :
    AiclPacket.others (b.inputs es).build.operands = AiclPacket.others b.build.operands := by
  induction es generalizing b with
  | nil => rfl
  | cons e es ih => exact (ih (b.input e.1 e.2)).trans (AiclPacket.others_inputIn _ _ _)

/-- The inputs of a packet behave as assignments to one map: a key that was given
has the last value given for it, every other key has what it had before, and the
operands that are no maps stay as they are, in their order. -/
theorem inputs_update (b : AiclPacketBuilder) (es : List (Utf8String × OwnedOperand)) :
    (∀ key v, Dict.get? key es.reverse = some v →
      (b.inputs es).build.mapGet key = some v.val) ∧
    (∀ key, key ∉ es.map Prod.fst →
      (b.inputs es).build.mapGet key = b.build.mapGet key) ∧
    AiclPacket.others (b.inputs es).build.operands = AiclPacket.others b.build.operands := by
  refine ⟨fun key v hv => ?_, fun key hkey => ?_, b.others_inputs es⟩
  · rw [mapGet_inputs, hv]
    rfl
  · have hnone : Dict.get? key es.reverse = none :=
      Dict.get?_eq_none (by simpa using hkey)
    rw [mapGet_inputs, hnone]
    rfl

/-- Two inputs for one key of a call, whose map then has the second one. -/
theorem inputs_update_call :
    ((call 1 30).inputs [(.ofAscii "a", .str (.ofAscii "x")),
      (.ofAscii "a", .str (.ofAscii "y"))]).build.mapGet (.ofAscii "a") =
      some (.str (.ofAscii "y")) :=
  (inputs_update (call 1 30) [(.ofAscii "a", .str (.ofAscii "x")),
    (.ofAscii "a", .str (.ofAscii "y"))]).1 _ (.str (.ofAscii "y")) rfl

end AiclPacketBuilder

end Aicl.CoreRust

import Aicl.CoreCpp.Adapter

/-!
# Generation with llama.cpp

{lit}`LlamaModel` of {lit}`native-cpp/src/llama_backend.cpp`: the loop of
{lit}`generate_impl` and the two callbacks that {lit}`invoke` and
{lit}`invoke_stream` run it with.  What llama.cpp does on a prompt is a parameter:
the tokens that are sampled one after the other, and which evaluations succeed.

Main results:

- Theorem {lit}`Decoder.loop_eq_offer`: the loop offers the tokens that have a text
  to its callback until the callback refuses one.
- Theorem {lit}`LlamaModel.agree_iff`: streaming and one-shot generation agree
  exactly when generation ends in time with an end token that has a text.
-/

namespace Aicl.NativeCpp

open CoreCpp

/-- {lit}`MAX_TOKENS_DEFAULT`. -/
def MAX_TOKENS_DEFAULT : Nat := 512

/-! ## Lists that end with a mark -/

section EndsOnce

variable {α : Type} {p : α → Bool}

/-- The last entry is marked, and no other one is. -/
def EndsOnce (p : α → Bool) (l : List α) : Prop :=
  ∃ before last, l = before ++ [last] ∧ p last = true ∧ ∀ x ∈ before, p x = false

/-- It depends on the marks alone. -/
theorem endsOnce_iff {l : List α} :
    EndsOnce p l ↔ ∃ n, l.map p = List.replicate n false ++ [true] := by
  constructor
  · rintro ⟨before, last, rfl, hlast, hbefore⟩
    have hmarks : before.map p = List.replicate before.length false :=
      List.eq_replicate_iff.mpr ⟨by simp, by simpa using hbefore⟩
    exact ⟨before.length, by simp [hmarks, hlast]⟩
  · rintro ⟨n, hn⟩
    obtain ⟨before, last, rfl, hbefore, hlast⟩ := List.map_eq_append_iff.mp hn
    obtain ⟨x, rfl, hx⟩ := List.map_eq_singleton_iff.mp hlast
    refine ⟨before, x, rfl, hx, ?_⟩
    simpa using (List.eq_replicate_iff.mp hbefore).2

/-- Lists with the same marks. -/
theorem endsOnce_congr {β : Type} {q : β → Bool} {l : List α} {l' : List β}
    (h : l.map p = l'.map q) : EndsOnce p l ↔ EndsOnce q l' := by
  rw [endsOnce_iff, endsOnce_iff, h]

end EndsOnce

/-! ## The decoder -/

/-- A sampled token: its piece, empty when llama.cpp writes none, and whether it
ends the generation. -/
structure Token where
  piece : Bytes
  isEos : Bool
deriving DecidableEq, Repr

/-- The token has a text. -/
def Token.hasText (t : Token) : Bool := decide (0 < t.piece.length)

/-- What llama.cpp does on a prompt. -/
structure Decoder where
  promptTokens : Nat
  promptEvaluates : Bool
  nCtx : Nat
  token : Nat → Token
  evaluates : Nat → Bool

namespace Decoder

variable {σ : Type}

/-- The tokens that can be evaluated after the prompt: {lit}`n_cur` starts behind the
prompt and stops at {lit}`n_ctx - 1`. -/
def room (d : Decoder) : Nat := d.nCtx - 1 - d.promptTokens

/-- {lit}`on_token`: whether to go on, and what the callback captured. -/
abbrev OnToken (σ : Type) := Bytes → Bool → σ → Bool × σ

/-- The loop of {lit}`generate_impl` from the i-th token on: the text, and what the
callback captured. -/
def loop (d : Decoder) (onToken : OnToken σ) (room i : Nat) (output : Bytes) (s : σ) : Bytes × σ :=
  let token := d.token i
  let (output, goOn, s) :=
    if token.hasText then (output ++ token.piece, onToken token.piece token.isEos s)
    else (output, true, s)
  if !goOn then (output, s)
  else if token.isEos then (output, s)
  else
    match room with
    | 0 => (output, s)
    | room + 1 => if d.evaluates i then loop d onToken room (i + 1) output s else (output, s)

/-- {lit}`generate_impl`, with a context or without. -/
def generateImpl (d : Decoder) (context : Bool) (onToken : OnToken σ) (s : σ) : Bytes × σ :=
  if !context then ([], s)
  else if !d.promptEvaluates then ([], s)
  else loop d onToken d.room 0 [] s

/-! ## The loop without its callback -/

/-- The tokens that are sampled from the i-th on if nobody stops the loop. -/
def sampled (d : Decoder) (room i : Nat) : List Token :=
  d.token i ::
    if (d.token i).isEos then []
    else
      match room with
      | 0 => []
      | room + 1 => if d.evaluates i then sampled d room (i + 1) else []

/-- Offer tokens to a callback until it refuses one. -/
def offer (onToken : OnToken σ) : List Token → σ → σ
  | [], s => s
  | t :: ts, s =>
      let (goOn, s) := onToken t.piece t.isEos s
      if goOn then offer onToken ts s else s

/-- The loop offers the tokens that have a text to its callback. -/
theorem loop_eq_offer (d : Decoder) (onToken : OnToken σ) (room i : Nat) (output : Bytes) (s : σ) :
    (loop d onToken room i output s).2 =
      offer onToken ((d.sampled room i).filter Token.hasText) s := by
  induction room generalizing i output s with
  | zero =>
      rw [loop, sampled]
      by_cases htext : (d.token i).hasText <;> by_cases heos : (d.token i).isEos <;>
        simp [htext, heos, offer]
  | succ room ih =>
      rw [loop, sampled]
      by_cases htext : (d.token i).hasText
      · by_cases hgo : (onToken (d.token i).piece (d.token i).isEos s).1
        · by_cases heos : (d.token i).isEos
          · simp [htext, heos, offer]
          · by_cases heval : d.evaluates i
            · simp_all [offer]
            · simp_all [offer]
        · simp_all [offer]
      · by_cases heos : (d.token i).isEos
        · simp [htext, heos, offer]
        · by_cases heval : d.evaluates i
          · simp_all
          · simp_all [offer]

/-! ## How the loop ends -/

/-- The first end token is sampled at this place, counted from the i-th token. -/
structure EndsAt (d : Decoder) (room i k : Nat) : Prop where
  le_room : k ≤ room
  isEos : (d.token (i + k)).isEos = true
  before : ∀ j < k, (d.token (i + j)).isEos = false ∧ d.evaluates (i + j) = true

/-- Up to an end token all tokens are sampled. -/
theorem EndsAt.sampled_eq {d : Decoder} {room i k : Nat} (h : d.EndsAt room i k) :
    d.sampled room i = (List.range (k + 1)).map fun j => d.token (i + j) := by
  induction room generalizing i k with
  | zero =>
      obtain rfl : k = 0 := Nat.le_zero.mp h.le_room
      have heos : (d.token i).isEos = true := h.isEos
      rw [sampled, if_pos heos]
      rfl
  | succ room ih =>
      cases k with
      | zero =>
          have heos : (d.token i).isEos = true := h.isEos
          rw [sampled, if_pos heos]
          rfl
      | succ k =>
          have hfirst : (d.token i).isEos = false ∧ d.evaluates i = true := h.before 0 (by omega)
          have hrest : d.EndsAt room (i + 1) k := {
            le_room := Nat.le_of_succ_le_succ h.le_room
            isEos := by
              have heos := h.isEos
              rwa [show i + (k + 1) = i + 1 + k by omega] at heos
            before := fun j hj => by
              have hbefore := h.before (j + 1) (by omega)
              rwa [show i + (j + 1) = i + 1 + j by omega] at hbefore }
          rw [List.range_succ_eq_map, sampled]
          simp only [hfirst.1, hfirst.2, Bool.false_eq_true, if_false, if_true, ih hrest,
            List.map_cons, List.map_map, Nat.add_zero]
          congr 1
          apply List.map_congr_left
          intro j _
          simp only [Function.comp, Nat.succ_eq_add_one]
          congr 1
          omega

/-- An end token that is sampled is the first one. -/
theorem endsAt_of_mem {d : Decoder} {room i : Nat} {t : Token} (hmem : t ∈ d.sampled room i)
    (heos : t.isEos = true) : ∃ k, d.EndsAt room i k ∧ d.token (i + k) = t := by
  induction room generalizing i with
  | zero =>
      have ht : t = d.token i := by
        rw [sampled] at hmem
        by_cases hi : (d.token i).isEos <;> simpa [hi] using hmem
      subst ht
      exact ⟨0, ⟨Nat.le_refl 0, heos, fun j hj => absurd hj (Nat.not_lt_zero j)⟩, rfl⟩
  | succ room ih =>
      by_cases hi : (d.token i).isEos
      · have ht : t = d.token i := by
          rw [sampled, if_pos hi] at hmem
          simpa using hmem
        subst ht
        exact ⟨0, ⟨Nat.zero_le _, heos, fun j hj => absurd hj (Nat.not_lt_zero j)⟩, rfl⟩
      · rw [sampled, if_neg hi] at hmem
        rcases List.mem_cons.mp hmem with ht | hmem
        · rw [ht] at heos
          exact absurd heos hi
        · by_cases heval : d.evaluates i
          · simp only [heval, if_true] at hmem
            obtain ⟨k, hends, htoken⟩ := ih hmem
            refine ⟨k + 1, ⟨Nat.succ_le_succ hends.le_room, ?_, ?_⟩, ?_⟩
            · rw [show i + (k + 1) = i + 1 + k by omega]
              exact hends.isEos
            · intro j hj
              cases j with
              | zero => exact ⟨by simpa using hi, heval⟩
              | succ j =>
                  rw [show i + (j + 1) = i + 1 + j by omega]
                  exact hends.before j (by omega)
            · rw [show i + (k + 1) = i + 1 + k by omega]
              exact htoken
          · simp [heval] at hmem

/-- The number of tokens with a text among the first ones. -/
def texts (d : Decoder) (n : Nat) : Nat :=
  ((List.range n).filter fun j => (d.token j).hasText).length

/-- Generation ends in time, and with a word: the prompt evaluates, an end token is
sampled before the context is full and before an evaluation fails, it has a text,
and no more than {lit}`MAX_TOKENS_DEFAULT` tokens up to it do. -/
def EndsInTime (d : Decoder) : Prop :=
  d.promptEvaluates = true ∧ ∃ k, d.EndsAt d.room 0 k ∧ (d.token k).hasText = true ∧
    d.texts (k + 1) ≤ MAX_TOKENS_DEFAULT

/-- The tokens that the callback is offered. -/
def spoken (d : Decoder) (context : Bool) : List Token :=
  if context && d.promptEvaluates then (d.sampled d.room 0).filter Token.hasText else []

/-- {lit}`generate_impl` offers these tokens. -/
theorem generateImpl_eq_offer (d : Decoder) (context : Bool) (onToken : OnToken σ) (s : σ) :
    (d.generateImpl context onToken s).2 = offer onToken (d.spoken context) s := by
  unfold generateImpl spoken
  by_cases hcontext : context
  · by_cases hprompt : d.promptEvaluates
    · simp only [hcontext, hprompt, Bool.not_true, Bool.false_eq_true, if_false, Bool.and_self,
        if_true, loop_eq_offer]
    · simp [hcontext, hprompt, offer]
  · simp [hcontext, offer]

/-- Up to an end token with a text, the offered tokens are those with a text. -/
theorem EndsAt.spoken_eq {d : Decoder} {k : Nat} (h : d.EndsAt d.room 0 k)
    (hprompt : d.promptEvaluates = true) (htext : (d.token k).hasText = true) :
    d.spoken true = ((List.range k).map d.token).filter Token.hasText ++ [d.token k] := by
  have hsampled : d.sampled d.room 0 = (List.range (k + 1)).map d.token := by
    simpa using h.sampled_eq
  simp [spoken, hprompt, hsampled, List.range_succ, htext]

/-- They are counted. -/
theorem EndsAt.spoken_length {d : Decoder} {k : Nat} (h : d.EndsAt d.room 0 k)
    (hprompt : d.promptEvaluates = true) : (d.spoken true).length = d.texts (k + 1) := by
  have hsampled : d.sampled d.room 0 = (List.range (k + 1)).map d.token := by
    simpa using h.sampled_eq
  simp [spoken, hprompt, hsampled, texts, List.filter_map, Function.comp_def]

/-- Generation ends in time exactly when the offered tokens are not too many and
the last one is an end token. -/
theorem endsInTime_iff (d : Decoder) :
    d.EndsInTime ↔ (d.spoken true).length ≤ MAX_TOKENS_DEFAULT ∧
      EndsOnce Token.isEos (d.spoken true) := by
  constructor
  · rintro ⟨hprompt, k, hends, htext, hlimit⟩
    refine ⟨(hends.spoken_length hprompt).trans_le hlimit, _, d.token k,
      hends.spoken_eq hprompt htext, by simpa using hends.isEos, ?_⟩
    intro t ht
    obtain ⟨j, hj, rfl⟩ := List.mem_map.mp (List.mem_filter.mp ht).1
    simpa using (hends.before j (List.mem_range.mp hj)).1
  · rintro ⟨hlimit, before, last, hspoken, heos, -⟩
    have hlast : last ∈ d.spoken true := by simp [hspoken]
    by_cases hprompt : d.promptEvaluates
    · rw [spoken, hprompt, Bool.and_self, if_pos rfl] at hlast
      obtain ⟨hmem, htext⟩ := List.mem_filter.mp hlast
      obtain ⟨k, hends, htoken⟩ := endsAt_of_mem hmem heos
      rw [Nat.zero_add] at htoken
      exact ⟨hprompt, k, hends, htoken ▸ htext, (hends.spoken_length hprompt).symm.trans_le hlimit⟩
    · simp [spoken, hprompt] at hlast

end Decoder

/-! ## The model -/

/-- {lit}`LlamaModel`: its name, its handles, and llama.cpp. -/
structure LlamaModel where
  id : Bytes
  model : Bool
  context : Bool
  decoder : Bytes → Decoder

namespace LlamaModel

/-- {lit}`is_loaded`. -/
def isLoaded (m : LlamaModel) : Bool := m.model

/-- The prompt of a request: {lit}`as_str` throws {lit}`std::bad_cast` on another
kind of value. -/
def prompt (req : ModelRequest) : Except String Bytes :=
  match req.inputs.lookup "prompt" with
  | none => .ok []
  | some (.str s) => .ok s
  | some _ => .error "std::bad_cast"

/-- The response of a model that is not loaded. -/
def notLoaded (req : ModelRequest) (flags : UInt16) : ModelResponse where
  target := req.target
  correlationId := req.correlationId
  errorCode := 1
  errorMessage := "model not loaded"
  flags := ⟨flags⟩

/-- {lit}`Value::from_i32`; its number is not kept. -/
def fromI32 : Value := .other 4

/-- {lit}`Value::from_f64`; its number is not kept. -/
def fromF64 : Value := .other 11

/-- The callback of {lit}`invoke`: the text and the number of tokens so far. -/
def collect : Decoder.OnToken (Bytes × Nat) := fun token _ s =>
  let tokens := s.2 + 1
  (decide (tokens < MAX_TOKENS_DEFAULT), s.1 ++ token, tokens)

/-- {lit}`LlamaModel::invoke`: the response, or what was thrown. -/
def invoke (m : LlamaModel) (req : ModelRequest) : Except String ModelResponse :=
  if !m.isLoaded then .ok (notLoaded req (AiclFlags.RESPONSE ||| AiclFlags.ERROR_FLAG))
  else
    match prompt req with
    | .error what => .error what
    | .ok prompt =>
        let (result, _) := ((m.decoder prompt).generateImpl m.context collect ([], 0)).2
        let outputs := AList.insert "text" (.str result) ∅
        let outputs := outputs.insert "tokens" fromI32
        let outputs := outputs.insert "time_ms" fromF64
        let outputs := outputs.insert "model" (.str m.id)
        .ok {
          target := req.target
          correlationId := req.correlationId
          outputs := outputs
          flags := ⟨AiclFlags.RESPONSE⟩ }

/-- A chunk of {lit}`invoke_stream`, made after some tokens were generated. -/
def chunk (req : ModelRequest) (tokensGenerated : Nat) (token : Bytes) (eos : Bool) :
    ModelResponse :=
  let outputs := AList.insert "token" (.str token) ∅
  if eos || decide (MAX_TOKENS_DEFAULT ≤ tokensGenerated) then
    { target := req.target
      correlationId := req.correlationId
      flags := ⟨AiclFlags.RESPONSE ||| AiclFlags.STREAM_END⟩
      outputs := (outputs.insert "total_tokens" fromI32).insert "time_ms" fromF64 }
  else
    { target := req.target
      correlationId := req.correlationId
      flags := ⟨AiclFlags.RESPONSE ||| AiclFlags.STREAM_CHUNK⟩
      outputs := outputs }

/-- The callback of {lit}`invoke_stream`: the number of tokens so far, and what the
visitor was given. -/
def deliverToken (visitor : Visitor) (req : ModelRequest) : Decoder.OnToken (Nat × List Delivery) :=
  fun token eos s =>
    let response := chunk req s.1 token eos
    (visitor (s.2.map Prod.fst) response, s.1 + 1, AICLModelAdapter.visit visitor s.2 response)

/-- {lit}`LlamaModel::invoke_stream`: what was thrown, and the deliveries. -/
def invokeStream (m : LlamaModel) (visitor : Visitor) (req : ModelRequest) :
    Option String × List Delivery :=
  if !m.isLoaded then
    (none, AICLModelAdapter.visit visitor [] (notLoaded req AiclFlags.ERROR_FLAG))
  else
    match prompt req with
    | .error what => (some what, [])
    | .ok prompt =>
        (none, ((m.decoder prompt).generateImpl m.context (deliverToken visitor req) (0, [])).2.2)

/-! ## Both callbacks on the same tokens -/

/-- The text of tokens. -/
def textOf (ts : List Token) : Bytes := ts.flatMap Token.piece

/-- {lit}`invoke` takes the tokens up to the limit. -/
theorem offer_collect (ts : List Token) (text : Bytes) {n : Nat} (hn : n < MAX_TOKENS_DEFAULT) :
    (Decoder.offer collect ts (text, n)).1 = text ++ textOf (ts.take (MAX_TOKENS_DEFAULT - n)) := by
  induction ts generalizing text n with
  | nil => simp [Decoder.offer, textOf]
  | cons t ts ih =>
      obtain ⟨left, hleft⟩ : ∃ left, MAX_TOKENS_DEFAULT - n = left + 1 :=
        ⟨MAX_TOKENS_DEFAULT - n - 1, by omega⟩
      rw [hleft, List.take_succ_cons, Decoder.offer]
      by_cases hlimit : n + 1 < MAX_TOKENS_DEFAULT
      · have hrest : MAX_TOKENS_DEFAULT - (n + 1) = left := by omega
        simp only [collect, hlimit, decide_true, if_true]
        rw [ih _ hlimit, hrest]
        simp [textOf]
      · have hrest : left = 0 := by omega
        simp [collect, hlimit, hrest, textOf]

/-- A visitor that never cancels. -/
def keepsGoing : Visitor := fun _ _ => true

/-- The deliveries of tokens to a visitor that never cancels. -/
def deliveries (req : ModelRequest) (n : Nat) (ts : List Token) : List Delivery :=
  (ts.zipIdx n).map fun t => (chunk req t.2 t.1.piece t.1.isEos, true)

/-- {lit}`invoke_stream` delivers all tokens. -/
theorem offer_deliverToken (req : ModelRequest) (ts : List Token) (n : Nat) (log : List Delivery) :
    (Decoder.offer (deliverToken keepsGoing req) ts (n, log)).2 = log ++ deliveries req n ts := by
  induction ts generalizing n log with
  | nil => simp [Decoder.offer, deliveries]
  | cons t ts ih =>
      have hgo : ∀ log response, keepsGoing log response = true := fun _ _ => rfl
      rw [Decoder.offer]
      simp only [deliverToken, hgo, if_true] at ih ⊢
      rw [ih]
      simp [deliveries, AICLModelAdapter.visit, hgo, List.zipIdx_cons]

/-- Which chunks end the stream. -/
theorem isEnd_chunk (req : ModelRequest) (n : Nat) (token : Bytes) (eos : Bool) :
    (chunk req n token eos).isEnd = (eos || decide (MAX_TOKENS_DEFAULT ≤ n)) := by
  have hend : AiclFlags.has ⟨AiclFlags.RESPONSE ||| AiclFlags.STREAM_END⟩ AiclFlags.STREAM_END =
      true := by decide
  have hchunk : AiclFlags.has ⟨AiclFlags.RESPONSE ||| AiclFlags.STREAM_CHUNK⟩
      AiclFlags.STREAM_END = false := by decide
  unfold chunk ModelResponse.isEnd
  by_cases h : eos || decide (MAX_TOKENS_DEFAULT ≤ n)
  · simp only [h, if_true]
    exact hend
  · simp only [h]
    exact hchunk

/-- The text that a delivery hands out. -/
def tokenOutput (r : ModelResponse) : Bytes :=
  match r.outputs.lookup "token" with
  | some (.str s) => s
  | _ => []

/-- A chunk hands out its token. -/
theorem tokenOutput_chunk (req : ModelRequest) (n : Nat) (token : Bytes) (eos : Bool) :
    tokenOutput (chunk req n token eos) = token := by
  have hlookup : (AList.insert "token" (Value.str token) ∅ : ValueMap).lookup "token" =
      some (Value.str token) := AList.lookup_insert _
  unfold chunk tokenOutput
  by_cases h : eos || decide (MAX_TOKENS_DEFAULT ≤ n)
  · have htotal : "token" ≠ "total_tokens" := by decide
    have htime : "token" ≠ "time_ms" := by decide
    simp only [h, if_true, AList.lookup_insert_ne htime, AList.lookup_insert_ne htotal, hlookup]
  · simp only [h]
    rfl

/-- All deliveries together hand out the text of the tokens. -/
theorem tokenOutput_deliveries (req : ModelRequest) (n : Nat) (ts : List Token) :
    (deliveries req n ts).flatMap (fun e => tokenOutput e.1) = textOf ts := by
  induction ts generalizing n with
  | nil => rfl
  | cons t ts ih =>
      simp only [deliveries] at ih
      simp [deliveries, List.zipIdx_cons, textOf, tokenOutput_chunk, ih]

/-! ## Agreement -/

/-- Streaming and one-shot generation agree on a request: the delivered tokens are
the text of {lit}`invoke`, there are at most {lit}`MAX_TOKENS_DEFAULT` of them, and
the last one is the only one that carries {lit}`STREAM_END`. -/
structure Agree (m : LlamaModel) (req : ModelRequest) : Prop where
  text : ∃ out, m.invoke req = .ok out ∧ out.outputs.lookup "text" =
    some (.str ((m.invokeStream keepsGoing req).2.flatMap fun e => tokenOutput e.1))
  limit : (m.invokeStream keepsGoing req).2.length ≤ MAX_TOKENS_DEFAULT
  end_once : EndsOnce (fun e => e.1.isEnd) (m.invokeStream keepsGoing req).2

/-- What {lit}`invoke` answers to a prompt. -/
theorem invoke_text {m : LlamaModel} {req : ModelRequest} {p : Bytes} (hloaded : m.isLoaded = true)
    (hprompt : prompt req = .ok p) : ∃ out, m.invoke req = .ok out ∧ out.outputs.lookup "text" =
      some (.str (textOf (((m.decoder p).spoken m.context).take MAX_TOKENS_DEFAULT))) := by
  have hresult : ((m.decoder p).generateImpl m.context collect ([], 0)).2.1 =
      textOf (((m.decoder p).spoken m.context).take MAX_TOKENS_DEFAULT) := by
    have hlimit : 0 < MAX_TOKENS_DEFAULT := by decide
    simpa [Decoder.generateImpl_eq_offer] using offer_collect _ [] hlimit
  have htokens : "text" ≠ "tokens" := by decide
  have htime : "text" ≠ "time_ms" := by decide
  have hmodel : "text" ≠ "model" := by decide
  refine ⟨_, by simp only [invoke, hloaded, hprompt]; rfl, ?_⟩
  simp only [AList.lookup_insert_ne htokens, AList.lookup_insert_ne htime,
    AList.lookup_insert_ne hmodel, AList.lookup_insert, hresult]

/-- What {lit}`invoke_stream` delivers for a prompt. -/
theorem invokeStream_deliveries {m : LlamaModel} {req : ModelRequest} {p : Bytes}
    (hloaded : m.isLoaded = true) (hprompt : prompt req = .ok p) :
    (m.invokeStream keepsGoing req).2 =
      deliveries req 0 ((m.decoder p).spoken m.context) := by
  unfold invokeStream
  simp only [hloaded, hprompt, Decoder.generateImpl_eq_offer, offer_deliverToken, List.nil_append,
    Bool.not_true, Bool.false_eq_true, if_false]

/-- Below the limit a chunk ends the stream exactly when its token does. -/
theorem map_isEnd_deliveries (req : ModelRequest) {ts : List Token} {n : Nat}
    (hlimit : n + ts.length ≤ MAX_TOKENS_DEFAULT) :
    (deliveries req n ts).map (fun e => e.1.isEnd) = ts.map Token.isEos := by
  induction ts generalizing n with
  | nil => rfl
  | cons t ts ih =>
      rw [List.length_cons] at hlimit
      have hbelow : ¬ MAX_TOKENS_DEFAULT ≤ n := by omega
      have hrest := @ih (n + 1) (by omega)
      simp only [deliveries] at hrest
      simp [deliveries, List.zipIdx_cons, isEnd_chunk, hbelow, hrest]

/-- On a prompt both agree exactly when the offered tokens are not too many and end
with an end token. -/
theorem agree_iff_spoken {m : LlamaModel} {req : ModelRequest} {p : Bytes}
    (hloaded : m.isLoaded = true) (hprompt : prompt req = .ok p) :
    m.Agree req ↔ ((m.decoder p).spoken m.context).length ≤ MAX_TOKENS_DEFAULT ∧
      EndsOnce Token.isEos ((m.decoder p).spoken m.context) := by
  have hdeliveries := invokeStream_deliveries hloaded hprompt
  have hlength : (m.invokeStream keepsGoing req).2.length =
      ((m.decoder p).spoken m.context).length := by simp [hdeliveries, deliveries]
  constructor
  · intro h
    have hlimit := hlength ▸ h.limit
    refine ⟨hlimit, ?_⟩
    have hend := h.end_once
    rw [hdeliveries] at hend
    exact (endsOnce_congr (map_isEnd_deliveries req (by simpa using hlimit))).mp hend
  · rintro ⟨hlimit, hend⟩
    obtain ⟨out, hinvoke, htext⟩ := invoke_text hloaded hprompt
    refine ⟨⟨out, hinvoke, ?_⟩, hlength ▸ hlimit, ?_⟩
    · rw [htext, hdeliveries, tokenOutput_deliveries, List.take_of_length_le hlimit]
    · rw [hdeliveries]
      exact (endsOnce_congr (map_isEnd_deliveries req (by simpa using hlimit))).mpr hend

/-- Streaming and one-shot generation of a loaded model agree on a request exactly
when its prompt is a text, or missing, and the model has its context and ends the
generation in time. -/
theorem agree_iff (m : LlamaModel) (req : ModelRequest) (hloaded : m.isLoaded = true) :
    m.Agree req ↔
      m.context = true ∧ ∃ p, prompt req = .ok p ∧ (m.decoder p).EndsInTime := by
  constructor
  · intro h
    obtain ⟨out, hinvoke, -⟩ := h.text
    cases hprompt : prompt req with
    | error what => simp [invoke, hloaded, hprompt] at hinvoke
    | ok p =>
        obtain ⟨hlimit, hend⟩ := (agree_iff_spoken hloaded hprompt).mp h
        have hcontext : m.context = true := by
          obtain ⟨before, last, hspoken, -⟩ := hend
          by_contra hno
          simp [Decoder.spoken, hno] at hspoken
        rw [hcontext] at hlimit hend
        exact ⟨hcontext, p, rfl, (m.decoder p).endsInTime_iff.mpr ⟨hlimit, hend⟩⟩
  · rintro ⟨hcontext, p, hprompt, hends⟩
    have hspoken := (m.decoder p).endsInTime_iff.mp hends
    rw [← hcontext] at hspoken
    exact (agree_iff_spoken hloaded hprompt).mpr hspoken

/-- A decoder that says a word and then stops, with or without a text for the end. -/
def oneWord (eosPiece : Bytes) : Decoder where
  promptTokens := 1
  promptEvaluates := true
  nCtx := 2048
  token i := if i = 0 then ⟨[0x61], false⟩ else ⟨eosPiece, true⟩
  evaluates _ := true

/-- A loaded model with this decoder. -/
def speaker (eosPiece : Bytes) : LlamaModel where
  id := []
  model := true
  context := true
  decoder _ := oneWord eosPiece

/-- An end token with a text is delivered and ends the stream. -/
theorem agree_speaker : (speaker [0x2E]).Agree AICLModelAdapter.echoRequest := by
  refine (agree_iff (speaker [0x2E]) AICLModelAdapter.echoRequest rfl).mpr
    ⟨rfl, [0x68, 0x69], rfl, rfl, 1, ⟨by decide, rfl, ?_⟩, rfl, by decide⟩
  intro j hj
  obtain rfl : j = 0 := by omega
  exact ⟨rfl, rfl⟩

/-- An end token without a text leaves the stream without an end. -/
theorem speaker_disagrees :
    ¬ ∀ (m : LlamaModel) (req : ModelRequest), m.isLoaded = true → m.Agree req := by
  intro h
  have hagree := h (speaker []) AICLModelAdapter.echoRequest rfl
  obtain ⟨n, hn⟩ := endsOnce_iff.mp hagree.end_once
  have hmarks : ((speaker []).invokeStream keepsGoing AICLModelAdapter.echoRequest).2.map
      (fun e => e.1.isEnd) = [false] := by decide
  rw [hmarks] at hn
  have hlast := congrArg List.getLast? hn
  simp at hlast

end LlamaModel

end Aicl.NativeCpp

import Aicl.Sdk.Closing

/-!
# Numbers of frames

{lit}`_next_message_id` of {lit}`aicl/sdk/model.py` counts the calls and streams of a model;
a frame has sixteen bytes for the text of the number.

Main results:

- Theorem {lit}`wireId_inj`: twelve digits tell numbers apart.
- Theorem {lit}`callWith_sendsAtMost`: a call sends one frame at most, with its number.
- Theorem {lit}`ClientState.sent_ids_nodup`: the frames that a model sends carry different
  message identifiers.
-/

namespace Aicl.Sdk

open Isa.Frame (field field_append)

/-! ## Message identifiers -/

/-- The characters of a count. -/
def paddedChars (n : Nat) : List Char :=
  List.replicate (8 - (Nat.toDigits 10 n).length) '0' ++ Nat.toDigits 10 n

/-- The identifier that stands in the frames of a count. -/
def wireId (n : Nat) : Bytes := ljust16 (messageIdText n).bytes

theorem toNat_of_mem_paddedChars {n : Nat} {c : Char} (h : c ∈ paddedChars n) :
    48 ≤ c.toNat ∧ c.toNat ≤ 57 := by
  have hdigit : c.isDigit = true := by
    rcases List.mem_append.mp h with hzero | hdigits
    · rw [List.eq_of_mem_replicate hzero]
      rfl
    · exact Nat.isDigit_of_mem_toDigits (by decide) (by decide) hdigits
  simpa [Char.isDigit, UInt32.le_iff_toNat_le] using hdigit

theorem messageIdText_bytes (n : Nat) :
    (messageIdText n).bytes =
      [0x6D, 0x73, 0x67, 0x2D] ++ (paddedChars n).map fun c => UInt8.ofNat c.toNat := by
  have hchars : ("msg-" ++ paddedText n).toList = ['m', 's', 'g', '-'] ++ paddedChars n := by
    have hpadded : (paddedText n).toList = paddedChars n := String.toList_ofList
    rw [String.toList_append, hpadded]
    rfl
  have hascii : (paddedChars n).filter (fun c => c.toNat < 0x80) = paddedChars n := by
    apply List.filter_eq_self.mpr
    intro c hc
    have hrange := toNat_of_mem_paddedChars hc
    exact decide_eq_true (by omega)
  simp only [messageIdText, Utf8String.ofAscii, Utf8.asciiBytes, hchars, List.filter_append, hascii,
    List.map_append]
  rfl

/-- Reading the count. -/
theorem ofDigitChars_paddedChars (n : Nat) : Nat.ofDigitChars 10 (paddedChars n) 0 = n := by
  rw [paddedChars, Nat.ofDigitChars_append, Nat.ofDigitChars_replicate_zero, Nat.mul_zero,
    Nat.ofDigitChars_ten_toDigits]

theorem wireId_eq {n : Nat} (hn : n < 10 ^ 12) :
    wireId n = [0x6D, 0x73, 0x67, 0x2D] ++ ((paddedChars n).map (fun c => UInt8.ofNat c.toNat) ++
      List.replicate (12 - (paddedChars n).length) 0) := by
  have hlen : (paddedChars n).length ≤ 12 := by
    have hdigits := (Nat.length_toDigits_le_iff (b := 10) (by decide) (by decide)).mpr hn
    rw [paddedChars, List.length_append, List.length_replicate]
    omega
  have hzeros : 16 - (messageIdText n).bytes.length = 12 - (paddedChars n).length := by
    rw [messageIdText_bytes, List.length_append, List.length_map]
    simp only [List.length_cons, List.length_nil]
    omega
  rw [wireId, ljust16, hzeros, messageIdText_bytes, List.append_assoc]
  apply List.take_of_length_le
  simp only [List.length_append, List.length_cons, List.length_nil, List.length_map,
    List.length_replicate]
  omega

/-- Twelve digits tell counts apart. -/
theorem wireId_inj {m n : Nat} (hm : m < 10 ^ 12) (hn : n < 10 ^ 12) (h : wireId m = wireId n) :
    m = n := by
  have hread : ∀ k < 10 ^ 12, Nat.ofDigitChars 10
      ((((wireId k).drop 4).takeWhile (· ≠ 0)).map fun b => Char.ofNat b.toNat) 0 = k := by
    intro k hk
    have hnonzero : ∀ b ∈ (paddedChars k).map (fun c => UInt8.ofNat c.toNat), decide (b ≠ 0) = true := by
      intro b hb
      rcases List.mem_map.mp hb with ⟨c, hc, rfl⟩
      have hrange := toNat_of_mem_paddedChars hc
      refine decide_eq_true fun hzero => ?_
      have hnat := congrArg UInt8.toNat hzero
      rw [UInt8.toNat_ofNat'] at hnat
      simp only [UInt8.toNat_zero] at hnat
      omega
    have hback : ((paddedChars k).map fun c => UInt8.ofNat c.toNat).map
        (fun b => Char.ofNat b.toNat) = paddedChars k := by
      rw [List.map_map]
      refine (List.map_congr_left fun c hc => ?_).trans (List.map_id _)
      have hrange := toNat_of_mem_paddedChars hc
      simp only [Function.comp_apply, UInt8.toNat_ofNat', id_eq]
      rw [Nat.mod_eq_of_lt (by omega)]
      exact Char.ofNat_toNat c
    have hdrop : (wireId k).drop 4 = (paddedChars k).map (fun c => UInt8.ofNat c.toNat) ++
        List.replicate (12 - (paddedChars k).length) 0 := by
      rw [wireId_eq hk]
      rfl
    rw [hdrop, List.takeWhile_append_of_pos hnonzero]
    have hzeros : ∀ j, (List.replicate j (0 : UInt8)).takeWhile (· ≠ 0) = [] := by
      intro j
      cases j <;> simp [List.replicate_succ]
    rw [hzeros, List.append_nil, hback, ofDigitChars_paddedChars]
  rw [← hread m hm, h, hread n hn]

/-! ## Frames -/

/-- The frames among what is sent: the core decodes the bytes of a buffer that it has. -/
def Sent.frame? : Sent → Option Bytes
  | .buffer data => some data
  | .decode _ => none
  | .post data => some data

/-- Where a frame has its message identifier. -/
def idField (frame : Bytes) : Bytes := field frame 6 22

/-- The identifiers of the frames that are sent. -/
def idsOf (log : List Sent) : List Bytes := (log.filterMap Sent.frame?).map idField

/-- The identifier of an instruction. -/
theorem idField_instructionFrame (msgId : Utf8String) (payload : Bytes) :
    idField (instructionFrame msgId payload) = ljust16 msgId.bytes := by
  rw [idField, instructionFrame, ← List.append_assoc]
  exact field_append rfl (by rw [ljust16_length])

/-- The identifiers of the frames of a computation are these at most. -/
def SendsAtMost {α : Type} (ids : List Bytes) (x : Exchange α) : Prop := (idsOf x.log).Sublist ids

namespace SendsAtMost

variable {α β : Type} {ids : List Bytes}

/-- What logs nothing sends nothing. -/
theorem lift (x : Outcome CallError α) : SendsAtMost ids (.lift x) := List.nil_sublist _

/-- A computation that sends nothing comes first. -/
theorem unsent_bind {x : SdkResult α} {f : α → Exchange β}
    (h : ∀ a, x = .ok a → SendsAtMost ids (f a)) : SendsAtMost ids (unsent x >>= f) := by
  cases x with
  | ok a => exact h a rfl
  | err e => exact lift _
  | panic => exact lift _

/-- Bytes that are no new frame come first. -/
theorem tell_decode_bind {data : Bytes} {f : Unit → Exchange β} (h : SendsAtMost ids (f ())) :
    SendsAtMost ids (.tell (.decode data) >>= f) := h

/-- A frame comes first. -/
theorem tell_bind {sent : Sent} {frame : Bytes} {f : Unit → Exchange β}
    (hframe : sent.frame? = some frame) (h : SendsAtMost ids (f ())) :
    SendsAtMost (idField frame :: ids) (.tell sent >>= f) := by
  have hlog : idsOf (Logged.tell sent >>= f).log = idField frame :: idsOf (f ()).log := by
    change ((sent :: (f ()).log).filterMap Sent.frame?).map idField = _
    rw [List.filterMap_cons_some hframe]
    rfl
  rw [SendsAtMost, hlog]
  exact h.cons_cons _

/-- What comes last sends nothing. -/
theorem bind {x : Exchange α} {f : α → Exchange β} (hx : SendsAtMost ids x)
    (hf : ∀ a, SendsAtMost [] (f a)) : SendsAtMost ids (x >>= f) := by
  obtain ⟨log, result⟩ := x
  cases result with
  | ok a =>
      have hlog : idsOf (log ++ (f a).log) = idsOf log := by
        rw [idsOf, List.filterMap_append, List.map_append]
        have hnone : idsOf (f a).log = [] := List.sublist_nil.mp (hf a)
        rw [idsOf] at hnone
        rw [hnone, List.append_nil]
        rfl
      change (idsOf (log ++ (f a).log)).Sublist ids
      rw [hlog]
      exact hx
  | err e => exact hx
  | panic => exact hx

end SendsAtMost

section

variable {χ α β δ : Type} {env : Setting α δ}

/-- The native path sends its frame once. -/
theorem NativeTransport.exchange_sendsAtMost (transport : NativeTransport) (crc32 : Bytes → UInt32)
    (cancelled : Bool) (wire : Bytes) :
    SendsAtMost [idField wire] (transport.exchange crc32 cancelled wire) := by
  unfold NativeTransport.exchange
  refine SendsAtMost.unsent_bind fun _ _ => SendsAtMost.tell_bind rfl ?_
  refine SendsAtMost.unsent_bind fun _ _ => SendsAtMost.unsent_bind fun _ _ => ?_
  refine SendsAtMost.unsent_bind fun _ _ => SendsAtMost.tell_decode_bind ?_
  cases transport.decode crc32 _ <;> exact SendsAtMost.lift _

/-- So does a request. -/
theorem HttpTransport.send_sendsAtMost (transport : HttpTransport) (wire : Bytes)
    (reply : HttpReply) : SendsAtMost [idField wire] (transport.send wire reply) := by
  unfold HttpTransport.send
  refine SendsAtMost.unsent_bind fun _ _ => SendsAtMost.tell_bind rfl ?_
  cases reply with
  | body data => exact SendsAtMost.lift _
  | urlError text => exact SendsAtMost.lift _
  | timeout => exact SendsAtMost.lift _

/-- Decoding a response sends nothing. -/
theorem HttpTransport.decode_sendsAtMost (transport : HttpTransport)
    (loads : Bytes → Except String δ) (data : Bytes) :
    SendsAtMost [] (transport.decode loads data) := by
  unfold HttpTransport.decode
  refine SendsAtMost.unsent_bind fun _ _ => ?_
  cases loads data with
  | ok value => exact SendsAtMost.lift _
  | error text => exact SendsAtMost.lift _

/-- The frame of an instruction has its identifier. -/
theorem idField_of_encodeInstruction {text : α → Utf8String} {instruction msgId : Utf8String}
    {kwargs : List (Utf8String × α)} {wire : Bytes}
    (h : encodeInstruction text instruction msgId kwargs = .ok wire) :
    idField wire = ljust16 msgId.bytes := by
  have ⟨_, _, hwire⟩ := Outcome.bind_eq_ok_iff.mp h
  rw [← Outcome.ok.inj hwire]
  exact idField_instructionFrame msgId _

/-- A call sends one frame, with its identifier. -/
theorem callWith_sendsAtMost (env : Setting α δ) (transport : SdkTransport) (messageId : Utf8String)
    (args : CallArgs α) :
    SendsAtMost [ljust16 messageId.bytes]
      (ModelObject.callWith env transport messageId args) := by
  unfold ModelObject.callWith
  refine SendsAtMost.unsent_bind fun _ _ => SendsAtMost.unsent_bind fun wire hwire => ?_
  refine SendsAtMost.unsent_bind fun _ _ => ?_
  rw [← idField_of_encodeInstruction hwire]
  cases transport with
  | native t =>
      exact SendsAtMost.bind (t.exchange_sendsAtMost _ _ _) fun _ => SendsAtMost.lift _
  | http t =>
      refine SendsAtMost.bind (t.send_sendsAtMost _ _) fun _ => ?_
      refine SendsAtMost.unsent_bind fun _ _ => ?_
      exact SendsAtMost.bind (t.decode_sendsAtMost _ _) fun _ => SendsAtMost.lift _

/-- So does a stream. -/
theorem streamWith_sendsAtMost (env : Setting α δ) (transport : SdkTransport) (messageId : Utf8String)
    (args : CallArgs α) :
    SendsAtMost [ljust16 messageId.bytes]
      (ModelObject.streamWith env transport messageId args) := by
  unfold ModelObject.streamWith
  refine SendsAtMost.unsent_bind fun wire hwire => SendsAtMost.unsent_bind fun _ _ => ?_
  rw [← idField_of_encodeInstruction hwire]
  cases transport with
  | native t =>
      exact SendsAtMost.bind (t.exchange_sendsAtMost _ _ _) fun _ => SendsAtMost.lift _
  | http t => exact SendsAtMost.bind (t.send_sendsAtMost _ _) fun _ => SendsAtMost.lift _

/-- An operation of a model takes one number or none, and sends a frame with that number
or none. -/
def Advances (object : ModelObject χ) (exchange : Exchange β × ModelObject χ) : Prop :=
  ∃ d ≤ 1, exchange.2.messageCounter = object.messageCounter + d ∧
    SendsAtMost ((List.range' (1 + object.messageCounter) d).map wireId) exchange.1

/-- The next number of a model. -/
theorem map_wireId_next (object : ModelObject χ) :
    (List.range' (1 + object.messageCounter) 1).map wireId =
      [ljust16 object.nextMessageId.1.bytes] := by
  rw [Nat.add_comm]
  rfl

/-- A call takes a number when the model is open. -/
theorem callOver_advances (transport : SdkTransport) (object : ModelObject χ)
    (args : CallArgs α) : Advances object (object.callOver env transport args) := by
  unfold ModelObject.callOver
  cases object.closed with
  | true => exact ⟨0, by decide, rfl, SendsAtMost.lift _⟩
  | false =>
      have hsends := callWith_sendsAtMost env transport object.nextMessageId.1 args
      rw [← map_wireId_next] at hsends
      exact ⟨1, le_rfl, rfl, hsends⟩

/-- A stream takes a number. -/
theorem streamOver_advances (transport : SdkTransport) (object : ModelObject χ)
    (args : CallArgs α) : Advances object (object.streamOver env transport args) := by
  have hsends := streamWith_sendsAtMost env transport object.nextMessageId.1 args
  rw [← map_wireId_next] at hsends
  exact ⟨1, le_rfl, rfl, hsends⟩

end

/-! ## Numbering -/

namespace ClientState

variable {χ α β δ : Type} [DecidableEq χ]

/-- The identifiers of the frames that were sent for a model, in their order. -/
def idsFor (s : ClientState χ) (model : Nat) : List Bytes :=
  idsOf ((s.sent.filter fun e => e.1 == model).map Prod.snd)

/-- How many numbers a model has given out. -/
def counter (s : ClientState χ) (model : Nat) : Nat :=
  (s.runtime.objects[model]?.map ModelObject.messageCounter).getD 0

/-- No model has given out more numbers than these, and each has sent at most one frame
for each of its numbers, in their order. -/
def Numbered (n : Nat) (s : ClientState χ) : Prop :=
  ∀ model, s.counter model ≤ n ∧
    (s.idsFor model).Sublist ((List.range' 1 (s.counter model)).map wireId)

omit [DecidableEq χ] in
/-- A step that gives out no numbers and sends nothing. -/
theorem Numbered.keep {n : Nat} {s t : ClientState χ} (h : Numbered n s) (hsent : t.sent = s.sent)
    (hcounter : ∀ model, t.counter model = s.counter model) : Numbered (n + 1) t := by
  intro model
  have ⟨hle, hids⟩ := h model
  rw [hcounter, idsFor, hsent]
  exact ⟨Nat.le_succ_of_le hle, hids⟩

omit [DecidableEq χ] in
/-- What an exchange leaves. -/
theorem Numbered.after {n model : Nat} {s : ClientState χ} {object : ModelObject χ}
    {exchange : Exchange β × ModelObject χ} (h : Numbered n s)
    (hobject : s.runtime.objects[model]? = some object) (hadvances : Advances object exchange) :
    Numbered (n + 1) (s.after model exchange) := by
  have ⟨d, hd, hcount, hsends⟩ := hadvances
  intro model'
  have ⟨hle, hids⟩ := h model'
  by_cases hmodel : model = model'
  · subst hmodel
    have hlt : model < s.runtime.objects.length := (List.getElem?_eq_some_iff.mp hobject).1
    have hbefore : s.counter model = object.messageCounter := by
      rw [counter, hobject]
      rfl
    have hnow : (s.after model exchange).counter model = object.messageCounter + d := by
      rw [counter, ClientState.after, List.getElem?_set_self hlt, ← hcount]
      rfl
    have hall : ((exchange.1.log.map fun sent => (model, sent)).filter fun e => e.1 == model).map
        Prod.snd = exchange.1.log := by
      simp [List.filter_map, Function.comp_def]
    have hafter : (s.after model exchange).idsFor model =
        s.idsFor model ++ idsOf exchange.1.log := by
      simp only [idsFor, ClientState.after, List.filter_append, List.map_append, hall]
      simp only [idsOf, List.filterMap_append, List.map_append]
    rw [hbefore] at hle hids
    rw [hnow, hafter, ← List.range'_append_1, List.map_append]
    exact ⟨by omega, hids.append hsends⟩
  · have hnow : (s.after model exchange).counter model' = s.counter model' := by
      rw [counter, ClientState.after, List.getElem?_set_ne hmodel, counter]
    have hnone : (exchange.1.log.map fun sent => (model, sent)).filter
        (fun e => e.1 == model') = [] := by
      simp [List.filter_map, Function.comp_def, hmodel]
    have hafter : (s.after model exchange).idsFor model' = s.idsFor model' := by
      simp only [idsFor, ClientState.after, List.filter_append, hnone, List.append_nil]
    rw [hnow, hafter]
    exact ⟨Nat.le_succ_of_le hle, hids⟩

/-- A new model has given out no number. -/
theorem counter_register (s : ClientState χ) (cap : Capability χ) (name : List χ) (model : Nat) :
    ({ s with runtime := s.runtime.register cap name } : ClientState χ).counter model =
      s.counter model := by
  simp only [counter, Runtime.register]
  rcases Nat.lt_trichotomy model s.runtime.objects.length with hlt | heq | hgt
  · rw [List.getElem?_append_left hlt]
  · rw [heq, List.getElem?_concat_length, List.getElem?_eq_none le_rfl]
    rfl
  · rw [List.getElem?_eq_none (by rw [List.length_append]; exact hgt),
      List.getElem?_eq_none hgt.le]

/-- One step. -/
theorem Numbered.step (lower : List χ → List χ) (env : Setting α δ) {n : Nat} {s : ClientState χ}
    (h : Numbered n s) (c : ClientCall χ α) :
    Numbered (n + 1) (s.step lower env c).2 := by
  cases c with
  | connect c =>
      simp only [ClientState.step]
      cases hrun : s.runtime.run lower c with
      | ok connected =>
          obtain ⟨model, r⟩ := connected
          have hopen : s.runtime.closed = false := by
            by_contra hclosed
            obtain ⟨e, he⟩ := run_of_closed lower (Bool.eq_true_of_not_eq_false hclosed) c
            rw [he] at hrun
            cases hrun
          obtain ⟨cap, name, _, _, hr⟩ := Runtime.run_spec hopen hrun
          rw [hr]
          exact h.keep rfl (counter_register s cap name)
      | err e => exact h.keep rfl fun _ => rfl
      | panic => exact h.keep rfl fun _ => rfl
  | call model args =>
      simp only [ClientState.step]
      cases hobject : s.runtime.objects[model]? with
      | none => exact h.keep rfl fun _ => rfl
      | some object => exact h.after hobject (callOver_advances _ object args)
  | stream model args =>
      simp only [ClientState.step]
      cases hobject : s.runtime.objects[model]? with
      | none => exact h.keep rfl fun _ => rfl
      | some object => exact h.after hobject (streamOver_advances _ object args)
  | closeModel model =>
      refine h.keep rfl fun model' => ?_
      simp only [ClientState.step, counter, List.getElem?_modify]
      cases s.runtime.objects[model']? with
      | none => rfl
      | some object => by_cases hmodel : model = model' <;> simp [hmodel, ModelObject.close]
  | close =>
      refine h.keep rfl fun model => ?_
      simp only [ClientState.step, counter, Runtime.close_object]
      cases s.runtime.objects[model]? with
      | none => rfl
      | some object =>
          by_cases hmem : model ∈ s.runtime.models.map Prod.snd <;> simp [hmem, ModelObject.close]

/-- A run. -/
theorem Numbered.run (lower : List χ → List χ) (env : Setting α δ) {n : Nat} {s : ClientState χ}
    (h : Numbered n s) (calls : List (ClientCall χ α)) :
    Numbered (n + calls.length) (Service.run (ClientState.step lower env) s calls).2 := by
  induction calls generalizing n s with
  | nil => exact h
  | cons c calls ih =>
      have hrest := ih (h.step lower env c)
      rwa [Nat.add_assoc, Nat.add_comm 1] at hrest

/-- In every run with fewer than 10^12 steps, the frames that were sent for a model carry
different message identifiers. -/
theorem sent_ids_nodup (lower : List χ → List χ) (env : Setting α δ)
    (capabilities : List (Capability χ)) (transport : SdkTransport)
    (calls : List (ClientCall χ α)) (hcalls : calls.length < 10 ^ 12) (model : Nat) :
    ((Service.run (step lower env) (start capabilities transport) calls).2.idsFor model).Nodup := by
  have hstart : Numbered 0 (start capabilities transport : ClientState χ) :=
    fun _ => ⟨Nat.le_refl 0, List.nil_sublist _⟩
  have ⟨hle, hids⟩ := hstart.run lower env calls model
  apply hids.nodup
  refine (List.nodup_map_iff_inj_on List.nodup_range').mpr ?_
  intro i hi j hj heq
  have hi' := List.mem_range'_1.mp hi
  have hj' := List.mem_range'_1.mp hj
  exact wireId_inj (by omega) (by omega) heq

/-- A model is called, streams, and is called again after the runtime was closed. -/
def callAndStream : List (ClientCall Char Utf8String) :=
  [.connect (.connect "classify".toList []),
    .call 0 { instruction := .ofAscii "classify", kwargs := helloArguments },
    .stream 0 { instruction := .ofAscii "generate", kwargs := [] },
    .close, .call 0 { instruction := .ofAscii "classify", kwargs := helloArguments }]

/-- Arguments are texts, and no response is read. -/
def textSetting : Setting Utf8String Unit where
  crc32 := Crc32.ieee
  text := id
  loads _ := .error "no JSON"

/-- Two frames with different identifiers were sent. -/
theorem sent_ids_nodup_callAndStream :
    let s := (Service.run (step Runtime.asciiLower textSetting)
      (start Runtime.sampleCapabilities (.native {})) callAndStream).2
    (s.idsFor 0).length = 2 ∧ (s.idsFor 0).Nodup :=
  ⟨by decide +kernel, sent_ids_nodup Runtime.asciiLower textSetting Runtime.sampleCapabilities
    (.native {}) callAndStream (by decide) 0⟩

end ClientState

end Aicl.Sdk

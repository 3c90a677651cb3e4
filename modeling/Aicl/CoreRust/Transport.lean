import Aicl.CoreRust.Error
import Aicl.Isa.Tags

/-!
# Transports of the Rust core

The trait {lit}`Transport` and its channel {lit}`InProcChannel` in
{lit}`core-rust/src/transport.rs`.  What the ends of transports share is a world
that is passed through.  For channels it is the queues of the process: every
operation takes the lock of one queue once, so an operation is one step of a run.

Main results:

- Theorem {lit}`InProcChannel.send_cases`: what a send does to the queues.
- Theorem {lit}`InProcChannel.recv_cons` and {lit}`InProcChannel.recv_nil`: what a
  receive does to them.
-/

namespace Aicl.CoreRust

/-- A transport implementation: the end {lit}`τ` over what ends share. -/
class Transport (ω : outParam Type) (τ : Type) where
  /-- {lit}`send`. -/
  send : τ → Bytes → ω → AiclResult Nat × τ × ω
  /-- {lit}`recv`: what is received is appended to the buffer. -/
  recv : τ → Bytes → ω → AiclResult Nat × Bytes × τ × ω
  /-- {lit}`close`. -/
  close : τ → ω → AiclResult Unit × τ × ω
  /-- {lit}`is_open`. -/
  isOpen : τ → Bool

/-! ## In-process channels -/

/-- The queues of a process, by number. -/
abbrev Queues := Nat → List Bytes

/-- One end of a bounded in-process channel: the numbers of its queues. -/
structure InProcChannel where
  outgoing : Nat
  incoming : Nat
  cap : Nat
  opened : Bool
deriving DecidableEq, Repr

namespace InProcChannel

/-- {lit}`pair`, over two new queues. -/
def pair (cap aToB bToA : Nat) : InProcChannel × InProcChannel :=
  (⟨aToB, bToA, cap, true⟩, ⟨bToA, aToB, cap, true⟩)

/-- {lit}`send`. -/
def send (c : InProcChannel) (bytes : Bytes) (queues : Queues) :
    AiclResult Nat × InProcChannel × Queues :=
  if ¬ c.opened then (.err (.new .transportClosed "channel closed"), c, queues)
  else if c.cap ≤ (queues c.outgoing).length then (.err (.new .bufferFull "channel full"), c, queues)
  else (.ok bytes.length, c, Function.update queues c.outgoing (queues c.outgoing ++ [bytes]))

/-- {lit}`recv`. -/
def recv (c : InProcChannel) (out : Bytes) (queues : Queues) :
    AiclResult Nat × Bytes × InProcChannel × Queues :=
  match queues c.incoming with
  | b :: rest => (.ok b.length, out ++ b, c, Function.update queues c.incoming rest)
  | [] => (.err (.new .empty "queue empty"), out, c, queues)

/-- {lit}`close`. -/
def close (c : InProcChannel) (queues : Queues) : AiclResult Unit × InProcChannel × Queues :=
  (.ok (), { c with opened := false }, queues)

instance : Transport Queues InProcChannel where
  send := send
  recv := recv
  close := close
  isOpen c := c.opened

variable {c : InProcChannel} {queues : Queues}

/-- Appending to one queue appends to every queue, perhaps nothing. -/
theorem prefix_update (queues : Queues) (m : Nat) (added : List Bytes) (n : Nat) :
    queues n <+: Function.update queues m (queues m ++ added) n := by
  by_cases hn : n = m
  · rw [hn, Function.update_self]
    exact List.prefix_append (queues m) added
  · rw [Function.update_of_ne hn]

/-- A send either fails on a closed end or a full queue and changes nothing, or appends
to the outgoing queue, which had room. -/
theorem send_cases (c : InProcChannel) (bytes : Bytes) (queues : Queues) :
    (¬ c.opened ∨ c.cap ≤ (queues c.outgoing).length) ∧
        (∃ e, c.send bytes queues = (.err e, c, queues)) ∨
      (queues c.outgoing).length < c.cap ∧
        c.send bytes queues =
          (.ok bytes.length, c, Function.update queues c.outgoing (queues c.outgoing ++ [bytes])) := by
  unfold send
  by_cases hopened : c.opened
  · rw [if_neg (not_not.mpr hopened)]
    by_cases hfull : c.cap ≤ (queues c.outgoing).length
    · rw [if_pos hfull]
      exact .inl ⟨.inr hfull, _, rfl⟩
    · rw [if_neg hfull]
      exact .inr ⟨Nat.not_le.mp hfull, rfl⟩
  · rw [if_pos hopened]
    exact .inl ⟨.inl hopened, _, rfl⟩

/-- A receive takes the first entry of the incoming queue. -/
theorem recv_cons {b : Bytes} {rest : List Bytes} (h : queues c.incoming = b :: rest) (out : Bytes) :
    c.recv out queues = (.ok b.length, out ++ b, c, Function.update queues c.incoming rest) := by
  simp only [recv, h]

/-- A receive from an empty queue fails and changes nothing. -/
theorem recv_nil (h : queues c.incoming = []) (out : Bytes) :
    c.recv out queues = (.err (.new .empty "queue empty"), out, c, queues) := by
  simp only [recv, h]

end InProcChannel

end Aicl.CoreRust

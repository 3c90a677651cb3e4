import Mathlib

/-!
# Cutting a concatenation

A stream is the concatenation of its frames and arrives piece by piece, so what
has arrived ends anywhere: inside a frame, between two frames, or at the end.

Main results:

- Theorem {lit}`Framing.exists_cut`: what has arrived of a stream is a number of
  complete frames and a part of the next one.
-/

namespace Framing

variable {α : Type}

/-- The bytes that have arrived are the frames {lit}`done` and a part of the next
frame; the bytes still to come complete that frame. -/
structure Cut (frames : List (List α)) (arrived rest : List α) (done todo : List (List α))
    (part : List α) : Prop where
  frames_eq : frames = done ++ todo
  arrived_eq : arrived = done.flatten ++ part
  todo_eq : part ++ rest = todo.flatten
  incomplete : ∀ f fs, todo = f :: fs → part.length < f.length

/-- A part of no frame is empty. -/
theorem Cut.part_eq_nil {frames done : List (List α)} {arrived rest part : List α}
    (h : Cut frames arrived rest done [] part) : part = [] :=
  (List.append_eq_nil_iff.mp h.todo_eq).1

/-- A part of a frame is a prefix of it. -/
theorem Cut.part_prefix {frames done fs : List (List α)} {arrived rest part f : List α}
    (h : Cut frames arrived rest done (f :: fs) part) : part <+: f := by
  have hlt := h.incomplete f fs rfl
  have hsplit : part ++ rest = f ++ fs.flatten := h.todo_eq
  exact List.prefix_of_prefix_length_le ⟨rest, hsplit⟩ (List.prefix_append f _) (Nat.le_of_lt hlt)

/-- What has arrived of a stream is a number of complete frames and a part of the
next one. -/
theorem exists_cut {frames : List (List α)} (hne : ∀ f ∈ frames, f ≠ []) {arrived rest : List α}
    (h : arrived ++ rest = frames.flatten) :
    ∃ done todo part, Cut frames arrived rest done todo part := by
  induction frames generalizing arrived with
  | nil =>
      obtain ⟨rfl, rfl⟩ := List.append_eq_nil_iff.mp h
      exact ⟨[], [], [], rfl, rfl, rfl, by simp⟩
  | cons f fs ih =>
      by_cases hlt : arrived.length < f.length
      · refine ⟨[], f :: fs, arrived, rfl, rfl, h, ?_⟩
        rintro f' fs' heq
        cases heq
        exact hlt
      · rw [List.flatten_cons] at h
        obtain ⟨tail, rfl⟩ : f <+: arrived :=
          List.prefix_of_prefix_length_le ⟨fs.flatten, h.symm⟩ (List.prefix_append _ _)
            (Nat.le_of_not_lt hlt)
        rw [List.append_assoc] at h
        obtain ⟨done, todo, part, hcut⟩ :=
          ih (fun x hx => hne x (List.mem_cons_of_mem _ hx)) (List.append_cancel_left h)
        refine ⟨f :: done, todo, part, ?_, ?_, hcut.todo_eq, hcut.incomplete⟩
        · rw [hcut.frames_eq, List.cons_append]
        · rw [hcut.arrived_eq, List.flatten_cons, List.append_assoc]

end Framing

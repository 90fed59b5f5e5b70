import Mathlib.Tactic

/-! Reads of a buffer at a cursor. A cursor may be anywhere, also before the buffer; what is not in
the buffer as a whole cannot be read. -/

namespace Cursors

variable {α : Type*} {buf piece rest : List α} {cur : ℤ} {i n : ℕ}

/-- The `n` elements from the cursor on, none where one of them is outside of the buffer. -/
def read (buf : List α) (cur : ℤ) (n : ℕ) : Option (List α) :=
  if 0 ≤ cur ∧ cur + n ≤ buf.length then some ((buf.drop cur.toNat).take n) else none

/-- The cursor is in the buffer, and this is what is from there on. -/
def At (buf : List α) (cur : ℤ) (rest : List α) : Prop :=
  ∃ before, buf = before ++ rest ∧ cur = before.length

theorem at_start (buf : List α) : At buf 0 buf := ⟨[], rfl, rfl⟩

theorem At.read (h : At buf cur (piece ++ rest)) : read buf cur piece.length = some piece := by
  obtain ⟨before, rfl, rfl⟩ := h
  rw [Cursors.read, if_pos]
  · simp
  · simp only [List.length_append]
    omega

theorem At.forward (h : At buf cur (piece ++ rest)) : At buf (cur + piece.length) rest := by
  obtain ⟨before, rfl, rfl⟩ := h
  refine ⟨before ++ piece, ?_, ?_⟩
  · rw [List.append_assoc]
  · rw [List.length_append, Nat.cast_add]

theorem At.forward_to {cur' : ℤ} (h : At buf cur (piece ++ rest))
    (hcur : cur' = cur + piece.length) : At buf cur' rest :=
  hcur ▸ h.forward

/-- Within a piece. -/
theorem At.drop (h : At buf cur (piece ++ rest)) (hi : i ≤ piece.length) :
    At buf (cur + i) (piece.drop i ++ rest) := by
  have hsplit : At buf cur (piece.take i ++ (piece.drop i ++ rest)) := by
    rwa [← List.append_assoc, List.take_append_drop]
  apply hsplit.forward_to
  rw [List.length_take, min_eq_left hi]

theorem At.read_take (h : At buf cur (piece ++ rest)) (hn : n ≤ piece.length) :
    Cursors.read buf cur n = some (piece.take n) := by
  have hsplit : At buf cur (piece.take n ++ (piece.drop n ++ rest)) := by
    rwa [← List.append_assoc, List.take_append_drop]
  have hread := hsplit.read
  rwa [List.length_take, min_eq_left hn] at hread

/-- So many elements of a piece, from so many behind its first on. -/
theorem At.read_slice (h : At buf cur (piece ++ rest)) (hn : i + n ≤ piece.length) :
    Cursors.read buf (cur + i) n = some ((piece.drop i).take n) := by
  apply (h.drop (by omega)).read_take
  rw [List.length_drop]
  omega

end Cursors

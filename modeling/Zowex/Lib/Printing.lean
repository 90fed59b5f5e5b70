import Mathlib.Data.List.Basic
import Mathlib.Tactic

/-! Printing with carriage control: each line is printed after a move to a line further down, or to
the first of the next page. What a page shows is the lines that are not blank, where they are. -/

namespace Printing

variable {α : Type*}

inductive Control
  | advance (lines : ℕ)
  | new_page
  deriving DecidableEq

structure Position where
  page : ℕ := 1
  line : ℕ := 0
  deriving DecidableEq

def Control.move : Control → Position → Position
  | .advance lines, position => { position with line := position.line + lines }
  | .new_page, position => { page := position.page + 1, line := 1 }

/-- The lines that are seen. -/
def shown : Position → List (Control × List α) → List (Position × List α)
  | _, [] => []
  | position, (control, text) :: lines =>
    let position := control.move position
    if text = [] then shown position lines else (position, text) :: shown position lines

/-- Where the next line is moved from. -/
def last (position : Position) (lines : List (Control × List α)) : Position :=
  lines.foldl (fun position line => line.1.move position) position

variable {position : Position}

theorem shown_append (lines more : List (Control × List α)) :
    shown position (lines ++ more) = shown position lines ++ shown (last position lines) more := by
  induction lines generalizing position with
  | nil => rfl
  | cons line lines ih =>
    rw [List.cons_append, shown, shown, ih]
    by_cases hblank : line.2 = []
    · rw [if_pos hblank, if_pos hblank]
      rfl
    · rw [if_neg hblank, if_neg hblank]
      rfl

theorem last_append (lines more : List (Control × List α)) :
    last position (lines ++ more) = last (last position lines) more :=
  List.foldl_append

/-- Blank lines show nothing. -/
theorem shown_blanks (control : Control) (n : ℕ) :
    shown position (List.replicate n ((control, []) : Control × List α)) = [] := by
  induction n generalizing position with
  | zero => rfl
  | succ n ih =>
    rw [List.replicate_succ, shown, if_pos rfl]
    exact ih

theorem last_blanks (lines n : ℕ) :
    last position (List.replicate n ((.advance lines, []) : Control × List α)) =
      { position with line := position.line + n * lines } := by
  induction n generalizing position with
  | zero => simp [last]
  | succ n ih =>
    rw [List.replicate_succ, last, List.foldl_cons, ← last, ih, Control.move]
    dsimp only
    congr 1
    ring

end Printing

import Mathlib.Data.List.Basic
import Mathlib.Tactic

/-! Text cut at a separator as it arrives: the pieces a separator has ended, and the one that
is not ended yet. -/

namespace Lines

variable {α : Type*} [DecidableEq α]

def complete (x : α) (text : List α) : List (List α) := (text.splitOn x).dropLast

def unfinished (x : α) (text : List α) : List α :=
  (text.splitOn x).getLast (List.splitOn_ne_nil x text)

theorem complete_append_unfinished (x : α) (text : List α) :
    complete x text ++ [unfinished x text] = text.splitOn x :=
  List.dropLast_append_getLast _

theorem complete_unfinished_unique {x : α} {text : List α} (pieces : List (List α))
    (last : List α) (h : text.splitOn x = pieces ++ [last]) :
    complete x text = pieces ∧ unfinished x text = last := by
  have heq := (complete_append_unfinished x text).trans h
  exact List.append_inj' heq rfl |>.imp_right (List.singleton_injective ·)

@[simp] theorem complete_nil (x : α) : complete x [] = [] := by
  simp [complete]

@[simp] theorem unfinished_nil (x : α) : unfinished x [] = [] := by
  simp [unfinished]

theorem splitOn_append (x : α) (text more : List α) :
    (text ++ more).splitOn x = complete x text ++ (unfinished x text ++ more).splitOn x := by
  induction text with
  | nil => simp
  | cons c text ih =>
    have hsplit := complete_append_unfinished x text
    rw [List.cons_append, List.splitOn_cons_eq_if_modifyHead, ih]
    cases hc : c == x with
    | true =>
      have hcons : (c :: text).splitOn x = ([] :: complete x text) ++ [unfinished x text] := by
        rw [List.splitOn_cons_eq_if_modifyHead, hc, if_pos rfl, ← hsplit, List.cons_append]
      obtain ⟨hcomplete, hunfinished⟩ := complete_unfinished_unique _ _ hcons
      rw [hcomplete, hunfinished, if_pos rfl, List.cons_append]
    | false =>
      rw [if_neg (by simp)]
      have hcons : (c :: text).splitOn x =
          ((complete x text) ++ [unfinished x text]).modifyHead (List.cons c) := by
        rw [List.splitOn_cons_eq_if_modifyHead, hc, if_neg (by simp), hsplit]
      cases hpieces : complete x text with
      | nil =>
        rw [hpieces, List.nil_append, List.modifyHead_cons] at hcons
        obtain ⟨hcomplete, hunfinished⟩ := complete_unfinished_unique [] _ hcons
        rw [hcomplete, hunfinished, List.nil_append, List.nil_append, List.cons_append,
          List.splitOn_cons_eq_if_modifyHead, hc, if_neg (by simp)]
      | cons piece pieces =>
        rw [hpieces, List.cons_append, List.modifyHead_cons] at hcons
        obtain ⟨hcomplete, hunfinished⟩ :=
          complete_unfinished_unique ((c :: piece) :: pieces) _ hcons
        rw [hcomplete, hunfinished, List.cons_append, List.cons_append, List.modifyHead_cons]

/-- What arrives later ends the unfinished piece. -/
theorem complete_append (x : α) (text more : List α) :
    complete x (text ++ more) = complete x text ++ complete x (unfinished x text ++ more) := by
  refine (complete_unfinished_unique _ (unfinished x (unfinished x text ++ more)) ?_).1
  rw [splitOn_append, List.append_assoc, complete_append_unfinished]

theorem unfinished_append (x : α) (text more : List α) :
    unfinished x (text ++ more) = unfinished x (unfinished x text ++ more) := by
  refine (complete_unfinished_unique
    (complete x text ++ complete x (unfinished x text ++ more)) _ ?_).2
  rw [splitOn_append, List.append_assoc, complete_append_unfinished]

/-- An unfinished piece has no separator in it. -/
theorem complete_unfinished (x : α) (text : List α) : complete x (unfinished x text) = [] := by
  have happend := complete_append x text []
  rw [List.append_nil, List.append_nil] at happend
  exact List.append_right_eq_self.mp happend.symm

theorem unfinished_unfinished (x : α) (text : List α) :
    unfinished x (unfinished x text) = unfinished x text := by
  have happend := unfinished_append x text []
  rw [List.append_nil, List.append_nil] at happend
  exact happend.symm

theorem splitOn_flatten (x : α) (text : List α) :
    (text.splitOn x).flatten = text.filter (! · == x) := by
  induction text with
  | nil => simp
  | cons c text ih =>
    rw [List.splitOn_cons_eq_if_modifyHead]
    cases hc : c == x with
    | true => rw [if_pos rfl, List.flatten_cons, ih, List.filter_cons_of_neg (by simp [hc])]; rfl
    | false =>
      rw [if_neg (by simp), List.filter_cons_of_pos (by simp [hc]), ← ih]
      cases hsplit : text.splitOn x with
      | nil => exact absurd hsplit (List.splitOn_ne_nil x text)
      | cons piece pieces => rfl

theorem unfinished_separator (x : α) (text : List α) : unfinished x (text ++ [x]) = [] := by
  refine (complete_unfinished_unique (text.splitOn x) _ ?_).2
  rw [List.splitOn_append_cons_self, List.splitOn_nil]

/-- A text that ends with the separator is all complete. -/
theorem complete_flatten {x : α} {text : List α} (h : unfinished x text = []) :
    (complete x text).flatten = text.filter (! · == x) := by
  rw [← splitOn_flatten, ← complete_append_unfinished, h, List.flatten_append]
  simp

theorem complete_terminated {x : α} {lines : List (List α)} (h : ∀ line ∈ lines, x ∉ line) :
    complete x (lines.flatMap (· ++ [x])) = lines ∧
      unfinished x (lines.flatMap (· ++ [x])) = [] := by
  induction lines with
  | nil => simp
  | cons line lines ih =>
    obtain ⟨hcomplete, hunfinished⟩ := ih fun l hl => h l (List.mem_cons_of_mem _ hl)
    have hsplit : (line ++ [x]).splitOn x = [line] ++ [[]] := by
      rw [List.splitOn_append_cons_self, List.splitOn_nil,
        List.splitOn_eq_singleton (h line List.mem_cons_self)]
    obtain ⟨hline, hend⟩ := complete_unfinished_unique _ _ hsplit
    rw [List.flatMap_cons, complete_append, unfinished_append x (line ++ [x]), hline, hend,
      List.nil_append, hcomplete, hunfinished]
    exact ⟨rfl, rfl⟩

end Lines

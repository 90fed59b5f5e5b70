import Mathlib.Data.List.Basic
import Mathlib.Data.List.Forall2

/-! The lines of a text as a loop of `getline` gives them, and records of one length with the text
at their start. -/

namespace CardImages

variable {α : Type*} [DecidableEq α]

section

variable (sep : α)

/-- What the separator ends. There is nothing behind the last one unless there are characters. -/
def pieces (text : List α) : List (List α) :=
  let parts := text.splitOn sep
  if parts.getLast? = some [] then parts.dropLast else parts

/-- A line without the character, where it is the last one. -/
def without (c : α) (line : List α) : List α :=
  if line.getLast? = some c then line.dropLast else line

end

variable {sep c : α} {line text : List α}

theorem pieces_nil : pieces sep [] = [] := by
  simp [pieces]

theorem pieces_last (h : sep ∉ line) (hne : line ≠ []) : pieces sep line = [line] := by
  simp [pieces, List.splitOn_eq_singleton h, hne]

/-- A line that is ended is the first piece. -/
theorem pieces_cons (h : sep ∉ line) (text : List α) :
    pieces sep (line ++ sep :: text) = line :: pieces sep text := by
  have hne := List.splitOn_ne_nil sep text
  rw [pieces, pieces, List.splitOn_append_cons_self_of_not_mem h, List.getLast?_cons_of_ne_nil hne]
  split
  · rw [List.dropLast_cons_of_ne_nil hne]
  · rfl

/-- A text is a line without a separator, or it begins with one that is ended. -/
theorem text_cases (sep : α) (text : List α) : sep ∉ text ∨
    ∃ line rest, text = line ++ sep :: rest ∧ sep ∉ line := by
  by_cases h : sep ∈ text
  · obtain ⟨line, rest, hsplit, hnot⟩ := List.eq_append_cons_of_mem h
    exact .inr ⟨line, rest, hsplit, hnot⟩
  · exact .inl h

theorem without_concat (c : α) (line : List α) : without c (line ++ [c]) = line := by
  simp [without]

theorem without_of_ne (h : line.getLast? ≠ some c) : without c line = line := if_neg h

/-! Records. -/

section

variable (n : ℕ) (blank : α)

/-- Cut or filled up to the length. -/
def record (text : List α) : List α := text.take n ++ List.replicate (n - text.length) blank

/-- As far as the length of a record, the two differ only in blanks at their ends. -/
def Shows (piece line : List α) : Prop :=
  ∃ a b, piece.take n ++ List.replicate a blank = line ++ List.replicate b blank

end

variable {n : ℕ} {blank : α}

omit [DecidableEq α]

theorem length_record (text : List α) : (record n blank text).length = n := by
  simp only [record, List.length_append, List.length_take, List.length_replicate]
  omega

theorem take_fill {text : List α} (h : text.length ≤ n) (a : ℕ) :
    (text ++ List.replicate (a + n) blank).take n =
      text ++ List.replicate (n - text.length) blank := by
  rw [List.take_append, List.take_of_length_le h, List.take_replicate]
  congr 2
  omega

theorem record_eq_iff {piece line : List α} (h : line.length ≤ n) :
    record n blank piece = record n blank line ↔ Shows n blank piece line := by
  have hline : line.take n = line := List.take_of_length_le h
  rw [record, record, hline]
  constructor
  · exact fun hsame => ⟨_, _, hsame⟩
  · rintro ⟨a, b, hsame⟩
    have hpiece : (piece.take n).length ≤ n := List.length_take_le ..
    have hfill : n - piece.length = n - (piece.take n).length := by
      rw [List.length_take]
      omega
    have hmore : (piece.take n ++ List.replicate (a + n) blank).take n =
        (line ++ List.replicate (b + n) blank).take n := by
      rw [List.replicate_add, List.replicate_add, ← List.append_assoc, ← List.append_assoc, hsame]
    rwa [take_fill hpiece, take_fill h, ← hfill] at hmore

theorem Shows.refl {line : List α} (h : line.length ≤ n) : Shows n blank line line :=
  (record_eq_iff h).mp rfl

theorem map_record_iff {pieces lines : List (List α)} (h : ∀ line ∈ lines, line.length ≤ n) :
    pieces.map (record n blank) = lines.map (record n blank) ↔
      List.Forall₂ (Shows n blank) pieces lines := by
  induction pieces generalizing lines with
  | nil => cases lines <;> simp
  | cons piece pieces ih =>
    cases lines with
    | nil => simp
    | cons line lines =>
      rw [List.forall_mem_cons] at h
      rw [List.map_cons, List.map_cons, List.cons_eq_cons, record_eq_iff h.1, ih h.2,
        List.forall₂_cons]

/-- Records of one length can be told apart in a row. -/
theorem flatten_inj (hn : 0 < n) {records records' : List (List α)}
    (h : ∀ record ∈ records, record.length = n) (h' : ∀ record ∈ records', record.length = n)
    (heq : records.flatten = records'.flatten) : records = records' := by
  induction records generalizing records' with
  | nil =>
    cases records' with
    | nil => rfl
    | cons record' records' =>
      have hlength := h' record' (List.mem_cons_self ..)
      have hnil := congrArg List.length heq
      rw [List.flatten_nil, List.flatten_cons, List.length_append, List.length_nil] at hnil
      omega
  | cons record records ih =>
    rw [List.forall_mem_cons] at h
    cases records' with
    | nil =>
      have hnil := congrArg List.length heq
      rw [List.flatten_nil, List.flatten_cons, List.length_append, List.length_nil] at hnil
      omega
    | cons record' records' =>
      rw [List.forall_mem_cons] at h'
      rw [List.flatten_cons, List.flatten_cons] at heq
      obtain ⟨hhead, htail⟩ := List.append_inj heq (h.1.trans h'.1.symm)
      rw [hhead, ih h.2 h'.2 htail]

end CardImages

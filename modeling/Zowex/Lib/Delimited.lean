import Mathlib.Data.List.Basic
import Mathlib.Tactic

/-! Strings between delimiters, where a doubled delimiter stands for one. -/

namespace Delimited

variable {α : Type*} [DecidableEq α]

/-- What is between the delimiters of a string. -/
def escape (quote : α) : List α → List α
  | [] => []
  | c :: text => if c = quote then quote :: quote :: escape quote text else c :: escape quote text

/-- The string behind an opening delimiter, and what comes after the closing one. -/
def read (quote : α) : List α → Option (List α × List α)
  | [] => none
  | [c] => if c = quote then some ([], []) else none
  | c :: d :: rest =>
    if c = quote then
      if d = quote then (read quote rest).map fun string => (quote :: string.1, string.2)
      else some ([], d :: rest)
    else (read quote (d :: rest)).map fun string => (c :: string.1, string.2)

variable {quote : α} {text rest : List α}

theorem read_cons {c : α} (hc : c ≠ quote) :
    read quote (c :: text) = (read quote text).map fun string => (c :: string.1, string.2) := by
  cases text with
  | nil => simp [read, hc]
  | cons d rest => rw [read, if_neg hc]

theorem read_doubled : read quote (quote :: quote :: text) =
    (read quote text).map fun string => (quote :: string.1, string.2) := by
  rw [read, if_pos rfl, if_pos rfl]

theorem read_closed (h : rest.head? ≠ some quote) : read quote (quote :: rest) = some ([], rest) := by
  cases rest with
  | nil => rw [read, if_pos rfl]
  | cons d rest =>
    rw [read, if_pos rfl, if_neg]
    rintro rfl
    exact h rfl

/-- What is written between delimiters is read back. -/
theorem read_escape (h : rest.head? ≠ some quote) :
    read quote (escape quote text ++ quote :: rest) = some (text, rest) := by
  induction text with
  | nil => exact read_closed h
  | cons c text ih =>
    rw [escape]
    split_ifs with hc
    · rw [List.cons_append, List.cons_append, read_doubled, ih, hc]
      rfl
    · rw [List.cons_append, read_cons hc, ih]
      rfl

theorem escape_of_read {input : List α} (h : read quote input = some (text, rest)) :
    input = escape quote text ++ quote :: rest := by
  induction input using read.induct quote generalizing text with
  | case1 => simp [read] at h
  | case2 =>
    rw [read, if_pos rfl] at h
    obtain ⟨rfl, rfl⟩ := Prod.mk.inj (Option.some.inj h)
    rfl
  | case3 c hc =>
    rw [read, if_neg hc] at h
    cases h
  | case4 input ih =>
    rw [read_doubled] at h
    obtain ⟨⟨string, after⟩, hread, hsame⟩ := Option.map_eq_some_iff.mp h
    obtain ⟨rfl, rfl⟩ := Prod.mk.inj hsame
    rw [ih hread, escape, if_pos rfl]
    rfl
  | case5 d input hd =>
    rw [read, if_pos rfl, if_neg hd] at h
    obtain ⟨rfl, rfl⟩ := Prod.mk.inj (Option.some.inj h)
    rfl
  | case6 c d input hc ih =>
    rw [read, if_neg hc] at h
    obtain ⟨⟨string, after⟩, hread, hsame⟩ := Option.map_eq_some_iff.mp h
    obtain ⟨rfl, rfl⟩ := Prod.mk.inj hsame
    rw [ih hread, escape, if_neg hc]
    rfl

theorem length_escape : (escape quote text).length = text.length + text.count quote := by
  induction text with
  | nil => rfl
  | cons c text ih =>
    rw [escape, List.count_cons]
    by_cases hc : c = quote
    · rw [if_pos hc, if_pos (beq_iff_eq.mpr hc)]
      simp only [List.length_cons]
      omega
    · rw [if_neg hc, if_neg (by simpa using hc)]
      simp only [List.length_cons]
      omega

theorem escape_of_notMem (h : quote ∉ text) : escape quote text = text := by
  induction text with
  | nil => rfl
  | cons c text ih =>
    rw [List.mem_cons, not_or] at h
    rw [escape, if_neg (Ne.symm h.1), ih h.2]

/-- A string that is written as it is denotes itself only without a delimiter. -/
theorem notMem_of_read (h : read quote (text ++ [quote]) = some (text, rest)) : quote ∉ text := by
  have hlength := congrArg List.length (escape_of_read h)
  rw [List.length_append, List.length_append, length_escape, List.length_cons] at hlength
  simp only [List.length_cons, List.length_nil] at hlength
  exact List.count_eq_zero.mp (by omega)

theorem read_of_notMem (h : quote ∉ text) : read quote (text ++ [quote]) = some (text, []) := by
  have hread := @read_escape α _ quote text [] (by simp)
  rwa [escape_of_notMem h] at hread

end Delimited

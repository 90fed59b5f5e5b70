import Mathlib.Data.List.Infix
import Mathlib.Data.List.TakeWhile
import Mathlib.Tactic

/-! Patterns with wildcards. A pattern that goes on after a star needs no other place for what comes
before that star than the first one. -/

namespace Globs

inductive Symbol (α : Type)
  | star
  | any
  | char (c : α)
  deriving DecidableEq

/-- A star stands for any sequence, `any` for one character. -/
inductive Matches {α : Type} : List α → List (Symbol α) → Prop
  | nil : Matches [] []
  | char (c : α) {s : List α} {p : List (Symbol α)} : Matches s p → Matches (c :: s) (.char c :: p)
  | any (c : α) {s : List α} {p : List (Symbol α)} : Matches s p → Matches (c :: s) (.any :: p)
  | nothing {s : List α} {p : List (Symbol α)} : Matches s p → Matches s (.star :: p)
  | more (c : α) {s : List α} {p : List (Symbol α)} : Matches s (.star :: p) →
      Matches (c :: s) (.star :: p)

/-- A part of a pattern without stars, and what stands for it. -/
inductive Segment {α : Type} : List α → List (Symbol α) → Prop
  | nil : Segment [] []
  | char (c : α) {s : List α} {p : List (Symbol α)} : Segment s p → Segment (c :: s) (.char c :: p)
  | any (c : α) {s : List α} {p : List (Symbol α)} : Segment s p → Segment (c :: s) (.any :: p)

variable {α : Type} {s t u : List α} {p q : List (Symbol α)} {c : α}

theorem matches_star : Matches s (.star :: p) ↔ ∃ t, t <:+ s ∧ Matches t p := by
  constructor
  · intro h
    induction s with
    | nil =>
      cases h with
      | nothing h => exact ⟨[], List.suffix_refl _, h⟩
    | cons c s ih =>
      cases h with
      | nothing h => exact ⟨c :: s, List.suffix_refl _, h⟩
      | more _ h =>
        obtain ⟨t, hsuffix, ht⟩ := ih h
        exact ⟨t, hsuffix.trans (List.suffix_cons c s), ht⟩
  · rintro ⟨t, ⟨skipped, rfl⟩, h⟩
    induction skipped with
    | nil => exact h.nothing
    | cons c skipped ih => exact ih.more c

theorem matches_any : Matches (c :: s) (.any :: p) ↔ Matches s p := by
  constructor
  · intro h
    cases h with
    | any _ h => exact h
  · exact .any c

theorem matches_char {d : α} : Matches (c :: s) (.char d :: p) ↔ c = d ∧ Matches s p := by
  constructor
  · intro h
    cases h with
    | char _ h => exact ⟨rfl, h⟩
  · rintro ⟨rfl, h⟩
    exact h.char c

theorem not_matches_nil : ¬ Matches (c :: s) ([] : List (Symbol α)) := by
  intro h
  cases h

theorem matches_nil : Matches ([] : List α) p ↔ ∀ symbol ∈ p, symbol = .star := by
  induction p with
  | nil => exact ⟨fun _ _ h => (List.not_mem_nil h).elim, fun _ => .nil⟩
  | cons symbol p ih =>
    rw [List.forall_mem_cons, ← ih]
    constructor
    · intro h
      cases symbol with
      | star =>
        cases h with
        | nothing h => exact ⟨rfl, h⟩
      | any => cases h
      | char d => cases h
    · rintro ⟨rfl, h⟩
      exact h.nothing

/-- A character of the pattern stands for itself. -/
theorem Matches.mem_of_char (h : Matches s p) (hmem : .char c ∈ p) : c ∈ s := by
  induction h with
  | nil => exact absurd hmem List.not_mem_nil
  | char d _ ih =>
    rcases List.mem_cons.mp hmem with hhead | hmem
    · rw [Symbol.char.inj hhead]
      exact List.mem_cons_self ..
    · exact List.mem_cons_of_mem _ (ih hmem)
  | any d _ ih =>
    exact List.mem_cons_of_mem _ (ih ((List.mem_cons.mp hmem).resolve_left (by simp)))
  | nothing _ ih => exact ih ((List.mem_cons.mp hmem).resolve_left (by simp))
  | more d _ ih => exact List.mem_cons_of_mem _ (ih hmem)

/-- A star alone matches everything. -/
theorem matches_star_alone (s : List α) : Matches s [.star] := by
  induction s with
  | nil => exact .nothing .nil
  | cons c s ih => exact .more c ih

theorem Segment.snoc_any (h : Segment s p) (c : α) : Segment (s ++ [c]) (p ++ [.any]) := by
  induction h with
  | nil => exact .any c .nil
  | char d _ ih => exact ih.char d
  | any d _ ih => exact ih.any d

theorem Segment.snoc_char (h : Segment s p) (c : α) : Segment (s ++ [c]) (p ++ [.char c]) := by
  induction h with
  | nil => exact .char c .nil
  | char d _ ih => exact ih.char d
  | any d _ ih => exact ih.any d

/-- What follows a part without stars begins where that part leaves off. -/
theorem Segment.matches_append (h : Segment u p) : Matches (u ++ s) (p ++ q) ↔ Matches s q := by
  induction h with
  | nil => rfl
  | char c _ ih => exact matches_char.trans ((and_iff_right rfl).trans ih)
  | any c _ ih => exact matches_any.trans ih

theorem Segment.split (h : Segment u p) (hmatches : Matches s (p ++ q)) : ∃ v t,
    s = v ++ t ∧ v.length = u.length ∧ Matches t q := by
  induction h generalizing s with
  | nil => exact ⟨[], s, rfl, rfl, hmatches⟩
  | char c _ ih =>
    cases hmatches with
    | char _ hmatches =>
      obtain ⟨v, t, rfl, hlength, ht⟩ := ih hmatches
      exact ⟨c :: v, t, rfl, congrArg (· + 1) hlength, ht⟩
  | any c _ ih =>
    cases hmatches with
    | any d hmatches =>
      obtain ⟨v, t, rfl, hlength, ht⟩ := ih hmatches
      exact ⟨d :: v, t, rfl, congrArg (· + 1) hlength, ht⟩

/-- A part between two stars that is found at the start may stay there: what it is found in later
only takes characters from the second star. -/
theorem Segment.first_place (h : Segment u p) :
    Matches (u ++ s) (.star :: (p ++ .star :: q)) ↔ Matches s (.star :: q) := by
  constructor
  · intro hmatches
    obtain ⟨t, hsuffix, ht⟩ := matches_star.mp hmatches
    obtain ⟨v, w, rfl, hlength, hw⟩ := h.split ht
    obtain ⟨t, htail, ht⟩ := matches_star.mp hw
    refine matches_star.mpr ⟨t, ?_, ht⟩
    have hwhole : t <:+ u ++ s := htail.trans ((List.suffix_append v w).trans hsuffix)
    have hlong := (List.suffix_append v w).trans hsuffix |>.length_le
    have hle := hsuffix.length_le
    have htle := htail.length_le
    apply List.suffix_of_suffix_length_le hwhole (List.suffix_append u s)
    simp only [List.length_append] at hle
    omega
  · intro hmatches
    exact matches_star.mpr ⟨u ++ s, List.suffix_refl _, h.matches_append.mpr hmatches⟩

/-- At the end of the string the part has its last place. -/
theorem Segment.last_place (h : Segment u p) :
    Matches u (.star :: (p ++ q)) ↔ Matches [] q := by
  constructor
  · intro hmatches
    obtain ⟨t, hsuffix, ht⟩ := matches_star.mp hmatches
    obtain ⟨v, w, rfl, hlength, hw⟩ := h.split ht
    have hle := hsuffix.length_le
    simp only [List.length_append] at hle
    obtain rfl : w = [] := List.length_eq_zero_iff.mp (by omega)
    exact hw
  · intro hmatches
    refine matches_star.mpr ⟨u, List.suffix_refl _, ?_⟩
    simpa using h.matches_append.mpr hmatches

/-- The part is not found here, and is looked for one character later. -/
theorem matches_star_cons (h : ¬ Matches (c :: s) p) :
    Matches (c :: s) (.star :: p) ↔ Matches s (.star :: p) := by
  constructor
  · intro hmatches
    obtain ⟨t, hsuffix, ht⟩ := matches_star.mp hmatches
    rcases List.suffix_cons_iff.mp hsuffix with rfl | hsuffix
    · exact absurd ht h
    · exact matches_star.mpr ⟨t, hsuffix, ht⟩
  · intro hmatches
    obtain ⟨t, hsuffix, ht⟩ := matches_star.mp hmatches
    exact matches_star.mpr ⟨t, hsuffix.trans (List.suffix_cons c s), ht⟩

end Globs

import Zowex.Lib.Traversals
import Mathlib.Tactic

/-! Sets of numbers as lists of ranges, and the text of such a list: numbers and pairs `a-b` between
commas. -/

namespace Ranges

/-- The numbers from the first to the last. -/
structure Range where
  first : ℕ
  last : ℕ
  ordered : first ≤ last
  deriving DecidableEq

namespace Range

def single (n : ℕ) : Range := ⟨n, n, le_rfl⟩

def numbers (r : Range) : List ℕ := List.range' r.first (r.last + 1 - r.first)

/-- The range with the number behind its last. -/
def extend (r : Range) : Range := ⟨r.first, r.last + 1, Nat.le_succ_of_le r.ordered⟩

def text (r : Range) : List Char :=
  if r.first = r.last then Nat.toDigits 10 r.first
  else Nat.toDigits 10 r.first ++ '-' :: Nat.toDigits 10 r.last

theorem mem_numbers {r : Range} {n : ℕ} : n ∈ r.numbers ↔ r.first ≤ n ∧ n ≤ r.last := by
  rw [numbers, List.mem_range'_1]
  have := r.ordered
  omega

theorem numbers_single (n : ℕ) : (single n).numbers = [n] := by
  simp [numbers, single]

theorem numbers_extend (r : Range) : r.extend.numbers = r.numbers ++ [r.last + 1] := by
  have hlength : r.last + 1 + 1 - r.first = (r.last + 1 - r.first) + 1 := by
    have := r.ordered
    omega
  have hlast : r.first + (r.last + 1 - r.first) = r.last + 1 := by
    have := r.ordered
    omega
  simp only [numbers, extend]
  rw [hlength, List.range'_concat, Nat.one_mul, hlast]

end Range

def numbers (ranges : List Range) : List ℕ := ranges.flatMap Range.numbers

/-- Increasing, disjoint, and with a number left out between any two. -/
def Separate (ranges : List Range) : Prop :=
  ranges.Pairwise fun a b => a.last + 1 < b.first

def pieces : List Range → List (List Char)
  | [] => []
  | r :: rest => r.text :: rest.map fun r => ' ' :: r.text

def text (ranges : List Range) : List Char := [','].intercalate (pieces ranges)

def parse_number (digits : List Char) : Option ℕ :=
  if digits ≠ [] ∧ digits.all Char.isDigit then some (Nat.ofDigitChars 10 digits 0) else none

def of_bounds : List (List Char) → Option Range
  | [n] => (parse_number n).map Range.single
  | [first, last] => do
    let first ← parse_number first
    let last ← parse_number last
    if h : first ≤ last then some ⟨first, last, h⟩ else none
  | _ => none

def parse_range (text : List Char) : Option Range := of_bounds (text.splitOn '-')

/-- Blanks may stand before a range. -/
def parse (text : List Char) : Option (List Range) :=
  if text = [] then some []
  else (text.splitOn ',').mapM fun piece => parse_range (piece.dropWhile (· = ' '))

variable {ranges : List Range} {r : Range} {n : ℕ}

theorem numbers_concat : numbers (ranges ++ [r]) = numbers ranges ++ r.numbers := by
  simp [numbers]

/-- A range goes behind those that end two numbers before it. -/
theorem Separate.concat (h : Separate ranges) (hlast : ∀ a ∈ ranges, a.last + 1 < r.first) :
    Separate (ranges ++ [r]) :=
  List.pairwise_append.mpr ⟨h, List.pairwise_singleton _ _, by simpa using hlast⟩

theorem digit_of_mem {c : Char} (h : c ∈ Nat.toDigits 10 n) : c.isDigit :=
  Nat.isDigit_of_mem_toDigits (by decide) (by decide) h

theorem notMem_digits {c : Char} (hc : c.isDigit = false) : c ∉ Nat.toDigits 10 n := by
  intro h
  rw [digit_of_mem h] at hc
  cases hc

theorem parse_digits (n : ℕ) : parse_number (Nat.toDigits 10 n) = some n := by
  have hall : (Nat.toDigits 10 n).all Char.isDigit := List.all_eq_true.mpr fun c => digit_of_mem
  rw [parse_number, if_pos ⟨Nat.toDigits_ne_nil, hall⟩, Nat.ofDigitChars_ten_toDigits]

theorem parse_range_text (r : Range) : parse_range r.text = some r := by
  rw [Range.text, parse_range]
  split_ifs with hsame
  · rw [List.splitOn_eq_singleton (notMem_digits (by decide)), of_bounds, parse_digits]
    cases r
    cases hsame
    rfl
  · have hdash (n : ℕ) : '-' ∉ Nat.toDigits 10 n := notMem_digits (by decide)
    have hsplit :
        (['-'].intercalate [Nat.toDigits 10 r.first, Nat.toDigits 10 r.last]).splitOn '-' =
          [Nat.toDigits 10 r.first, Nat.toDigits 10 r.last] := by
      apply List.splitOn_intercalate _ _ (List.cons_ne_nil _ _)
      simp [hdash]
    rw [List.intercalate_cons_cons, List.intercalate_singleton, List.append_assoc] at hsplit
    rw [← List.singleton_append, hsplit, of_bounds, parse_digits, parse_digits]
    simp [r.ordered]

theorem notMem_text {c : Char} (hc : c.isDigit = false) (hdash : c ≠ '-') : c ∉ r.text := by
  rw [Range.text]
  split_ifs
  · exact notMem_digits hc
  · simp [notMem_digits hc, hdash]

theorem text_ne_nil : r.text ≠ [] := by
  rw [Range.text]
  split_ifs
  · exact Nat.toDigits_ne_nil
  · simp

theorem dropWhile_text : r.text.dropWhile (· = ' ') = r.text := by
  have hblank : ' ' ∉ r.text := notMem_text (by decide) (by decide)
  rcases htext : r.text with _ | ⟨c, rest⟩
  · rfl
  · rw [htext, List.mem_cons, not_or] at hblank
    exact List.dropWhile_cons_of_neg (by simpa using Ne.symm hblank.1)

theorem comma_notMem_pieces : ∀ piece ∈ pieces ranges, ',' ∉ piece := by
  have hcomma (r : Range) : ',' ∉ r.text := notMem_text (by decide) (by decide)
  induction ranges with
  | nil => simp [pieces]
  | cons r rest ih => simp [pieces, hcomma]

theorem parse_pieces :
    (pieces ranges).mapM (fun piece => parse_range (piece.dropWhile (· = ' '))) = some ranges := by
  have hread (r : Range) : parse_range (r.text.dropWhile (· = ' ')) = some r := by
    rw [dropWhile_text, parse_range_text]
  induction ranges with
  | nil => rfl
  | cons r rest =>
    have hrest : (rest.map fun r => ' ' :: r.text).mapM
        (fun piece => parse_range (piece.dropWhile (· = ' '))) = some (rest.map id) := by
      apply Traversals.mapM_map
      intro r _
      exact hread r
    rw [pieces, List.mapM_cons, hread, hrest, List.map_id]
    rfl

/-- The text of a list of ranges stands for them. -/
theorem parse_text (ranges : List Range) : parse (text ranges) = some ranges := by
  cases ranges with
  | nil => rfl
  | cons r rest =>
    have hne : text (r :: rest) ≠ [] := by
      cases rest with
      | nil => simpa [text, pieces] using text_ne_nil
      | cons next rest => simp [text, pieces, text_ne_nil]
    have hpieces : pieces (r :: rest) ≠ [] := List.cons_ne_nil _ _
    rw [parse, if_neg hne, text, List.splitOn_intercalate ',' comma_notMem_pieces hpieces,
      parse_pieces]

theorem intercalate_concat {α : Type*} {separator last : List α} {lists : List (List α)}
    (h : lists ≠ []) : separator.intercalate (lists ++ [last]) =
      separator.intercalate lists ++ (separator ++ last) := by
  induction lists with
  | nil => exact absurd rfl h
  | cons first rest ih =>
    cases rest with
    | nil => simp
    | cons second rest =>
      have hrest := ih (List.cons_ne_nil _ _)
      simp only [List.cons_append, List.intercalate_cons_cons] at hrest ⊢
      rw [hrest]
      simp

/-- A range is written behind the others with a comma and a blank. -/
theorem text_concat : text (ranges ++ [r]) =
    (if text ranges = [] then [] else text ranges ++ [',', ' ']) ++ r.text := by
  cases ranges with
  | nil => simp [text, pieces]
  | cons first rest =>
    have hne : text (first :: rest) ≠ [] := by
      intro hnil
      have hparse := parse_text (first :: rest)
      rw [hnil] at hparse
      cases hparse
    rw [if_neg hne, text, List.cons_append, pieces, List.map_append, ← List.cons_append]
    rw [List.map_singleton, intercalate_concat (List.cons_ne_nil _ _), text, pieces]
    simp

end Ranges

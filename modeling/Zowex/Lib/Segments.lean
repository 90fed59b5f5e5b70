import Mathlib.Algebra.BigOperators.Group.List.Basic
import Mathlib.Tactic

/-! Segments laid end to end: where a position falls among them. -/

namespace Segments

/-- The position `t` is the `r`-th of the segment `i`, both from zero. -/
def At (lengths : List ℕ) (t i r : ℕ) : Prop :=
  ∃ length, lengths[i]? = some length ∧ r < length ∧ (lengths.take i).sum + r = t

variable {length : ℕ} {lengths : List ℕ} {t t' i i' r r' : ℕ}

theorem not_at_nil : ¬ At [] t i r := by
  rintro ⟨length, hlength, -⟩
  simp at hlength

theorem at_cons_zero : At (length :: lengths) t 0 r ↔ r = t ∧ t < length := by
  simp only [At, List.getElem?_cons_zero, Option.some.injEq, List.take_zero, List.sum_nil,
    Nat.zero_add]
  constructor
  · rintro ⟨_, rfl, hlt, rfl⟩
    exact ⟨rfl, hlt⟩
  · rintro ⟨rfl, hlt⟩
    exact ⟨length, rfl, hlt, rfl⟩

theorem at_cons_succ :
    At (length :: lengths) t (i + 1) r ↔ length ≤ t ∧ At lengths (t - length) i r := by
  simp only [At, List.getElem?_cons_succ, List.take_succ_cons, List.sum_cons]
  constructor
  · rintro ⟨other, hother, hlt, hsum⟩
    exact ⟨by omega, other, hother, hlt, by omega⟩
  · rintro ⟨hle, other, hother, hlt, hsum⟩
    exact ⟨other, hother, hlt, by omega⟩

/-- Each position before the end is in one segment. -/
theorem exists_at (h : t < lengths.sum) : ∃ i r, At lengths t i r := by
  induction lengths generalizing t with
  | nil => simp at h
  | cons length lengths ih =>
    by_cases hlt : t < length
    · exact ⟨0, t, at_cons_zero.mpr ⟨rfl, hlt⟩⟩
    · rw [List.sum_cons] at h
      obtain ⟨i, r, hat⟩ := ih (t := t - length) (by omega)
      exact ⟨i + 1, r, at_cons_succ.mpr ⟨by omega, hat⟩⟩

theorem At.lt_sum (h : At lengths t i r) : t < lengths.sum := by
  induction lengths generalizing t i with
  | nil => exact absurd h not_at_nil
  | cons length lengths ih =>
    rw [List.sum_cons]
    rcases i with _ | i
    · have hlt := (at_cons_zero.mp h).2
      omega
    · have hrest := ih (at_cons_succ.mp h).2
      omega

/-- Later positions are in later segments, or later in the same one. -/
theorem At.lex (h : At lengths t i r) (h' : At lengths t' i' r') (hlt : t < t') :
    i < i' ∨ i = i' ∧ r < r' := by
  induction lengths generalizing t t' i i' with
  | nil => exact absurd h not_at_nil
  | cons length lengths ih =>
    rcases i with _ | i
    · have hfirst := at_cons_zero.mp h
      rcases i' with _ | i'
      · have hfirst' := at_cons_zero.mp h'
        omega
      · omega
    · have hlater := at_cons_succ.mp h
      rcases i' with _ | i'
      · have hfirst' := at_cons_zero.mp h'
        omega
      · have hlater' := at_cons_succ.mp h'
        have hrest := ih hlater.2 hlater'.2 (by omega)
        omega

theorem At.unique (h : At lengths t i r) (h' : At lengths t i' r') : i = i' ∧ r = r' := by
  induction lengths generalizing t i i' with
  | nil => exact absurd h not_at_nil
  | cons length lengths ih =>
    rcases i with _ | i
    · have hfirst := at_cons_zero.mp h
      rcases i' with _ | i'
      · have hfirst' := at_cons_zero.mp h'
        omega
      · have hlater' := at_cons_succ.mp h'
        omega
    · have hlater := at_cons_succ.mp h
      rcases i' with _ | i'
      · have hfirst' := at_cons_zero.mp h'
        omega
      · have hrest := ih hlater.2 (at_cons_succ.mp h').2
        omega

end Segments

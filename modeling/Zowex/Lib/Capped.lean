import Mathlib.Data.List.Basic

/-! The first elements of a list, at most a cap of them, where the element after the last one shows
that there are more. A cap of zero is none. -/

namespace Capped

variable {α : Type*} {cap : ℕ}

/-- The loop: what there is room for is added, the next one ends it. -/
def collect (cap : ℕ) : List α → List α → List α × Bool
  | [], out => (out, false)
  | x :: xs, out =>
    if cap ≠ 0 ∧ out.length ≥ cap then (out, true) else collect cap xs (out ++ [x])

def capped (cap : ℕ) (xs : List α) : List α := if cap = 0 then xs else xs.take cap

/-- How many elements the loop asks for, the end of the list counted as one. -/
def asked (cap length : ℕ) : ℕ := if cap = 0 then length + 1 else min (cap + 1) (length + 1)

theorem collect_unbounded (xs out : List α) : collect 0 xs out = (out ++ xs, false) := by
  induction xs generalizing out with
  | nil => rw [collect, List.append_nil]
  | cons x xs ih =>
    rw [collect, if_neg (by simp), ih, List.append_assoc]
    rfl

/-- What is in the list so far is within the cap. -/
theorem collect_from (hcap : cap ≠ 0) {xs out : List α} (hout : out.length ≤ cap) :
    collect cap xs out = ((out ++ xs).take cap, decide (cap < (out ++ xs).length)) := by
  induction xs generalizing out with
  | nil =>
    rw [collect, List.append_nil, List.take_of_length_le hout, decide_eq_false (by omega)]
  | cons x xs ih =>
    rw [collect]
    by_cases hfull : out.length ≥ cap
    · have hlength : out.length = cap := Nat.le_antisymm hout hfull
      rw [if_pos ⟨hcap, hfull⟩, List.take_left' hlength, decide_eq_true]
      rw [List.length_append, List.length_cons]
      omega
    · rw [if_neg (fun h => hfull h.2), ih (by simp; omega), List.append_assoc]
      rfl

theorem collect_eq (cap : ℕ) (xs : List α) :
    collect cap xs [] = (capped cap xs, decide ((capped cap xs).length < xs.length)) := by
  by_cases hcap : cap = 0
  · subst hcap
    rw [collect_unbounded, capped, if_pos rfl, List.nil_append, decide_eq_false (Nat.lt_irrefl _)]
  · rw [collect_from hcap (Nat.zero_le _), List.nil_append, capped, if_neg hcap,
      List.length_take]
    congr 1
    rw [decide_eq_decide]
    omega

theorem length_capped_le (cap : ℕ) (xs : List α) : (capped cap xs).length ≤ xs.length := by
  rw [capped]
  split
  · exact Nat.le_refl _
  · exact List.length_take_le' ..

/-- At most the cap. -/
theorem length_capped_le_cap (hcap : cap ≠ 0) (xs : List α) :
    (capped cap xs).length ≤ cap := by
  rw [capped, if_neg hcap]
  exact List.length_take_le ..

/-- A second pass with the same cap changes nothing. -/
theorem capped_capped (cap : ℕ) (xs : List α) : capped cap (capped cap xs) = capped cap xs := by
  by_cases hcap : cap = 0
  · rw [capped, if_pos hcap]
  · rw [capped, if_neg hcap, List.take_of_length_le (length_capped_le_cap hcap xs)]

end Capped

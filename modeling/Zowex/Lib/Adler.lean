import Mathlib.Algebra.BigOperators.Group.List.Basic
import Mathlib.Data.List.Infix
import Mathlib.Tactic

/-! The two sums of an Adler checksum, over any modulus. -/

namespace Adler

/-- One more than the sum of the data. -/
def first (data : List ℕ) : ℕ := 1 + data.sum

/-- The sum of the first sums of all beginnings that have at least one number. -/
def second (data : List ℕ) : ℕ := (data.inits.tail.map first).sum

def checksum (modulus : ℕ) (data : List ℕ) : ℕ :=
  second data % modulus * 2 ^ 16 + first data % modulus

theorem first_append (data more : List ℕ) : first (data ++ more) = first data + more.sum := by
  rw [first, first, List.sum_append, Nat.add_assoc]

theorem first_snoc (data : List ℕ) (n : ℕ) : first (data ++ [n]) = first data + n := by
  rw [first_append, List.sum_singleton]

theorem inits_snoc (data : List ℕ) (n : ℕ) :
    (data ++ [n]).inits = data.inits ++ [data ++ [n]] := by
  rw [List.inits_append]
  simp

theorem second_snoc (data : List ℕ) (n : ℕ) :
    second (data ++ [n]) = second data + first (data ++ [n]) := by
  have hne : data.inits ≠ [] := by
    cases data with
    | nil => simp
    | cons _ _ => simp
  rw [second, second, inits_snoc, List.tail_append_of_ne_nil hne, List.map_append, List.sum_append,
    List.map_singleton, List.sum_singleton]

end Adler

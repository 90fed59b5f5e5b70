import Mathlib.Algebra.BigOperators.Group.List.Basic
import Mathlib.Data.List.Perm.Basic
import Mathlib.Tactic

/-! Sums over a list one entry of which is replaced or taken out. -/

namespace Sums

variable {α : Type*} (f : α → ℕ)

theorem sum_eraseIdx {l : List α} {i : ℕ} {a : α} (h : l[i]? = some a) :
    ((l.eraseIdx i).map f).sum + f a = (l.map f).sum := by
  obtain ⟨hi, rfl⟩ := List.getElem?_eq_some_iff.mp h
  have hperm := (List.getElem_cons_eraseIdx_perm hi).map f
  rw [← hperm.sum_eq, List.map_cons, List.sum_cons, add_comm]

theorem sum_set {l : List α} {i : ℕ} {a : α} (h : l[i]? = some a) (b : α) :
    ((l.set i b).map f).sum + f a = (l.map f).sum + f b := by
  obtain ⟨hi, -⟩ := List.getElem?_eq_some_iff.mp h
  have hperm := (List.set_perm_cons_eraseIdx hi b).map f
  have herase := sum_eraseIdx f h
  rw [hperm.sum_eq, List.map_cons, List.sum_cons]
  omega

theorem sum_modify {l : List α} {i : ℕ} {a : α} (h : l[i]? = some a) (g : α → α) :
    ((l.modify i g).map f).sum + f a = (l.map f).sum + f (g a) := by
  obtain ⟨hi, rfl⟩ := List.getElem?_eq_some_iff.mp h
  rw [List.modify_eq_set_get g hi]
  exact sum_set f h _

end Sums

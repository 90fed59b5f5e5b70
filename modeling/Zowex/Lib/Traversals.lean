import Mathlib.Data.List.Forall2

/-! A list taken through a function that may fail: all of the results, or none for the first one
that fails. -/

namespace Traversals

variable {α β γ : Type*} {f : α → Option β} {xs : List α} {ys : List β}

theorem mapM_eq_some_iff :
    xs.mapM f = some ys ↔ List.Forall₂ (fun x y => f x = some y) xs ys := by
  induction xs generalizing ys with
  | nil => rw [List.mapM_nil, List.forall₂_nil_left_iff, Option.pure_def, Option.some_inj, eq_comm]
  | cons x xs ih =>
    rw [List.mapM_cons, List.forall₂_cons_left_iff]
    constructor
    · intro h
      obtain ⟨y, hy, h⟩ := Option.bind_eq_some_iff.mp h
      obtain ⟨rest, hrest, h⟩ := Option.bind_eq_some_iff.mp h
      exact ⟨y, rest, hy, ih.mp hrest, (Option.some.inj h).symm⟩
    · rintro ⟨y, rest, hy, hrest, rfl⟩
      rw [hy, ih.mpr hrest]
      rfl

theorem length_eq (h : xs.mapM f = some ys) : ys.length = xs.length :=
  (mapM_eq_some_iff.mp h).length_eq.symm

theorem mem_of_mapM (h : xs.mapM f = some ys) : ∀ y ∈ ys, ∃ x ∈ xs, f x = some y := by
  rw [mapM_eq_some_iff] at h
  induction h with
  | nil => exact fun _ hy => absurd hy List.not_mem_nil
  | cons hfirst _ ih =>
    rw [List.forall_mem_cons]
    refine ⟨⟨_, List.mem_cons_self, hfirst⟩, fun y hy => ?_⟩
    obtain ⟨x, hx, hsome⟩ := ih y hy
    exact ⟨x, List.mem_cons_of_mem _ hx, hsome⟩

/-- Where each element is known to have a result. -/
theorem mapM_map {items : List γ} {g : γ → α} {h : γ → β}
    (hall : ∀ item ∈ items, f (g item) = some (h item)) :
    (items.map g).mapM f = some (items.map h) := by
  rw [mapM_eq_some_iff, List.forall₂_map_left_iff, List.forall₂_map_right_iff]
  exact List.forall₂_same.mpr hall

/-- Each element has a result, or there is a first one that has none. -/
theorem mapM_cases (f : α → Option β) (xs : List α) : (∃ ys, xs.mapM f = some ys) ∨
    ∃ before x after ys, xs = before ++ x :: after ∧ before.mapM f = some ys ∧ f x = none := by
  induction xs with
  | nil => exact .inl ⟨[], rfl⟩
  | cons x xs ih =>
    rcases hx : f x with _ | y
    · exact .inr ⟨[], x, xs, [], rfl, rfl, hx⟩
    rcases ih with ⟨ys, hys⟩ | ⟨before, next, after, ys, rfl, hys, hnone⟩
    · refine .inl ⟨y :: ys, ?_⟩
      rw [List.mapM_cons, hx, hys]
      rfl
    · refine .inr ⟨x :: before, next, after, y :: ys, rfl, ?_, hnone⟩
      rw [List.mapM_cons, hx, hys]
      rfl

end Traversals

import Mathlib.Tactic

/-! A partial conversion that keeps a state from one call to the next, and what its calls on the
pieces of an input come to. -/

namespace Transducer

variable {σ α β : Type*}

/-- Calls one after the other. -/
def run (convert : σ → List α → Option (List β × σ)) : σ → List (List α) → Option (List β × σ)
  | s, [] => some ([], s)
  | s, input :: inputs => do
    let (output, s) ← convert s input
    let (rest, s) ← run convert s inputs
    some (output ++ rest, s)

/-- Two calls come to one. -/
structure Sequential (convert : σ → List α → Option (List β × σ)) : Prop where
  nil (s : σ) : convert s [] = some ([], s)
  append {s t u : σ} {a b : List α} {x y : List β} :
    convert s a = some (x, t) → convert t b = some (y, u) → convert s (a ++ b) = some (x ++ y, u)

/-- No state is kept, and where an input is cut the rest can be converted by itself if the first part
can. -/
structure Stateless (convert : σ → List α → Option (List β × σ)) : Prop extends
    Sequential convert where
  state {s t : σ} {a : List α} {x : List β} : convert s a = some (x, t) → t = s
  cut {s : σ} {a b : List α} {x z : List β} :
    convert s (a ++ b) = some (z, s) → convert s a = some (x, s) →
      ∃ y, convert s b = some (y, s) ∧ z = x ++ y

variable {convert : σ → List α → Option (List β × σ)}

/-- Where each piece can be converted, the pieces come to the whole. -/
theorem Stateless.run_of_flatten (h : Stateless convert) {s : σ} {inputs : List (List α)}
    {output : List β} (hall : convert s inputs.flatten = some (output, s))
    (hpieces : ∀ input ∈ inputs, convert s input ≠ none) :
    run convert s inputs = some (output, s) := by
  induction inputs generalizing output with
  | nil => exact (h.nil s).symm.trans hall
  | cons input inputs ih =>
    obtain ⟨⟨x, t⟩, hinput⟩ := Option.ne_none_iff_exists'.mp (hpieces input List.mem_cons_self)
    obtain rfl := h.state hinput
    obtain ⟨y, hrest, rfl⟩ := h.cut hall hinput
    rw [run, hinput]
    dsimp only [bind, Option.bind]
    rw [ih hrest fun piece hpiece => hpieces piece (List.mem_cons_of_mem _ hpiece)]

/-- Pieces that are all converted are converted one by one. -/
theorem Stateless.pieces_of_run (h : Stateless convert) {s t : σ} {inputs : List (List α)}
    {output : List β} (hrun : run convert s inputs = some (output, t)) :
    ∀ input ∈ inputs, convert s input ≠ none := by
  induction inputs generalizing output t with
  | nil => exact fun _ hmem => absurd hmem List.not_mem_nil
  | cons input inputs ih =>
    rw [run] at hrun
    obtain ⟨⟨x, u⟩, hinput, hafter⟩ := Option.bind_eq_some_iff.mp hrun
    obtain ⟨⟨y, v⟩, hrest, -⟩ := Option.bind_eq_some_iff.mp hafter
    obtain rfl := h.state hinput
    refine List.forall_mem_cons.mpr ⟨?_, ih hrest⟩
    rw [hinput]
    exact Option.some_ne_none _

end Transducer

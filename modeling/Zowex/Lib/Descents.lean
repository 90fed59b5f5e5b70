import Mathlib.Data.Set.Finite.Basic
import Mathlib.Logic.Relation
import Mathlib.Order.WellFounded
import Mathlib.Tactic

/-! How far down a branching structure goes: the longest way from a vertex, and that there is one
where no vertex is below itself. -/

namespace Descents

variable {V : Type*} (children : V → List V)

/-- A vertex right below another one. -/
def Below (parent child : V) : Prop := child ∈ children parent

/-- Every way down from the vertex has fewer than `n` steps. -/
def Shallow : ℕ → V → Prop
  | 0, _ => False
  | n + 1, v => ∀ next ∈ children v, Shallow n next

variable {children}

theorem Shallow.succ {n : ℕ} {v : V} (h : Shallow children n v) : Shallow children (n + 1) v := by
  induction n generalizing v with
  | zero => exact h.elim
  | succ n ih => exact fun next hnext => ih (h next hnext)

theorem Shallow.mono {n m : ℕ} {v : V} (h : Shallow children n v) (hle : n ≤ m) :
    Shallow children m v := by
  induction hle with
  | refl => exact h
  | step _ ih => exact ih.succ

theorem Shallow.below {n : ℕ} {v w : V} (h : Shallow children (n + 1) v)
    (hbelow : Relation.TransGen (Below children) v w) : Shallow children n w := by
  induction hbelow with
  | single hchild => exact h _ hchild
  | tail _ hchild ih =>
    cases n with
    | zero => exact ih.elim
    | succ n => exact Shallow.succ (ih _ hchild)

/-- No vertex on a way down is below itself. -/
theorem Shallow.acyclic {n : ℕ} {v w : V} (h : Shallow children n v)
    (hreach : Relation.ReflTransGen (Below children) v w) :
    ¬ Relation.TransGen (Below children) w w := by
  intro hcycle
  have hw : Shallow children n w := by
    rcases (Relation.reflTransGen_iff_eq_or_transGen.mp hreach) with rfl | hbelow
    · exact h
    · exact Shallow.below h.succ hbelow
  clear h hreach
  induction n with
  | zero => exact hw
  | succ n ih => exact ih (hw.below hcycle)

/-- As many steps for all of a list. -/
theorem shallow_all {subs : List V} (h : ∀ next ∈ subs, ∃ n, Shallow children n next) :
    ∃ n, ∀ next ∈ subs, Shallow children n next := by
  induction subs with
  | nil => exact ⟨0, fun _ hnext => absurd hnext List.not_mem_nil⟩
  | cons sub subs ih =>
    obtain ⟨n, hn⟩ := h sub List.mem_cons_self
    obtain ⟨m, hm⟩ := ih fun next hnext => h next (List.mem_cons_of_mem _ hnext)
    refine ⟨max n m, fun next hnext => ?_⟩
    rcases List.mem_cons.mp hnext with rfl | hnext
    · exact hn.mono (le_max_left n m)
    · exact (hm next hnext).mono (le_max_right n m)

/-- There is a longest way down where nothing below is below itself, if there is no more than
finitely much below. -/
theorem exists_shallow {v : V} (hfinite : {w | Relation.ReflTransGen (Below children) v w}.Finite)
    (hacyclic : ∀ w, Relation.ReflTransGen (Below children) v w →
      ¬ Relation.TransGen (Below children) w w) : ∃ n, Shallow children n v := by
  let reach := {w | Relation.ReflTransGen (Below children) v w}
  have : Finite reach := hfinite
  let deeper (a b : reach) : Prop := Relation.TransGen (Below children) b.1 a.1
  have htrans : IsTrans reach deeper := ⟨fun a b c hab hbc => hbc.trans hab⟩
  have hirrefl : Std.Irrefl deeper := ⟨fun a => hacyclic a.1 a.2⟩
  have hwf : WellFounded deeper := Finite.wellFounded_of_trans_of_irrefl deeper
  have hall (w : reach) : ∃ n, Shallow children n w.1 := by
    induction w using hwf.induction with
    | _ w ih =>
      obtain ⟨n, hn⟩ := shallow_all fun next hnext =>
        ih ⟨next, w.2.tail hnext⟩ (.single hnext)
      exact ⟨n + 1, hn⟩
  exact hall ⟨v, .refl⟩

end Descents

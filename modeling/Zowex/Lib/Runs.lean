import Mathlib.Data.List.Basic
import Mathlib.Tactic

/-! Runs of a partial step function. A run keeps each action with the state it was taken
in, so that an assumption about the steps can speak of both. -/

namespace Runs

variable {S A : Type*} {step : S → A → Option S}

/-- From `s` the actions of the trace lead to the last state. -/
inductive Run (step : S → A → Option S) (s : S) : List (S × A) → S → Prop
  | nil : Run step s [] s
  | snoc {tr t a t'} : Run step s tr t → step t a = some t' → Run step s (tr ++ [(t, a)]) t'

/-- The states a run goes through, the last one included. -/
def states (tr : List (S × A)) (t : S) : List S := tr.map Prod.fst ++ [t]

/-- Every action was taken in a state that `ok` allows it in. -/
def Steps (ok : S → A → Prop) (tr : List (S × A)) : Prop := ∀ p ∈ tr, ok p.1 p.2

theorem Steps.nil (ok : S → A → Prop) : Steps ok [] :=
  fun _ hp => absurd hp List.not_mem_nil

theorem Steps.init {ok : S → A → Prop} {tr : List (S × A)} {p : S × A}
    (h : Steps ok (tr ++ [p])) : Steps ok tr :=
  fun q hq => h q (List.mem_append_left _ hq)

theorem Steps.last {ok : S → A → Prop} {tr : List (S × A)} {p : S × A}
    (h : Steps ok (tr ++ [p])) : ok p.1 p.2 :=
  h p (List.mem_append_right _ (List.mem_singleton_self p))

theorem mem_states_snoc {tr : List (S × A)} {t : S} {a : A} {t' u : S} :
    u ∈ states (tr ++ [(t, a)]) t' ↔ u ∈ states tr t ∨ u = t' := by
  simp [states, or_assoc]

theorem last_mem_states (tr : List (S × A)) (t : S) : t ∈ states tr t := by
  simp [states]

/-- What holds at the start and is kept by the steps the run takes holds in all its states. -/
theorem Run.always {I : S → Prop} {ok : S → A → Prop} {s t : S} {tr : List (S × A)}
    (hrun : Run step s tr t) (hok : Steps ok tr) (init : I s)
    (kept : ∀ {u a u'}, I u → ok u a → step u a = some u' → I u') : ∀ u ∈ states tr t, I u := by
  induction hrun with
  | nil => simpa [states] using init
  | snoc hrun hstep ih =>
    intro u hu
    rcases mem_states_snoc.mp hu with hu | rfl
    · exact ih hok.init u hu
    · exact kept (ih hok.init _ (last_mem_states _ _)) hok.last hstep

theorem Run.invariant {I : S → Prop} {ok : S → A → Prop} {s t : S} {tr : List (S × A)}
    (hrun : Run step s tr t) (hok : Steps ok tr) (init : I s)
    (kept : ∀ {u a u'}, I u → ok u a → step u a = some u' → I u') : I t :=
  hrun.always hok init kept t (last_mem_states _ _)

/-- The state after each action is one the run goes through. -/
theorem Run.next_mem {s t u : S} {a : A} {tr : List (S × A)} (hrun : Run step s tr t)
    (h : (u, a) ∈ tr) : ∃ u' ∈ states tr t, step u a = some u' := by
  induction hrun with
  | nil => cases h
  | snoc hrun hstep ih =>
    rcases List.mem_append.mp h with h | h
    · obtain ⟨u', hu', hnext⟩ := ih h
      exact ⟨u', mem_states_snoc.mpr (.inl hu'), hnext⟩
    · cases List.mem_singleton.mp h
      exact ⟨_, mem_states_snoc.mpr (.inr rfl), hstep⟩

/-- Runs the actions one after the other, as long as `ok` allows the next one. -/
def exec (step : S → A → Option S) (ok : S → A → Bool) : S → List A → Option S
  | s, [] => some s
  | s, a :: as =>
    if ok s a then
      match step s a with
      | some t => exec step ok t as
      | none => none
    else none

theorem Run.exec {ok : S → A → Bool} {s t u : S} {tr : List (S × A)} {as : List A}
    (hrun : Run step s tr t) (hok : Steps (fun s a => ok s a) tr)
    (h : Runs.exec step ok t as = some u) :
    ∃ tr', Run step s tr' u ∧ Steps (fun s a => ok s a) tr' := by
  induction as generalizing t tr with
  | nil =>
    obtain rfl : t = u := by simpa [Runs.exec] using h
    exact ⟨tr, hrun, hok⟩
  | cons a as ih =>
    rw [Runs.exec] at h
    split at h
    case isFalse => cases h
    case isTrue hoka =>
      split at h
      case h_2 => cases h
      case h_1 t' hstep =>
        refine ih (hrun.snoc hstep) ?_ h
        intro p hp
        rcases List.mem_append.mp hp with hp | hp
        · exact hok p hp
        · obtain rfl := List.mem_singleton.mp hp
          exact hoka

/-- A computed execution is a run. -/
theorem run_of_exec {ok : S → A → Bool} {s t : S} {as : List A}
    (h : exec step ok s as = some t) :
    ∃ tr, Run step s tr t ∧ Steps (fun s a => ok s a) tr :=
  Run.nil.exec (Steps.nil _) h

end Runs

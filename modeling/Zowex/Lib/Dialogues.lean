import Mathlib.Data.List.Basic
import Mathlib.Tactic

/-! Programs that ask, where an answer may depend on all that has happened before, and rules for
what they end with and what they add to the events. -/

namespace Dialogues

variable {Event : Type} {α β : Type}

/-- From what has happened, the result and what has happened then. -/
def Dialogue (Event α : Type) : Type := List Event → α × List Event

instance : Monad (Dialogue Event) where
  pure a := fun log => (a, log)
  bind m f := fun log => f (m log).1 (m log).2

/-- A question, the answer to it and the event that keeps the answer. -/
def ask (answer : List Event → α) (event : α → Event) : Dialogue Event α :=
  fun log => (answer log, log ++ [event (answer log)])

theorem bind_apply (m : Dialogue Event α) (f : α → Dialogue Event β) (log : List Event) :
    (m >>= f) log = f (m log).1 (m log).2 := rfl

/-- Whatever has happened, the program only adds events, for which and for its result `Q` holds. -/
def Yields (m : Dialogue Event α) (Q : α → List Event → Prop) : Prop :=
  ∀ log, ∃ added, (m log).2 = log ++ added ∧ Q (m log).1 added

namespace Yields

variable {m : Dialogue Event α} {Q Q' : α → List Event → Prop}

theorem pure (a : α) (h : Q a []) : Yields (Pure.pure a : Dialogue Event α) Q :=
  fun log => ⟨[], (List.append_nil log).symm, h⟩

theorem ask {answer : List Event → α} {event : α → Event} (h : ∀ a, Q a [event a]) :
    Yields (ask answer event) Q :=
  fun log => ⟨_, rfl, h (answer log)⟩

theorem mono (hm : Yields m Q) (h : ∀ a added, Q a added → Q' a added) : Yields m Q' := by
  intro log
  obtain ⟨added, hlog, hQ⟩ := hm log
  exact ⟨added, hlog, h _ _ hQ⟩

theorem bind {f : α → Dialogue Event β} {R : β → List Event → Prop} (hm : Yields m Q)
    (hf : ∀ a added, Q a added → Yields (f a) fun b more => R b (added ++ more)) :
    Yields (m >>= f) R := by
  intro log
  obtain ⟨added, hlog, hQ⟩ := hm log
  obtain ⟨more, hmore, hR⟩ := hf _ _ hQ (m log).2
  refine ⟨added ++ more, ?_, hR⟩
  rw [bind_apply, hmore, hlog, List.append_assoc]

/-- An answer, and what is done with it. -/
theorem ask_bind {answer : List Event → α} {event : α → Event} {f : α → Dialogue Event β}
    {R : β → List Event → Prop} (h : ∀ a, Yields (f a) fun b more => R b (event a :: more)) :
    Yields (Dialogues.ask answer event >>= f) R :=
  bind (ask (Q := fun a added => added = [event a]) fun _ => rfl) fun a _ hadded =>
    hadded ▸ h a

end Yields

end Dialogues

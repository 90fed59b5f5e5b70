import Mathlib.Data.Finset.Card
import Mathlib.Data.List.Nodup
import Mathlib.Tactic

/-! A list of the values seen last, each of them once, that forgets the oldest when it is full. -/

namespace Recency

variable {α : Type*}

inductive Op (α : Type*)
  | note (a : α)
  | forget (a : α)

variable (capacity : ℕ)

/-- The last values, as many as there is room for. -/
def cut (order : List α) : List α := order.drop (order.length - capacity)

/-- A value that fits behind what is dropped stays, with all that came after it. -/
theorem cut_append {capacity : ℕ} (older newer : List α) (a : α)
    (fits : newer.length < capacity) :
    ∃ kept, cut capacity (older ++ a :: newer) = kept ++ a :: newer := by
  refine ⟨older.drop ((older ++ a :: newer).length - capacity), ?_⟩
  rw [cut, List.drop_append_of_le_length]
  simp only [List.length_append, List.length_cons]
  omega

/-- The values that are noted. -/
def noted (ops : List (Op α)) : List α :=
  ops.filterMap fun op => match op with
    | .note a => some a
    | .forget _ => none

theorem noted_snoc (ops : List (Op α)) (op : Op α) :
    noted (ops ++ [op]) = noted ops ++ noted [op] :=
  List.filterMap_append

variable [DecidableEq α]

def step (order : List α) : Op α → List α
  | .note a => if a ∈ order then order else cut capacity (order ++ [a])
  | .forget a => order.erase a

def run (order : List α) (ops : List (Op α)) : List α := ops.foldl (step capacity) order

variable {capacity}

theorem run_append (order : List α) (ops later : List (Op α)) :
    run capacity order (ops ++ later) = run capacity (run capacity order ops) later :=
  List.foldl_append

theorem run_snoc (order : List α) (ops : List (Op α)) (op : Op α) :
    run capacity order (ops ++ [op]) = step capacity (run capacity order ops) op :=
  run_append order ops [op]

theorem step_note (order : List α) (a : α) :
    step capacity order (.note a) = if a ∈ order then order else cut capacity (order ++ [a]) :=
  rfl

theorem step_forget (order : List α) (a : α) : step capacity order (.forget a) = order.erase a :=
  rfl

theorem step_nodup {order : List α} (h : order.Nodup) (op : Op α) :
    (step capacity order op).Nodup := by
  cases op with
  | note a =>
    rw [step_note]
    split_ifs with known
    · exact h
    · exact (List.nodup_append_comm.mp (List.nodup_cons.mpr ⟨known, h⟩)).sublist
        (List.drop_sublist _ _)
  | forget a => exact h.erase a

theorem step_length {order : List α} (h : order.length ≤ capacity) (op : Op α) :
    (step capacity order op).length ≤ capacity := by
  cases op with
  | note a =>
    rw [step_note]
    split_ifs with known
    · exact h
    · rw [cut, List.length_drop]
      omega
  | forget a => exact List.length_erase_le.trans h

/-- Behind a value stand values that were noted later. -/
def Behind (a : α) (ops : List (Op α)) (order : List α) : Prop :=
  ∃ older newer, order = older ++ a :: newer ∧ (a :: newer).Nodup ∧ ∀ b ∈ newer, b ∈ noted ops

theorem Behind.few {a : α} {ops : List (Op α)} {newer : List α} (nodup : (a :: newer).Nodup)
    (later : ∀ b ∈ newer, b ∈ noted ops) :
    newer.length ≤ ((noted ops).toFinset.erase a).card := by
  rw [List.nodup_cons] at nodup
  rw [← List.toFinset_card_of_nodup nodup.2]
  apply Finset.card_le_card
  intro b hb
  have inside := List.mem_toFinset.mp hb
  exact Finset.mem_erase.mpr
    ⟨fun same => nodup.1 (same ▸ inside), List.mem_toFinset.mpr (later b inside)⟩

theorem Behind.step {a : α} {ops : List (Op α)} {order : List α} (h : Behind a ops order)
    {op : Op α} (kept : ∀ b, op = .forget b → b ≠ a)
    (few : ((noted (ops ++ [op])).toFinset.erase a).card < capacity) :
    Behind a (ops ++ [op]) (step capacity order op) := by
  obtain ⟨older, newer, rfl, nodup, later⟩ := h
  have later' : ∀ b ∈ newer, b ∈ noted (ops ++ [op]) := fun b hb =>
    noted_snoc ops op ▸ List.mem_append_left _ (later b hb)
  cases op with
  | note b =>
    rw [step_note]
    split_ifs with known
    · exact ⟨older, newer, rfl, nodup, later'⟩
    · have fresh : (a :: (newer ++ [b])).Nodup := by
        have unseen : b ∉ a :: newer := fun inside =>
          known (List.mem_append_right older inside)
        have front : ([b] ++ a :: newer).Nodup := List.nodup_cons.mpr ⟨unseen, nodup⟩
        exact List.nodup_append_comm.mp front
      have all : ∀ c ∈ newer ++ [b], c ∈ noted (ops ++ [.note b]) := by
        intro c hc
        rcases List.mem_append.mp hc with hc | hc
        · exact later' c hc
        · exact noted_snoc ops _ ▸ List.mem_append_right _ hc
      obtain ⟨rest, same⟩ := cut_append older (newer ++ [b]) a ((Behind.few fresh all).trans_lt few)
      exact ⟨rest, newer ++ [b], by simpa using same, fresh, all⟩
  | forget b =>
    have other := kept b rfl
    rw [step_forget]
    by_cases old : b ∈ older
    · rw [List.erase_append_left _ old]
      exact ⟨older.erase b, newer, rfl, nodup, later'⟩
    · rw [List.erase_append_right _ old, List.erase_cons_tail (by simpa using other.symm)]
      refine ⟨older, newer.erase b, rfl, ?_, fun c hc => later' c (List.mem_of_mem_erase hc)⟩
      rw [List.nodup_cons] at nodup ⊢
      exact ⟨fun inside => nodup.1 (List.mem_of_mem_erase inside), nodup.2.erase b⟩

/-- A value noted anew is there until it is forgotten or as many others as there is room for are
noted. -/
theorem retained {order : List α} {a : α} (fresh : a ∉ order) {ops : List (Op α)}
    (kept : Op.forget a ∉ ops) (few : ((noted ops).toFinset.erase a).card < capacity) :
    a ∈ run capacity (step capacity order (.note a)) ops := by
  have behind : Behind a ops (run capacity (step capacity order (.note a)) ops) := by
    induction ops using List.reverseRecOn with
    | nil =>
      rw [step_note, if_neg fresh]
      obtain ⟨rest, same⟩ := cut_append order [] a ((Nat.zero_le _).trans_lt few)
      exact ⟨rest, [], same, List.nodup_singleton a, by simp⟩
    | append_singleton ops op ih =>
      rw [List.mem_append, not_or, List.mem_singleton] at kept
      have fewer : ((noted ops).toFinset.erase a).card < capacity := by
        refine (Finset.card_le_card (Finset.erase_subset_erase a ?_)).trans_lt few
        rw [noted_snoc, List.toFinset_append]
        exact Finset.subset_union_left
      rw [run_snoc]
      exact (ih kept.1 fewer).step (fun b same other => kept.2 (other ▸ same.symm)) few
  obtain ⟨older, newer, same, -⟩ := behind
  rw [same]
  exact List.mem_append_right older List.mem_cons_self

end Recency

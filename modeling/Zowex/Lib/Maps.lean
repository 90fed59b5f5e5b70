import Mathlib.Data.List.TakeWhile
import Mathlib.Tactic

/-! Maps that differ in one entry. -/

namespace Maps

open Std

variable {κ β : Type*} {cmp : κ → κ → Ordering} [TransCmp cmp] [LawfulEqCmp cmp]
  {m : ExtTreeMap κ β cmp} {a b : κ} {x y : β}

theorem getElem?_insert_ne (h : a ≠ b) : (m.insert a x)[b]? = m[b]? := by
  rw [ExtTreeMap.getElem?_insert, if_neg (fun he => h (LawfulEqCmp.compare_eq_iff_eq.mp he))]

theorem getElem?_erase_ne (h : a ≠ b) : (m.erase a)[b]? = m[b]? := by
  rw [ExtTreeMap.getElem?_erase, if_neg (fun he => h (LawfulEqCmp.compare_eq_iff_eq.mp he))]

theorem insert_insert_self : (m.insert a x).insert a y = m.insert a y := by
  apply ExtTreeMap.ext_getElem?
  intro k
  by_cases h : a = k
  · subst h
    rw [ExtTreeMap.getElem?_insert_self, ExtTreeMap.getElem?_insert_self]
  · rw [getElem?_insert_ne h, getElem?_insert_ne h, getElem?_insert_ne h]

theorem insert_comm (h : a ≠ b) : (m.insert a x).insert b y = (m.insert b y).insert a x := by
  apply ExtTreeMap.ext_getElem?
  intro k
  by_cases hb : b = k
  · subst hb
    rw [ExtTreeMap.getElem?_insert_self, getElem?_insert_ne h, ExtTreeMap.getElem?_insert_self]
  · rw [getElem?_insert_ne hb]
    by_cases ha : a = k
    · subst ha
      rw [ExtTreeMap.getElem?_insert_self, ExtTreeMap.getElem?_insert_self]
    · rw [getElem?_insert_ne ha, getElem?_insert_ne ha, getElem?_insert_ne hb]

theorem erase_insert_self : (m.insert a x).erase a = m.erase a := by
  apply ExtTreeMap.ext_getElem?
  intro k
  by_cases h : a = k
  · subst h
    rw [ExtTreeMap.getElem?_erase_self, ExtTreeMap.getElem?_erase_self]
  · rw [getElem?_erase_ne h, getElem?_erase_ne h, getElem?_insert_ne h]

theorem erase_insert_comm (h : a ≠ b) : (m.insert a x).erase b = (m.erase b).insert a x := by
  apply ExtTreeMap.ext_getElem?
  intro k
  by_cases hb : b = k
  · subst hb
    rw [ExtTreeMap.getElem?_erase_self, getElem?_insert_ne h, ExtTreeMap.getElem?_erase_self]
  · rw [getElem?_erase_ne hb]
    by_cases ha : a = k
    · subst ha
      rw [ExtTreeMap.getElem?_insert_self, ExtTreeMap.getElem?_insert_self]
    · rw [getElem?_insert_ne ha, getElem?_insert_ne ha, getElem?_erase_ne hb]

theorem erase_of_getElem?_none (h : m[a]? = none) : m.erase a = m := by
  apply ExtTreeMap.ext_getElem?
  intro k
  by_cases hk : a = k
  · subst hk
    rw [ExtTreeMap.getElem?_erase_self, h]
  · rw [getElem?_erase_ne hk]

theorem insert_of_getElem?_some (h : m[a]? = some x) : m.insert a x = m := by
  apply ExtTreeMap.ext_getElem?
  intro k
  by_cases hk : a = k
  · subst hk
    rw [ExtTreeMap.getElem?_insert_self, h]
  · rw [getElem?_insert_ne hk]

/-- Entries written one after the other, each under the key that `f` makes of its own. -/
def write_all (f : κ → κ) (m : ExtTreeMap κ β cmp) (entries : List (κ × β)) :
    ExtTreeMap κ β cmp :=
  entries.foldl (fun m e => m.insert (f e.1) e.2) m

/-- Of the entries that go under one key the last one stays. -/
theorem getElem?_write_all [DecidableEq κ] (f : κ → κ) (entries : List (κ × β)) (k : κ) :
    (write_all f m entries)[k]? =
      ((entries.reverse.find? fun e => f e.1 = k).map Prod.snd).or m[k]? := by
  induction entries using List.reverseRecOn with
  | nil => rfl
  | append_singleton entries e ih =>
    have last : write_all f m (entries ++ [e]) = (write_all f m entries).insert (f e.1) e.2 := by
      simp only [write_all, List.foldl_append, List.foldl_cons, List.foldl_nil]
    rw [last, List.reverse_concat, List.find?_cons]
    by_cases same : f e.1 = k
    · simp [same]
    · rw [getElem?_insert_ne same, ih]
      simp [same]

theorem find_of_mem [DecidableEq κ] {entries : List (κ × β)}
    (names : (entries.map Prod.fst).Nodup) {e : κ × β} (h : e ∈ entries) :
    entries.find? (fun q => q.1 = e.1) = some e := by
  induction entries with
  | nil => exact absurd h List.not_mem_nil
  | cons q entries ih =>
    rw [List.map_cons, List.nodup_cons] at names
    rcases List.mem_cons.mp h with rfl | h
    · simp
    · have other : q.1 ≠ e.1 := fun same => names.1 (same ▸ List.mem_map_of_mem h)
      rw [List.find?_cons_of_neg (by simpa using other)]
      exact ih names.2 h

/-- With distinct keys the direction of a search does not matter. -/
theorem find_reverse [DecidableEq κ] {entries : List (κ × β)}
    (names : (entries.map Prod.fst).Nodup) (k : κ) :
    (entries.reverse.find? fun q => q.1 = k) = entries.find? fun q => q.1 = k := by
  have reverse_names : (entries.reverse.map Prod.fst).Nodup := by
    rwa [List.map_reverse, List.nodup_reverse]
  cases here : entries.find? fun q => q.1 = k with
  | none => simpa using here
  | some e =>
    have same : e.1 = k := by simpa using List.find?_some here
    subst same
    exact find_of_mem reverse_names (List.mem_reverse.mpr (List.mem_of_find?_eq_some here))

/-! A map as the list of its entries. -/

theorem map_insert {γ : Type*} (g : κ → β → γ) :
    (m.insert a x).map g = (m.map g).insert a (g a x) := by
  apply ExtTreeMap.ext_getElem?
  intro k
  rw [ExtTreeMap.getElem?_map]
  by_cases same : a = k
  · subst same
    rw [ExtTreeMap.getElem?_insert_self, ExtTreeMap.getElem?_insert_self]
    rfl
  · rw [getElem?_insert_ne same, getElem?_insert_ne same, ExtTreeMap.getElem?_map]

theorem toList_keys_nodup : (m.toList.map Prod.fst).Nodup := by
  have distinct := ExtTreeMap.distinct_keys_toList (t := m)
  exact List.pairwise_map.mpr (distinct.imp fun h same => h (by simp [same]))

/-- The entries before and after one of them have other keys. -/
theorem split_at_key [DecidableEq κ] {entries : List (κ × β)} (names : (entries.map Prod.fst).Nodup)
    (inside : (a, x) ∈ entries) :
    ∃ after, entries = entries.takeWhile (fun e => e.1 ≠ a) ++ (a, x) :: after ∧
      ∀ e ∈ after, e.1 ≠ a := by
  induction entries with
  | nil => exact absurd inside List.not_mem_nil
  | cons e entries ih =>
    rw [List.map_cons, List.nodup_cons] at names
    by_cases same : e.1 = a
    · have here : (a, x) = e := by
        rcases List.mem_cons.mp inside with here | later
        · exact here
        · exact absurd (List.mem_map_of_mem (f := Prod.fst) later) (same ▸ names.1)
      subst here
      refine ⟨entries, by simp, fun e he again => names.1 ?_⟩
      have inside := List.mem_map_of_mem (f := Prod.fst) he
      rwa [again] at inside
    · have later : (a, x) ∈ entries := by
        rcases List.mem_cons.mp inside with here | later
        · exact absurd (congrArg Prod.fst here).symm same
        · exact later
      obtain ⟨after, shape, other⟩ := ih names.2 later
      refine ⟨after, ?_, other⟩
      rw [List.takeWhile_cons_of_pos (by simpa using same), List.cons_append, ← shape]

/-- An entry that is written again stays where it is. -/
theorem toList_split [DecidableEq κ] (h : m[a]? = some x) :
    ∃ after, m.toList = m.toList.takeWhile (fun e => e.1 ≠ a) ++ (a, x) :: after ∧
      (∀ e ∈ after, e.1 ≠ a) ∧
      ∀ y, (m.insert a y).toList = m.toList.takeWhile (fun e => e.1 ≠ a) ++ (a, y) :: after := by
  obtain ⟨after, shape, other⟩ := split_at_key (toList_keys_nodup (m := m))
    (ExtTreeMap.mem_toList_iff_getElem?_eq_some.mpr h)
  refine ⟨after, shape, other, fun y => ?_⟩
  have rewritten : m.insert a y = m.map fun k v => if k = a then y else v := by
    apply ExtTreeMap.ext_getElem?
    intro k
    rw [ExtTreeMap.getElem?_map]
    by_cases same : a = k
    · subst same
      rw [ExtTreeMap.getElem?_insert_self, h]
      simp
    · rw [getElem?_insert_ne same]
      have differs : k ≠ a := fun h => same h.symm
      simp [differs]
  have kept {entries : List (κ × β)} (differ : ∀ e ∈ entries, e.1 ≠ a) :
      entries.map (fun e => (e.1, if e.1 = a then y else e.2)) = entries := by
    conv_rhs => rw [← List.map_id entries]
    exact List.map_congr_left fun e he => by rw [if_neg (differ e he)]; rfl
  have before : ∀ e ∈ m.toList.takeWhile (fun e => e.1 ≠ a), e.1 ≠ a := fun e he => by
    simpa using List.mem_takeWhile_imp he
  rw [rewritten, ExtTreeMap.toList_map]
  conv_lhs => rw [shape]
  rw [List.map_append, List.map_cons, kept before, kept other, if_pos rfl]

theorem write_all_toList [DecidableEq κ] : write_all id ∅ m.toList = m := by
  apply ExtTreeMap.ext_getElem?
  intro k
  rw [getElem?_write_all, ExtTreeMap.getElem?_empty, Option.or_none]
  have names := toList_keys_nodup (m := m)
  simp only [id]
  rw [find_reverse names]
  cases here : m[k]? with
  | none =>
    rw [Option.map_eq_none_iff, List.find?_eq_none]
    intro e he
    have value := ExtTreeMap.mem_toList_iff_getElem?_eq_some.mp (show (e.1, e.2) ∈ m.toList from he)
    intro same
    rw [of_decide_eq_true same, here] at value
    cases value
  | some v =>
    have inside := ExtTreeMap.mem_toList_iff_getElem?_eq_some.mpr here
    rw [find_of_mem names inside]
    rfl

/-- An entry with another key can be written first or last. -/
theorem write_all_insert {entries : List (κ × β)} (h : a ∉ entries.map Prod.fst) :
    write_all id (m.insert a x) entries = (write_all id m entries).insert a x := by
  induction entries generalizing m with
  | nil => rfl
  | cons e entries ih =>
    rw [List.map_cons, List.mem_cons, not_or] at h
    have moved : (m.insert a x).insert e.1 e.2 = (m.insert e.1 e.2).insert a x := insert_comm h.1
    calc write_all id (m.insert a x) (e :: entries)
        = write_all id ((m.insert a x).insert e.1 e.2) entries := rfl
      _ = write_all id ((m.insert e.1 e.2).insert a x) entries := by rw [moved]
      _ = (write_all id (m.insert e.1 e.2) entries).insert a x := ih h.2

end Maps

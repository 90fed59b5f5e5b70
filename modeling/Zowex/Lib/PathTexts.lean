import Mathlib.Data.List.DropRight
import Zowex.Lib.Inodes

/-! The texts of paths: what stands between their slashes, and the text before the last one. -/

namespace PathTexts

open Inodes

variable {α : Type} {slash dot : α}

/-- A text that may be the name of an object. -/
structure Plain (slash dot : α) (text : List α) : Prop where
  slash : slash ∉ text
  ne_nil : text ≠ []
  ne_dot : text ≠ [dot]
  ne_dotdot : text ≠ [dot, dot]

theorem plain_iff {text : List α} : Plain slash dot text ↔
    slash ∉ text ∧ text ≠ [] ∧ text ≠ [dot] ∧ text ≠ [dot, dot] :=
  ⟨fun h => ⟨h.slash, h.ne_nil, h.ne_dot, h.ne_dotdot⟩, fun h => ⟨h.1, h.2.1, h.2.2.1, h.2.2.2⟩⟩

variable [DecidableEq α]

instance (text : List α) : Decidable (Plain slash dot text) := decidable_of_iff' _ plain_iff

def FileName (slash dot : α) : Type := { text : List α // Plain slash dot text }

instance : DecidableEq (FileName slash dot) := inferInstanceAs (DecidableEq (Subtype _))

def part (slash dot : α) (text : List α) : Component (FileName slash dot) :=
  if h : Plain slash dot text then .name ⟨text, h⟩
  else if text = [dot] then .dot
  else if text = [dot, dot] then .dotdot
  else .nothing

def path (slash dot : α) (text : List α) : Path (FileName slash dot) where
  absolute := text.head? = some slash
  parts := (text.splitOn slash).map (part slash dot)

/-- `text.substr(0, text.find_last_of("/"))` of a text that has a slash. -/
def before_last (slash : α) (text : List α) : List α := (text.rdropWhile (· ≠ slash)).dropLast

theorem part_name (name : FileName slash dot) : part slash dot name.val = .name name :=
  dif_pos name.property

theorem part_nil : part slash dot [] = .nothing := by
  rw [part, dif_neg fun h => h.ne_nil rfl, if_neg (by simp), if_neg (by simp)]

theorem part_ne_nothing {text : List α} (hslash : slash ∉ text) (hne : text ≠ []) :
    part slash dot text ≠ .nothing := by
  rw [part]
  split_ifs with hplain hdot hdotdot
  · simp
  · simp
  · simp
  · exact fun _ => hplain ⟨hslash, hne, hdot, hdotdot⟩

theorem part_eq_name {text : List α} {name : FileName slash dot} :
    part slash dot text = .name name ↔ text = name.val := by
  constructor
  · intro h
    rw [part] at h
    split_ifs at h with hplain
    exact congrArg Subtype.val (Component.name.inj h)
  · rintro rfl
    exact part_name name

theorem path_append {text more : List α} : path slash dot (text ++ slash :: more) =
    ⟨(path slash dot (text ++ [slash])).absolute,
      (path slash dot text).parts ++ (path slash dot more).parts⟩ := by
  rw [path, path, path, path, List.splitOn_append_cons_self, List.map_append]
  cases text <;> rfl

theorem path_slash_free {name : List α} (hname : slash ∉ name) :
    (path slash dot name).parts = [part slash dot name] := by
  rw [path, List.splitOn_eq_singleton hname, List.map_singleton]

theorem before_last_append {text name : List α} (hname : slash ∉ name) :
    before_last slash (text ++ slash :: name) = text := by
  have hall : ∀ c ∈ name.reverse, decide (c ≠ slash) = true := by
    intro c hc
    exact decide_eq_true fun heq => hname (heq ▸ List.mem_reverse.mp hc)
  rw [before_last, List.rdropWhile, List.reverse_append, List.reverse_cons, List.append_assoc,
    List.dropWhile_append_of_pos hall]
  simp

omit [DecidableEq α] in
/-- A text with a slash, at its last one. -/
theorem exists_last_slash {text : List α} (h : slash ∈ text) :
    ∃ before name, text = before ++ slash :: name ∧ slash ∉ name := by
  obtain ⟨name, before, hsplit, hname⟩ := List.eq_append_cons_of_mem (List.mem_reverse.mpr h)
  refine ⟨before.reverse, name.reverse, ?_, mt List.mem_reverse.mp hname⟩
  rw [← List.reverse_reverse text, hsplit]
  simp

/-- The text of names with a slash between any two of them. -/
def render (slash : α) (absolute : Bool) (names : List (List α)) : List α :=
  (if absolute then [slash] else []) ++ [slash].intercalate names

omit [DecidableEq α] in
theorem intercalate_concat {names : List (List α)} (hne : names ≠ []) (name : List α) :
    [slash].intercalate (names ++ [name]) = [slash].intercalate names ++ slash :: name := by
  induction names with
  | nil => exact absurd rfl hne
  | cons first names ih =>
    cases names with
    | nil => simp [List.intercalate_cons_cons]
    | cons second names =>
      rw [List.cons_append, List.cons_append, List.intercalate_cons_cons,
        List.intercalate_cons_cons, ← List.cons_append, ih (List.cons_ne_nil _ _)]
      simp

omit [DecidableEq α] in
theorem render_concat (absolute : Bool) {names : List (List α)} (hne : names ≠ [])
    (name : List α) :
    render slash absolute (names ++ [name]) = render slash absolute names ++ slash :: name := by
  rw [render, render, intercalate_concat hne, List.append_assoc]

omit [DecidableEq α] in
theorem intercalate_cons {first : List α} {more : List (List α)} :
    ∃ rest, [slash].intercalate (first :: more) = first ++ rest := by
  cases more with
  | nil => exact ⟨[], by simp⟩
  | cons second more =>
    rw [List.intercalate_cons_cons]
    exact ⟨_, List.append_assoc _ _ _⟩

omit [DecidableEq α] in
theorem render_ne_nil {absolute : Bool} {names : List (List α)} (hne : names ≠ [])
    (hnil : ∀ name ∈ names, name ≠ []) : render slash absolute names ≠ [] := by
  obtain ⟨first, more, rfl⟩ := List.exists_cons_of_ne_nil hne
  obtain ⟨rest, hrest⟩ := @intercalate_cons α slash first more
  rw [render, hrest]
  simp [hnil first List.mem_cons_self]

theorem path_render {absolute : Bool} {names : List (List α)} (hne : names ≠ [])
    (hnil : ∀ name ∈ names, name ≠ []) (hslash : ∀ name ∈ names, slash ∉ name) :
    path slash dot (render slash absolute names) =
      ⟨absolute, (if absolute then [Component.nothing] else []) ++
        names.map (part slash dot)⟩ := by
  have hsplit : ([slash].intercalate names).splitOn slash = names :=
    List.splitOn_intercalate slash hslash hne
  cases absolute with
  | true =>
    have hparts : (slash :: [slash].intercalate names).splitOn slash = [] :: names := by
      have happend := List.splitOn_append_cons_self (a := slash) [] ([slash].intercalate names)
      simpa [hsplit] using happend
    rw [path, render, if_pos rfl, List.singleton_append, hparts]
    simp [part_nil]
  | false =>
    obtain ⟨first, more, rfl⟩ := List.exists_cons_of_ne_nil hne
    have hfirst := hnil first List.mem_cons_self
    have hhead : ([slash].intercalate (first :: more)).head? ≠ some slash := by
      obtain ⟨rest, hrest⟩ := @intercalate_cons α slash first more
      rw [hrest, List.head?_append_of_ne_nil _ hfirst]
      exact fun hhead => hslash first List.mem_cons_self (List.mem_of_mem_head? hhead)
    rw [path, render, if_neg Bool.false_ne_true, List.nil_append, hsplit]
    simp [hhead]

end PathTexts

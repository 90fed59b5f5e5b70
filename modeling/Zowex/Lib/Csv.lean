import Mathlib.Algebra.BigOperators.Group.List.Basic
import Mathlib.Tactic

/-! Records of comma-separated fields. A field is bare, without commas and quotes, or between
quotes, where a quote is written twice. -/

namespace Csv

variable {α : Type*} [DecidableEq α]

inductive State
  /-- Nothing of the field is read. -/
  | start
  | bare
  | quoted
  /-- After a quote in a quoted field. -/
  | closed
  deriving DecidableEq

/-- The fields of a record, the first of which begins as given; none for what is no record. -/
def fields (comma quote : α) : State → List α → List α → Option (List (List α))
  | .quoted, _, [] => none
  | _, field, [] => some [field]
  | .start, field, c :: rest =>
    if c = comma then (fields comma quote .start [] rest).map (field :: ·)
    else if c = quote then fields comma quote .quoted field rest
    else fields comma quote .bare (field ++ [c]) rest
  | .bare, field, c :: rest =>
    if c = comma then (fields comma quote .start [] rest).map (field :: ·)
    else if c = quote then none
    else fields comma quote .bare (field ++ [c]) rest
  | .quoted, field, c :: rest =>
    if c = quote then fields comma quote .closed field rest
    else fields comma quote .quoted (field ++ [c]) rest
  | .closed, field, c :: rest =>
    if c = comma then (fields comma quote .start [] rest).map (field :: ·)
    else if c = quote then fields comma quote .quoted (field ++ [c]) rest
    else none

def read (comma quote : α) (record : List α) : Option (List (List α)) :=
  fields comma quote .start [] record

/-- The characters of the fields, and one for each field. -/
def size (values : List (List α)) : ℕ :=
  (values.map fun value => value.length + 1).sum

/-- Fields that need no quotes. -/
def Bare (comma quote : α) (value : List α) : Prop :=
  comma ∉ value ∧ quote ∉ value

variable {comma quote : α} {state : State} {field record : List α} {values : List (List α)}

omit [DecidableEq α] in
@[simp] theorem size_cons (value : List α) :
    size (value :: values) = value.length + 1 + size values := by
  simp [size]

/-! What a record is read as is no longer than the record, and shorter where there is a quote. -/

/-- How much longer the values of a record can be than what is left of it. -/
def State.slack : State → ℕ
  | .quoted => 0
  | _ => 1

theorem size_fields (h : fields comma quote state field record = some values) :
    size values ≤ field.length + record.length + state.slack := by
  induction record generalizing state field values with
  | nil =>
    cases state <;> simp [fields] at h <;> simp [← h, size, State.slack]
  | cons c rest ih =>
    have hcomma : ∀ {values}, (fields comma quote .start [] rest).map (field :: ·) = some values →
        size values ≤ field.length + rest.length + 2 := by
      intro values hvalues
      obtain ⟨more, hmore, rfl⟩ := Option.map_eq_some_iff.mp hvalues
      have hsize := ih hmore
      simp only [List.length_nil, State.slack] at hsize
      rw [size_cons]
      omega
    rw [List.length_cons]
    cases state with
    | start =>
      rw [fields] at h
      by_cases hc : c = comma
      · rw [if_pos hc] at h
        exact hcomma h
      by_cases hq : c = quote
      · rw [if_neg hc, if_pos hq] at h
        have hsize := ih h
        simp only [State.slack] at hsize ⊢
        omega
      · rw [if_neg hc, if_neg hq] at h
        have hsize := ih h
        simp only [List.length_append, List.length_singleton, State.slack] at hsize ⊢
        omega
    | bare =>
      rw [fields] at h
      by_cases hc : c = comma
      · rw [if_pos hc] at h
        exact hcomma h
      by_cases hq : c = quote
      · rw [if_neg hc, if_pos hq] at h
        cases h
      · rw [if_neg hc, if_neg hq] at h
        have hsize := ih h
        simp only [List.length_append, List.length_singleton, State.slack] at hsize ⊢
        omega
    | quoted =>
      rw [fields] at h
      by_cases hq : c = quote
      · rw [if_pos hq] at h
        have hsize := ih h
        simp only [State.slack] at hsize ⊢
        omega
      · rw [if_neg hq] at h
        have hsize := ih h
        simp only [List.length_append, List.length_singleton, State.slack] at hsize ⊢
        omega
    | closed =>
      rw [fields] at h
      by_cases hc : c = comma
      · rw [if_pos hc] at h
        exact hcomma h
      by_cases hq : c = quote
      · rw [if_neg hc, if_pos hq] at h
        have hsize := ih h
        simp only [List.length_append, List.length_singleton, State.slack] at hsize ⊢
        omega
      · rw [if_neg hc, if_neg hq] at h
        cases h

/-- Outside of quotes. -/
def State.Open (state : State) : Prop :=
  state = .start ∨ state = .bare

/-- Outside of quotes, a character that is neither a comma nor a quote is one of the field. -/
theorem fields_char (hstate : state.Open) {c : α} (hc : c ≠ comma) (hq : c ≠ quote) :
    fields comma quote state field (c :: record) =
      fields comma quote .bare (field ++ [c]) record := by
  rcases hstate with rfl | rfl
  · rw [fields, if_neg hc, if_neg hq]
  · rw [fields, if_neg hc, if_neg hq]

theorem fields_comma (hstate : state.Open) :
    fields comma quote state field (comma :: record) =
      (read comma quote record).map (field :: ·) := by
  rcases hstate with rfl | rfl
  · rw [fields, if_pos rfl, read]
  · rw [fields, if_pos rfl, read]

/-- A quote is lost. -/
theorem size_lt_of_quote (hstate : state.Open) (hquote : quote ∈ record)
    (hne : comma ≠ quote) (h : fields comma quote state field record = some values) :
    size values < field.length + record.length + 1 := by
  induction record generalizing state field values with
  | nil => cases hquote
  | cons c rest ih =>
    rw [List.length_cons]
    by_cases hc : c = comma
    · subst hc
      rw [fields_comma hstate] at h
      obtain ⟨more, hmore, rfl⟩ := Option.map_eq_some_iff.mp h
      have hrest := ih (.inl rfl) (List.mem_of_ne_of_mem hne.symm hquote) hmore
      rw [size_cons]
      rw [List.length_nil] at hrest
      omega
    by_cases hq : c = quote
    · rcases hstate with rfl | rfl
      · rw [fields, if_neg hc, if_pos hq] at h
        have hsize := size_fields h
        simp only [State.slack] at hsize
        omega
      · rw [fields, if_neg hc, if_pos hq] at h
        cases h
    · rw [fields_char hstate hc hq] at h
      have hrest := ih (.inr rfl) (List.mem_of_ne_of_mem (Ne.symm hq) hquote) h
      rw [List.length_append, List.length_singleton] at hrest
      omega

/-- Without quotes there is a field more than there are commas. -/
theorem length_fields (hstate : state.Open) (hquote : quote ∉ record)
    (h : fields comma quote state field record = some values) :
    values.length = record.count comma + 1 := by
  induction record generalizing state field values with
  | nil =>
    rcases hstate with rfl | rfl <;> simp [fields] at h <;> simp [← h]
  | cons c rest ih =>
    rw [List.mem_cons, not_or] at hquote
    by_cases hc : c = comma
    · subst hc
      rw [fields_comma hstate] at h
      obtain ⟨more, hmore, rfl⟩ := Option.map_eq_some_iff.mp h
      rw [List.length_cons, ih (.inl rfl) hquote.2 hmore, List.count_cons_self]
    · rw [fields_char hstate hc (Ne.symm hquote.1)] at h
      rw [ih (.inr rfl) hquote.2 h, List.count_cons_of_ne (Ne.symm (Ne.symm hc))]

/-! Fields that are joined as they are. -/

/-- The fields with commas between them. -/
def join (comma : α) (values : List (List α)) : List α :=
  [comma].intercalate values

omit [DecidableEq α] in
theorem join_singleton (value : List α) : join comma [value] = value := by
  simp [join, List.intercalate]

omit [DecidableEq α] in
theorem join_cons {value : List α} (h : values ≠ []) :
    join comma (value :: values) = value ++ comma :: join comma values := by
  rcases values with _ | ⟨next, values⟩
  · exact absurd rfl h
  · simp [join, List.intercalate]

omit [DecidableEq α] in
theorem length_join (h : values ≠ []) : (join comma values).length + 1 = size values := by
  induction values with
  | nil => exact absurd rfl h
  | cons value values ih =>
    by_cases hnil : values = []
    · subst hnil
      simp [join_singleton, size]
    · have hrest := ih hnil
      rw [join_cons hnil, size_cons, List.length_append, List.length_cons]
      omega

theorem count_join (h : values ≠ []) : (join comma values).count comma + 1 =
    (values.map (List.count comma)).sum + values.length := by
  induction values with
  | nil => exact absurd rfl h
  | cons value values ih =>
    by_cases hnil : values = []
    · subst hnil
      simp [join_singleton]
    · have hrest := ih hnil
      rw [join_cons hnil, List.count_append, List.count_cons_self, List.map_cons, List.sum_cons,
        List.length_cons]
      omega

omit [DecidableEq α] in
theorem mem_join {c : α} {value : List α} (hvalue : value ∈ values) (hc : c ∈ value) :
    c ∈ join comma values := by
  induction values with
  | nil => cases hvalue
  | cons first values ih =>
    by_cases hnil : values = []
    · subst hnil
      rw [List.mem_singleton] at hvalue
      rw [join_singleton, ← hvalue]
      exact hc
    · rw [join_cons hnil, List.mem_append, List.mem_cons]
      rcases List.mem_cons.mp hvalue with rfl | hmem
      · exact .inl hc
      · exact .inr (.inr (ih hmem))

/-- A bare field is read up to its end. -/
theorem fields_append {value : List α} (hbare : Bare comma quote value) (hstate : state.Open) :
    fields comma quote state field value = some [field ++ value] ∧
      fields comma quote state field (value ++ comma :: record) =
        (read comma quote record).map ((field ++ value) :: ·) := by
  induction value generalizing state field with
  | nil =>
    rw [List.nil_append, List.append_nil]
    refine ⟨?_, fields_comma hstate⟩
    rcases hstate with rfl | rfl <;> rfl
  | cons c value ih =>
    obtain ⟨hcomma, hquote⟩ := hbare
    rw [List.mem_cons, not_or] at hcomma hquote
    obtain ⟨hlast, hmore⟩ := @ih _ (field ++ [c]) ⟨hcomma.2, hquote.2⟩ (.inr rfl)
    rw [List.cons_append, fields_char hstate (Ne.symm hcomma.1) (Ne.symm hquote.1),
      fields_char hstate (Ne.symm hcomma.1) (Ne.symm hquote.1)]
    rw [List.append_assoc, List.singleton_append] at hlast hmore
    exact ⟨hlast, hmore⟩

theorem read_join_of_bare (hne : values ≠ []) (h : ∀ value ∈ values, Bare comma quote value) :
    read comma quote (join comma values) = some values := by
  induction values with
  | nil => exact absurd rfl hne
  | cons value values ih =>
    have hbare := h value List.mem_cons_self
    by_cases hnil : values = []
    · subst hnil
      rw [join_singleton]
      exact (@fields_append _ _ comma quote .start [] [] value hbare (.inl rfl)).1
    · rw [join_cons hnil, read, (fields_append hbare (.inl rfl)).2,
        ih hnil fun value hmem => h value (List.mem_cons_of_mem _ hmem)]
      rfl

/-- Fields that are joined as they are are read back if and only if they need no quotes. -/
theorem read_join_iff (hne : comma ≠ quote) : read comma quote (join comma values) = some values ↔
    values ≠ [] ∧ ∀ value ∈ values, Bare comma quote value := by
  constructor
  · intro h
    have hnil : values ≠ [] := by
      rintro rfl
      cases h
    have hlength := @length_join _ comma _ hnil
    have hquote : quote ∉ join comma values := by
      intro hmem
      have hlt := size_lt_of_quote (.inl rfl) hmem hne h
      rw [List.length_nil] at hlt
      omega
    have hcount := length_fields (.inl rfl) hquote h
    rw [count_join hnil] at hcount
    have hzero : (values.map (List.count comma)).sum = 0 := by omega
    refine ⟨hnil, fun value hvalue => ⟨?_, fun hmem => hquote (mem_join hvalue hmem)⟩⟩
    have hnone := (List.sum_eq_zero_iff.mp hzero) _ (List.mem_map_of_mem hvalue)
    exact List.count_eq_zero.mp hnone
  · rintro ⟨hnil, hbare⟩
    exact read_join_of_bare hnil hbare

end Csv

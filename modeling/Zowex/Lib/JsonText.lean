import Mathlib.Data.List.Infix
import Mathlib.Tactic

/-! Compact JSON texts over an alphabet of characters. A text is read as lexemes: each string as a
whole, and the characters outside of strings one by one. -/

namespace JsonText

inductive Mark
  | open_object
  | close_object
  | open_array
  | close_array
  | comma
  | colon
  deriving DecidableEq

/-- The characters with a meaning of their own, and those that only separate. -/
structure Alphabet (α : Type*) where
  quote : α
  escape : α
  mark : Mark → α
  white : α → Bool
  escape_ne_quote : escape ≠ quote
  mark_ne_quote : ∀ m, mark m ≠ quote
  mark_ne_escape : ∀ m, mark m ≠ escape
  mark_injective : Function.Injective mark
  white_plain : ∀ c, white c = true → c ≠ quote ∧ c ≠ escape ∧ ∀ m, c ≠ mark m

variable {α : Type*} (abc : Alphabet α)

/-- What stands between the quotes of a string: any quote in it is escaped. -/
inductive Body : List α → Prop
  | nil : Body []
  | char {c : α} {body : List α} :
      c ≠ abc.quote → c ≠ abc.escape → Body body → Body (c :: body)
  | escaped (c : α) {body : List α} : Body body → Body (abc.escape :: c :: body)

structure Literal where
  body : List α
  closed : Body abc body

/-- A character that stands for itself outside of strings. -/
structure Plain where
  char : α
  ne_quote : char ≠ abc.quote
  ne_escape : char ≠ abc.escape
  ne_mark : ∀ m, char ≠ abc.mark m

inductive Lexeme
  | mark (m : Mark)
  | plain (c : Plain abc)
  | string (value : Literal abc)

/-- A number, or one of the three names. -/
structure Scalar where
  text : List (Plain abc)
  nonempty : text ≠ []
  black : ∀ c ∈ text, abc.white c.char = false

inductive Json
  | scalar (value : Scalar abc)
  | string (value : Literal abc)
  | array (items : List Json)
  | object (fields : List (Literal abc × Json))

namespace Json

variable {abc}

mutual

def lexemes : Json abc → List (Lexeme abc)
  | scalar value => value.text.map Lexeme.plain
  | string value => [.string value]
  | array items =>
    .mark .open_array :: ([Lexeme.mark .comma].intercalate (item_lexemes items) ++
      [.mark .close_array])
  | object fields =>
    .mark .open_object :: ([Lexeme.mark .comma].intercalate (field_lexemes fields) ++
      [.mark .close_object])

def item_lexemes : List (Json abc) → List (List (Lexeme abc))
  | [] => []
  | item :: items => item.lexemes :: item_lexemes items

def field_lexemes : List (Literal abc × Json abc) → List (List (Lexeme abc))
  | [] => []
  | (name, value) :: fields =>
    (.string name :: .mark .colon :: value.lexemes) :: field_lexemes fields

end

mutual

/-- What holds of an array or an object where it holds of its elements. -/
theorem all_of {P : Json abc → Prop} (scalar : ∀ value, P (.scalar value))
    (string : ∀ value, P (.string value))
    (array : ∀ items, (∀ item ∈ items, P item) → P (.array items))
    (object : ∀ fields : List (Literal abc × Json abc),
      (∀ field ∈ fields, P field.2) → P (.object fields)) :
    ∀ json, P json
  | .scalar value => scalar value
  | .string value => string value
  | .array items => array items (all_items scalar string array object items)
  | .object fields => object fields (all_fields scalar string array object fields)

theorem all_items {P : Json abc → Prop} (scalar : ∀ value, P (.scalar value))
    (string : ∀ value, P (.string value))
    (array : ∀ items, (∀ item ∈ items, P item) → P (.array items))
    (object : ∀ fields : List (Literal abc × Json abc),
      (∀ field ∈ fields, P field.2) → P (.object fields)) :
    ∀ items : List (Json abc), ∀ item ∈ items, P item
  | [] => fun _ h => absurd h List.not_mem_nil
  | item :: items => List.forall_mem_cons.mpr
      ⟨all_of scalar string array object item, all_items scalar string array object items⟩

theorem all_fields {P : Json abc → Prop} (scalar : ∀ value, P (.scalar value))
    (string : ∀ value, P (.string value))
    (array : ∀ items, (∀ item ∈ items, P item) → P (.array items))
    (object : ∀ fields : List (Literal abc × Json abc),
      (∀ field ∈ fields, P field.2) → P (.object fields)) :
    ∀ fields : List (Literal abc × Json abc), ∀ field ∈ fields, P field.2
  | [] => fun _ h => absurd h List.not_mem_nil
  | (_, value) :: fields => List.forall_mem_cons.mpr
      ⟨all_of scalar string array object value, all_fields scalar string array object fields⟩

end

theorem item_lexemes_eq (items : List (Json abc)) :
    item_lexemes items = items.map lexemes := by
  induction items with
  | nil => rfl
  | cons item items ih => rw [item_lexemes, ih, List.map_cons]

theorem field_lexemes_eq (fields : List (Literal abc × Json abc)) :
    field_lexemes fields =
      fields.map fun field => .string field.1 :: .mark .colon :: field.2.lexemes := by
  induction fields with
  | nil => rfl
  | cons field fields ih => rw [field_lexemes, ih, List.map_cons]

/-- What holds of the lexemes of every value, since it holds of those that are put together. -/
theorem lexemes_of {P : List (Lexeme abc) → Prop}
    (scalar : ∀ value : Scalar abc, P (value.text.map Lexeme.plain))
    (string : ∀ value, P [.string value])
    (array : ∀ parts, (∀ part ∈ parts, P part) →
      P (.mark .open_array :: ([Lexeme.mark .comma].intercalate parts ++ [.mark .close_array])))
    (object : ∀ parts, (∀ part ∈ parts, P part) →
      P (.mark .open_object :: ([Lexeme.mark .comma].intercalate parts ++ [.mark .close_object])))
    (field : ∀ name value, P value → P (.string name :: .mark .colon :: value))
    (json : Json abc) : P json.lexemes := by
  induction json using all_of with
  | scalar value => exact scalar value
  | string value => exact string value
  | array items ih =>
    rw [lexemes, item_lexemes_eq]
    apply array
    intro part h
    obtain ⟨item, hitem, rfl⟩ := List.mem_map.mp h
    exact ih item hitem
  | object fields ih =>
    rw [lexemes, field_lexemes_eq]
    apply object
    intro part h
    obtain ⟨⟨name, value⟩, hfield, rfl⟩ := List.mem_map.mp h
    exact field name _ (ih _ hfield)

end Json

variable {abc}

def Lexeme.text : Lexeme abc → List α
  | .mark m => [abc.mark m]
  | .plain c => [c.char]
  | .string value => abc.quote :: (value.body ++ [abc.quote])

def text (lexemes : List (Lexeme abc)) : List α := lexemes.flatMap Lexeme.text

def Json.render (json : Json abc) : List α := text json.lexemes

@[simp] theorem text_nil : text ([] : List (Lexeme abc)) = [] := rfl

@[simp] theorem text_cons (lexeme : Lexeme abc) (lexemes : List (Lexeme abc)) :
    text (lexeme :: lexemes) = lexeme.text ++ text lexemes := rfl

@[simp] theorem text_append (some_lexemes more : List (Lexeme abc)) :
    text (some_lexemes ++ more) = text some_lexemes ++ text more :=
  List.flatMap_append

/-! What holds of every lexeme. -/

def Lexeme.is_white : Lexeme abc → Bool
  | .plain c => abc.white c.char
  | _ => false

/-- White characters are lexemes by themselves. -/
theorem white_text {blanks : List α} (h : ∀ c ∈ blanks, abc.white c = true) :
    ∃ out : List (Lexeme abc), text out = blanks ∧ ∀ lexeme ∈ out, lexeme.is_white = true := by
  induction blanks with
  | nil => exact ⟨[], rfl, fun _ h => absurd h List.not_mem_nil⟩
  | cons c blanks ih =>
    rw [List.forall_mem_cons] at h
    obtain ⟨out, rfl, white⟩ := ih h.2
    obtain ⟨ne_quote, ne_escape, ne_mark⟩ := abc.white_plain c h.1
    exact ⟨.plain ⟨c, ne_quote, ne_escape, ne_mark⟩ :: out, rfl,
      List.forall_mem_cons.mpr ⟨h.1, white⟩⟩

theorem mem_intercalate {β : Type*} {separator a : β} {parts : List (List β)}
    (h : a ∈ [separator].intercalate parts) : a = separator ∨ ∃ part ∈ parts, a ∈ part := by
  induction parts with
  | nil => exact absurd h List.not_mem_nil
  | cons part parts ih =>
    cases parts with
    | nil => exact .inr ⟨part, List.mem_cons_self, by simpa [List.intercalate] using h⟩
    | cons next parts =>
      rw [List.intercalate_cons_cons, List.mem_append, List.mem_append, List.mem_singleton] at h
      rcases h with (h | h) | h
      · exact .inr ⟨part, List.mem_cons_self, h⟩
      · exact .inl h
      · exact (ih h).imp_right fun ⟨p, hp, ha⟩ => ⟨p, List.mem_cons_of_mem part hp, ha⟩

theorem Json.no_white (json : Json abc) : ∀ lexeme ∈ json.lexemes, lexeme.is_white = false := by
  have enclosed (first last : Mark) (parts : List (List (Lexeme abc)))
      (h : ∀ part ∈ parts, ∀ lexeme ∈ part, lexeme.is_white = false) :
      ∀ lexeme ∈ .mark first :: ([Lexeme.mark .comma].intercalate parts ++ [.mark last]),
        lexeme.is_white = false := by
    intro lexeme inside
    rw [List.mem_cons, List.mem_append, List.mem_singleton] at inside
    rcases inside with rfl | inside | rfl
    · rfl
    · rcases mem_intercalate inside with rfl | ⟨part, hpart, inside⟩
      · rfl
      · exact h part hpart lexeme inside
    · rfl
  apply Json.lexemes_of (P := fun lexemes => ∀ lexeme ∈ lexemes, lexeme.is_white = false)
  case scalar => exact fun value => List.forall_mem_map.mpr value.black
  case string => exact fun value => List.forall_mem_singleton.mpr rfl
  case array => exact enclosed _ _
  case object => exact enclosed _ _
  case field =>
    intro name value h
    exact List.forall_mem_cons.mpr ⟨rfl, List.forall_mem_cons.mpr ⟨rfl, h⟩⟩

/-! Arrays and objects are closed. -/

def Lexeme.is_bracket : Lexeme abc → Bool
  | .mark .comma | .mark .colon => false
  | .mark _ => true
  | _ => false

inductive Balanced : List (Lexeme abc) → Prop
  | nil : Balanced []
  | flat {lexeme : Lexeme abc} : lexeme.is_bracket = false → Balanced [lexeme]
  | append {first second : List (Lexeme abc)} :
      Balanced first → Balanced second → Balanced (first ++ second)
  | array {inner : List (Lexeme abc)} :
      Balanced inner → Balanced (.mark .open_array :: (inner ++ [.mark .close_array]))
  | object {inner : List (Lexeme abc)} :
      Balanced inner → Balanced (.mark .open_object :: (inner ++ [.mark .close_object]))

theorem Balanced.intercalate {parts : List (List (Lexeme abc))}
    (h : ∀ part ∈ parts, Balanced part) :
    Balanced ([Lexeme.mark .comma].intercalate parts) := by
  induction parts with
  | nil => exact .nil
  | cons part parts ih =>
    rw [List.forall_mem_cons] at h
    cases parts with
    | nil =>
      rw [List.intercalate_singleton]
      exact h.1
    | cons next parts =>
      rw [List.intercalate_cons_cons]
      exact (h.1.append (.flat rfl)).append (ih h.2)

theorem Json.balanced (json : Json abc) : Balanced json.lexemes := by
  apply Json.lexemes_of (P := Balanced)
  case scalar =>
    intro value
    induction value.text with
    | nil => exact .nil
    | cons c text ih =>
      have plain : Balanced [Lexeme.plain c] := .flat rfl
      exact plain.append ih
  case string => exact fun value => .flat rfl
  case array => exact fun parts h => .array (.intercalate h)
  case object => exact fun parts h => .object (.intercalate h)
  case field =>
    intro name value h
    have names : Balanced ([.string name] ++ [.mark .colon] : List (Lexeme abc)) :=
      .append (.flat rfl) (.flat rfl)
    exact names.append h

/-! A text is made of lexemes in one way. -/

theorem body_cons {c : α} {body : List α} : Body abc (c :: body) ↔
    (c ≠ abc.quote ∧ c ≠ abc.escape ∧ Body abc body) ∨
      (c = abc.escape ∧ ∃ d rest, body = d :: rest ∧ Body abc rest) := by
  constructor
  · intro h
    generalize shape : c :: body = text at h
    cases h with
    | nil => cases shape
    | char quote escape h =>
      cases shape
      exact .inl ⟨quote, escape, h⟩
    | escaped d h =>
      cases shape
      exact .inr ⟨rfl, d, _, rfl, h⟩
  · rintro (⟨quote, escape, h⟩ | ⟨rfl, d, rest, rfl, h⟩)
    · exact .char quote escape h
    · exact .escaped d h

theorem Body.append {first second : List α} (h : Body abc first) (more : Body abc second) :
    Body abc (first ++ second) := by
  induction h with
  | nil => exact more
  | char quote escape _ ih => exact .char quote escape ih
  | escaped c _ ih => exact .escaped c ih

/-- A quote after the text of a string is the one that closes it, or comes later, or is escaped. -/
theorem Body.find_quote {body : List α} (h : Body abc body) {rest before after : List α}
    (same : body ++ abc.quote :: rest = before ++ abc.quote :: after) :
    (before = body ∧ after = rest) ∨
    (∃ more, before = body ++ abc.quote :: more ∧ rest = more ++ abc.quote :: after) ∨
    (∃ inside, body = before ++ abc.quote :: inside ∧ Body abc inside ∧
      after = inside ++ abc.quote :: rest) := by
  induction h generalizing before with
  | nil =>
    rcases before with _ | ⟨b, before⟩
    · exact .inl ⟨rfl, (List.cons.inj same).2.symm⟩
    · obtain ⟨rfl, rest⟩ := List.cons.inj same
      exact .inr (.inl ⟨before, rfl, rest⟩)
  | @char c body quote escape h ih =>
    rcases before with _ | ⟨b, before⟩
    · exact absurd (List.cons.inj same).1 quote
    · obtain ⟨rfl, tail⟩ := List.cons.inj same
      rcases ih tail with ⟨rfl, rest⟩ | ⟨more, rfl, rest⟩ | ⟨inside, rfl, closed, rest⟩
      · exact .inl ⟨rfl, rest⟩
      · exact .inr (.inl ⟨more, rfl, rest⟩)
      · exact .inr (.inr ⟨inside, rfl, closed, rest⟩)
  | @escaped c body h ih =>
    rcases before with _ | ⟨b, _ | ⟨d, before⟩⟩
    · exact absurd (List.cons.inj same).1 abc.escape_ne_quote
    · obtain ⟨rfl, tail⟩ := List.cons.inj same
      obtain ⟨rfl, rest⟩ := List.cons.inj tail
      exact .inr (.inr ⟨body, rfl, h, rest.symm⟩)
    · obtain ⟨rfl, tail⟩ := List.cons.inj same
      obtain ⟨rfl, shorter⟩ := List.cons.inj tail
      rcases ih shorter with ⟨rfl, rest⟩ | ⟨more, rfl, rest⟩ | ⟨inside, rfl, closed, rest⟩
      · exact .inl ⟨rfl, rest⟩
      · exact .inr (.inl ⟨more, rfl, rest⟩)
      · exact .inr (.inr ⟨inside, rfl, closed, rest⟩)

theorem Body.not_open {body more : List α} (h : Body abc body) :
    ¬ Body abc (body ++ abc.quote :: more) := by
  induction h with
  | nil =>
    rw [List.nil_append, body_cons]
    rintro (⟨quote, -, -⟩ | ⟨same, -⟩)
    · exact quote rfl
    · exact abc.escape_ne_quote same.symm
  | @char c body quote escape h ih =>
    rw [List.cons_append, body_cons]
    rintro (⟨-, -, h⟩ | ⟨same, -⟩)
    · exact ih h
    · exact escape same
  | @escaped c body h ih =>
    rw [List.cons_append, List.cons_append, body_cons]
    rintro (⟨-, escape, -⟩ | ⟨-, d, rest, same, h⟩)
    · exact escape rfl
    · cases same
      exact ih h

theorem Literal.eq_of_text {first second : Literal abc} {rest more : List α}
    (same : first.body ++ abc.quote :: rest = second.body ++ abc.quote :: more) :
    first = second ∧ rest = more := by
  obtain ⟨body, closed⟩ := first
  obtain ⟨other, other_closed⟩ := second
  rcases closed.find_quote same with ⟨rfl, rfl⟩ | ⟨_, rfl, -⟩ | ⟨_, rfl, -, -⟩
  · exact ⟨rfl, rfl⟩
  · exact absurd other_closed closed.not_open
  · exact absurd closed other_closed.not_open

theorem text_injective : Function.Injective (text : List (Lexeme abc) → List α) := by
  intro first
  induction first with
  | nil =>
    intro second same
    rcases second with _ | ⟨lexeme, second⟩
    · rfl
    · cases lexeme <;> cases same
  | cons lexeme first ih =>
    intro second same
    rcases second with _ | ⟨other, second⟩
    · cases lexeme <;> cases same
    · cases lexeme with
      | mark m =>
        cases other with
        | mark n =>
          obtain ⟨head, tail⟩ := List.cons.inj same
          rw [abc.mark_injective head, ih tail]
        | plain c => exact absurd (List.cons.inj same).1.symm (c.ne_mark m)
        | string value => exact absurd (List.cons.inj same).1 (abc.mark_ne_quote m)
      | plain c =>
        cases other with
        | mark n => exact absurd (List.cons.inj same).1 (c.ne_mark n)
        | plain d =>
          obtain ⟨head, tail⟩ := List.cons.inj same
          obtain rfl : c = d := by
            cases c
            cases d
            cases head
            rfl
          rw [ih tail]
        | string value => exact absurd (List.cons.inj same).1 c.ne_quote
      | string value =>
        cases other with
        | mark n => exact absurd (List.cons.inj same).1.symm (abc.mark_ne_quote n)
        | plain d => exact absurd (List.cons.inj same).1.symm d.ne_quote
        | string other =>
          rw [text_cons, text_cons, Lexeme.text, Lexeme.text] at same
          rw [List.cons_append, List.cons_append, List.append_assoc, List.append_assoc] at same
          have tail := (List.cons.inj same).2
          obtain ⟨rfl, rest⟩ := Literal.eq_of_text tail
          rw [ih rest]

/-! Strings in a value never follow one another. -/

def Lexeme.is_string : Lexeme abc → Bool
  | .string _ => true
  | _ => false

def Apart (lexemes : List (Lexeme abc)) : Prop :=
  lexemes.IsChain fun first second => ¬ (first.is_string = true ∧ second.is_string = true)

theorem Apart.cons {lexeme : Lexeme abc} {lexemes : List (Lexeme abc)}
    (other : lexeme.is_string = false) (h : Apart lexemes) : Apart (lexeme :: lexemes) := by
  rw [Apart, List.isChain_cons]
  exact ⟨fun next _ both => Bool.false_ne_true (other.symm.trans both.1), h⟩

theorem Apart.join {first second : List (Lexeme abc)} (m : Mark) (h : Apart first)
    (more : Apart second) : Apart (first ++ .mark m :: second) := by
  rw [Apart, List.isChain_append]
  refine ⟨h, Apart.cons rfl more, fun a _ b hb both => ?_⟩
  obtain rfl : Lexeme.mark m = b := by simpa using hb
  exact Bool.false_ne_true both.2

theorem Apart.intercalate {parts : List (List (Lexeme abc))} (h : ∀ part ∈ parts, Apart part) :
    Apart ([Lexeme.mark .comma].intercalate parts) := by
  induction parts with
  | nil => exact .nil
  | cons part parts ih =>
    rw [List.forall_mem_cons] at h
    cases parts with
    | nil =>
      rw [List.intercalate_singleton]
      exact h.1
    | cons next parts =>
      rw [List.intercalate_cons_cons, List.append_assoc]
      exact h.1.join .comma (ih h.2)

theorem Json.apart (json : Json abc) : Apart json.lexemes := by
  apply Json.lexemes_of (P := Apart)
  case scalar =>
    intro value
    induction value.text with
    | nil => exact .nil
    | cons c text ih => exact Apart.cons rfl ih
  case string => exact fun value => .singleton _
  case array => exact fun parts h => Apart.cons rfl ((Apart.intercalate h).join .close_array .nil)
  case object => exact fun parts h => Apart.cons rfl ((Apart.intercalate h).join .close_object .nil)
  case field =>
    intro name value h
    have named : Apart [Lexeme.string name] := .singleton _
    exact named.join .colon h

/-! Fields that are strings. -/

def empty : Literal abc := ⟨[], .nil⟩

/-- A field of an object where the value is a string. -/
def field (name value : Literal abc) : List (Lexeme abc) :=
  [.string name, .mark .colon, .string value]

theorem starts_string {lexemes : List (Lexeme abc)} {after : List α}
    (h : text lexemes = abc.quote :: after) :
    ∃ value rest, lexemes = .string value :: rest ∧
      after = value.body ++ abc.quote :: text rest := by
  rcases lexemes with _ | ⟨m | c | value, lexemes⟩
  · cases h
  · exact absurd (List.cons.inj h).1 (abc.mark_ne_quote m)
  · exact absurd (List.cons.inj h).1 c.ne_quote
  · refine ⟨value, lexemes, rfl, ?_⟩
    rw [text_cons, Lexeme.text, List.cons_append, List.append_assoc] at h
    exact (List.cons.inj h).2.symm

theorem starts_mark {lexemes : List (Lexeme abc)} {m : Mark} {after : List α}
    (h : text lexemes = abc.mark m :: after) :
    ∃ rest, lexemes = .mark m :: rest ∧ after = text rest := by
  rcases lexemes with _ | ⟨n | c | value, lexemes⟩
  · cases h
  · obtain ⟨same, rest⟩ := List.cons.inj h
    exact ⟨lexemes, by rw [abc.mark_injective same], rest.symm⟩
  · exact absurd (List.cons.inj h).1 (c.ne_mark m)
  · exact absurd (List.cons.inj h).1.symm (abc.mark_ne_quote m)

/-- No string ends with a colon before two quotes. -/
theorem no_colon_inside {value : Literal abc} {lexemes : List (Lexeme abc)}
    (apart : Apart (.string value :: lexemes)) {inside after : List α} (closed : Body abc inside) :
    inside ++ abc.quote :: text lexemes ≠
      abc.mark .colon :: abc.quote :: abc.quote :: after := by
  intro same
  have colon : abc.mark .colon ≠ abc.quote := abc.mark_ne_quote .colon
  have found : inside ++ abc.quote :: text lexemes =
      [abc.mark .colon] ++ abc.quote :: abc.quote :: after := same
  rcases closed.find_quote found with
    ⟨-, rest⟩ | ⟨more, shape, -⟩ | ⟨more, rfl, -, -⟩
  · obtain ⟨next, rest, rfl, -⟩ := starts_string rest.symm
    exact (List.isChain_cons_cons.mp apart).1 ⟨rfl, rfl⟩
  · rcases inside with _ | ⟨c, inside⟩
    · exact colon (List.cons.inj shape).1
    · exact absurd (List.cons.inj shape).2 (by simp)
  · rcases body_cons.mp closed with ⟨-, -, closed⟩ | ⟨same, -⟩
    · rcases body_cons.mp closed with ⟨quote, -, -⟩ | ⟨same, -⟩
      · exact quote rfl
      · exact abc.escape_ne_quote same.symm
    · exact abc.mark_ne_escape .colon same

/-- The text from the quote after the name of a field to the end of an empty string. -/
theorem empty_field_at {lexemes : List (Lexeme abc)} (apart : Apart lexemes) {before after : List α}
    (h : text lexemes =
      before ++ abc.quote :: abc.mark .colon :: abc.quote :: abc.quote :: after) :
    ∃ first name last, lexemes = first ++ (field name empty ++ last) ∧
      before = text first ++ abc.quote :: name.body ∧ after = text last := by
  induction lexemes generalizing before with
  | nil => exact absurd h.symm (by simp)
  | cons lexeme lexemes ih =>
    have apart_rest : Apart lexemes := apart.tail
    -- a lexeme of one character, which is not a quote
    have skip {c : α} (char : lexeme.text = [c]) (quote : c ≠ abc.quote) :
        ∃ first name last, lexeme :: lexemes = first ++ (field name empty ++ last) ∧
          before = text first ++ abc.quote :: name.body ∧ after = text last := by
      rw [text_cons, char] at h
      rcases before with _ | ⟨b, before⟩
      · exact absurd (List.cons.inj h).1 quote
      · obtain ⟨rfl, rest⟩ := List.cons.inj h
        obtain ⟨first, name, last, rfl, rfl, rfl⟩ := ih apart_rest rest
        exact ⟨lexeme :: first, name, last, rfl, by rw [text_cons, char]; rfl, rfl⟩
    cases lexeme with
    | mark m => exact skip rfl (abc.mark_ne_quote m)
    | plain c => exact skip rfl c.ne_quote
    | string value =>
      rw [text_cons, Lexeme.text, List.cons_append, List.append_assoc] at h
      rcases before with _ | ⟨b, before⟩
      · exact absurd (List.cons.inj h).2 (no_colon_inside apart value.closed)
      · obtain ⟨rfl, inner⟩ := List.cons.inj h
        rcases value.closed.find_quote inner with
          ⟨rfl, tail⟩ | ⟨more, rfl, tail⟩ | ⟨inside, -, closed, tail⟩
        · obtain ⟨rest, rfl, quotes⟩ := starts_mark tail.symm
          obtain ⟨next, rest, rfl, last⟩ := starts_string quotes.symm
          have closing : (empty : Literal abc).body ++ abc.quote :: after =
              next.body ++ abc.quote :: text rest := last
          obtain ⟨rfl, rfl⟩ := Literal.eq_of_text closing
          exact ⟨[], value, rest, rfl, rfl, rfl⟩
        · obtain ⟨first, name, last, rfl, rfl, rfl⟩ := ih apart_rest tail
          refine ⟨.string value :: first, name, last, rfl, ?_, rfl⟩
          rw [text_cons, Lexeme.text]
          simp
        · exact absurd tail.symm (no_colon_inside apart closed)

/-- A name, or the part of it from an escaped quote on. -/
def Ends (text : List α) (name : Literal abc) : Prop :=
  abc.quote :: text <:+ abc.quote :: name.body

/-- A string that is empty, under a name that ends like this. -/
def EmptyField (text : List α) (lexemes : List (Lexeme abc)) : Prop :=
  ∃ name, Ends text name ∧ field name empty <:+: lexemes

theorem ends_of_append {name : Literal abc} {before start plain : List α}
    (quote : abc.quote ∉ plain)
    (same : before ++ abc.quote :: plain = start ++ abc.quote :: name.body) : Ends plain name := by
  have ends : abc.quote :: plain <:+ start ++ abc.quote :: name.body := ⟨before, same⟩
  rcases List.suffix_or_suffix_of_suffix ends (List.suffix_append start _) with h | h
  · exact h
  · rcases List.suffix_cons_iff.mp h with h | h
    · rw [Ends, h]
    · exact absurd (h.subset List.mem_cons_self) quote

/-- Where the text of a field with an empty string is found. -/
theorem pattern_at {lexemes : List (Lexeme abc)} (apart : Apart lexemes)
    {before plain after : List α} (quote : abc.quote ∉ plain)
    (h : text lexemes = before ++ (abc.quote :: (plain ++
      [abc.quote, abc.mark .colon, abc.quote, abc.quote]) ++ after)) :
    ∃ first name last, lexemes = first ++ (field name empty ++ last) ∧ Ends plain name ∧
      before ++ abc.quote :: plain = text first ++ abc.quote :: name.body ∧ after = text last := by
  have shape : text lexemes = (before ++ abc.quote :: plain) ++
      abc.quote :: abc.mark .colon :: abc.quote :: abc.quote :: after := by
    rw [h]
    simp
  obtain ⟨first, name, last, rfl, same, rest⟩ := empty_field_at apart shape
  exact ⟨first, name, last, rfl, ends_of_append quote same, same, rest⟩

/-- Only one lexeme is another. -/
theorem field_eq_set (first last : List (Lexeme abc)) (name old value : Literal abc) :
    first ++ (field name value ++ last) =
      (first ++ (field name old ++ last)).set (first.length + 2) (.string value) := by
  rw [List.set_append_right _ _ (Nat.le_add_right _ _), Nat.add_sub_cancel_left]
  rfl

theorem infix_join {β : Type*} {part first second : List β} {c : β} (other : c ∉ part)
    (h : part <:+: first ++ c :: second) : part <:+: first ∨ part <:+: second := by
  obtain ⟨before, after, same⟩ := h
  rw [List.append_assoc] at same
  rcases List.append_eq_append_iff.mp same with ⟨more, rfl, rest⟩ | ⟨more, rfl, rest⟩
  · rcases List.append_eq_append_iff.mp rest with ⟨more, rfl, -⟩ | ⟨tail, rfl, marked⟩
    · exact .inl ⟨before, more, List.append_assoc _ _ _⟩
    · rcases tail with _ | ⟨d, tail⟩
      · exact .inl ⟨before, [], by simp⟩
      · obtain ⟨rfl, -⟩ := List.cons.inj marked
        exact absurd (List.mem_append_right more List.mem_cons_self) other
  · rcases more with _ | ⟨d, more⟩
    · rcases part with _ | ⟨d, part⟩
      · exact .inl (List.nil_infix)
      · obtain ⟨rfl, -⟩ := List.cons.inj rest
        exact absurd List.mem_cons_self other
    · obtain ⟨rfl, inner⟩ := List.cons.inj rest
      exact .inr ⟨more, after, (List.append_assoc more part after).trans inner.symm⟩

theorem emptyField_join {plain : List α} {first second : List (Lexeme abc)} {m : Mark}
    (h : m ≠ .colon) : EmptyField plain (first ++ .mark m :: second) ↔
      EmptyField plain first ∨ EmptyField plain second := by
  constructor
  · rintro ⟨name, ends, inside⟩
    have other : Lexeme.mark m ∉ field name (empty : Literal abc) := by
      simpa [field] using h
    rcases infix_join other inside with inside | inside
    · exact .inl ⟨name, ends, inside⟩
    · exact .inr ⟨name, ends, inside⟩
  · rintro (⟨name, ends, inside⟩ | ⟨name, ends, inside⟩)
    · exact ⟨name, ends, inside.trans (List.prefix_append first _).isInfix⟩
    · exact ⟨name, ends, inside.trans
        ((List.suffix_cons _ second).trans (List.suffix_append first _)).isInfix⟩

/-! The fields of an object before and after one of them. -/

def Json.field_lexeme (entry : Literal abc × Json abc) : List (Lexeme abc) :=
  .string entry.1 :: .mark .colon :: entry.2.lexemes

def fields_before (fields : List (Literal abc × Json abc)) : List (Lexeme abc) :=
  .mark .open_object :: fields.flatMap fun entry => Json.field_lexeme entry ++ [.mark .comma]

def fields_after (fields : List (Literal abc × Json abc)) : List (Lexeme abc) :=
  (fields.flatMap fun entry => .mark .comma :: Json.field_lexeme entry) ++ [.mark .close_object]

theorem intercalate_split {β : Type*} (c : β) (before after : List (List β)) (part : List β) :
    [c].intercalate (before ++ part :: after) =
      (before.flatMap fun p => p ++ [c]) ++ (part ++ after.flatMap fun p => c :: p) := by
  induction before with
  | nil =>
    induction after generalizing part with
    | nil => simp
    | cons next after ih =>
      rw [List.nil_append, List.intercalate_cons_cons]
      have rest := ih next
      rw [List.nil_append, List.flatMap_nil, List.nil_append] at rest
      rw [rest]
      simp
  | cons first before ih =>
    have shape : [c].intercalate (first :: (before ++ part :: after)) =
        first ++ [c] ++ [c].intercalate (before ++ part :: after) := by
      cases before with
      | nil => exact List.intercalate_cons_cons
      | cons second before => exact List.intercalate_cons_cons
    rw [List.cons_append, shape, ih, List.flatMap_cons, List.append_assoc _ _ (part ++ _)]

theorem Json.lexemes_object (before after : List (Literal abc × Json abc)) (name : Literal abc)
    (value : Json abc) :
    (Json.object (before ++ (name, value) :: after)).lexemes =
      fields_before before ++
        (.string name :: .mark .colon :: (value.lexemes ++ fields_after after)) := by
  rw [lexemes, field_lexemes_eq, List.map_append, List.map_cons, intercalate_split, fields_before,
    fields_after]
  simp [List.flatMap_map, field_lexeme]

theorem fields_before_ends (fields : List (Literal abc × Json abc)) :
    ∃ first m, fields_before fields = first ++ [.mark m] ∧ m ≠ .colon := by
  rcases List.eq_nil_or_concat fields with rfl | ⟨init, last, rfl⟩
  · exact ⟨[], .open_object, rfl, by decide⟩
  · refine ⟨fields_before init ++ Json.field_lexeme last, .comma, ?_, by decide⟩
    simp [fields_before]

theorem not_emptyField_of_short {plain : List α} {lexemes : List (Lexeme abc)}
    (short : lexemes.length < 3) : ¬ EmptyField plain lexemes := by
  rintro ⟨name, -, inside⟩
  exact absurd inside.length_le (not_le.mpr short)

/-- No field goes over the comma after another, or over the start of an object. -/
theorem emptyField_fields_before (plain : List α) (first last : List (Lexeme abc))
    (fields : List (Literal abc × Json abc)) :
    EmptyField plain (first ++ (fields_before fields ++ last)) ↔
      EmptyField plain first ∨ (∃ entry ∈ fields, EmptyField plain (Json.field_lexeme entry)) ∨
        EmptyField plain last := by
  rw [fields_before, List.cons_append, emptyField_join (by decide)]
  refine or_congr_right ?_
  induction fields with
  | nil => simp
  | cons entry fields ih =>
    rw [List.flatMap_cons, List.append_assoc, List.append_assoc, List.singleton_append,
      emptyField_join (by decide), ih, List.exists_mem_cons_iff, or_assoc]

/-! Putting another string into a field. -/

theorem Apart.of_kinds {first second : List (Lexeme abc)}
    (same : first.map Lexeme.is_string = second.map Lexeme.is_string) (h : Apart first) :
    Apart second := by
  have kinds := (List.isChain_map (R := fun a b => ¬ (a = true ∧ b = true)) Lexeme.is_string).mpr h
  rw [same] at kinds
  exact (List.isChain_map Lexeme.is_string).mp kinds

theorem Apart.refill {first last : List (Lexeme abc)} {name old : Literal abc}
    (h : Apart (first ++ (field name old ++ last))) (value : Literal abc) :
    Apart (first ++ (field name value ++ last)) :=
  h.of_kinds (by simp [field, Lexeme.is_string])

theorem getElem?_field (first last : List (Lexeme abc)) (name value : Literal abc) :
    (first ++ (field name value ++ last))[first.length]? = some (.string name) ∧
      (first ++ (field name value ++ last))[first.length + 1]? = some (.mark .colon) ∧
      (first ++ (field name value ++ last))[first.length + 2]? = some (.string value) := by
  simp [field]

theorem getElem?_refill {first last : List (Lexeme abc)} {name old value : Literal abc} {n : ℕ}
    (other : n ≠ first.length + 2) :
    (first ++ (field name value ++ last))[n]? = (first ++ (field name old ++ last))[n]? := by
  rw [field_eq_set first last name old value, List.getElem?_set_ne other.symm]

/-- Of names without a quote only the name itself ends like it. -/
theorem Ends.eq {plain : List α} {name : Literal abc} (h : Ends plain name)
    (quote : abc.quote ∉ name.body) : plain = name.body := by
  rcases List.suffix_cons_iff.mp h with same | inside
  · exact (List.cons.inj same).2
  · exact absurd (inside.subset List.mem_cons_self) quote

end JsonText

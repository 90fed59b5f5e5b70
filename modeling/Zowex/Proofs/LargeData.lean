import Zowex.Lib.Maps
import Zowex.Spec.LargeData

/-! Large data is put where the name of its field is first found with an empty string. -/

namespace Zowex.server

open zjson JsonText

/-! Finding. -/

theorem find_eq_some {pattern text : Bytes} {pos : ℕ} (h : tool.find pattern text = some pos) :
    ∃ after, text = text.take pos ++ (pattern ++ after) ∧
      text.drop (pos + pattern.length) = after := by
  induction text generalizing pos with
  | nil =>
    unfold tool.find at h
    split_ifs at h with empty
    · cases h
      exact ⟨[], by rw [empty]; rfl, by rw [List.drop_nil]⟩
  | cons c text ih =>
    unfold tool.find at h
    split_ifs at h with here
    · cases h
      obtain ⟨after, shape⟩ := List.isPrefixOf_iff_prefix.mp here
      refine ⟨after, by rw [List.take_zero, List.nil_append, shape], ?_⟩
      rw [← shape, Nat.zero_add, List.drop_left]
    · obtain ⟨below, found, rfl⟩ := Option.map_eq_some_iff.mp h
      obtain ⟨after, shape, rest⟩ := ih found
      refine ⟨after, ?_, ?_⟩
      · rw [List.take_succ_cons, List.cons_append, ← shape]
      · rw [Nat.add_right_comm, List.drop_succ_cons, rest]

theorem find_le {pattern text before after : Bytes} (h : text = before ++ (pattern ++ after)) :
    ∃ pos, tool.find pattern text = some pos ∧ pos ≤ before.length := by
  induction text generalizing before with
  | nil =>
    obtain ⟨rfl, rest⟩ := List.append_eq_nil_iff.mp h.symm
    obtain ⟨rfl, rfl⟩ := List.append_eq_nil_iff.mp rest
    exact ⟨0, rfl, le_rfl⟩
  | cons c text ih =>
    unfold tool.find
    split_ifs with here
    · exact ⟨0, rfl, Nat.zero_le _⟩
    · rcases before with _ | ⟨b, before⟩
      · exact absurd (List.isPrefixOf_iff_prefix.mpr ⟨after, h.symm⟩) here
      · obtain ⟨pos, found, le⟩ := ih (List.cons.inj h).2
        exact ⟨pos + 1, by rw [found]; rfl, Nat.succ_le_succ le⟩

/-! One field after another is filled. -/

section

variable {abc : Alphabet UInt8} {lexemes : List (Lexeme abc)} {plain : Bytes}

/-- The first field with an empty string under a name that ends like this. -/
structure FirstField (plain : Bytes) (lexemes first : List (Lexeme abc)) (name : Literal abc)
    (last : List (Lexeme abc)) : Prop where
  shape : lexemes = first ++ (field name empty ++ last)
  ends : Ends plain name
  least : ∀ other_first other other_last,
    lexemes = other_first ++ (field other empty ++ other_last) → Ends plain other →
      first.length ≤ other_first.length

theorem field_text (name value : Literal abc) :
    text (field name value) = abc.quote :: (name.body ++ abc.quote :: abc.mark .colon ::
      abc.quote :: (value.body ++ [abc.quote])) := by
  simp [field, Lexeme.text]

/-- Where a field begins, counted to the end of its name, follows the order of the fields. -/
theorem length_le_of_text_le {first other_first last other_last : List (Lexeme abc)}
    {name other : Literal abc}
    (same : first ++ (field name empty ++ last) = other_first ++ (field other empty ++ other_last))
    (le : (text first).length + name.body.length ≤
      (text other_first).length + other.body.length) :
    first.length ≤ other_first.length := by
  by_contra shorter
  push Not at shorter
  have longer : other_first <+: first ++ (field name empty ++ last) := ⟨_, same.symm⟩
  obtain ⟨more, rfl⟩ := List.prefix_of_prefix_length_le longer (List.prefix_append first _)
    shorter.le
  rw [List.append_assoc, List.append_cancel_left_eq] at same
  rcases more with _ | ⟨lexeme, more⟩
  · simp at shorter
  · obtain ⟨rfl, -⟩ := List.cons.inj same
    simp [Lexeme.text] at le
    omega

theorem add_large_data_spec (sys : Platform)
    {lexemes : List (Lexeme (json_alphabet sys.cs))} (apart : Apart lexemes)
    (quote : sys.cs.code '"' ∉ plain) (data : Literal (json_alphabet sys.cs)) :
    ((∀ first name last, lexemes = first ++ (field name empty ++ last) → ¬ Ends plain name) ∧
      add_large_data_to_json sys (text lexemes) plain data.body = text lexemes) ∨
    ∃ first name last, FirstField plain lexemes first name last ∧
      add_large_data_to_json sys (text lexemes) plain data.body =
        text (first ++ (field name data ++ last)) := by
  let abc := json_alphabet sys.cs
  have pattern : sys.cs.str "\"" ++ plain ++ sys.cs.str "\":\"\"" =
      abc.quote :: (plain ++ [abc.quote, abc.mark .colon, abc.quote, abc.quote]) := by
    simp [abc, Charset.str, json_alphabet, mark_char]
  -- a field whose name ends so has the pattern in its text
  have occurs {first last : List (Lexeme abc)} {name : Literal abc}
      (shape : lexemes = first ++ (field name empty ++ last)) (ends : Ends plain name) :
      ∃ pos, tool.find (sys.cs.str "\"" ++ plain ++ sys.cs.str "\":\"\"") (text lexemes) =
          some pos ∧
        pos + plain.length ≤ (text first).length + name.body.length := by
    obtain ⟨start, ends⟩ := ends
    have inside : text lexemes = (text first ++ start) ++
        (sys.cs.str "\"" ++ plain ++ sys.cs.str "\":\"\"" ++ text last) := by
      have named : text (field name empty) =
          start ++ abc.quote :: plain ++ [abc.quote, abc.mark .colon, abc.quote, abc.quote] := by
        rw [ends, field_text]
        simp [empty]
      rw [shape, text_append, text_append, named, pattern]
      simp
    obtain ⟨pos, found, le⟩ := find_le inside
    have lengths := congrArg List.length ends
    rw [List.length_append, List.length_cons, List.length_cons] at lengths
    rw [List.length_append] at le
    exact ⟨pos, found, by omega⟩
  cases found : tool.find (sys.cs.str "\"" ++ plain ++ sys.cs.str "\":\"\"") (text lexemes) with
  | none =>
    refine .inl ⟨fun first name last shape ends => ?_, ?_⟩
    · obtain ⟨pos, here, -⟩ := occurs shape ends
      rw [found] at here
      cases here
    · rw [add_large_data_to_json, found]
  | some pos =>
    obtain ⟨after, inside, rest⟩ := find_eq_some found
    rw [← List.append_assoc, pattern, List.append_assoc] at inside
    obtain ⟨first, name, last, shape, ends, same, rfl⟩ := pattern_at apart quote inside
    refine .inr ⟨first, name, last, ⟨shape, ends, ?_⟩, ?_⟩
    · intro other_first other other_last other_shape other_ends
      obtain ⟨pos', here, le⟩ := occurs other_shape other_ends
      cases found.symm.trans here
      have lengths := congrArg List.length same
      rw [List.length_append, List.length_append, List.length_cons, List.length_cons,
        List.length_take] at lengths
      exact length_le_of_text_le (shape.symm.trans other_shape) (by omega)
    · have replaced : add_large_data_to_json sys (text lexemes) plain data.body =
          (text lexemes).take pos ++ (sys.cs.str "\"" ++ plain ++ sys.cs.str "\":\"" ++
            data.body ++ sys.cs.str "\"") ++ text last := by
        rw [add_large_data_to_json, found]
        dsimp only
        rw [rest]
      have opening : sys.cs.str "\"" ++ plain ++ sys.cs.str "\":\"" ++ data.body ++
          sys.cs.str "\"" = abc.quote :: plain ++
            (abc.quote :: abc.mark .colon :: abc.quote :: (data.body ++ [abc.quote])) := by
        simp [abc, Charset.str, json_alphabet, mark_char]
      rw [replaced, opening, ← List.append_assoc, same, text_append, text_append, field_text]
      simp [abc]

/-- What stands before a field, which is not a colon. -/
def Opened (first : List (Lexeme abc)) : Prop := ∃ init m, first = init ++ [.mark m] ∧ m ≠ .colon

theorem emptyField_of_shorter {first other_first last other_last : List (Lexeme abc)}
    {name other : Literal abc} (opened : Opened other_first)
    (same : first ++ (field name empty ++ last) = other_first ++ (field other empty ++ other_last))
    (shorter : first.length < other_first.length) (ends : Ends plain name) :
    EmptyField plain other_first := by
  have longer : first <+: other_first ++ (field other empty ++ other_last) := ⟨_, same⟩
  obtain ⟨more, rfl⟩ := List.prefix_of_prefix_length_le longer
    (List.prefix_append other_first _) shorter.le
  obtain ⟨init, m, ending, other_mark⟩ := opened
  rw [List.append_assoc, List.append_cancel_left_eq] at same
  have final : ∀ lexeme ∈ more.getLast?, lexeme = .mark m := by
    intro lexeme h
    have whole := congrArg List.getLast? ending
    rw [List.getLast?_append, List.getLast?_append, h] at whole
    simpa using whole
  rcases more with _ | ⟨a, _ | ⟨b, _ | ⟨c, more⟩⟩⟩
  · simp at shorter
  · obtain ⟨rfl, -⟩ := List.cons.inj same
    exact absurd (final _ rfl) (by simp)
  · obtain ⟨rfl, second⟩ := List.cons.inj same
    obtain ⟨rfl, -⟩ := List.cons.inj second
    exact absurd (final _ rfl) (by simpa using other_mark.symm)
  · obtain ⟨rfl, second⟩ := List.cons.inj same
    obtain ⟨rfl, third⟩ := List.cons.inj second
    obtain ⟨rfl, -⟩ := List.cons.inj third
    exact ⟨name, ends, first, more, by simp [field]⟩

variable {sys : Platform} {before after : List (Lexeme (json_alphabet sys.cs))}
  {target : Literal (json_alphabet sys.cs)}

theorem fills_target (apart : Apart (before ++ (field target empty ++ after)))
    (quote : sys.cs.code '"' ∉ target.body) (opened : Opened before)
    (clear : ¬ EmptyField target.body before) (data : Literal (json_alphabet sys.cs)) :
    add_large_data_to_json sys (text (before ++ (field target empty ++ after))) target.body
      data.body = text (before ++ (field target data ++ after)) := by
  rcases add_large_data_spec sys apart quote data with ⟨missing, -⟩ | ⟨first, name, last, h, filled⟩
  · exact absurd List.suffix_rfl (missing before target after rfl)
  · have le : first.length ≤ before.length := h.least before target after rfl List.suffix_rfl
    rcases le.lt_or_eq with shorter | same
    · exact absurd (emptyField_of_shorter opened h.shape.symm shorter h.ends) clear
    · obtain ⟨rfl, rest⟩ := List.append_inj h.shape same.symm
      obtain ⟨head, rest⟩ := List.cons.inj rest
      obtain ⟨-, rest⟩ := List.cons.inj rest
      obtain ⟨-, rfl⟩ := List.cons.inj rest
      cases head
      exact filled

theorem misses_target (apart : Apart (before ++ (field target empty ++ after)))
    (quote : sys.cs.code '"' ∉ target.body) (hidden : EmptyField target.body before)
    (data : Literal (json_alphabet sys.cs)) :
    ∃ first name last, before ++ (field target empty ++ after) =
        first ++ (field name empty ++ last) ∧ Ends target.body name ∧
      first.length < before.length ∧
      add_large_data_to_json sys (text (before ++ (field target empty ++ after))) target.body
        data.body = text (first ++ (field name data ++ last)) := by
  rcases add_large_data_spec sys apart quote data with ⟨missing, -⟩ | ⟨first, name, last, h, filled⟩
  · exact absurd List.suffix_rfl (missing before target after rfl)
  · refine ⟨first, name, last, h.shape, h.ends, ?_, filled⟩
    obtain ⟨other, ends, start, more, inside⟩ := hidden
    have shape : before ++ (field target empty ++ after) =
        start ++ (field other empty ++ (more ++ (field target empty ++ after))) := by
      rw [← inside]
      simp
    have lengths := congrArg List.length inside
    rw [List.length_append, List.length_append] at lengths
    have size : (field other empty).length = 3 := rfl
    have le := h.least start other _ shape ends
    omega

end

/-! The lexemes of a response. -/

open Maps

section

variable {cs : Charset} (writer : Writer cs)

/-- The fields of an object as they are written. -/
def written (fields : List (Bytes × Value)) :
    List (Literal (json_alphabet cs) × Json (json_alphabet cs)) :=
  fields.map fun e => (writer.name e.1, writer.json e.2)

theorem field_jsons_eq (fields : List (Bytes × Value)) :
    writer.field_jsons fields = fields.map fun e => (e.1, writer.json e.2) := by
  induction fields with
  | nil => rfl
  | cons e fields ih => rw [Writer.field_jsons, ih, List.map_cons]

theorem json_object (fields : List (Bytes × Value)) :
    writer.json (.object fields) =
      .object (written writer (Value.object fields).as_object.toList) := by
  have converted (m : ObjectMap) : (writer.field_jsons fields).foldl (fun m e => m.insert e.1 e.2)
      (m.map fun _ value => writer.json value) =
        (fields.foldl (fun m e => m.insert e.1 e.2) m).map fun _ value => writer.json value := by
    rw [field_jsons_eq]
    induction fields generalizing m with
    | nil => rfl
    | cons e fields ih =>
      rw [List.map_cons, List.foldl_cons, List.foldl_cons, ← map_insert]
      exact ih (m.insert e.1 e.2)
  have empty_map : (∅ : ObjectMap).map (fun _ value => writer.json value) = ∅ := by
    apply Std.ExtTreeMap.ext_getElem?
    intro k
    rw [Std.ExtTreeMap.getElem?_map, Std.ExtTreeMap.getElem?_empty, Std.ExtTreeMap.getElem?_empty]
    rfl
  have whole := converted ∅
  rw [empty_map] at whole
  rw [Writer.json, whole, Std.ExtTreeMap.toList_map, List.map_map]
  rfl

/-- A field of the result after the data is filled in. -/
def fill_field (large_data : List (Bytes × Bytes)) (e : Bytes × Value) : Bytes × Value :=
  (e.1, (large_data.lookup e.1).elim e.2 .string)

theorem filled_fields (large_data : List (Bytes × Bytes)) (fields : List (Bytes × Value)) :
    (filled large_data (.object fields)).as_object.toList =
      (Value.object fields).as_object.toList.map (fill_field large_data) := by
  have mapped := Std.ExtTreeMap.toList_map (t := (Value.object fields).as_object)
    (f := fun key value => (large_data.lookup key).elim value Value.string)
  calc (filled large_data (.object fields)).as_object.toList
      = (write_all id (∅ : ObjectMap)
          ((Value.object fields).as_object.toList.map (fill_field large_data))).toList := rfl
    _ = (write_all id (∅ : ObjectMap) ((Value.object fields).as_object.map
          fun key value => (large_data.lookup key).elim value Value.string).toList).toList := by
        rw [mapped]
        rfl
    _ = (Value.object fields).as_object.toList.map (fill_field large_data) := by
        rw [write_all_toList, mapped]
        rfl

end

section

variable {sys : Platform} {response : RpcResponse} {result : Value}

/-- The fields of a response after its result. -/
def after_result (sys : Platform) (response : RpcResponse) : List (Bytes × Value) :=
  (response.error.map fun error =>
    (sys.cs.str "error", error_details_to_json sys error)).toList ++
    [(sys.cs.str "id", response.id.elim .null .integer)]

theorem as_object_result (h : response.result = some result) :
    (rpc_response_to_json sys response).as_object =
      (write_all id ((∅ : ObjectMap).insert (sys.cs.str "jsonrpc") (.string (sys.cs.str "2.0")))
        (after_result sys response)).insert (sys.cs.str "result") result := by
  have other : sys.cs.str "result" ∉ (after_result sys response).map Prod.fst := by
    intro inside
    obtain ⟨e, he, same⟩ := List.mem_map.mp inside
    have lengths := congrArg List.length same
    rcases List.mem_append.mp he with he | he
    · obtain ⟨error, -, rfl⟩ := Option.map_eq_some_iff.mp (Option.mem_toList.mp he)
      simp [Charset.str] at lengths
    · rw [List.mem_singleton.mp he] at lengths
      simp [Charset.str] at lengths
  rw [← write_all_insert other, rpc_response_to_json, h, List.append_assoc]
  rfl

theorem result_filled (done : List (Bytes × Bytes)) (h : response.result = some result) :
    (rpc_response_to_json sys (response.filled done)).as_object =
      (rpc_response_to_json sys response).as_object.insert (sys.cs.str "result")
        (filled done result) := by
  have filled_result : (response.filled done).result = some (filled done result) := by
    rw [RpcResponse.filled, h]
    rfl
  rw [as_object_result filled_result, as_object_result h, insert_insert_self]
  rfl

theorem written_split (writer : Writer sys.cs) (before after : List (Bytes × Value)) (name : Bytes)
    (value : Value) :
    (Json.object (written writer (before ++ (name, value) :: after))).lexemes =
      fields_before (written writer before) ++ (.string (writer.name name) :: .mark .colon ::
        ((writer.json value).lexemes ++ fields_after (written writer after))) := by
  rw [written, List.map_append, List.map_cons, Json.lexemes_object]
  rfl

/-- A part of a text that is closed after a field. -/
def Closed (last : List (Lexeme (json_alphabet sys.cs))) : Prop :=
  ∃ m rest, last = .mark m :: rest ∧ m ≠ .colon

theorem closed_fields_after
    (fields : List (Literal (json_alphabet sys.cs) × Json (json_alphabet sys.cs)))
    (more : List (Lexeme (json_alphabet sys.cs))) : Closed (fields_after fields ++ more) := by
  rcases fields with _ | ⟨e, fields⟩
  · exact ⟨.close_object, more, rfl, by decide⟩
  · exact ⟨.comma, _, rfl, by decide⟩

/-- What stands before a field of the result, and after it. -/
theorem response_lexemes (writer : Writer sys.cs) {fields : List (Bytes × Value)} {name : Bytes}
    (h : response.result = some (.object fields)) {value : Value}
    (placeholder : (Value.object fields).as_object[name]? = some value)
    (done : List (Bytes × Bytes)) :
    ∃ before after : List (Lexeme (json_alphabet sys.cs)), Opened before ∧ Closed after ∧
      (∀ plain, EmptyField plain before ↔
        (∃ e ∈ fields_up_to (sys.cs.str "result") (rpc_response_to_json sys response),
          EmptyField plain (Json.field_lexeme (writer.name e.1, writer.json e.2))) ∨
        ∃ e ∈ fields_up_to name (.object fields),
          EmptyField plain (Json.field_lexeme (writer.name e.1,
            writer.json (fill_field done e).2))) ∧
      ∀ more, (∀ key, key ≠ name → more.lookup key = done.lookup key) →
        (writer.json (rpc_response_to_json sys (response.filled more))).lexemes =
          before ++ (.string (writer.name name) :: .mark .colon ::
            ((writer.json (fill_field more (name, value)).2).lexemes ++ after)) := by
  have held : (rpc_response_to_json sys response).as_object[sys.cs.str "result"]? =
      some (.object fields) := by
    rw [as_object_result h, Std.ExtTreeMap.getElem?_insert_self]
  obtain ⟨outer_after, -, -, outer⟩ := toList_split held
  obtain ⟨inner_after, inner, differ, -⟩ := toList_split placeholder
  let outer_before := fields_up_to (sys.cs.str "result") (rpc_response_to_json sys response)
  let inner_before := fields_up_to name (.object fields)
  have inner_shape : (Value.object fields).as_object.toList =
      inner_before ++ (name, value) :: inner_after := inner
  have inner_differ : ∀ e ∈ inner_before, e.1 ≠ name := fun e he => by
    simpa using List.mem_takeWhile_imp he
  refine ⟨fields_before (written writer outer_before) ++
      (.string (writer.name (sys.cs.str "result")) :: .mark .colon ::
        fields_before (written writer (inner_before.map (fill_field done)))),
    fields_after (written writer (inner_after.map (fill_field done))) ++
      fields_after (written writer outer_after), ?_, closed_fields_after _ _, fun plain => ?_,
    fun more same => ?_⟩
  · obtain ⟨init, m, shape, other⟩ :=
      fields_before_ends (written writer (inner_before.map (fill_field done)))
    refine ⟨fields_before (written writer outer_before) ++
      (.string (writer.name (sys.cs.str "result")) :: .mark .colon :: init), m, ?_, other⟩
    rw [shape]
    simp
  · have first := emptyField_fields_before plain []
      (.string (writer.name (sys.cs.str "result")) :: .mark .colon ::
        fields_before (written writer (inner_before.map (fill_field done))))
      (written writer outer_before)
    have second := emptyField_fields_before plain
      [.string (writer.name (sys.cs.str "result")), .mark .colon] []
      (written writer (inner_before.map (fill_field done)))
    rw [List.append_nil] at second
    have nothing : ¬ EmptyField plain ([] : List (Lexeme (json_alphabet sys.cs))) :=
      not_emptyField_of_short (by simp)
    have name_only : ¬ EmptyField plain ([.string (writer.name (sys.cs.str "result")),
        .mark .colon] : List (Lexeme (json_alphabet sys.cs))) :=
      not_emptyField_of_short (by simp)
    refine first.trans ?_
    rw [or_iff_right nothing]
    refine or_congr (by simp [written, outer_before]) (second.trans ?_)
    rw [or_iff_right name_only, or_iff_left nothing]
    simp [written, inner_before, fill_field]
  · have unchanged {entries : List (Bytes × Value)} (h : ∀ e ∈ entries, e.1 ≠ name) :
        entries.map (fill_field more) = entries.map (fill_field done) :=
      List.map_congr_left fun e he => by rw [fill_field, same e.1 (h e he)]; rfl
    have inner_lexemes : (writer.json (filled more (.object fields))).lexemes =
        fields_before (written writer (inner_before.map (fill_field done))) ++
          (.string (writer.name name) :: .mark .colon ::
            ((writer.json (fill_field more (name, value)).2).lexemes ++
              fields_after (written writer (inner_after.map (fill_field done))))) := by
      rw [filled, json_object, ← filled, filled_fields, inner_shape, List.map_append, List.map_cons,
        unchanged inner_differ, unchanged differ]
      exact written_split writer _ _ name _
    rw [rpc_response_to_json, json_object, ← rpc_response_to_json, result_filled more h, outer,
      written_split, inner_lexemes]
    simp [outer_before, fields_up_to]

/-! The whole map of data. -/

/-- A field of the result that is an empty string, with data for it. The names of the commands and
data in Base64 are written as they are. -/
structure Placeholder (sys : Platform) (response : RpcResponse) (name data : Bytes) : Prop where
  plain_name : Verbatim sys.cs name
  plain_data : Verbatim sys.cs data
  held : ∃ fields, response.result = some (.object fields) ∧
    (Value.object fields).as_object[name]? = some (.string [])

/-- No field that is written before this one of the result has an empty string and a name that
ends in the same way. -/
def Clear (sys : Platform) (writer : Writer sys.cs) (response : RpcResponse) (name : Bytes) :
    Prop :=
  (∀ e ∈ fields_up_to (sys.cs.str "result") (rpc_response_to_json sys response),
    ¬ EmptyField name (Json.field_lexeme (writer.name e.1, writer.json e.2))) ∧
  ∀ result, response.result = some result → ∀ e ∈ fields_up_to name result,
    ¬ EmptyField name (Json.field_lexeme (writer.name e.1, writer.json e.2))

/-- The lexemes of the response that is filled so far. -/
def lexemes_of (writer : Writer sys.cs) (response : RpcResponse) (done : List (Bytes × Bytes)) :
    List (Lexeme (json_alphabet sys.cs)) :=
  (writer.json (rpc_response_to_json sys (response.filled done))).lexemes

theorem Verbatim.no_quote {text : Bytes} (h : Verbatim sys.cs text) : sys.cs.code '"' ∉ text :=
  fun inside => (h _ inside).1 rfl

theorem verbatim_name (writer : Writer sys.cs) {text : Bytes} (h : Verbatim sys.cs text) :
    (writer.name text).body = text :=
  writer.name_verbatim text h

theorem string_nil (writer : Writer sys.cs) : writer.string [] = empty := by
  have body := writer.string_verbatim [] fun c hc => absurd hc List.not_mem_nil
  cases shape : writer.string [] with
  | mk text closed =>
    rw [shape] at body
    cases body
    rfl

theorem not_emptyField_other (writer : Writer sys.cs) {name other : Bytes} {value : Bytes}
    (h : Verbatim sys.cs other) (differ : other ≠ name) :
    ¬ EmptyField name (Json.field_lexeme (writer.name other, writer.json (.string value))) := by
  rintro ⟨found, ends, inside⟩
  have whole : field found empty = field (writer.name other) (writer.string value) :=
    inside.eq_of_length rfl
  obtain ⟨same, -⟩ := List.cons.inj whole
  cases same
  have plain : sys.cs.code '"' ∉ (writer.name other).body := by
    rw [verbatim_name writer h]
    exact h.no_quote
  exact differ ((verbatim_name writer h).symm.trans (ends.eq plain).symm)

variable {writer : Writer sys.cs} {large_data : List (Bytes × Bytes)}

/-- What was filled before does not matter for what stands before a field. -/
theorem emptyField_fill_iff (h : ∀ e ∈ large_data, Placeholder sys response e.1 e.2)
    {done : List (Bytes × Bytes)} (part : ∀ e ∈ done, e ∈ large_data)
    {fields : List (Bytes × Value)}
    (hresult : response.result = some (.object fields)) {name : Bytes} {e : Bytes × Value}
    (he : e ∈ fields_up_to name (.object fields)) :
    EmptyField name (Json.field_lexeme (writer.name e.1, writer.json (fill_field done e).2)) ↔
      EmptyField name (Json.field_lexeme (writer.name e.1, writer.json e.2)) := by
  have differ : e.1 ≠ name := by simpa using List.mem_takeWhile_imp he
  cases found : done.lookup e.1 with
  | none => rw [fill_field, found, Option.elim_none]
  | some data =>
    obtain ⟨first, last, rfl, -⟩ := List.lookup_eq_some_iff.mp found
    have placeholder := h _ (part _ (List.mem_append_right first List.mem_cons_self))
    obtain ⟨other_fields, other_result, held⟩ := placeholder.held
    cases hresult.symm.trans other_result
    have value := Std.ExtTreeMap.mem_toList_iff_getElem?_eq_some.mp
      (show (e.1, e.2) ∈ _ from (List.takeWhile_prefix _).subset he)
    have same : e.2 = .string [] := Option.some_inj.mp (value.symm.trans held)
    rw [fill_field, found, same]
    exact iff_of_false (not_emptyField_other writer placeholder.plain_name differ)
      (not_emptyField_other writer placeholder.plain_name differ)

/-- The step from one field of data to the next. -/
theorem next_field (writer : Writer sys.cs) (h : ∀ e ∈ large_data, Placeholder sys response e.1 e.2)
    {done rest : List (Bytes × Bytes)} {name data : Bytes}
    (shape : large_data = done ++ (name, data) :: rest)
    (names : (large_data.map Prod.fst).Nodup) :
    ∃ before after, Opened before ∧ Closed after ∧
      (EmptyField name before ↔ ¬ Clear sys writer response name) ∧
      lexemes_of writer response done =
        before ++ (field (writer.name name) empty ++ after) ∧
      lexemes_of writer response (done ++ [(name, data)]) =
        before ++ (field (writer.name name) (writer.string data) ++ after) := by
  have part : ∀ e ∈ done, e ∈ large_data := fun e he => shape ▸ List.mem_append_left _ he
  have fresh : done.lookup name = none := by
    rw [shape, List.map_append, List.map_cons, List.nodup_append] at names
    rw [List.lookup_eq_none_iff]
    intro e he
    simpa using (names.2.2 e.1 (List.mem_map_of_mem he) name List.mem_cons_self).symm
  obtain ⟨fields, hresult, held⟩ := (h (name, data) (by simp [shape])).held
  obtain ⟨before, after, opened, closed, empties, lexemes⟩ :=
    response_lexemes writer hresult held done
  refine ⟨before, after, opened, closed, ?_, ?_, ?_⟩
  · rw [empties name]
    have unfilled : (∃ e ∈ fields_up_to name (.object fields),
        EmptyField name (Json.field_lexeme (writer.name e.1, writer.json (fill_field done e).2))) ↔
        ∃ e ∈ fields_up_to name (.object fields),
          EmptyField name (Json.field_lexeme (writer.name e.1, writer.json e.2)) :=
      exists_congr fun e => and_congr_right fun he => emptyField_fill_iff h part hresult he
    rw [unfilled, Clear, hresult]
    simp only [Option.some_inj, forall_eq', not_and_or, not_forall, not_not, exists_prop]
  · refine (lexemes done fun _ _ => rfl).trans ?_
    rw [fill_field, fresh, Option.elim_none, Writer.json, string_nil]
    rfl
  · have later (key : Bytes) (differ : key ≠ name) :
        (done ++ [(name, data)]).lookup key = done.lookup key := by
      have other : List.lookup key [(name, data)] = none := by
        rw [List.lookup_eq_none_iff]
        simpa using differ
      rw [List.lookup_append, other, Option.or_none]
    refine (lexemes (done ++ [(name, data)]) later).trans ?_
    have found : (done ++ [(name, data)]).lookup name = some data := by
      rw [List.lookup_append, fresh]
      simp
    rw [fill_field, found, Option.elim_some, Writer.json]
    rfl

/-- Filling one field after the other, from a text. -/
def fill_rest (sys : Platform) (rest : List (Bytes × Bytes)) (line : Bytes) : Bytes :=
  rest.foldl (fun json_string e => add_large_data_to_json sys json_string e.1 e.2) line

/-- Data in a field is never replaced. -/
theorem filled_stays (writer : Writer sys.cs) {rest : List (Bytes × Bytes)}
    (h : ∀ e ∈ rest, Verbatim sys.cs e.1 ∧ Verbatim sys.cs e.2)
    {lexemes : List (Lexeme (json_alphabet sys.cs))} (apart : Apart lexemes) {n : ℕ}
    {data : Literal (json_alphabet sys.cs)} (held : lexemes[n]? = some (.string data))
    (nonempty : data ≠ empty) :
    ∃ final, fill_rest sys rest (text lexemes) = text final ∧ final[n]? = some (.string data) := by
  induction rest generalizing lexemes with
  | nil => exact ⟨lexemes, rfl, held⟩
  | cons e rest ih =>
    rw [List.forall_mem_cons] at h
    have body : (writer.string e.2).body = e.2 := writer.string_verbatim e.2 h.1.2
    rcases add_large_data_spec sys apart h.1.1.no_quote (writer.string e.2) with
      ⟨-, same⟩ | ⟨first, name, last, found, filled⟩
    · obtain ⟨final, filled, kept⟩ := ih h.2 apart held
      refine ⟨final, ?_, kept⟩
      rw [body] at same
      rw [fill_rest, List.foldl_cons, same]
      exact filled
    · obtain rfl := found.shape
      have other : n ≠ first.length + 2 := by
        rintro rfl
        rw [(getElem?_field first last name empty).2.2, Option.some_inj] at held
        cases held
        exact nonempty rfl
      obtain ⟨final, rest_filled, kept⟩ := ih h.2 (apart.refill (writer.string e.2))
        ((getElem?_refill other).trans held)
      refine ⟨final, ?_, kept⟩
      rw [body] at filled
      rw [fill_rest, List.foldl_cons, filled]
      exact rest_filled

/-- A field with an empty string that is none of the fields of the data stays as it is in the
response. -/
theorem empty_stays (h : ∀ e ∈ large_data, Placeholder sys response e.1 e.2)
    (names : (large_data.map Prod.fst).Nodup) {done rest : List (Bytes × Bytes)}
    (shape : large_data = done ++ rest) {n : ℕ} {name : Literal (json_alphabet sys.cs)}
    (other : ∀ e ∈ rest, name ≠ writer.name e.1)
    (held : (lexemes_of writer response done)[n]? = some (.string name) ∧
      (lexemes_of writer response done)[n + 1]? = some (.mark .colon) ∧
      (lexemes_of writer response done)[n + 2]? = some (.string empty)) :
    (lexemes_of writer response (done ++ rest))[n + 2]? = some (.string empty) := by
  induction rest generalizing done with
  | nil =>
    rw [List.append_nil]
    exact held.2.2
  | cons e rest ih =>
    rw [List.forall_mem_cons] at other
    obtain ⟨before, after, opened, closed, -, here, next⟩ :=
      next_field writer h shape names
    rw [here] at held
    have not_name : n ≠ before.length := by
      rintro rfl
      rw [(getElem?_field before after (writer.name e.1) empty).1] at held
      exact other.1 (by cases held.1; rfl)
    have not_colon : n + 1 ≠ before.length + 2 := by
      intro same
      rw [same, (getElem?_field before after (writer.name e.1) empty).2.2] at held
      cases held.2.1
    have not_value : n ≠ before.length + 2 := by
      rintro rfl
      obtain ⟨m, more, rfl, not_colon⟩ := closed
      have follows : (before ++ (field (writer.name e.1) empty ++ .mark m :: more))[
          before.length + 2 + 1]? = some (.mark m) := by
        rw [Nat.add_assoc, List.getElem?_append_right (Nat.le_add_right _ _),
          Nat.add_sub_cancel_left]
        rfl
      rw [follows] at held
      cases held.2.1
      exact not_colon rfl
    have shape' : large_data = (done ++ [e]) ++ rest := by simp [shape]
    rw [List.append_cons]
    apply ih shape' other.2
    rw [next]
    exact ⟨(getElem?_refill not_value).trans held.1, (getElem?_refill not_colon).trans held.2.1,
      (getElem?_refill fun same => not_name (by omega)).trans held.2.2⟩

/-- Data without a character changes nothing. -/
theorem add_nothing {name : Bytes} (h : Verbatim sys.cs name)
    {lexemes : List (Lexeme (json_alphabet sys.cs))} (apart : Apart lexemes) :
    add_large_data_to_json sys (text lexemes) name [] = text lexemes := by
  have nothing : (empty : Literal (json_alphabet sys.cs)).body = [] := rfl
  rcases add_large_data_spec sys apart h.no_quote empty with
    ⟨-, same⟩ | ⟨first, found, last, shape, filled⟩
  · rwa [nothing] at same
  · rwa [nothing, ← shape.shape] at filled

theorem fill_rest_iff (h : ∀ e ∈ large_data, Placeholder sys response e.1 e.2)
    (names : (large_data.map Prod.fst).Nodup) {done rest : List (Bytes × Bytes)}
    (shape : large_data = done ++ rest) :
    fill_rest sys rest (text (lexemes_of writer response done)) =
        text (lexemes_of writer response (done ++ rest)) ↔
      ∀ e ∈ rest, e.2 ≠ [] → Clear sys writer response e.1 := by
  induction rest generalizing done with
  | nil =>
    rw [List.append_nil]
    exact iff_of_true rfl fun e he => absurd he List.not_mem_nil
  | cons e rest ih =>
    obtain ⟨before, after, opened, closed, hidden, here, next⟩ :=
      next_field writer h shape names
    have placeholder := h e (shape ▸ List.mem_append_right done List.mem_cons_self)
    have apart : Apart (lexemes_of writer response done) := Json.apart _
    have shape' : large_data = (done ++ [e]) ++ rest := by simp [shape]
    have body := writer.string_verbatim e.2 placeholder.plain_data
    have name_body := verbatim_name writer placeholder.plain_name
    rw [List.forall_mem_cons, ← ih shape', List.append_cons done e rest, fill_rest, List.foldl_cons,
      ← fill_rest]
    by_cases right : e.2 = [] ∨ Clear sys writer response e.1
    · have filled : add_large_data_to_json sys (text (lexemes_of writer response done)) e.1 e.2 =
          text (lexemes_of writer response (done ++ [e])) := by
        rcases right with nothing | clear
        · have same : lexemes_of writer response (done ++ [e]) =
              lexemes_of writer response done := by
            rw [here, next, nothing, string_nil]
          rw [same, nothing]
          exact add_nothing placeholder.plain_name apart
        · rw [here] at apart
          have found := fills_target apart
            (by rw [name_body]; exact placeholder.plain_name.no_quote) opened
            (by rw [name_body, hidden]; exact not_not.mpr clear) (writer.string e.2)
          rw [name_body, body] at found
          rw [here, next]
          exact found
      rw [filled]
      exact (and_iff_right fun data => right.resolve_left data).symm
    · obtain ⟨data, unclear⟩ := not_or.mp right
      refine iff_of_false (fun same => ?_) fun both => unclear (both.1 data)
      rw [here] at apart same
      obtain ⟨first, name, last, found, ends, shorter, missed⟩ := misses_target apart
        (by rw [name_body]; exact placeholder.plain_name.no_quote)
        (by rw [name_body, hidden]; exact unclear) (writer.string e.2)
      rw [name_body] at ends
      rw [name_body, body] at missed
      rw [missed] at same
      have nonempty : writer.string e.2 ≠ empty := by
        intro nothing
        rw [nothing] at body
        exact data body.symm
      rw [found] at apart
      have later (e' : Bytes × Bytes) (he' : e' ∈ rest) : Placeholder sys response e'.1 e'.2 :=
        h e' (shape ▸ List.mem_append_right done (List.mem_cons_of_mem e he'))
      obtain ⟨final, filled, kept⟩ := filled_stays writer
        (fun e' he' => ⟨(later e' he').plain_name, (later e' he').plain_data⟩)
        (apart.refill (writer.string e.2)) (getElem?_field first last name _).2.2 nonempty
      have final_eq := text_injective (filled.symm.trans same)
      have differ : ∀ e' ∈ rest, name ≠ writer.name e'.1 := by
        rintro e' he' rfl
        have plain := verbatim_name writer (later e' he').plain_name
        have equal := ends.eq (by rw [plain]; exact (later e' he').plain_name.no_quote)
        rw [plain] at equal
        rw [shape, List.map_append, List.nodup_append, List.map_cons, List.nodup_cons] at names
        exact names.2.1.1 (equal ▸ List.mem_map_of_mem he')
      have held := getElem?_field first last name empty
      rw [← found] at held
      have untouched := empty_stays h names shape' differ (n := first.length)
        (by
          rw [next]
          exact ⟨(getElem?_refill (by omega)).trans held.1,
            (getElem?_refill (by omega)).trans held.2.1,
            (getElem?_refill (by omega)).trans held.2.2⟩)
      rw [final_eq, untouched, Option.some_inj] at kept
      injection kept with value
      exact nonempty value.symm

theorem json_filled_nil (writer : Writer sys.cs) (response : RpcResponse) :
    writer.json (rpc_response_to_json sys (response.filled [])) =
      writer.json (rpc_response_to_json sys response) := by
  have inner (fields : List (Bytes × Value)) :
      writer.json (filled [] (.object fields)) = writer.json (.object fields) := by
    have kept : fill_field [] = id := rfl
    rw [filled, json_object, ← filled, filled_fields, kept, List.map_id, json_object]
  cases hresult : response.result with
  | none => rw [RpcResponse.filled, hresult, Option.map_none, ← hresult]
  | some result =>
    have unchanged (h : filled [] result = result) : response.filled [] = response := by
      rw [RpcResponse.filled, hresult, Option.map_some, h, ← hresult]
    cases result with
    | object fields =>
      have held : (rpc_response_to_json sys response).as_object[sys.cs.str "result"]? =
          some (.object fields) := by
        rw [as_object_result hresult, Std.ExtTreeMap.getElem?_insert_self]
      obtain ⟨after, shape, -, inserted⟩ := toList_split held
      generalize List.takeWhile _ _ = before at shape inserted
      have first := (json_object writer _).trans (congrArg (fun l => Json.object (written writer l))
        ((congrArg Std.ExtTreeMap.toList (@result_filled sys _ _ [] hresult)).trans
          (inserted (filled [] (.object fields)))))
      have second := (json_object writer _).trans
        (congrArg (fun l => Json.object (written writer l)) shape)
      refine first.trans (Eq.trans ?_ second.symm)
      simp [written, inner]
    | null | bool _ | integer _ | double _ | string _ | array _ => rw [unchanged rfl]

/-- The line is the compact text of the response with the data in its result. -/
def Splices (sys : Platform) (writer : Writer sys.cs) (response : RpcResponse)
    (context : MiddlewareContext) : Prop :=
  response_line sys response context = .ok (writer.json (rpc_response_to_json sys
    (response.filled context.get_large_data.toList))).render

/-- The data is where it belongs when no field before it can be taken for its own. -/
theorem splices_iff (sys : Platform) (writer : Writer sys.cs) (emits : writer.Emits)
    (response : RpcResponse) (context : MiddlewareContext)
    (h : ∀ e ∈ context.get_large_data.toList, Placeholder sys response e.1 e.2) :
    Splices sys writer response context ↔
      ∀ e ∈ context.get_large_data.toList, e.2 ≠ [] → Clear sys writer response e.1 := by
  have line : response_line sys response context = .ok (fill_rest sys context.get_large_data.toList
      (text (lexemes_of writer response []))) := by
    have serialized : to_string sys (rpc_response_to_json sys response) =
        .ok (writer.json (rpc_response_to_json sys response)).render := emits _ rfl
    rw [response_line, serialized, lexemes_of, json_filled_nil]
    rfl
  rw [Splices, line, Except.ok.injEq]
  exact fill_rest_iff h toList_keys_nodup (List.nil_append _).symm

end

/-! A serializer that escapes strings as the encoder does. -/

theorem body_escape_char (cs : Charset) (c : UInt8) :
    Body (json_alphabet cs) (escape_char cs c) := by
  have pair (d : Char) : Body (json_alphabet cs) [cs.code '\\', cs.code d] := .escaped _ .nil
  have plain {d : UInt8} (quote : d ≠ cs.code '"') (escape : d ≠ cs.code '\\') :
      Body (json_alphabet cs) [d] := .char quote escape .nil
  have letter {d : Char} (h : d ∈ printable) (quote : d ≠ '"') (escape : d ≠ '\\') :
      Body (json_alphabet cs) [cs.code d] :=
    plain (cs.code_ne h (by decide) quote) (cs.code_ne h (by decide) escape)
  have f := letter (d := 'f') (by decide) (by decide) (by decide)
  have d := letter (d := 'd') (by decide) (by decide) (by decide)
  unfold escape_char
  split_ifs with quote escape
  · exact pair '"'
  · exact pair '\\'
  · exact pair 'b'
  · exact pair 'f'
  · exact pair 'n'
  · exact pair 'r'
  · exact pair 't'
  · exact (pair 'u').append (f.append (f.append (f.append d)))
  · exact plain quote escape

def escaped (cs : Charset) (text : Bytes) : Literal (json_alphabet cs) where
  body := escape_json_string cs text
  closed := by
    induction text with
    | nil => exact .nil
    | cons c text ih => exact (body_escape_char cs c).append ih

theorem escaped_verbatim (cs : Charset) (text : Bytes) (h : Verbatim cs text) :
    (escaped cs text).body = text := by
  have alone (c : UInt8) (hc : c ∈ text) : escape_char cs c = [c] := by
    obtain ⟨quote, escape, control⟩ := h c hc
    have other (d : Char) (hd : d ∈ escapes) : c ≠ cs.code d := by
      rintro rfl
      exact Bool.false_ne_true (control.symm.trans (cs.iscntrl_escapes d hd))
    have backspace := other '\x08' (by decide)
    have feed := other '\x0c' (by decide)
    have newline := other '\n' (by decide)
    have return_char := other '\r' (by decide)
    have tab := other '\t' (by decide)
    simp [escape_char, quote, escape, control, backspace, feed, newline, return_char, tab]
  calc text.flatMap (escape_char cs)
      = text.flatMap fun c => [c] := List.flatMap_congr alone
    _ = text := List.flatMap_singleton' text

def scalar_chars : List Char := "-+.0123456789Eaeflnrstu".toList

theorem scalar_char_ne {c : Char} (hc : c ∈ scalar_chars) :
    c ∈ printable ∧ c ≠ '"' ∧ c ≠ '\\' ∧ (∀ m, c ≠ mark_char m) ∧ c ≠ ' ' := by
  have apart : ∀ c ∈ scalar_chars, c ∈ printable ∧ c ≠ '"' ∧ c ≠ '\\' ∧
      c ∉ ['{', '}', '[', ']', ',', ':'] ∧ c ≠ ' ' := by decide +kernel
  obtain ⟨visible, quote, escape, marks, space⟩ := apart c hc
  refine ⟨visible, quote, escape, fun m same => marks ?_, space⟩
  rw [same]
  cases m <;> decide

abbrev ScalarChar : Type := {c : Char // c ∈ scalar_chars}

/-- The text of a number or a name. -/
def scalar_of (cs : Charset) (chars : List ScalarChar) (h : chars ≠ []) :
    Scalar (json_alphabet cs) where
  text := chars.map fun c : ScalarChar =>
    { char := cs.code c
      ne_quote := cs.code_ne (scalar_char_ne c.2).1 (by decide) (scalar_char_ne c.2).2.1
      ne_escape := cs.code_ne (scalar_char_ne c.2).1 (by decide) (scalar_char_ne c.2).2.2.1
      ne_mark := fun m => cs.code_ne (scalar_char_ne c.2).1 (mark_char_printable m)
        ((scalar_char_ne c.2).2.2.2.1 m) }
  nonempty := fun none => h (List.map_eq_nil_iff.mp none)
  black := by
    intro c hc
    obtain ⟨d, -, rfl⟩ := List.mem_map.mp hc
    refine decide_eq_false fun inside => ?_
    obtain ⟨space, hspace, same⟩ := List.mem_map.mp inside
    exact json_space_ne cs hspace (scalar_char_ne d.2).1 (scalar_char_ne d.2).2.2.2.2 same

def scalar_digits : List ScalarChar :=
  [⟨'0', by decide⟩, ⟨'1', by decide⟩, ⟨'2', by decide⟩, ⟨'3', by decide⟩, ⟨'4', by decide⟩,
    ⟨'5', by decide⟩, ⟨'6', by decide⟩, ⟨'7', by decide⟩, ⟨'8', by decide⟩, ⟨'9', by decide⟩]

/-- The digits of a number, the last one after the others. -/
def number_chars (n : ℕ) : List ScalarChar :=
  (Nat.digits 10 (n / 10)).reverse.map (scalar_digits.getD · ⟨'0', by decide⟩) ++
    [scalar_digits.getD (n % 10) ⟨'0', by decide⟩]

/-- No `double` is written below. -/
def compact_writer (cs : Charset) : Writer cs where
  name := escaped cs
  string := escaped cs
  scalar
    | .bool true => scalar_of cs [⟨'t', by decide⟩, ⟨'r', by decide⟩, ⟨'u', by decide⟩,
        ⟨'e', by decide⟩] (by simp)
    | .bool false => scalar_of cs [⟨'f', by decide⟩, ⟨'a', by decide⟩, ⟨'l', by decide⟩,
        ⟨'s', by decide⟩, ⟨'e', by decide⟩] (by simp)
    | .integer (.ofNat n) => scalar_of cs (number_chars n) (by simp [number_chars])
    | .integer (.negSucc n) => scalar_of cs (⟨'-', by decide⟩ :: number_chars (n + 1)) (by simp)
    | _ => scalar_of cs [⟨'n', by decide⟩, ⟨'u', by decide⟩, ⟨'l', by decide⟩, ⟨'l', by decide⟩]
        (by simp)
  name_verbatim := escaped_verbatim cs
  string_verbatim := escaped_verbatim cs

/-- Nothing here reads a text. -/
def writing_platform : Platform where
  cs := ibm1047
  from_str _ := .error ⟨.Custom, ibm1047.str "Failed to parse JSON string"⟩
  serialize value := .ok ((compact_writer ibm1047).json value).render
  print_double _ := []
  tmpdir := none
  geteuid := 0
  getpid := 1
  unlink _ := some 129
  mkfifo _ := none
  ENOENT := 129

theorem writing_platform_emits : Writer.Emits writing_platform (compact_writer ibm1047) :=
  fun _ _ => rfl

/-- The response to request 1 with these fields in its result. -/
def response_of (fields : List (Bytes × Value)) : RpcResponse :=
  ⟨some (.object fields), none, some 1⟩

def data_context : MiddlewareContext where
  command_path := ibm1047.str "readFile"
  args := ∅
  large_data := [(ibm1047.str "data", ibm1047.str "QUJD")]

theorem splices_iff_clear :
    Splices writing_platform (compact_writer ibm1047)
        (response_of [(ibm1047.str "data", .string [])]) data_context ↔
      ∀ e ∈ data_context.get_large_data.toList, e.2 ≠ [] →
        Clear writing_platform (compact_writer ibm1047)
          (response_of [(ibm1047.str "data", .string [])]) e.1 := by
  apply splices_iff writing_platform (compact_writer ibm1047) writing_platform_emits
  intro e he
  have only : data_context.get_large_data.toList =
      [(ibm1047.str "data", ibm1047.str "QUJD")] := rfl
  rw [only, List.mem_singleton] at he
  subst he
  exact ⟨forall_mem_of_all (by decide +kernel), forall_mem_of_all (by decide +kernel), _, rfl, rfl⟩

/-- The first field of the name is in a nested object, and the data goes there. -/
theorem nested_field_filled :
    ¬ Splices writing_platform (compact_writer ibm1047)
      (response_of [(ibm1047.str "attributes", .object [(ibm1047.str "data", .string [])]),
        (ibm1047.str "data", .string [])]) data_context := by
  intro same
  exact absurd (congrArg Except.toOption same) (by decide +kernel)

end Zowex.server

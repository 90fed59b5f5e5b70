import Zowex.Spec.Indentation

/-! An indented text has the lexemes of the text it is made of, with white space between them. -/

namespace Zowex.zjson

open JsonText

variable {cs : Charset} {spaces : ℕ}

/-- From `s` the text is read up to `t`, and the level is not negative on the way. -/
structure Passes (cs : Charset) (spaces : ℕ) (s : Indentation) (read : Bytes) (t : Indentation) :
    Prop where
  scanned : s.scan cs spaces read = some t
  level : ∀ part, part <+: read → ∃ u, s.scan cs spaces part = some u ∧ 0 ≤ u.indent_level

namespace Passes

variable {s t u : Indentation} {first second : Bytes} {c : UInt8}

theorem nil (h : 0 ≤ s.indent_level) : Passes cs spaces s [] s where
  scanned := rfl
  level part hpart := ⟨s, by rw [List.prefix_nil.mp hpart]; rfl, h⟩

theorem cons (h : 0 ≤ s.indent_level) (hc : s.step cs spaces c = some t)
    (rest : Passes cs spaces t first u) : Passes cs spaces s (c :: first) u where
  scanned := by
    rw [Indentation.scan, List.foldlM_cons, hc]
    exact rest.scanned
  level part hpart := by
    rcases part with _ | ⟨d, part⟩
    · exact ⟨s, rfl, h⟩
    · obtain ⟨rfl, hrest⟩ := List.cons_prefix_cons.mp hpart
      obtain ⟨v, hv, level⟩ := rest.level part hrest
      refine ⟨v, ?_, level⟩
      rw [Indentation.scan, List.foldlM_cons, hc]
      exact hv

theorem append (h : Passes cs spaces s first t) (rest : Passes cs spaces t second u) :
    Passes cs spaces s (first ++ second) u where
  scanned := by
    rw [Indentation.scan, List.foldlM_append, ← Indentation.scan, h.scanned]
    exact rest.scanned
  level part hpart := by
    rcases List.prefix_or_prefix_of_prefix hpart (List.prefix_append first second) with
      inside | past
    · exact h.level part inside
    · obtain ⟨more, rfl⟩ := past
      obtain ⟨v, hv, level⟩ := rest.level more ((List.prefix_append_right_inj first).mp hpart)
      refine ⟨v, ?_, level⟩
      rw [Indentation.scan, List.foldlM_append, ← Indentation.scan, h.scanned]
      exact hv

theorem single (hs : 0 ≤ s.indent_level) (ht : 0 ≤ t.indent_level)
    (hc : s.step cs spaces c = some t) : Passes cs spaces s [c] t :=
  cons hs hc (nil ht)

end Passes

/-! Inside of strings. -/

theorem passes_body {body : Bytes} (h : Body (json_alphabet cs) body) (result : Bytes) {n : ℤ}
    (hn : 0 ≤ n) :
    Passes cs spaces ⟨result, n, true, false⟩ body ⟨result ++ body, n, true, false⟩ := by
  induction h generalizing result with
  | nil =>
    rw [List.append_nil]
    exact .nil hn
  | @char c body quote escape h ih =>
    have step : Indentation.step cs spaces ⟨result, n, true, false⟩ c =
        some ⟨result ++ [c], n, true, false⟩ := by
      have no_escape : c ≠ cs.code '\\' := escape
      have no_quote : c ≠ cs.code '"' := quote
      simp [Indentation.step, no_escape, no_quote, Indentation.write]
    rw [List.append_cons]
    exact .cons hn step (ih (result ++ [c]))
  | @escaped c body h ih =>
    have slash : Indentation.step cs spaces ⟨result, n, true, false⟩ (cs.code '\\') =
        some ⟨result ++ [cs.code '\\'], n, true, true⟩ := by
      simp [Indentation.step, Indentation.write]
    have taken : Indentation.step cs spaces ⟨result ++ [cs.code '\\'], n, true, true⟩ c =
        some ⟨result ++ [cs.code '\\', c], n, true, false⟩ := by
      simp [Indentation.step, Indentation.write]
    have read := ih (result ++ [cs.code '\\', c])
    rw [List.append_assoc] at read
    exact .cons hn slash (.cons hn taken read)

theorem passes_string (value : Literal (json_alphabet cs)) (result : Bytes) {n : ℤ} (hn : 0 ≤ n) :
    Passes cs spaces ⟨result, n, false, false⟩ (Lexeme.string value).text
      ⟨result ++ (Lexeme.string value).text, n, false, false⟩ := by
  have opened : Indentation.step cs spaces ⟨result, n, false, false⟩ (cs.code '"') =
      some ⟨result ++ [cs.code '"'], n, true, false⟩ := by
    have no_escape : cs.code '"' ≠ cs.code '\\' := cs.code_ne (by decide) (by decide) (by decide)
    simp [Indentation.step, Indentation.write]
  have closed : Indentation.step cs spaces ⟨result ++ [cs.code '"'] ++ value.body, n, true, false⟩
      (cs.code '"') =
      some ⟨result ++ [cs.code '"'] ++ value.body ++ [cs.code '"'], n, false, false⟩ := by
    have no_escape : cs.code '"' ≠ cs.code '\\' := cs.code_ne (by decide) (by decide) (by decide)
    simp [Indentation.step, no_escape, Indentation.write]
  have read := (passes_body value.closed (result ++ [cs.code '"']) hn).append
    (.single hn hn closed)
  have shape : result ++ (Lexeme.string value).text =
      result ++ [cs.code '"'] ++ value.body ++ [cs.code '"'] := by
    rw [List.append_assoc, List.append_assoc]
    rfl
  rw [shape]
  exact .cons hn opened read

/-! Outside of strings. -/

theorem append_blanks_eq (cs : Charset) (spaces : ℕ) (s : Indentation) (h : 0 ≤ s.indent_level) :
    ∃ blanks, s.append_blanks cs spaces = some (s.write blanks) ∧
      ∀ c ∈ blanks, (json_alphabet cs).white c = true := by
  have width : 0 ≤ s.indent_level * spaces := mul_nonneg h (Int.natCast_nonneg spaces)
  refine ⟨_, if_pos width, fun c hc => ?_⟩
  rw [List.eq_of_mem_replicate hc]
  exact decide_eq_true (List.mem_map_of_mem (by decide))

theorem newline_white : (json_alphabet cs).white (cs.code '\n') = true :=
  decide_eq_true (List.mem_map_of_mem (by decide))

theorem space_white : (json_alphabet cs).white (cs.code ' ') = true :=
  decide_eq_true (List.mem_map_of_mem (by decide))

/-- White characters before and after a lexeme that is not white. -/
theorem spread {before after : Bytes} {lexeme : Lexeme (json_alphabet cs)}
    (black : lexeme.is_white = false)
    (hbefore : ∀ c ∈ before, (json_alphabet cs).white c = true)
    (hafter : ∀ c ∈ after, (json_alphabet cs).white c = true) :
    ∃ out, text out = before ++ lexeme.text ++ after ∧
      out.filter (fun l => !l.is_white) = [lexeme] := by
  obtain ⟨first, rfl, hfirst⟩ := white_text hbefore
  obtain ⟨last, rfl, hlast⟩ := white_text hafter
  have none_kept {l : List (Lexeme (json_alphabet cs))} (h : ∀ lexeme ∈ l, lexeme.is_white = true) :
      l.filter (fun l => !l.is_white) = [] := by
    rw [List.filter_eq_nil_iff]
    intro lexeme hl
    simp [h lexeme hl]
  refine ⟨first ++ (lexeme :: last), by simp, ?_⟩
  rw [List.filter_append, none_kept hfirst, List.nil_append,
    List.filter_cons_of_pos (by simp [black]), none_kept hlast]

/-- The lexemes are read outside of strings, the level changes by `d`, and only white space is
written beside them. -/
def Moves (cs : Charset) (spaces : ℕ) (d : ℤ) (lexemes : List (Lexeme (json_alphabet cs))) : Prop :=
  ∀ (result : Bytes) (n : ℤ), 0 ≤ n → 0 ≤ n + d →
    ∃ out, out.filter (fun l => !l.is_white) = lexemes ∧
      Passes cs spaces ⟨result, n, false, false⟩ (text lexemes)
        ⟨result ++ text out, n + d, false, false⟩

/-- A character outside of strings that is read on its own. -/
theorem moves_char {lexeme : Lexeme (json_alphabet cs)} {c : UInt8} {d : ℤ}
    (black : lexeme.is_white = false) (char : lexeme.text = [c]) (quote : c ≠ cs.code '"')
    (h : ∀ (result : Bytes) (n : ℤ), 0 ≤ n + d → ∃ before after : Bytes,
      (∀ c ∈ before, (json_alphabet cs).white c = true) ∧
      (∀ c ∈ after, (json_alphabet cs).white c = true) ∧
      Indentation.structural cs spaces ⟨result, n, false, false⟩ c =
        some ⟨result ++ (before ++ [c] ++ after), n + d, false, false⟩) :
    Moves cs spaces d [lexeme] := by
  intro result n hn hd
  obtain ⟨before, after, hbefore, hafter, written⟩ := h result n hd
  obtain ⟨out, shape, kept⟩ := spread black hbefore hafter
  refine ⟨out, kept, ?_⟩
  rw [shape, text_cons, text_nil, List.append_nil, char]
  apply Passes.single hn hd
  rw [← written]
  simp [Indentation.step, quote]

theorem moves_plain (c : Plain (json_alphabet cs)) (black : (Lexeme.plain c).is_white = false) :
    Moves cs spaces 0 [.plain c] := by
  apply moves_char black rfl c.ne_quote
  intro result n hn
  refine ⟨[], [], by simp, by simp, ?_⟩
  have other (m : Mark) : c.char ≠ cs.code (mark_char m) := c.ne_mark m
  have open_object := other .open_object
  have close_object := other .close_object
  have open_array := other .open_array
  have close_array := other .close_array
  have comma := other .comma
  have colon := other .colon
  simp only [mark_char] at open_object close_object open_array close_array comma colon
  simp [Indentation.structural, Indentation.write, *]

theorem moves_string (value : Literal (json_alphabet cs)) :
    Moves cs spaces 0 [.string value] := by
  intro result n hn hd
  refine ⟨[.string value], rfl, ?_⟩
  rw [text_cons, text_nil, List.append_nil, add_zero]
  exact passes_string value result hn

theorem mark_ne {m k : Mark} (h : m ≠ k) : cs.code (mark_char m) ≠ cs.code (mark_char k) :=
  (json_alphabet cs).mark_injective.ne h

theorem not_opening {m : Mark} (object : m ≠ .open_object) (array : m ≠ .open_array) :
    ¬ (cs.code (mark_char m) = cs.code '{' ∨ cs.code (mark_char m) = cs.code '[') :=
  not_or.mpr ⟨mark_ne object, mark_ne array⟩

theorem not_closing {m : Mark} (object : m ≠ .close_object) (array : m ≠ .close_array) :
    ¬ (cs.code (mark_char m) = cs.code '}' ∨ cs.code (mark_char m) = cs.code ']') :=
  not_or.mpr ⟨mark_ne object, mark_ne array⟩

theorem moves_open {m : Mark} (h : m = .open_object ∨ m = .open_array) :
    Moves cs spaces 1 [.mark m] := by
  apply moves_char rfl rfl ((json_alphabet cs).mark_ne_quote m)
  intro result n hn
  obtain ⟨blanks, written, white⟩ := append_blanks_eq cs spaces
    ⟨result ++ [cs.code (mark_char m), cs.code '\n'], n + 1, false, false⟩ hn
  refine ⟨[], cs.code '\n' :: blanks, by simp, List.forall_mem_cons.mpr ⟨newline_white, white⟩, ?_⟩
  have opening : cs.code (mark_char m) = cs.code '{' ∨ cs.code (mark_char m) = cs.code '[' := by
    rcases h with rfl | rfl
    · exact .inl rfl
    · exact .inr rfl
  refine ((if_pos opening).trans written).trans ?_
  simp [Indentation.write, json_alphabet]

theorem moves_close {m : Mark} (h : m = .close_object ∨ m = .close_array) :
    Moves cs spaces (-1) [.mark m] := by
  apply moves_char rfl rfl ((json_alphabet cs).mark_ne_quote m)
  intro result n hn
  obtain ⟨blanks, written, white⟩ := append_blanks_eq cs spaces
    ⟨result ++ [cs.code '\n'], n + -1, false, false⟩ hn
  refine ⟨cs.code '\n' :: blanks, [], List.forall_mem_cons.mpr ⟨newline_white, white⟩, by simp, ?_⟩
  have opening : ¬ (cs.code (mark_char m) = cs.code '{' ∨ cs.code (mark_char m) = cs.code '[') := by
    rcases h with rfl | rfl
    · exact not_opening (by decide) (by decide)
    · exact not_opening (by decide) (by decide)
  have closing : cs.code (mark_char m) = cs.code '}' ∨ cs.code (mark_char m) = cs.code ']' := by
    rcases h with rfl | rfl
    · exact .inl rfl
    · exact .inr rfl
  refine ((if_neg opening).trans (if_pos closing)).trans ?_
  refine (congrArg (Option.map _) written).trans ?_
  simp [Indentation.write, json_alphabet]

theorem moves_comma : Moves cs spaces 0 [.mark .comma] := by
  apply moves_char rfl rfl ((json_alphabet cs).mark_ne_quote .comma)
  intro result n hn
  rw [add_zero] at hn ⊢
  obtain ⟨blanks, written, white⟩ := append_blanks_eq cs spaces
    ⟨result ++ [cs.code ',', cs.code '\n'], n, false, false⟩ hn
  refine ⟨[], cs.code '\n' :: blanks, by simp, List.forall_mem_cons.mpr ⟨newline_white, white⟩, ?_⟩
  refine ((if_neg (not_opening (by decide) (by decide))).trans
    ((if_neg (not_closing (by decide) (by decide))).trans (if_pos rfl))).trans ?_
  refine written.trans ?_
  simp [Indentation.write, json_alphabet, mark_char]

theorem moves_colon : Moves cs spaces 0 [.mark .colon] := by
  apply moves_char rfl rfl ((json_alphabet cs).mark_ne_quote .colon)
  intro result n hn
  rw [add_zero]
  refine ⟨[], [cs.code ' '], by simp, List.forall_mem_singleton.mpr space_white, ?_⟩
  refine ((if_neg (not_opening (by decide) (by decide))).trans
    ((if_neg (not_closing (by decide) (by decide))).trans
      ((if_neg (mark_ne (k := .comma) (by decide))).trans (if_pos rfl)))).trans ?_
  simp [Indentation.write, json_alphabet, mark_char]

theorem moves_flat {lexeme : Lexeme (json_alphabet cs)} (black : lexeme.is_white = false)
    (flat : lexeme.is_bracket = false) : Moves cs spaces 0 [lexeme] := by
  cases lexeme with
  | mark m =>
    cases m with
    | comma => exact moves_comma
    | colon => exact moves_colon
    | open_object | close_object | open_array | close_array => cases flat
  | plain c => exact moves_plain c black
  | string value => exact moves_string value

theorem Moves.append {first second : List (Lexeme (json_alphabet cs))} {d e : ℤ} (hd : 0 ≤ d)
    (h : Moves cs spaces d first) (more : Moves cs spaces e second) :
    Moves cs spaces (d + e) (first ++ second) := by
  intro result n hn hsum
  rw [← add_assoc] at hsum ⊢
  have middle : 0 ≤ n + d := add_nonneg hn hd
  obtain ⟨out, kept, read⟩ := h result n hn middle
  obtain ⟨rest, kept_rest, read_rest⟩ := more (result ++ text out) (n + d) middle hsum
  refine ⟨out ++ rest, by rw [List.filter_append, kept, kept_rest], ?_⟩
  rw [text_append, text_append, ← List.append_assoc]
  exact read.append read_rest

theorem moves_enclosed {first last : Lexeme (json_alphabet cs)}
    {inner : List (Lexeme (json_alphabet cs))} (opens : Moves cs spaces 1 [first])
    (h : Moves cs spaces 0 inner) (closes : Moves cs spaces (-1) [last]) :
    Moves cs spaces 0 (first :: (inner ++ [last])) := by
  have entered : Moves cs spaces (1 + 0) ([first] ++ inner) := opens.append zero_le_one h
  have left : Moves cs spaces (1 + 0 + -1) ([first] ++ inner ++ [last]) :=
    entered.append zero_le_one closes
  rw [List.append_assoc] at left
  exact left

/-- The induction is on how the lexemes are nested: what is enclosed is read one level further
in. -/
theorem moves_balanced (spaces : ℕ) {lexemes : List (Lexeme (json_alphabet cs))}
    (h : Balanced lexemes)
    (black : ∀ lexeme ∈ lexemes, lexeme.is_white = false) : Moves cs spaces 0 lexemes := by
  induction h with
  | nil =>
    intro result n hn _
    refine ⟨[], rfl, ?_⟩
    rw [text_nil, List.append_nil, add_zero]
    exact .nil hn
  | flat flat => exact moves_flat (black _ List.mem_cons_self) flat
  | append h more ih ih_more =>
    rw [List.forall_mem_append] at black
    exact (ih black.1).append le_rfl (ih_more black.2)
  | @array inner h ih =>
    rw [List.forall_mem_cons, List.forall_mem_append] at black
    exact moves_enclosed (moves_open (.inr rfl)) (ih black.2.1) (moves_close (.inr rfl))
  | @object inner h ih =>
    rw [List.forall_mem_cons, List.forall_mem_append] at black
    exact moves_enclosed (moves_open (.inl rfl)) (ih black.2.1) (moves_close (.inl rfl))

/-- The text is read to its end, the level is never negative and is zero at the end, outside of
strings; and the lexemes of what is written, white space apart, are those of the text. -/
structure Pretty (cs : Charset) (spaces : ℕ) (json : Json (json_alphabet cs)) (result : Bytes) :
    Prop where
  written : add_json_indentation cs spaces json.render = some result
  level : ∀ read, read <+: json.render → ∃ s, Indentation.scan cs spaces {} read = some s ∧
    0 ≤ s.indent_level
  closed : ∃ s, Indentation.scan cs spaces {} json.render = some s ∧ s.indent_level = 0 ∧
    s.in_string = false ∧ s.escape_next = false
  kept : ∃ lexemes, text lexemes = result ∧
    lexemes.filter (fun lexeme => !lexeme.is_white) = json.lexemes

theorem add_json_indentation_pretty (cs : Charset) (spaces : ℕ) (json : Json (json_alphabet cs)) :
    ∃ result, Pretty cs spaces json result := by
  obtain ⟨out, kept, read⟩ := moves_balanced spaces json.balanced json.no_white [] 0
    le_rfl le_rfl
  refine ⟨text out, ?_, read.level, ⟨_, read.scanned, rfl, rfl, rfl⟩, out, rfl, kept⟩
  exact congrArg (Option.map Indentation.result) read.scanned

end Zowex.zjson

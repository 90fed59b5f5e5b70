import Zowex.Proofs.IntLiterals
import Zowex.Proofs.Spans
import Zowex.Spec.Parser

/-! A word of a command line: how the lexer reads it, and what `classify_argument` makes of it. A
number is read as one token, which is taken for it. -/

namespace Zowex.lexer

open parser

variable {rt : Runtime}

theorem digit_ident {c : UInt8} (h : is_ascii_dec_digit rt c = true) :
    is_ident_cont rt c = true := by
  have hblank := dec_digit_ne rt h (by decide : ' ' ∈ printable) (by decide)
  unfold is_ascii_dec_digit at h
  obtain ⟨d, hd, rfl⟩ := List.mem_map.mp (of_decide_eq_true h)
  simp [is_ident_cont, is_ident_start, hblank, rt.iscntrl_printable d (dec_digits_printable hd)]

theorem digit_ne_nul {c : UInt8} (h : is_ascii_dec_digit rt c = true) : c ≠ 0 := by
  have hident := digit_ident h
  rintro rfl
  simp [is_ident_cont, is_ident_start, rt.iscntrl_nul] at hident

theorem digit_not_whitespace {c : UInt8} (h : is_ascii_dec_digit rt c = true) :
    is_whitespace rt c = false := by
  have hident := digit_ident h
  have hcntrl (a : Char) (ha : a ∈ escapes) : c ≠ rt.code a := by
    rintro rfl
    simp [is_ident_cont, is_ident_start, rt.iscntrl_escapes a ha] at hident
  have hblank := dec_digit_ne rt h (by decide : ' ' ∈ printable) (by decide)
  simp [is_whitespace, hblank, hcntrl '\t' (by decide), hcntrl '\n' (by decide),
    hcntrl '\r' (by decide)]

/-- Nothing is skipped before a digit. -/
theorem eat_digit {c : UInt8} (text : Bytes) (h : is_ascii_dec_digit rt c = true) :
    eat_whitespace_and_comments rt false (c :: text) = c :: text := by
  have hcomment := dec_digit_ne rt h (by decide : '#' ∈ printable) (by decide)
  rw [eat_whitespace_and_comments, digit_not_whitespace h, if_neg Bool.false_ne_true,
    if_neg (by simp [hcomment])]

theorem next_token_digit {c : UInt8} (text : Bytes) (h : is_ascii_dec_digit rt c = true) :
    next_token rt (c :: text) = lex_number rt (c :: text) := by
  have hnul := digit_ne_nul h
  have hne (a : Char) (ha : a ∈ ['*', '-', '"']) : c ≠ rt.code a :=
    dec_digit_ne rt h (by revert a; decide) (by revert a; decide)
  unfold next_token
  simp [hnul, hne '*' (by decide), hne '-' (by decide), hne '"' (by decide), h]

/-- A text that is read as one number. -/
theorem tokenize_number {c : UInt8} {text : Bytes} (h : is_ascii_dec_digit rt c = true)
    {token : Token} (htoken : token ≠ .TokEof)
    (hlex : lex_number rt (c :: text) = .ok (token, [])) :
    tokenize rt (c :: text) = .ok [token, .TokEof] := by
  rw [tokenize, lex_all, eat_digit text h, next_token_digit text h, hlex]
  dsimp only [bind, Except.bind]
  rw [if_neg htoken]
  rfl

theorem classify_digit {c : UInt8} {text : Bytes} (h : is_ascii_dec_digit rt c = true) :
    classify_argument rt (c :: text) = classify_literal_or_identifier rt (c :: text) := by
  have hne (a : Char) (ha : a ∈ ['-', '"', '\'']) : c ≠ rt.code a :=
    dec_digit_ne rt h (by revert a; decide) (by revert a; decide)
  rw [classify_argument]
  simp [is_quoted, hne '-' (by decide), hne '"' (by decide), hne '\'' (by decide)]

theorem nul_not_digit : is_ascii_dec_digit rt 0 = false := by
  by_contra h
  exact digit_ne_nul (Bool.eq_true_of_not_eq_false h) rfl

/-- Nothing follows a word. -/
theorem ends_word (digits : Bytes) : EndsLiteral rt .Dec digits [] := by
  have hcode (a : Char) (ha : a ∈ printable) : current [] ≠ rt.code a :=
    fun hnul => code_ne_nul ha hnul.symm
  have hexponent : is_exponent_mark rt (current []) = false := by
    simp [is_exponent_mark, hcode 'e' (by decide), hcode 'E' (by decide)]
  constructor
  · exact nul_not_digit
  · exact hcode '_' (by decide)
  · exact fun hpoint => absurd hpoint (hcode '.' (by decide))
  · exact fun hmark => absurd (hexponent.symm.trans hmark) Bool.false_ne_true
  · intro _ _ a ha
    exact hcode a (by revert a; decide)

/-- The digits of a word are those of its number. -/
theorem digit_value {c : UInt8} (h : is_ascii_dec_digit rt c = true) :
    ∃ d < 10, rt.hex_digit c = some d := by
  unfold is_ascii_dec_digit at h
  obtain ⟨a, ha, rfl⟩ := List.mem_map.mp (of_decide_eq_true h)
  have hdigit : ∀ a ∈ dec_digits, ∃ d < 10, a = Nat.digitChar d := by decide
  obtain ⟨d, hd, rfl⟩ := hdigit a ha
  exact ⟨d, hd, zds.hex_digit_char rt.toCharset (by omega)⟩

theorem number_lt {word : Bytes} (h : ∀ c ∈ word, is_ascii_dec_digit rt c = true) :
    number rt .Dec word < 10 ^ word.length := by
  have hlt : ∀ d ∈ (word.map fun c => (rt.hex_digit c).getD 0).reverse, d < 10 := by
    intro d hd
    obtain ⟨c, hc, rfl⟩ := List.mem_map.mp (List.mem_reverse.mp hd)
    obtain ⟨d, hlt, hvalue⟩ := digit_value (h c hc)
    rwa [hvalue]
  have hnumber := Nat.ofDigits_lt_base_pow_length (by decide) hlt
  rwa [List.length_reverse, List.length_map] at hnumber

/-- A short word of digits is taken for the number they write. -/
theorem classify_digits {c : UInt8} {more : Bytes} (hlength : more.length < 18)
    (h : ∀ d ∈ c :: more, is_ascii_dec_digit rt d = true) :
    classify_argument rt (c :: more) = .TokIntLit (number rt .Dec (c :: more)) .Dec := by
  have hc := h c List.mem_cons_self
  have hunderscore (d : UInt8) (hd : d ∈ c :: more) : d ≠ rt.code '_' :=
    dec_digit_ne rt (h d hd) (by decide) (by decide)
  have hliteral : LiteralDigits rt .Dec (c :: more) :=
    ⟨c, more, rfl, hc, fun d hd => .inl (h d (List.mem_cons_of_mem _ hd))⟩
  have hplain : ¬ ZeroUnderscore rt .Dec (c :: more) := by
    rintro ⟨-, rest, hrest⟩
    exact hunderscore (rt.code '_') (hrest ▸ by simp) rfl
  have hwithout : without_underscores rt (c :: more) = c :: more :=
    List.filter_eq_self.mpr fun d hd => decide_eq_true (hunderscore d hd)
  have hlex := lex_number_decimal rt hliteral (ends_word (c :: more)) hplain
  have hlt : number rt .Dec (c :: more) < 10 ^ 18 :=
    (number_lt h).trans_le (Nat.pow_le_pow_right (by decide) (by rw [List.length_cons]; omega))
  have hmax : ¬ LLONG_MAX < number rt .Dec (c :: more) := by
    rw [show LLONG_MAX = 2 ^ 63 - 1 from rfl]
    omega
  rw [hwithout, List.take_of_length_le (by rw [List.length_cons, capacity]; omega),
    make_int_number, if_neg hmax, List.append_nil] at hlex
  rw [classify_digit hc, classify_literal_or_identifier,
    tokenize_number hc (by simp) hlex]

/-! Words of any kind. -/

/-- A word has no blanks and no control characters. -/
def IsWord (rt : Runtime) (word : Bytes) : Prop := ∀ c ∈ word, is_ident_cont rt c = true

theorem ident_ne_nul {c : UInt8} (h : is_ident_cont rt c = true) : c ≠ 0 := by
  rintro rfl
  simp [is_ident_cont, is_ident_start, rt.iscntrl_nul] at h

theorem ident_not_whitespace {c : UInt8} (h : is_ident_cont rt c = true) :
    is_whitespace rt c = false := by
  have hcntrl (a : Char) (ha : a ∈ escapes) : c ≠ rt.code a := by
    rintro rfl
    simp [is_ident_cont, is_ident_start, rt.iscntrl_escapes a ha] at h
  have hblank : c ≠ rt.code ' ' := by
    rintro rfl
    simp [is_ident_cont, is_ident_start] at h
  simp [is_whitespace, hblank, hcntrl '\t' (by decide), hcntrl '\n' (by decide),
    hcntrl '\r' (by decide)]

/-- Nothing of a word is skipped. -/
theorem eat_word {word : Bytes} (h : IsWord rt word) :
    eat_whitespace_and_comments rt false word = word := by
  rcases word with _ | ⟨c, word⟩
  · rfl
  · have hwhite := ident_not_whitespace (h c List.mem_cons_self)
    have hcurrent : current word ≠ rt.code ' ' := by
      rcases word with _ | ⟨d, word⟩
      · exact fun hnul => code_ne_nul (by decide) hnul.symm
      · intro hblank
        have hd := h d (by simp)
        rw [current_cons] at hblank
        simp [is_ident_cont, is_ident_start, hblank] at hd
    rw [eat_whitespace_and_comments, hwhite, if_neg Bool.false_ne_true, if_neg (by simp [hcurrent])]

/-- There is a token in a word that is not empty. -/
theorem lex_all_ne_eof {c : UInt8} {word : Bytes} (h : IsWord rt (c :: word)) (n : ℕ) :
    lex_all rt (n + 1) (c :: word) ≠ .ok [.TokEof] := by
  intro hlex
  rw [lex_all, eat_word h] at hlex
  cases hnext : next_token rt (c :: word) with
  | error kind =>
    rw [hnext] at hlex
    cases hlex
  | ok next =>
    have htoken : next.1 ≠ .TokEof := by
      rcases next_token_spec hnext with ⟨hnul, -, -⟩ | ⟨htoken, -⟩
      · exact absurd hnul (ident_ne_nul (h c List.mem_cons_self))
      · exact htoken
    rw [hnext] at hlex
    dsimp only [bind, Except.bind] at hlex
    rw [if_neg htoken] at hlex
    cases hlater : lex_all rt n next.2 with
    | error kind =>
      rw [hlater] at hlex
      cases hlex
    | ok tokens =>
      rw [hlater] at hlex
      exact htoken (List.cons.inj (Except.ok.inj hlex)).1

/-- A word that the lexer reads as one token. -/
theorem tokenize_single {word : Bytes} (h : IsWord rt word) {token : Token}
    (htoken : token ≠ .TokEof) :
    tokenize rt word = .ok [token, .TokEof] ↔ next_token rt word = .ok (token, []) := by
  rw [tokenize, lex_all, eat_word h]
  cases hnext : next_token rt word with
  | error kind => exact iff_of_false (fun hlex => by cases hlex) fun hlex => by cases hlex
  | ok next =>
    obtain ⟨first, rest⟩ := next
    dsimp only [bind, Except.bind]
    rcases next_token_spec hnext with ⟨-, rfl, rfl⟩ | ⟨hfirst, hreads⟩
    · rw [if_pos rfl]
      refine iff_of_false (fun hlex => ?_) fun hlex => ?_
      · exact List.cons_ne_nil _ _ (List.cons.inj (Except.ok.inj hlex)).2.symm
      · exact htoken (Prod.mk.inj (Except.ok.inj hlex)).1.symm
    · rw [if_neg hfirst]
      obtain ⟨n, hn⟩ := Nat.exists_eq_succ_of_ne_zero
        ((Nat.zero_le rest.length).trans_lt hreads.shorter).ne'
      rw [hn]
      cases rest with
      | nil =>
        constructor
        · exact fun hlex => congrArg _ (Prod.ext (List.cons.inj (Except.ok.inj hlex)).1 rfl)
        · intro hlex
          rw [(Prod.mk.inj (Except.ok.inj hlex)).1]
          rfl
      | cons c rest =>
        have hmore := lex_all_ne_eof (fun d hd => h d (hreads.suffix.subset hd)) n
        refine iff_of_false (fun hlex => ?_) fun hlex => ?_
        · cases hlater : lex_all rt (n + 1) (c :: rest) with
          | error kind =>
            rw [hlater] at hlex
            cases hlex
          | ok tokens =>
            rw [hlater] at hlex hmore
            exact hmore (congrArg _ (List.cons.inj (Except.ok.inj hlex)).2)
        · cases hlex

/-- The tokens that a whole argument is taken for. -/
inductive IsLiteral : Token → Prop
  | int (value : ℕ) (base : Radix) : IsLiteral (.TokIntLit value base)
  | float (value : ℚ≥0) (has_exponent : Bool) : IsLiteral (.TokFloatLit value has_exponent)
  | true : IsLiteral .TokTrue
  | false : IsLiteral .TokFalse

theorem IsLiteral.ne_eof {token : Token} (h : IsLiteral token) : token ≠ .TokEof := by
  cases h <;> rintro ⟨⟩

theorem classify_literal {arg : Bytes} {token : Token} (h : IsLiteral token)
    (hlex : tokenize rt arg = .ok [token, .TokEof]) :
    classify_literal_or_identifier rt arg = token := by
  rw [classify_literal_or_identifier, hlex]
  cases h <;> rfl

theorem classify_cases (rt : Runtime) (arg : Bytes) :
    classify_literal_or_identifier rt arg = .TokId arg ∨
      ∃ token, IsLiteral token ∧ tokenize rt arg = .ok [token, .TokEof] ∧
        classify_literal_or_identifier rt arg = token := by
  unfold classify_literal_or_identifier
  split
  next value base hlex => exact .inr ⟨_, .int value base, hlex, rfl⟩
  next value has_exponent hlex => exact .inr ⟨_, .float value has_exponent, hlex, rfl⟩
  next hlex => exact .inr ⟨_, .true, hlex, rfl⟩
  next hlex => exact .inr ⟨_, .false, hlex, rfl⟩
  next => exact .inl rfl

/-- What neither looks like a flag nor has quotes around it. -/
structure IsPlain (rt : Runtime) (arg : Bytes) : Prop where
  flag : arg.length > 1 → arg.head? ≠ some (rt.code '-')
  quoted : is_quoted rt arg = false

theorem classify_plain {arg : Bytes} (h : IsPlain rt arg) :
    classify_argument rt arg = classify_literal_or_identifier rt arg := by
  rw [classify_argument, h.quoted, if_neg Bool.false_ne_true]
  rw [if_neg, if_neg]
  · simpa using h.flag
  · intro hlong
    simp only [Bool.and_eq_true, decide_eq_true_eq] at hlong
    exact h.flag (by omega) hlong.1.2

theorem next_token_ident {c : UInt8} (text : Bytes) (h : is_ident_cont rt c = true)
    (hdigit : is_ascii_dec_digit rt c = false)
    (hne : ∀ a ∈ ['*', '-', '"'], c ≠ rt.code a) :
    next_token rt (c :: text) = .ok (lex_identifier_or_keyword rt (c :: text)) := by
  have hnul := ident_ne_nul h
  unfold next_token
  simp [hnul, hne '*' (by decide), hne '-' (by decide), hne '"' (by decide), hdigit,
    show is_ident_start rt c = true from h]

theorem lex_digits_span {base : Radix} {text : Bytes} (h : rt.code '_' ∉ text) :
    lex_digits rt base text =
      (text.takeWhile (is_digit rt base), text.dropWhile (is_digit rt base)) := by
  induction text with
  | nil => rfl
  | cons c text ih =>
    rw [List.mem_cons, not_or] at h
    rw [lex_digits, if_neg (Ne.symm h.1), ih h.2]
    by_cases hdigit : is_digit rt base c = true
    · rw [if_pos hdigit, List.takeWhile_cons_of_pos hdigit, List.dropWhile_cons_of_pos hdigit]
    · rw [if_neg hdigit, List.takeWhile_cons_of_neg hdigit, List.dropWhile_cons_of_neg hdigit]

end Zowex.lexer

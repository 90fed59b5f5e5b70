import Zowex.Proofs.DsCommands
import Zowex.Proofs.Words
import Zowex.Spec.DsCommands

/-! Which e-tags lock. The text of a checksum as a word may look like a number in base 10, which is
printed again, or like a floating-point number, which is not read as an e-tag at all. -/

namespace Zowex.ds

open lexer parser plugin zds

variable {rt : Runtime}

/-! The text of a number in base 16. -/

theorem mem_hex_text {n : ℕ} {c : UInt8} (h : c ∈ hex_text rt.toCharset n) :
    ∃ d < 16, c = rt.code d.digitChar := by
  obtain ⟨digits, -, hlt, -, htext⟩ := hex_text_digits rt.toCharset n
  rw [htext] at h
  obtain ⟨d, hd, rfl⟩ := List.mem_map.mp h
  exact ⟨d, hlt d hd, rfl⟩

theorem not_mem_hex_text {a : Char} (ha : a ∈ printable) (h : ∀ d < 16, d.digitChar ≠ a) (n : ℕ) :
    rt.code a ∉ hex_text rt.toCharset n := by
  intro hmem
  obtain ⟨d, hd, heq⟩ := mem_hex_text hmem
  have hprint := (digit_char hd).1
  rw [rt.code_eq_iff (List.mem_append_left _ ha) (List.mem_append_left _ hprint)] at heq
  exact h d hd heq.symm

theorem hex_text_word (n : ℕ) : IsWord rt (hex_text rt.toCharset n) := by
  intro c hc
  obtain ⟨d, hd, rfl⟩ := mem_hex_text hc
  have hprint := (digit_char hd).1
  have hblank : rt.code d.digitChar ≠ rt.code ' ' := fun heq =>
    not_mem_hex_text (by decide) (by decide) n (heq ▸ hc)
  simp [is_ident_cont, is_ident_start, hblank, rt.iscntrl_printable _ hprint]

theorem hex_text_zero : hex_text rt.toCharset 0 = [rt.code '0'] := by
  rw [hex_text, Nat.toDigits_eq_if (by decide), if_pos (by decide)]
  rfl

/-- There are no zeros in front. -/
theorem current_hex_text {n : ℕ} (hn : n ≠ 0) :
    current (hex_text rt.toCharset n) ≠ rt.code '0' := by
  induction n using Nat.strong_induction_on with
  | _ n ih =>
    rw [hex_text, Nat.toDigits_eq_if (by decide)]
    split_ifs with hlt
    · have hprint := (digit_char hlt).1
      rw [List.map_singleton, current_cons, Ne, rt.code_eq_iff (List.mem_append_left _ hprint)
        (by decide)]
      clear ih hprint
      revert hn
      revert n
      decide
    · have hquot : n / 16 ≠ 0 := by omega
      have hhead := ih (n / 16) (by omega) hquot
      obtain ⟨c, rest, hcons⟩ := List.exists_cons_of_ne_nil (hex_text_ne_nil rt.toCharset (n / 16))
      rw [List.map_append, ← hex_text, hcons, List.cons_append, current_cons]
      rwa [hcons, current_cons] at hhead

theorem hex_text_plain (n : ℕ) : IsPlain rt (hex_text rt.toCharset n) := by
  have hmarks : ∀ a ∈ ['-', '"', '\''], a ∈ printable ∧ ∀ d < 16, d.digitChar ≠ a := by decide
  have hhead (a : Char) (ha : a ∈ ['-', '"', '\'']) :
      (hex_text rt.toCharset n).head? ≠ some (rt.code a) := fun hsome =>
    not_mem_hex_text (hmarks a ha).1 (hmarks a ha).2 n (List.mem_of_head? hsome)
  refine ⟨fun _ => hhead '-' (by decide), ?_⟩
  simp [is_quoted, hhead '"' (by decide), hhead '\'' (by decide)]

theorem hex_text_length {n : ℕ} (h : n < 2 ^ 32) : (hex_text rt.toCharset n).length ≤ 8 := by
  rw [hex_text, List.length_map, Nat.length_toDigits_le_iff (by decide) (by decide)]
  exact h

theorem number_concat (text : Bytes) (c : UInt8) : number rt .Dec (text ++ [c]) =
    10 * number rt .Dec text + (rt.hex_digit c).getD 0 := by
  rw [number, List.map_append, List.reverse_append, List.map_singleton, List.reverse_singleton,
    List.singleton_append, Nat.ofDigits_cons, Nat.add_comm]
  rfl

theorem dec_digit_lt {d : ℕ} (hd : d < 16)
    (h : is_ascii_dec_digit rt (rt.code d.digitChar) = true) : d < 10 := by
  obtain ⟨a, ha, hcode⟩ := List.mem_map.mp (of_decide_eq_true h)
  rw [rt.code_eq_iff (List.mem_append_left _ (dec_digits_printable ha))
    (List.mem_append_left _ (digit_char hd).1)] at hcode
  have hdigits : ∀ d < 16, d.digitChar ∈ dec_digits → d < 10 := by decide
  exact hdigits d hd (hcode ▸ ha)

/-- Where its digits are all in base 10, they write the same text as a number in base 10. -/
theorem decimal_text {n : ℕ} (h : ∀ c ∈ hex_text rt.toCharset n, is_ascii_dec_digit rt c = true) :
    hex_text rt.toCharset n =
      (Nat.toDigits 10 (number rt .Dec (hex_text rt.toCharset n))).map rt.code ∧
    (n ≠ 0 → number rt .Dec (hex_text rt.toCharset n) ≠ 0) := by
  induction n using Nat.strong_induction_on with
  | _ n ih =>
    have hvalue {d : ℕ} (hd : d < 16) : (rt.hex_digit (rt.code d.digitChar)).getD 0 = d := by
      rw [hex_digit_char rt.toCharset hd, Option.getD_some]
    have hif : hex_text rt.toCharset n = if n < 16 then [rt.code n.digitChar]
        else hex_text rt.toCharset (n / 16) ++ [rt.code (n % 16).digitChar] := by
      rw [hex_text, Nat.toDigits_eq_if (by decide)]
      split_ifs
      · rfl
      · rw [List.map_append, ← hex_text, List.map_singleton]
    split_ifs at hif with hsmall
    · have hlt : n < 10 := dec_digit_lt hsmall (h _ (by rw [hif]; exact List.mem_singleton_self _))
      have hnumber : number rt .Dec (hex_text rt.toCharset n) = n := by
        rw [hif, ← List.nil_append [rt.code n.digitChar], number_concat, hvalue hsmall]
        simp [number]
      rw [hnumber, hif, Nat.toDigits_of_lt_base hlt]
      exact ⟨rfl, id⟩
    · have hrest : n % 16 < 16 := Nat.mod_lt n (by decide)
      have hlast : n % 16 < 10 := dec_digit_lt hrest (h _ (by rw [hif]; simp))
      obtain ⟨htext, hpos⟩ := ih (n / 16) (by omega) fun c hc => h c (by rw [hif]; simp [hc])
      have hnumber : number rt .Dec (hex_text rt.toCharset n) =
          10 * number rt .Dec (hex_text rt.toCharset (n / 16)) + n % 16 := by
        rw [hif, number_concat, hvalue hrest]
      have hquot := hpos (by omega)
      have hdigits := Nat.toDigits_append_toDigits (by decide : 1 < 10)
        (Nat.pos_of_ne_zero hquot) hlast
      refine ⟨?_, fun _ => by rw [hnumber]; omega⟩
      rw [hnumber, ← hdigits, Nat.toDigits_of_lt_base hlast, List.map_append, ← htext, hif]
      rfl

/-! The word. -/

theorem lex_fraction_none {text : Bytes} (h : rt.code '.' ∉ text) :
    lex_fraction rt text = ([], text) := by
  have hpoint : current text ≠ rt.code '.' := by
    cases text with
    | nil => exact fun hnul => code_ne_nul (by decide) hnul.symm
    | cons c text => exact fun hc => h (hc ▸ List.mem_cons_self)
  rw [lex_fraction, if_neg (by simp [hpoint])]

theorem mem_of_current {text : Bytes} {a : Char} (ha : a ∈ printable)
    (h : current text = rt.code a) : rt.code a ∈ text := by
  cases text with
  | nil => exact absurd h.symm (code_ne_nul ha)
  | cons c text => exact h ▸ List.mem_cons_self

/-- What is read as one number: digits, or digits with an exponent. -/
theorem lex_decimal_cases {word : Bytes} {token : Token}
    (h : ∀ a ∈ ['_', '.', '+', '-'], rt.code a ∉ word)
    (hlex : lex_decimal rt word = .ok (token, [])) :
    (∀ c ∈ word, is_ascii_dec_digit rt c = true) ∨
      ∃ integer mark exponent, word = integer ++ mark :: exponent ∧
        is_exponent_mark rt mark = true ∧ exponent ≠ [] ∧
        (∀ c ∈ integer ++ exponent, is_ascii_dec_digit rt c = true) ∧
        make_float rt (num_buffer word) true = .ok token := by
  have hsplit := List.takeWhile_append_dropWhile (p := is_digit rt .Dec) (l := word)
  have hinteger : ∀ c ∈ word.takeWhile (is_digit rt .Dec), is_ascii_dec_digit rt c = true :=
    fun c hc => List.mem_takeWhile_imp hc
  rw [lex_decimal, lex_digits_span (h '_' (by decide))] at hlex
  generalize word.takeWhile (is_digit rt .Dec) = integer at hsplit hinteger hlex
  generalize word.dropWhile (is_digit rt .Dec) = rest at hsplit hlex
  have hrest {c : UInt8} (hc : c ∈ rest) : c ∈ word := hsplit ▸ List.mem_append_right _ hc
  dsimp only at hlex
  rw [lex_fraction_none fun hc => h '.' (by decide) (hrest hc)] at hlex
  dsimp only at hlex
  rw [lex_exponent] at hlex
  by_cases hmark : is_exponent_mark rt (current rest) = true
  · cases rest with
    | nil =>
      have hnul : (0 : UInt8) = rt.code 'e' ∨ (0 : UInt8) = rt.code 'E' := by
        simpa [is_exponent_mark, current] using hmark
      exact (hnul.elim (fun hc => code_ne_nul (by decide) hc.symm) fun hc =>
        code_ne_nul (by decide) hc.symm).elim
    | cons mark more =>
      rw [if_pos hmark] at hlex
      by_cases hdigit : is_ascii_dec_digit rt (peek (mark :: more)) = true
      · have hsplit' := List.takeWhile_append_dropWhile (p := is_digit rt .Dec) (l := more)
        have hexponent : ∀ c ∈ more.takeWhile (is_digit rt .Dec),
            is_ascii_dec_digit rt c = true := fun c hc => List.mem_takeWhile_imp hc
        rw [if_pos hdigit, List.tail_cons, lex_digits_span fun hc =>
          h '_' (by decide) (hrest (List.mem_cons_of_mem _ hc))] at hlex
        dsimp only at hlex
        rw [if_neg (by simp)] at hlex
        obtain ⟨made, hfloat, hmade⟩ := map_eq_ok hlex
        obtain ⟨rfl, hdrop⟩ := Prod.mk.inj hmade
        rw [hdrop, List.append_nil] at hsplit'
        rw [hsplit', List.append_nil, current_cons, hsplit] at hfloat
        rw [hsplit'] at hexponent
        refine .inr ⟨integer, mark, more, hsplit.symm, hmark, ?_, ?_, ?_⟩
        · rintro rfl
          exact Bool.false_ne_true (nul_not_digit.symm.trans hdigit)
        · intro c hc
          exact (List.mem_append.mp hc).elim (hinteger c) (hexponent c)
        · simpa using hfloat
      · have hsign : is_sign rt (peek (mark :: more)) = false := by
          have hsigns : ∀ a ∈ ['+', '-'], a ∈ printable ∧ a ∈ ['_', '.', '+', '-'] := by decide
          have hne (a : Char) (ha : a ∈ ['+', '-']) : current more ≠ rt.code a := fun hc =>
            h a (hsigns a ha).2 (hrest (List.mem_cons_of_mem _
              (mem_of_current (hsigns a ha).1 hc)))
          simp [is_sign, hne '+' (by decide), hne '-' (by decide)]
        rw [if_neg hdigit, hsign, Bool.false_and, if_neg Bool.false_ne_true] at hlex
        dsimp only at hlex
        rw [if_pos (by simp)] at hlex
        obtain ⟨made, -, hmade⟩ := map_eq_ok hlex
        cases (Prod.mk.inj hmade).2
  · rw [if_neg hmark] at hlex
    dsimp only at hlex
    rw [if_pos (by simp)] at hlex
    obtain ⟨made, -, hmade⟩ := map_eq_ok hlex
    rw [(Prod.mk.inj hmade).2, List.append_nil] at hsplit
    exact .inl (hsplit ▸ hinteger)

/-- Digits, a mark and digits are one number. -/
theorem lex_decimal_float {integer exponent : Bytes} (hexponent : exponent ≠ [])
    (hdigits : ∀ c ∈ integer ++ exponent, is_ascii_dec_digit rt c = true) :
    lex_decimal rt (integer ++ rt.code 'e' :: exponent) =
      (make_float rt (num_buffer (integer ++ rt.code 'e' :: exponent)) true).map
        fun token => (token, []) := by
  have hmark : is_ascii_dec_digit rt (rt.code 'e') = false := by
    by_contra hdigit
    exact dec_digit_ne rt (Bool.eq_true_of_not_eq_false hdigit) (by decide) (by decide) rfl
  have hunderscore : rt.code '_' ∉ integer ++ exponent := fun hmem =>
    dec_digit_ne rt (hdigits _ hmem) (by decide) (by decide) rfl
  have hpoint : rt.code '.' ∉ exponent := fun hmem =>
    dec_digit_ne rt (hdigits _ (List.mem_append_right _ hmem)) (by decide) (by decide) rfl
  have hinteger : ∀ c ∈ integer, is_digit rt .Dec c = true :=
    fun c hc => hdigits c (List.mem_append_left _ hc)
  have hlater : ∀ c ∈ exponent, is_digit rt .Dec c = true :=
    fun c hc => hdigits c (List.mem_append_right _ hc)
  have hpoints : ∀ a ∈ ['_', '.'], a ∈ printable ∧ a ≠ 'e' := by decide
  have hne (a : Char) (ha : a ∈ ['_', '.']) : rt.code a ≠ rt.code 'e' :=
    rt.code_ne (hpoints a ha).1 (by decide) (hpoints a ha).2
  rw [List.mem_append, not_or] at hunderscore
  rw [lex_decimal, lex_digits_span (by simp [hunderscore, hne '_' (by decide)]),
    List.takeWhile_append_of_pos hinteger, List.dropWhile_append_of_pos hinteger,
    List.takeWhile_cons_of_neg (by simp [is_digit, hmark]),
    List.dropWhile_cons_of_neg (by simp [is_digit, hmark])]
  dsimp only
  rw [lex_fraction_none (by simp [hpoint, hne '.' (by decide)])]
  have hread : lex_exponent rt (rt.code 'e' :: exponent) = (rt.code 'e' :: exponent, []) := by
    obtain ⟨c, more, rfl⟩ := List.exists_cons_of_ne_nil hexponent
    have hfirst : is_ascii_dec_digit rt (peek (rt.code 'e' :: c :: more)) = true :=
      hlater c List.mem_cons_self
    rw [lex_exponent, if_pos (by simp [is_exponent_mark]), if_pos hfirst, List.tail_cons,
      lex_digits_span hunderscore.2, List.takeWhile_eq_self_iff.mpr hlater,
      List.dropWhile_eq_nil_iff.mpr hlater]
    rfl
  dsimp only
  rw [hread]
  dsimp only
  rw [if_neg (by simp), List.append_nil]
  simp

theorem lex_number_nonzero {word : Bytes} (h : current word ≠ rt.code '0') :
    lex_number rt word = lex_decimal rt word := if_neg h

/-- A word that is read as a floating-point number is taken for one. -/
theorem classify_float {n : ℕ} (hn : n < 2 ^ 32) (h : ReadAsFloat rt (hex_text rt.toCharset n)) :
    ∃ value, classify_argument rt (hex_text rt.toCharset n) = .TokFloatLit value true := by
  obtain ⟨integer, exponent, hshape, hinteger, hexponent, hdigits⟩ := h.shape
  obtain ⟨c, more, rfl⟩ := List.exists_cons_of_ne_nil hinteger
  have hzero : n ≠ 0 := by
    rintro rfl
    rw [hex_text_zero] at hshape
    simp at hshape
  have hlex : next_token rt (hex_text rt.toCharset n) =
      .ok (.TokFloatLit (rt.strtod (hex_text rt.toCharset n)).value true, []) := by
    have hshort : num_buffer (hex_text rt.toCharset n) = hex_text rt.toCharset n :=
      List.take_of_length_le ((hex_text_length hn).trans (by decide))
    have hfloat := @lex_decimal_float rt (c :: more) exponent hexponent hdigits
    rw [← hshape, hshort, make_float] at hfloat
    rw [h.in_range, if_neg Bool.false_ne_true, if_neg (not_not.mpr h.whole)] at hfloat
    rw [← lex_number_nonzero (current_hex_text hzero)] at hfloat
    rw [hshape, List.cons_append] at hfloat ⊢
    rw [next_token_digit _ (hdigits c (by simp))]
    exact hfloat
  refine ⟨(rt.strtod (hex_text rt.toCharset n)).value, ?_⟩
  rw [classify_plain (hex_text_plain n)]
  exact classify_literal (.float _ _) ((tokenize_single (hex_text_word n) (by simp)).mpr hlex)

/-- Any other word is a number of digits or an identifier. -/
theorem classify_other {n : ℕ} (hn : n < 2 ^ 32)
    (h : ¬ ReadAsFloat rt (hex_text rt.toCharset n)) :
    classify_argument rt (hex_text rt.toCharset n) = .TokId (hex_text rt.toCharset n) ∨
      ((∀ c ∈ hex_text rt.toCharset n, is_ascii_dec_digit rt c = true) ∧
        classify_argument rt (hex_text rt.toCharset n) =
          .TokIntLit (number rt .Dec (hex_text rt.toCharset n)) .Dec) := by
  obtain ⟨c, more, hword⟩ := List.exists_cons_of_ne_nil (hex_text_ne_nil rt.toCharset n)
  by_cases hall : ∀ c ∈ hex_text rt.toCharset n, is_ascii_dec_digit rt c = true
  · refine .inr ⟨hall, ?_⟩
    have hlength := @hex_text_length rt n hn
    rw [hword, List.length_cons] at hlength
    rw [hword] at hall ⊢
    exact classify_digits (by omega) hall
  left
  have hzero : n ≠ 0 := by
    rintro rfl
    rw [hex_text_zero] at hall
    exact hall (by simpa using zero_digit rt)
  rw [classify_plain (hex_text_plain n)]
  rcases classify_cases rt (hex_text rt.toCharset n) with hid | ⟨token, hliteral, htokens, -⟩
  · exact hid
  have hlex := (tokenize_single (hex_text_word n) hliteral.ne_eof).mp htokens
  exfalso
  have hmarks : ∀ a ∈ ['_', '.', '+', '-', '*', '"', 'E', 't', 'l'],
      a ∈ printable ∧ ∀ d < 16, d.digitChar ≠ a := by decide
  have hnot (a : Char) (ha : a ∈ ['_', '.', '+', '-', '*', '"', 'E', 't', 'l']) :
      rt.code a ∉ hex_text rt.toCharset n := not_mem_hex_text (hmarks a ha).1 (hmarks a ha).2 n
  by_cases hdigit : is_ascii_dec_digit rt c = true
  · have hnumber : lex_decimal rt (hex_text rt.toCharset n) = .ok (token, []) := by
      rw [← lex_number_nonzero (current_hex_text hzero), hword, ← next_token_digit more hdigit,
        ← hword]
      exact hlex
    rcases lex_decimal_cases (fun a ha => hnot a (List.mem_append_left _ ha)) hnumber with
      hdecimal | ⟨integer, mark, exponent, hshape, hmark, hexponent, hdigits, hfloat⟩
    · exact hall hdecimal
    have hmem : mark ∈ hex_text rt.toCharset n := hshape ▸ by simp
    have hmark_e : mark = rt.code 'e' := by
      have hcode : mark = rt.code 'e' ∨ mark = rt.code 'E' := by
        simpa [is_exponent_mark] using hmark
      exact hcode.resolve_right fun hc => hnot 'E' (by decide) (hc ▸ hmem)
    subst hmark_e
    have hinteger : integer ≠ [] := by
      rintro rfl
      rw [hword] at hshape
      rw [(List.cons.inj hshape).1] at hdigit
      exact dec_digit_ne rt hdigit (by decide) (by decide) rfl
    have hshort : num_buffer (hex_text rt.toCharset n) = hex_text rt.toCharset n :=
      List.take_of_length_le ((hex_text_length hn).trans (by decide))
    rw [hshort, make_float] at hfloat
    split_ifs at hfloat with hrange hread
    exact h ⟨⟨integer, exponent, hshape, hinteger, hexponent, hdigits⟩,
      Bool.eq_false_of_not_eq_true hrange, not_not.mp hread⟩
  · have hident : is_ident_cont rt c = true := hex_text_word n c (hword ▸ List.mem_cons_self)
    have hquotes : ∀ a ∈ ['*', '-', '"'], a ∈ ['_', '.', '+', '-', '*', '"', 'E', 't', 'l'] := by
      decide
    have hne (a : Char) (ha : a ∈ ['*', '-', '"']) : c ≠ rt.code a := fun hc =>
      hnot a (hquotes a ha) (hc ▸ hword ▸ List.mem_cons_self)
    rw [hword, next_token_ident more hident (Bool.eq_false_of_not_eq_true hdigit) hne, ← hword]
      at hlex
    have htoken := (Prod.mk.inj (Except.ok.inj hlex)).1
    have hkeyword {a : Char} {keyword : Bytes}
        (ha : a ∈ ['_', '.', '+', '-', '*', '"', 'E', 't', 'l']) (hmem : rt.code a ∈ keyword) :
        (hex_text rt.toCharset n).takeWhile (is_ident_cont rt) ≠ keyword := by
      rintro rfl
      exact hnot a ha ((List.takeWhile_prefix _).subset hmem)
    rw [if_neg (hkeyword (a := 't') (by decide) (by simp [Charset.str])),
      if_neg (hkeyword (a := 'l') (by decide) (by simp [Charset.str]))] at htoken
    subst htoken
    cases hliteral

/-! The e-tag that a write gets. -/

theorem get_string_eq {cs : Charset} {args : ArgumentMap} {key : String} {argument : Argument}
    (h : args[cs.str key]? = some argument) :
    get_string cs args key = argument.get_string.getD [] := by
  rw [get_string, h, Option.bind_some]

/-- A parameter of a request is the e-tag as it is. -/
theorem etag_value_string {cs : Charset} {args : ArgumentMap} {text : Bytes} (hne : text ≠ [])
    (h : args[cs.str "etag"]? = some (.string text)) : etag_value cs args = text := by
  rw [etag_value, get_string_eq h]
  exact if_neg hne

theorem etag_value_float {args : ArgumentMap} {n : ℕ} (hn : n < 2 ^ 32)
    (hfloat : ReadAsFloat rt (hex_text rt.toCharset n))
    (h : args[rt.str "etag"]? = some (etag_argument rt (hex_text rt.toCharset n))) :
    etag_value rt.toCharset args = [] := by
  obtain ⟨value, hclassify⟩ := classify_float hn hfloat
  rw [etag_argument, hclassify] at h
  have hvalue : parse_token_value rt (.TokFloatLit value true) .Single false =
      .double (.finite value) := rfl
  rw [hvalue] at h
  rw [etag_value, get_string_eq h, h]
  rfl

/-- Digits are printed as they were written. -/
theorem etag_value_other {args : ArgumentMap} {n : ℕ} (hn : n < 2 ^ 32)
    (hfloat : ¬ ReadAsFloat rt (hex_text rt.toCharset n))
    (h : args[rt.str "etag"]? = some (etag_argument rt (hex_text rt.toCharset n))) :
    etag_value rt.toCharset args = hex_text rt.toCharset n := by
  rcases classify_other hn hfloat with hid | ⟨hall, hint⟩
  · rw [etag_argument, hid] at h
    exact etag_value_string (hex_text_ne_nil _ n) h
  · rw [etag_argument, hint] at h
    have hvalue : parse_token_value rt
        (.TokIntLit (number rt .Dec (hex_text rt.toCharset n)) .Dec) .Single false =
        .int (number rt .Dec (hex_text rt.toCharset n)) := rfl
    rw [hvalue] at h
    rw [etag_value, get_string_eq h, h]
    exact (congrArg (List.map rt.code) Nat.toList_repr).trans (decimal_text hall).1.symm

/-! The lock. -/

theorem store_self {Contents : Type} (s : System Contents) (volume name : Bytes) :
    (s.store volume name (s.contents volume name)).contents = s.contents := by
  funext volume' name'
  rw [System.store]
  dsimp only
  split_ifs with hsame
  · rw [hsame.1, hsame.2]
  · rfl

theorem locks_of_value {cs : Charset} {n : ℕ} {etag : Argument}
    (h : ∀ args : ArgumentMap, args[cs.str "etag"]? = some etag →
      etag_value cs args = hex_text cs n) : Locks cs n etag := by
  intro args hargs Shift Contents iconv_open lib sv input pipe s dsn opts read_opts hchanged
  have hvalue : (write_opts cs args).zds.etag = hex_text cs n := h args hargs
  rcases @write_cases Shift Contents cs iconv_open lib sv args input pipe s with
    ⟨hsystem, -⟩ | ⟨volume, hvolume, hsystem, -, -⟩
  · exact absurd (congrArg System.contents hsystem) hchanged
  · have hdd : (write_opts cs args).ddname = [] := rfl
    obtain ⟨current_contents, hread, hchecksum⟩ := zds_write_locked hdd
      (.inr fun hsame => hchanged (by rw [hsystem, hsame, store_self]))
      (hvalue ▸ hex_text_ne_nil cs n)
    refine ⟨volume, current_contents, hvolume, hread, hchecksum.trans ?_⟩
    rw [hvalue, strtoul16_hex_text]

/-- A data set and an e-tag. -/
def with_etag (cs : Charset) (etag : Argument) : ArgumentMap :=
  ((∅ : ArgumentMap).insert (cs.str "dsn") (.string (cs.str "A"))).insert (cs.str "etag") etag

theorem with_etag_etag (cs : Charset) (etag : Argument) :
    (with_etag cs etag)[cs.str "etag"]? = some etag := by
  rw [with_etag, Std.ExtTreeMap.getElem?_insert_self]

theorem with_etag_dsn (cs : Charset) (etag : Argument) :
    get_string cs (with_etag cs etag) "dsn" = cs.str "A" := by
  have hkeys : ¬ compare (cs.str "etag") (cs.str "dsn") = .eq := by
    rw [Std.LawfulEqOrd.compare_eq_iff_eq]
    intro hsame
    have hlength := congrArg List.length hsame
    simp [Charset.str] at hlength
  have hdsn : (with_etag cs etag)[cs.str "dsn"]? = some (.string (cs.str "A")) := by
    rw [with_etag, Std.ExtTreeMap.getElem?_insert, if_neg hkeys,
      Std.ExtTreeMap.getElem?_insert_self]
  rw [get_string_eq hdsn]
  rfl

/-- Without an e-tag a data set is emptied, whatever it holds. -/
theorem not_locks {cs : Charset} {n : ℕ} {etag : Argument} (hn : n ≠ 1)
    (h : etag_value cs (with_etag cs etag) = []) : ¬ Locks cs n etag := by
  intro hlocks
  have hdsn : get_string cs (with_etag cs etag) "dsn" ≠ [] := by
    rw [with_etag_dsn]
    simp [Charset.str]
  obtain ⟨-, hsystem⟩ := @empty_command cs (with_etag cs etag) hdsn (by rw [h]; decide) []
    (fun hne => absurd h hne) (fun _ => some []) [] rfl
  obtain ⟨volume, current_contents, -, hread, hchecksum⟩ := hlocks (with_etag cs etag)
    (with_etag_etag cs etag) _ _ identity rewritten accepting [] (fun _ => []) _ fun hsame => by
      rw [hsystem, System.store] at hsame
      have hflag := congrFun (congrFun hsame []) (get_string cs (with_etag cs etag) "dsn")
      simp at hflag
  have hcurrent := (read_identity _ _).symm.trans hread
  have hempty : zut_calc_adler32_checksum [] = 1 := by decide +kernel
  rw [← Except.ok.inj hcurrent] at hchecksum
  exact hn (hchecksum.symm.trans hempty)

/-- As a parameter of a request an e-tag always locks. As a word of a command line it does unless it
is read as a floating-point number, which is then no e-tag. -/
theorem locks_iff {n : ℕ} (hn : n < 2 ^ 32) :
    Locks rt.toCharset n (.string (hex_text rt.toCharset n)) ∧
      (Locks rt.toCharset n (etag_argument rt (hex_text rt.toCharset n)) ↔
        ¬ ReadAsFloat rt (hex_text rt.toCharset n)) := by
  refine ⟨locks_of_value fun args hargs => etag_value_string (hex_text_ne_nil _ n) hargs,
    fun hlocks hfloat => ?_, fun hfloat => locks_of_value fun args hargs =>
      etag_value_other hn hfloat hargs⟩
  apply not_locks _ (etag_value_float hn hfloat (with_etag_etag _ _)) hlocks
  rintro rfl
  obtain ⟨integer, exponent, hshape, -⟩ := hfloat.shape
  have hmem : rt.code 'e' ∈ hex_text rt.toCharset 1 := hshape ▸ by simp
  rw [hex_text, Nat.toDigits_of_lt_base (by decide), List.map_singleton, List.mem_singleton]
    at hmem
  exact rt.code_ne (by decide) (by decide) (by decide) hmem

/-- The e-tag `c9f`. -/
theorem locks_c9f : Locks ascii_runtime.toCharset 0xc9f
      (.string (hex_text ascii_runtime.toCharset 0xc9f)) ∧
    (Locks ascii_runtime.toCharset 0xc9f
        (etag_argument ascii_runtime (hex_text ascii_runtime.toCharset 0xc9f)) ↔
      ¬ ReadAsFloat ascii_runtime (hex_text ascii_runtime.toCharset 0xc9f)) :=
  locks_iff (by decide)

end Zowex.ds

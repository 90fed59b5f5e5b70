import Mathlib.Data.Nat.Digits.Defs
import Zowex.Proofs.HexText
import Zowex.Spec.Lexer

/-! Integer literals of the command line. The value of a literal is read from all its digits,
the lexer reads it from those that `num_buffer` holds. -/

namespace Zowex.lexer

variable (rt : Runtime)

/-- A digit, then digits and underscores. -/
def LiteralDigits (base : Radix) (digits : Bytes) : Prop :=
  ∃ first more, digits = first :: more ∧ is_digit rt base first = true ∧
    ∀ c ∈ more, is_digit rt base c = true ∨ c = rt.code '_'

/-- The digits of a literal and its text. -/
inductive Literal : Radix → Bytes → Bytes → Prop
  | decimal {digits : Bytes} (h : LiteralDigits rt .Dec digits) : Literal .Dec digits digits
  | hex {digits : Bytes} {mark : Char} (h : LiteralDigits rt .Hex digits)
      (known : mark ∈ ['x', 'X']) : Literal .Hex digits (rt.code '0' :: rt.code mark :: digits)
  | bin {digits : Bytes} {mark : Char} (h : LiteralDigits rt .Bin digits)
      (known : mark ∈ ['b', 'B']) : Literal .Bin digits (rt.code '0' :: rt.code mark :: digits)

/-- What comes after a literal does not belong to it, nor make it another kind of number. -/
structure EndsLiteral (base : Radix) (digits rest : Bytes) : Prop where
  digit : is_digit rt base (current rest) = false
  underscore : current rest ≠ rt.code '_'
  fraction : current rest = rt.code '.' →
    base = .Dec ∧ is_ascii_dec_digit rt (peek rest) = false
  exponent : is_exponent_mark rt (current rest) = true →
    base = .Dec ∧ is_ascii_dec_digit rt (peek rest) = false ∧
      (is_sign rt (peek rest) && is_ascii_dec_digit rt (peek2 rest)) = false
  mark : base = .Dec → digits = [rt.code '0'] →
    ∀ a ∈ ['x', 'X', 'b', 'B'], current rest ≠ rt.code a

def without_underscores (digits : Bytes) : Bytes := digits.filter (· ≠ rt.code '_')

/-- The number that digits write, the most significant first. -/
def number (base : Radix) (digits : Bytes) : ℕ :=
  Nat.ofDigits base.base (digits.map fun c => (rt.hex_digit c).getD 0).reverse

def literal_value (base : Radix) (digits : Bytes) : ℕ :=
  number rt base (without_underscores rt digits)

/-- The token holds the literal's value, or the value is out of range and reported. -/
def LexesExactly (base : Radix) (digits text : Bytes) : Prop :=
  if literal_value rt base digits ≤ LLONG_MAX then
    ∃ rest, lex_number rt text = .ok (.TokIntLit (literal_value rt base digits) base, rest)
  else lex_number rt text = .error .IntOutOfRange

/-- The digits `num_buffer` has room for. -/
def capacity : Radix → ℕ
  | .Dec => 127
  | .Hex | .Bin => 125

/-- A zero and an underscore, where the lexer already takes the zero for the number. -/
def ZeroUnderscore (base : Radix) (digits : Bytes) : Prop :=
  base = .Dec ∧ [rt.code '0', rt.code '_'] <+: digits

/-- The digits past the buffer do not matter. -/
def FitsBuffer (base : Radix) (digits : Bytes) : Prop :=
  (without_underscores rt digits).length ≤ capacity base ∨
    LLONG_MAX < number rt base ((without_underscores rt digits).take (capacity base))

/-! The value. -/

theorem strtoll_eq (base : Radix) (digits : Bytes) :
    strtoll rt base digits = number rt base digits := by
  induction digits using List.reverseRecOn with
  | nil => rfl
  | append_singleton digits c ih =>
    have h : strtoll rt base (digits ++ [c]) =
        strtoll rt base digits * base.base + (rt.hex_digit c).getD 0 := by
      simp only [strtoll, List.foldl_append, List.foldl_cons, List.foldl_nil]
    have hnumber : number rt base (digits ++ [c]) =
        (rt.hex_digit c).getD 0 + base.base * number rt base digits := by
      simp only [number, List.map_append, List.map_cons, List.map_nil, List.reverse_append,
        List.reverse_singleton, List.singleton_append, Nat.ofDigits_cons]
    rw [h, hnumber, ih]
    ring

/-- The digits past the `n`-th make the number of the first `n` larger. -/
theorem number_take (base : Radix) (digits : Bytes) (n : ℕ) :
    ∃ low, number rt base digits =
      low + base.base ^ (digits.length - n) * number rt base (digits.take n) := by
  refine ⟨number rt base (digits.drop n), ?_⟩
  conv_lhs => rw [← List.take_append_drop n digits]
  simp only [number, List.map_append, List.reverse_append, Nat.ofDigits_append,
    List.length_reverse, List.length_map, List.length_drop]

theorem one_lt_base (base : Radix) : 1 < base.base := by
  cases base <;> decide

theorem number_take_le (base : Radix) (digits : Bytes) (n : ℕ) :
    number rt base (digits.take n) ≤ number rt base digits := by
  obtain ⟨low, h⟩ := number_take rt base digits n
  have hpow : 0 < base.base ^ (digits.length - n) :=
    Nat.pow_pos (Nat.zero_lt_one.trans (one_lt_base base))
  rw [h]
  exact (Nat.le_mul_of_pos_left _ hpow).trans (Nat.le_add_left _ _)

/-- Cutting digits off changes every number but zero. -/
theorem number_take_lt (base : Radix) {digits : Bytes} {n : ℕ} (cut : n < digits.length)
    (nonzero : number rt base digits ≠ 0) :
    number rt base (digits.take n) < number rt base digits := by
  obtain ⟨low, h⟩ := number_take rt base digits n
  rcases Nat.eq_zero_or_pos (number rt base (digits.take n)) with zero | positive
  · omega
  · have hpow : 1 < base.base ^ (digits.length - n) :=
      Nat.one_lt_pow (by omega) (one_lt_base base)
    have := Nat.mul_lt_mul_of_pos_right hpow positive
    omega

/-! The characters. -/

theorem dec_digits_printable {a : Char} (h : a ∈ dec_digits) : a ∈ printable := by
  revert a
  decide

theorem dec_digit_ne {c : UInt8} (h : is_ascii_dec_digit rt c = true) {a : Char}
    (ha : a ∈ printable) (other : a ∉ dec_digits) : c ≠ rt.code a := by
  unfold is_ascii_dec_digit at h
  obtain ⟨d, hd, rfl⟩ := List.mem_map.mp (of_decide_eq_true h)
  exact rt.code_ne (dec_digits_printable hd) ha fun same => other (same ▸ hd)

theorem underscore_not_digit : is_ascii_dec_digit rt (rt.code '_') = false := by
  by_contra h
  exact dec_digit_ne rt (Bool.eq_true_of_not_eq_false h) (by decide : '_' ∈ printable)
    (by decide) rfl

theorem zero_digit : is_ascii_dec_digit rt (rt.code '0') = true :=
  decide_eq_true (List.mem_map_of_mem (by decide))

theorem number_zero : number rt .Dec [rt.code '0'] = 0 := by
  have h : rt.hex_digit (rt.code '0') = some 0 :=
    (zds.hex_digit_code rt.toCharset (by decide)).trans (by decide)
  simp [number, h]

/-! The digits of a literal, and what follows them. -/

theorem lex_digits_end {base : Radix} {rest : Bytes}
    (digit : is_digit rt base (current rest) = false)
    (underscore : current rest ≠ rt.code '_') : lex_digits rt base rest = ([], rest) := by
  cases rest with
  | nil => rfl
  | cons c rest => simp_all [lex_digits, current]

theorem lex_digits_append {base : Radix} {digits rest : Bytes}
    (valid : ∀ c ∈ digits, is_digit rt base c = true ∨ c = rt.code '_')
    (stop : lex_digits rt base rest = ([], rest)) :
    lex_digits rt base (digits ++ rest) = (without_underscores rt digits, rest) := by
  induction digits with
  | nil => exact stop
  | cons c digits ih =>
    rw [List.forall_mem_cons] at valid
    rw [List.cons_append, lex_digits, ih valid.2]
    by_cases underscore : c = rt.code '_'
    · simp [without_underscores, underscore]
    · simp [without_underscores, underscore, valid.1.resolve_right underscore]

theorem LiteralDigits.valid {base : Radix} {digits : Bytes} (h : LiteralDigits rt base digits) :
    ∀ c ∈ digits, is_digit rt base c = true ∨ c = rt.code '_' := by
  obtain ⟨first, more, rfl, digit, valid⟩ := h
  exact List.forall_mem_cons.mpr ⟨.inl digit, valid⟩

theorem EndsLiteral.lex_digits {base : Radix} {digits rest : Bytes}
    (ends : EndsLiteral rt base digits rest) (h : LiteralDigits rt base digits) :
    lex_digits rt base (digits ++ rest) = (without_underscores rt digits, rest) :=
  lex_digits_append rt h.valid (lex_digits_end rt ends.digit ends.underscore)

theorem EndsLiteral.lex_fraction {digits rest : Bytes}
    (ends : EndsLiteral rt .Dec digits rest) : lex_fraction rt rest = ([], rest) := by
  unfold lexer.lex_fraction
  by_cases point : current rest = rt.code '.'
  · simp [(ends.fraction point).2]
  · simp [point]

theorem EndsLiteral.lex_exponent {digits rest : Bytes}
    (ends : EndsLiteral rt .Dec digits rest) : lex_exponent rt rest = ([], rest) := by
  unfold lexer.lex_exponent
  by_cases mark : is_exponent_mark rt (current rest) = true
  · obtain ⟨-, digit, sign⟩ := ends.exponent mark
    rw [if_pos mark, if_neg (by simp [digit]), if_neg (by simp [sign])]
  · rw [if_neg mark]

theorem lex_decimal_literal {digits rest : Bytes} (h : LiteralDigits rt .Dec digits)
    (ends : EndsLiteral rt .Dec digits rest) :
    lex_decimal rt (digits ++ rest) =
      (make_int rt .Dec ((without_underscores rt digits).take (capacity .Dec))).map
        fun token => (token, rest) := by
  unfold lex_decimal
  rw [ends.lex_digits rt h]
  dsimp only
  rw [ends.lex_fraction rt]
  dsimp only
  rw [ends.lex_exponent rt]
  rfl

theorem lex_based_literal {base : Radix} {digits rest : Bytes} (based : base ≠ .Dec)
    (h : LiteralDigits rt base digits) (ends : EndsLiteral rt base digits rest) :
    lex_based rt base (digits ++ rest) =
      (make_int rt base ((without_underscores rt digits).take 125)).map
        fun token => (token, rest) := by
  have digits_read := ends.lex_digits rt h
  have first : is_digit rt base (current (digits ++ rest)) = true := by
    obtain ⟨first, more, rfl, digit, -⟩ := h
    exact digit
  have point : current rest ≠ rt.code '.' := fun point => based (ends.fraction point).1
  have mark : ¬ is_exponent_mark rt (current rest) = true := fun mark =>
    based (ends.exponent mark).1
  unfold lex_based
  rw [if_neg (by simp [first]), digits_read]
  dsimp only
  rw [if_neg (by simp [point, mark])]

/-! Which way a number is read. -/

def based_marks : List Char := ['x', 'X', 'b', 'B']

/-- A zero that no mark follows, and what the lexer looks at behind it. -/
theorem lex_number_zero (text : Bytes)
    (unmarked : ∀ a ∈ based_marks, current text ≠ rt.code a) :
    lex_number rt (rt.code '0' :: text) =
      if !is_ascii_dec_digit rt (current text) && current text ≠ rt.code '.' &&
          !is_exponent_mark rt (current text) then .ok (.TokIntLit 0 .Dec, text)
      else lex_decimal rt (rt.code '0' :: text) := by
  unfold lex_number
  rw [current_cons, peek_cons, if_pos rfl]
  dsimp only
  rw [if_neg (by simp [unmarked 'x' (by decide), unmarked 'X' (by decide)]),
    if_neg (by simp [unmarked 'b' (by decide), unmarked 'B' (by decide)])]
  rfl

theorem lex_number_decimal {digits rest : Bytes} (h : LiteralDigits rt .Dec digits)
    (ends : EndsLiteral rt .Dec digits rest) (plain : ¬ ZeroUnderscore rt .Dec digits) :
    lex_number rt (digits ++ rest) =
      (make_int rt .Dec ((without_underscores rt digits).take (capacity .Dec))).map
        fun token => (token, rest) := by
  have decimal := lex_decimal_literal rt h ends
  obtain ⟨first, more, rfl, digit, valid⟩ := h
  by_cases zero : first = rt.code '0'
  · subst zero
    cases more with
    | nil =>
      refine (lex_number_zero rt rest (ends.mark rfl rfl)).trans ?_
      split_ifs
      · have not_underscore : rt.code '0' ≠ rt.code '_' :=
          rt.code_ne (by decide) (by decide) (by decide)
        have alone : without_underscores rt [rt.code '0'] = [rt.code '0'] := by
          simp [without_underscores, not_underscore]
        have whole : [rt.code '0'].take (capacity .Dec) = [rt.code '0'] := rfl
        rw [alone, whole, make_int, strtoll_eq, number_zero]
        rfl
      · exact decimal
    | cons c more =>
      rw [List.forall_mem_cons] at valid
      have digit : is_ascii_dec_digit rt c = true := by
        apply valid.1.resolve_right
        rintro rfl
        exact plain ⟨rfl, ⟨more, rfl⟩⟩
      have unmarked : ∀ a ∈ based_marks, c ≠ rt.code a := fun a ha =>
        dec_digit_ne rt digit (by revert a; decide) (by revert a; decide)
      refine (lex_number_zero rt (c :: more ++ rest) unmarked).trans ?_
      rw [if_neg (by simp [current, digit])]
      exact decimal
  · unfold lex_number
    rw [if_neg (by simpa [current] using zero)]
    exact decimal

theorem lex_number_zero_underscore {digits : Bytes} (zero : [rt.code '0', rt.code '_'] <+: digits)
    (rest : Bytes) :
    ∃ later, lex_number rt (digits ++ rest) = .ok (.TokIntLit 0 .Dec, later) := by
  obtain ⟨more, rfl⟩ := zero
  have unmarked : ∀ a ∈ based_marks, rt.code '_' ≠ rt.code a := fun a ha =>
    rt.code_ne (by decide) (by revert a; decide) (by revert a; decide)
  have point : rt.code '_' ≠ rt.code '.' := rt.code_ne (by decide) (by decide) (by decide)
  have mark : is_exponent_mark rt (rt.code '_') = false := by
    have lower : rt.code '_' ≠ rt.code 'e' := rt.code_ne (by decide) (by decide) (by decide)
    have upper : rt.code '_' ≠ rt.code 'E' := rt.code_ne (by decide) (by decide) (by decide)
    simp [is_exponent_mark, lower, upper]
  refine ⟨rt.code '_' :: (more ++ rest), ?_⟩
  refine (lex_number_zero rt (rt.code '_' :: (more ++ rest)) unmarked).trans ?_
  rw [if_pos (by simp [current, underscore_not_digit, point, mark])]

/-- A marked literal is read by `lex_based`. -/
theorem lex_number_hex {mark : Char} (known : mark ∈ ['x', 'X']) (text : Bytes) :
    lex_number rt (rt.code '0' :: rt.code mark :: text) = lex_based rt .Hex text := by
  have marked : (rt.code mark = rt.code 'x' || rt.code mark = rt.code 'X') = true := by
    rcases List.mem_cons.mp known with rfl | known
    · simp
    · simp [List.mem_singleton.mp known]
  unfold lex_number
  rw [current_cons, peek_cons, current_cons, if_pos rfl]
  exact if_pos marked

theorem lex_number_bin {mark : Char} (known : mark ∈ ['b', 'B']) (text : Bytes) :
    lex_number rt (rt.code '0' :: rt.code mark :: text) = lex_based rt .Bin text := by
  have other : ∀ a ∈ ['x', 'X'], rt.code mark ≠ rt.code a := fun a ha =>
    rt.code_ne (by revert mark; decide) (by revert a; decide) (by revert mark a; decide)
  have marked : (rt.code mark = rt.code 'b' || rt.code mark = rt.code 'B') = true := by
    rcases List.mem_cons.mp known with rfl | known
    · simp
    · simp [List.mem_singleton.mp known]
  unfold lex_number
  rw [current_cons, peek_cons, current_cons, if_pos rfl]
  dsimp only
  rw [if_neg (by simp [other 'x', other 'X']), if_pos marked]
  rfl

theorem lex_number_literal {base : Radix} {digits text rest : Bytes}
    (h : Literal rt base digits text) (ends : EndsLiteral rt base digits rest)
    (plain : ¬ ZeroUnderscore rt base digits) :
    lex_number rt (text ++ rest) =
      (make_int rt base ((without_underscores rt digits).take (capacity base))).map
        fun token => (token, rest) := by
  cases h with
  | decimal h => exact lex_number_decimal rt h ends plain
  | hex h known =>
    exact (lex_number_hex rt known _).trans (lex_based_literal rt (by decide) h ends)
  | bin h known =>
    exact (lex_number_bin rt known _).trans (lex_based_literal rt (by decide) h ends)

/-! What `lex_number` makes of a literal. -/

theorem make_int_number (base : Radix) (digits rest : Bytes) :
    (make_int rt base digits).map (fun token => (token, rest)) =
      if LLONG_MAX < number rt base digits then .error .IntOutOfRange
      else .ok (.TokIntLit (number rt base digits) base, rest) := by
  unfold make_int
  rw [strtoll_eq]
  dsimp only
  split_ifs <;> rfl

theorem zero_exact {base : Radix} {digits : Bytes} (zero : literal_value rt base digits = 0)
    {text rest : Bytes} (read : lex_number rt text = .ok (.TokIntLit 0 base, rest)) :
    LexesExactly rt base digits text := by
  unfold LexesExactly
  rw [zero, if_pos (Nat.zero_le _)]
  exact ⟨rest, read⟩

/-- A token of another value is neither the literal's nor a report. -/
theorem not_exact {base : Radix} {digits text rest : Bytes} {value : ℕ}
    (read : lex_number rt text = .ok (.TokIntLit value base, rest))
    (other : value ≠ literal_value rt base digits) : ¬ LexesExactly rt base digits text := by
  unfold LexesExactly
  rw [read]
  split_ifs
  · simp [other]
  · simp

/-- The literal's own value is read when it is zero, or when all of its digits that matter are
in the buffer and no underscore stands behind a leading zero. -/
theorem lexes_exactly_iff {base : Radix} {digits text rest : Bytes}
    (h : Literal rt base digits text) (ends : EndsLiteral rt base digits rest) :
    LexesExactly rt base digits (text ++ rest) ↔
      literal_value rt base digits = 0 ∨
        (¬ ZeroUnderscore rt base digits ∧ FitsBuffer rt base digits) := by
  by_cases underscore : ZeroUnderscore rt base digits
  · obtain ⟨rfl, zero⟩ := underscore
    have same : text = digits := by cases h; rfl
    obtain ⟨later, read⟩ := lex_number_zero_underscore rt zero rest
    rw [← same] at read
    constructor
    · intro exactly
      by_contra wrong
      exact not_exact rt read (fun zero => wrong (.inl zero.symm)) exactly
    · rintro (value | ⟨plain, -⟩)
      · exact zero_exact rt value read
      · exact absurd ⟨rfl, zero⟩ plain
  · have read := (lex_number_literal rt h ends underscore).trans (make_int_number rt _ _ _)
    have le := number_take_le rt base (without_underscores rt digits) (capacity base)
    by_cases out : LLONG_MAX <
        number rt base ((without_underscores rt digits).take (capacity base))
    · rw [if_pos out] at read
      have value : ¬ literal_value rt base digits ≤ LLONG_MAX :=
        not_le.mpr (out.trans_le le)
      exact iff_of_true (by rw [LexesExactly, if_neg value, read]) (.inr ⟨underscore, .inr out⟩)
    · rw [if_neg out] at read
      by_cases fits : (without_underscores rt digits).length ≤ capacity base
      · rw [List.take_of_length_le fits] at read out
        refine iff_of_true ?_ (.inr ⟨underscore, .inl fits⟩)
        have value : literal_value rt base digits ≤ LLONG_MAX := not_lt.mp out
        rw [LexesExactly, if_pos value]
        exact ⟨rest, read⟩
      · by_cases zero : literal_value rt base digits = 0
        · have cut : number rt base ((without_underscores rt digits).take (capacity base)) = 0 :=
            Nat.le_zero.mp (zero ▸ le)
          rw [cut] at read
          exact iff_of_true (zero_exact rt zero read) (.inl zero)
        · have less := number_take_lt rt base (not_le.mp fits) zero
          refine iff_of_false (not_exact rt read less.ne) ?_
          rintro (value | ⟨-, short | high⟩)
          · exact zero value
          · exact fits short
          · exact out high

/-- At the end of the input. -/
theorem lexes_exactly_iff_hex :
    Literal ascii_runtime .Hex (ascii.str "1_F") (ascii.str "0x1_F") ∧
      (LexesExactly ascii_runtime .Hex (ascii.str "1_F") (ascii.str "0x1_F" ++ []) ↔
        literal_value ascii_runtime .Hex (ascii.str "1_F") = 0 ∨
          (¬ ZeroUnderscore ascii_runtime .Hex (ascii.str "1_F") ∧
            FitsBuffer ascii_runtime .Hex (ascii.str "1_F"))) := by
  have literal : Literal ascii_runtime .Hex (ascii.str "1_F") (ascii.str "0x1_F") :=
    @Literal.hex ascii_runtime (ascii.str "1_F") 'x'
      ⟨ascii.code '1', ascii.str "_F", rfl, by decide +kernel, by decide +kernel⟩ (by decide)
  have ends : EndsLiteral ascii_runtime .Hex (ascii.str "1_F") [] :=
    { digit := by decide +kernel
      underscore := by decide +kernel
      fraction := by decide +kernel
      exponent := by decide +kernel
      mark := by decide +kernel }
  exact ⟨literal, lexes_exactly_iff ascii_runtime literal ends⟩

/-- One, behind as many zeros as the buffer holds. -/
def padded_one : Bytes := List.replicate 127 (ascii.code '0') ++ [ascii.code '1']

theorem long_literal_cut_off :
    Literal ascii_runtime .Dec padded_one padded_one ∧
      ¬ LexesExactly ascii_runtime .Dec padded_one padded_one := by
  have literal : Literal ascii_runtime .Dec padded_one padded_one :=
    .decimal ⟨ascii.code '0', List.replicate 126 (ascii.code '0') ++ [ascii.code '1'], rfl,
      by decide +kernel, by decide +kernel⟩
  have read : lex_number ascii_runtime padded_one = .ok (.TokIntLit 0 .Dec, []) := by
    decide +kernel
  have other : 0 ≠ literal_value ascii_runtime .Dec padded_one := by decide +kernel
  exact ⟨literal, not_exact ascii_runtime read other⟩

end Zowex.lexer

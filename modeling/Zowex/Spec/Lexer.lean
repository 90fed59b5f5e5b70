import Mathlib.Data.NNRat.Defs
import Zowex.Spec.Charset

/-! The lexer of the command line, `lexer.hpp`. A text is what is not read yet; past its end, and
where it has a NUL, it reads as the end of the input. -/

namespace Zowex.lexer

def dec_digits : List Char := "0123456789".toList

/-- The way a stream prints a number. -/
structure Numeral where
  integer : List Char
  fraction : List Char
  exponent : Option (Char × List Char)
  digits : ∀ c ∈ integer ++ fraction ++ exponent.elim [] Prod.snd, c ∈ dec_digits
  integer_ne : integer ≠ []
  exponent_ne : ∀ e ∈ exponent, e.1 ∈ ['+', '-'] ∧ e.2 ≠ []

def Numeral.text (code : Char → UInt8) (n : Numeral) : Bytes :=
  n.integer.map code ++ (if n.fraction = [] then [] else code '.' :: n.fraction.map code) ++
    n.exponent.elim [] fun e => code 'e' :: code e.1 :: e.2.map code

/-- What `strtod` returns, how far it reads and whether it sets `ERANGE`. -/
structure Strtod where
  value : ℚ≥0
  read : ℕ
  erange : Bool

/-- The code page, and the functions of the C++ library that convert floating-point numbers. -/
structure Runtime extends Charset where
  isprint : UInt8 → Bool
  strtod : Bytes → Strtod
  /-- `<<`, in the scientific or in the default format. -/
  print_double : Bool → ℚ≥0 → Bytes
  iscntrl_nul : iscntrl 0 = true
  escapes_ne_nul : ∀ c ∈ escapes, code c ≠ 0
  print_double_numeral : ∀ scientific value,
    ∃ n : Numeral, print_double scientific value = n.text code

inductive LexErrorKind
  | InvalidChar
  | UnclosedString
  | UnknownEscape
  | IntOutOfRange
  | IncompleteInt
  | FloatOutOfRange
  | InvalidFloat
  deriving DecidableEq, Repr

inductive Radix
  | Dec
  | Bin
  | Hex
  deriving DecidableEq, Repr

def Radix.base : Radix → ℕ
  | .Dec => 10
  | .Bin => 2
  | .Hex => 16

inductive Token
  | TokEof
  | TokTrue
  | TokFalse
  | TokMinus
  | TokDoubleMinus
  | TokTimes
  | TokId (text : Bytes)
  | TokIntLit (value : ℕ) (base : Radix)
  | TokFloatLit (value : ℚ≥0) (has_exponent : Bool)
  /-- The text between the quotes, as it is written. -/
  | TokStrLit (content : Bytes)
  | TokFlagShort (name : Bytes)
  | TokFlagLong (name : Bytes)
  deriving DecidableEq

def LLONG_MAX : ℕ := 2 ^ 63 - 1

def current (text : Bytes) : UInt8 := text.headD 0

def peek (text : Bytes) : UInt8 := current text.tail

def peek2 (text : Bytes) : UInt8 := peek text.tail

@[simp] theorem current_cons (c : UInt8) (text : Bytes) : current (c :: text) = c := rfl

@[simp] theorem peek_cons (c : UInt8) (text : Bytes) : peek (c :: text) = current text := rfl

section

variable (rt : Runtime)

def is_ascii_dec_digit (c : UInt8) : Bool := c ∈ dec_digits.map rt.code

def is_ascii_hex_digit (c : UInt8) : Bool := (rt.hex_digit c).isSome

def is_ascii_bin_digit (c : UInt8) : Bool := c ∈ ['0', '1'].map rt.code

def is_ident_start (c : UInt8) : Bool := c ≠ rt.code ' ' && !rt.iscntrl c

def is_ident_cont (c : UInt8) : Bool := is_ident_start rt c

def is_digit (base : Radix) (c : UInt8) : Bool :=
  match base with
  | .Dec => is_ascii_dec_digit rt c
  | .Hex => is_ascii_hex_digit rt c
  | .Bin => is_ascii_bin_digit rt c

def is_whitespace (c : UInt8) : Bool := c ∈ [' ', '\t', '\n', '\r'].map rt.code

/-- The flag tells that a comment is being skipped. -/
def eat_whitespace_and_comments : Bool → Bytes → Bytes
  | _, [] => []
  | false, c :: cs =>
    if is_whitespace rt c then eat_whitespace_and_comments false cs
    else if c = rt.code '#' && current cs = rt.code ' ' then eat_whitespace_and_comments true cs
    else c :: cs
  | true, c :: cs =>
    if c = rt.code '\n' then eat_whitespace_and_comments false cs
    else if c = 0 then c :: cs
    else eat_whitespace_and_comments true cs

def lex_identifier_or_keyword (text : Bytes) : Token × Bytes :=
  let word := text.takeWhile (is_ident_cont rt)
  (if word = rt.str "true" then .TokTrue
    else if word = rt.str "false" then .TokFalse
    else .TokId word,
    text.dropWhile (is_ident_cont rt))

/-- The content of a string literal and what follows its closing quote. -/
def lex_string : Bytes → Except LexErrorKind (Bytes × Bytes)
  | [] => .error .UnclosedString
  | c :: cs =>
    if c = 0 || c = rt.code '\n' then .error .UnclosedString
    else if c = rt.code '"' then .ok ([], cs)
    else if c = rt.code '\\' then
      match cs with
      | [] => .error .UnclosedString
      | e :: cs =>
        if e = 0 || e = rt.code '\n' then .error .UnclosedString
        else if e ∈ ['n', 'r', 't', '\\', '"', '0'].map rt.code then
          (lex_string cs).map fun p => (c :: e :: p.1, p.2)
        else .error .UnknownEscape
    else (lex_string cs).map fun p => (c :: p.1, p.2)

/-- The digits of a number without their underscores, and what follows them. -/
def lex_digits (base : Radix) : Bytes → Bytes × Bytes
  | [] => ([], [])
  | c :: cs =>
    if c = rt.code '_' then lex_digits base cs
    else if is_digit rt base c then (c :: (lex_digits base cs).1, (lex_digits base cs).2)
    else ([], c :: cs)

def lex_fraction (text : Bytes) : Bytes × Bytes :=
  if current text = rt.code '.' && is_ascii_dec_digit rt (peek text) then
    let (digits, rest) := lex_digits rt .Dec text.tail
    (current text :: digits, rest)
  else ([], text)

def is_sign (c : UInt8) : Bool := c ∈ ['+', '-'].map rt.code

def is_exponent_mark (c : UInt8) : Bool := c ∈ ['e', 'E'].map rt.code

def lex_exponent (text : Bytes) : Bytes × Bytes :=
  if is_exponent_mark rt (current text) then
    if is_ascii_dec_digit rt (peek text) then
      let (digits, rest) := lex_digits rt .Dec text.tail
      (current text :: digits, rest)
    else if is_sign rt (peek text) && is_ascii_dec_digit rt (peek2 text) then
      let (digits, rest) := lex_digits rt .Dec text.tail.tail
      (current text :: peek text :: digits, rest)
    else ([], text)
  else ([], text)

/-- What fits into `num_buffer`. -/
def num_buffer (text : Bytes) : Bytes := text.take 127

def strtoll (base : Radix) (digits : Bytes) : ℕ :=
  digits.foldl (fun value c => value * base.base + (rt.hex_digit c).getD 0) 0

def make_int (base : Radix) (digits : Bytes) : Except LexErrorKind Token :=
  let value := strtoll rt base digits
  if LLONG_MAX < value then .error .IntOutOfRange else .ok (.TokIntLit value base)

def make_float (buffer : Bytes) (has_exponent : Bool) : Except LexErrorKind Token :=
  let converted := rt.strtod buffer
  if converted.erange then .error .FloatOutOfRange
  else if converted.read ≠ buffer.length then .error .InvalidFloat
  else .ok (.TokFloatLit converted.value has_exponent)

/-- A number with a base prefix, of which `0` and the mark were read. -/
def lex_based (base : Radix) (text : Bytes) : Except LexErrorKind (Token × Bytes) :=
  if !is_digit rt base (current text) then .error .IncompleteInt
  else
    let (digits, rest) := lex_digits rt base text
    if current rest = rt.code '.' || is_exponent_mark rt (current rest) then .error .InvalidChar
    else
      -- two characters of the buffer hold the prefix
      (make_int rt base (digits.take 125)).map fun token => (token, rest)

/-- A decimal integer or a floating-point number. -/
def lex_decimal (text : Bytes) : Except LexErrorKind (Token × Bytes) :=
  let (integer, rest) := lex_digits rt .Dec text
  let (fraction, rest) := lex_fraction rt rest
  let (exponent, rest) := lex_exponent rt rest
  if fraction = [] && exponent = [] then
    (make_int rt .Dec (num_buffer integer)).map fun token => (token, rest)
  else
    (make_float rt (num_buffer (integer ++ fraction ++ exponent)) (exponent ≠ [])).map
      fun token => (token, rest)

def lex_number (text : Bytes) : Except LexErrorKind (Token × Bytes) :=
  if current text = rt.code '0' then
    let p := peek text
    if p = rt.code 'x' || p = rt.code 'X' then lex_based rt .Hex text.tail.tail
    else if p = rt.code 'b' || p = rt.code 'B' then lex_based rt .Bin text.tail.tail
    else if !is_ascii_dec_digit rt p && p ≠ rt.code '.' && !is_exponent_mark rt p then
      .ok (.TokIntLit 0 .Dec, text.tail)
    else lex_decimal rt text
  else lex_decimal rt text

def lex_short_flag (text : Bytes) : Token × Bytes :=
  let cont c := is_ident_cont rt c || is_ascii_dec_digit rt c
  (.TokFlagShort (text.takeWhile cont), text.dropWhile cont)

def lex_long_flag (text : Bytes) : Token × Bytes :=
  let cont c := is_ident_cont rt c || c = rt.code '-'
  (.TokFlagLong (text.takeWhile cont), text.dropWhile cont)

def next_token (text : Bytes) : Except LexErrorKind (Token × Bytes) :=
  let c := current text
  if c = 0 then .ok (.TokEof, text)
  else if c = rt.code '*' then .ok (.TokTimes, text.tail)
  else if c = rt.code '-' then
    if peek text = rt.code '-' then
      if is_ident_start rt (peek2 text) then .ok (lex_long_flag rt text.tail.tail)
      else .ok (.TokDoubleMinus, text.tail.tail)
    else if is_ident_start rt (peek text) || is_ascii_dec_digit rt (peek text) then
      .ok (lex_short_flag rt text.tail)
    else .ok (.TokMinus, text.tail)
  else if c = rt.code '"' then
    (lex_string rt text.tail).map fun p => (.TokStrLit p.1, p.2)
  else if is_ascii_dec_digit rt c then lex_number rt text
  else if is_ident_start rt c then .ok (lex_identifier_or_keyword rt text)
  else .error .InvalidChar

/-- The tokens of a text, `TokEof` last. Each token reads a character, so that as many steps as
there are characters, and one more, reach the end. -/
def lex_all : ℕ → Bytes → Except LexErrorKind (List Token)
  | 0, _ => .ok [.TokEof]
  | n + 1, text => do
    let (token, rest) ← next_token rt (eat_whitespace_and_comments rt false text)
    if token = .TokEof then .ok [.TokEof]
    else return token :: (← lex_all n rest)

def tokenize (text : Bytes) : Except LexErrorKind (List Token) := lex_all rt (text.length + 1) text

namespace Token

/-- `get_str_lit_value`: the content with its escapes processed. -/
def str_lit_value : Bytes → Bytes
  | [] => []
  | c :: cs =>
    if c = rt.code '\\' then
      match cs with
      | [] => [c]
      | e :: cs =>
        (if e = rt.code 'n' then rt.code '\n'
          else if e = rt.code 'r' then rt.code '\r'
          else if e = rt.code 't' then rt.code '\t'
          else if e = rt.code '0' then 0
          else e) :: str_lit_value cs
    else c :: str_lit_value cs

def print_content : Bytes → Bytes
  | [] => []
  | c :: cs =>
    if c = rt.code '\\' then
      match cs with
      | [] => print_char c
      | e :: cs => rt.code '\\' :: e :: print_content cs
    else print_char c ++ print_content cs
where
  print_char (c : UInt8) : Bytes :=
    if c = rt.code '"' then rt.str "\\\""
    else if c = rt.code '\n' then rt.str "\\n"
    else if c = rt.code '\r' then rt.str "\\r"
    else if c = rt.code '\t' then rt.str "\\t"
    else if rt.isprint c then [c]
    else rt.str "?"

def digits (base : ℕ) (value : ℕ) : Bytes :=
  (Nat.toDigits base value).map rt.code

def print_integer_literal (value : ℕ) : Radix → Bytes
  | .Hex => rt.str "0x" ++ digits rt 16 value
  | .Bin => rt.str "0b" ++ digits rt 2 value
  | .Dec => digits rt 10 value

def unknown_kind (kind : String) : Bytes :=
  rt.str "<unknown token_kind: " ++ rt.str kind ++ rt.str ">"

def print : Token → Bytes
  | .TokFlagShort name => rt.code '-' :: name
  | .TokFlagLong name => rt.code '-' :: rt.code '-' :: name
  | .TokId text => text
  | .TokStrLit content => rt.code '"' :: print_content rt content ++ [rt.code '"']
  | .TokIntLit value base => print_integer_literal rt value base
  | .TokFloatLit value has_exponent => rt.print_double has_exponent value
  | .TokFalse => rt.str "false"
  | .TokTrue => rt.str "true"
  | .TokEof => unknown_kind rt "0"
  | .TokMinus => unknown_kind rt "3"
  | .TokDoubleMinus => unknown_kind rt "4"
  | .TokTimes => unknown_kind rt "5"

end Token

end

theorem mem_toDigits {base n : ℕ} (hbase : 1 < base) {c : Char} (h : c ∈ Nat.toDigits base n) :
    ∃ d < base, c = d.digitChar := by
  induction n using Nat.strong_induction_on with
  | _ n ih =>
    rw [Nat.toDigits_eq_if hbase] at h
    split_ifs at h with hn
    · exact ⟨n, hn, List.mem_singleton.mp h⟩
    · rcases List.mem_append.mp h with hmem | hmem
      · exact ih (n / base) (Nat.div_lt_self (by omega) hbase) hmem
      · exact ⟨n % base, Nat.mod_lt n (by omega), List.mem_singleton.mp hmem⟩

theorem mem_toDigits_dec {n : ℕ} {c : Char} (h : c ∈ Nat.toDigits 10 n) : c ∈ dec_digits := by
  obtain ⟨d, hd, rfl⟩ := mem_toDigits (by decide) h
  interval_cases d <;> decide

/-- ASCII, with what the library does with numbers that have no fraction and no exponent. -/
def ascii_runtime : Runtime :=
  { ascii with
    isprint := fun c => 0x20 ≤ c && c < 0x7f
    strtod := fun text =>
      let digits := text.takeWhile (· ∈ dec_digits.map ascii.code)
      { value := digits.foldl (fun value c => value * 10 + ((ascii.hex_digit c).getD 0 : ℕ)) 0
        read := digits.length
        erange := false }
    print_double := fun _ value => (Nat.toDigits 10 (value.num / value.den)).map ascii.code
    iscntrl_nul := rfl
    escapes_ne_nul := forall_mem_of_all (by decide +kernel)
    print_double_numeral := fun _ value =>
      ⟨{ integer := Nat.toDigits 10 (value.num / value.den)
         fraction := []
         exponent := none
         digits := by simpa using fun c hc => mem_toDigits_dec hc
         integer_ne := Nat.toDigits_ne_nil
         exponent_ne := by simp }, by simp [Numeral.text]⟩ }

end Zowex.lexer

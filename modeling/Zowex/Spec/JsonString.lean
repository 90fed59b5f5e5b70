import Zowex.Spec.Charset

/-! `escape_json_string` and `unescape_json_string` of `zjson.hpp`, with the part of
`std::strtoul` the decoder rests on. -/

namespace Zowex.zjson

inductive ErrorKind
  | InvalidValue
  | InvalidType
  | InvalidLength
  | InvalidData
  | MissingField
  | UnknownField
  | Custom
deriving DecidableEq, Repr

/-- `zjson::Error`; `message` is what `what()` returns. -/
structure Error where
  kind : ErrorKind
  message : Bytes
deriving DecidableEq

variable (cs : Charset)

def Error.invalid_value (msg : Bytes) : Error :=
  ⟨.InvalidValue, cs.str "Invalid value: " ++ msg⟩

/-- One iteration of the encoder: what `c` appends to the output. -/
def escape_char (c : UInt8) : Bytes :=
  if c = cs.code '"' then cs.str "\\\""
  else if c = cs.code '\\' then cs.str "\\\\"
  else if c = cs.code '\x08' then cs.str "\\b"
  else if c = cs.code '\x0c' then cs.str "\\f"
  else if c = cs.code '\n' then cs.str "\\n"
  else if c = cs.code '\r' then cs.str "\\r"
  else if c = cs.code '\t' then cs.str "\\t"
  else if cs.iscntrl c then cs.str "\\ufffd"
  else [c]

def escape_json_string (input : Bytes) : Bytes := input.flatMap (escape_char cs)

/-- The optional sign `std::strtoul` accepts: its length, and whether it negates. -/
def strtoul_sign (s : Bytes) : ℕ × Bool :=
  match s with
  | c :: _ => (if c = cs.code '-' ∨ c = cs.code '+' then 1 else 0, decide (c = cs.code '-'))
  | [] => (0, false)

/-- The length of the `0x` it accepts before a digit in base 16. -/
def strtoul_prefix (s : Bytes) : ℕ :=
  match s with
  | z :: x :: d :: _ =>
    if z = cs.code '0' ∧ (x = cs.code 'x' ∨ x = cs.code 'X') ∧ (cs.hex_digit d).isSome then 2
    else 0
  | _ => 0

/-- `std::strtoul(s, &endptr, 16)`: the value and how far `endptr` is from `s`. A minus
sign negates modulo the range of `unsigned long`. -/
def strtoul16 (s : Bytes) : ℕ × ℕ :=
  let blanks := (s.takeWhile cs.isspace).length
  let s := s.dropWhile cs.isspace
  let (sign, negative) := strtoul_sign cs s
  let s := s.drop sign
  let marker := strtoul_prefix cs s
  let digits := ((s.drop marker).takeWhile fun c => (cs.hex_digit c).isSome).filterMap cs.hex_digit
  let val := digits.foldl (fun acc d => acc * 16 + d) 0
  if digits = [] then (0, 0)
  else (if negative ∧ val ≠ 0 then 2 ^ 64 - val else val, blanks + sign + marker + digits.length)

/-- The text of a `\u` escape to the byte it stands for. -/
def unescape_hex (hex : Bytes) : Except Error UInt8 :=
  let (val, endptr) := strtoul16 cs hex
  let valid_hex := endptr = 4
  if valid_hex ∧ val < 256 ∧ cs.iscntrl (UInt8.ofNat val) then
    .error (.invalid_value cs
      (cs.str "JSON string contains a disallowed control character escape: \\u" ++ hex))
  else if valid_hex ∧ val < 256 then .ok (UInt8.ofNat val)
  else .error (.invalid_value cs (cs.str "JSON string contains an unsupported \\u escape: \\u" ++ hex))

/-- The loop of the decoder on the text from position `i` on. -/
def unescape_loop (res : Bytes) : Bytes → Except Error Bytes
  | [] => .ok res
  | [c] => .ok (res ++ [c])
  | c :: e :: s =>
    if c = cs.code '\\' then
      if e = cs.code '"' then unescape_loop (res ++ [cs.code '"']) s
      else if e = cs.code '\\' then unescape_loop (res ++ [cs.code '\\']) s
      else if e = cs.code '/' then unescape_loop (res ++ [cs.code '/']) s
      else if e = cs.code 'b' then unescape_loop (res ++ [cs.code '\x08']) s
      else if e = cs.code 'f' then unescape_loop (res ++ [cs.code '\x0c']) s
      else if e = cs.code 'n' then unescape_loop (res ++ [cs.code '\n']) s
      else if e = cs.code 'r' then unescape_loop (res ++ [cs.code '\r']) s
      else if e = cs.code 't' then unescape_loop (res ++ [cs.code '\t']) s
      else if e = cs.code 'u' then
        if 4 ≤ s.length then do
          let byte ← unescape_hex cs (s.take 4)
          unescape_loop (res ++ [byte]) (s.drop 4)
        -- too short for four digits: the escape is kept as text
        else unescape_loop (res ++ [cs.code '\\', cs.code 'u']) s
      else unescape_loop (res ++ [cs.code '\\', e]) s
    else unescape_loop (res ++ [c]) (e :: s)
termination_by s => s.length
decreasing_by all_goals simp only [List.length_cons, List.length_drop]; omega

def unescape_json_string (s : Bytes) : Except Error Bytes := unescape_loop cs [] s

end Zowex.zjson

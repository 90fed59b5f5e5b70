import Zowex.Lib.JsonText
import Zowex.Spec.Charset

/-! `add_json_indentation` of `zjson.hpp`, and the characters of JSON texts. -/

namespace Zowex.zjson

/-- The local variables of the loop. -/
structure Indentation where
  result : Bytes := []
  indent_level : ℤ := 0
  in_string : Bool := false
  escape_next : Bool := false

variable (cs : Charset) (spaces : ℕ)

namespace Indentation

variable (s : Indentation)

def write (text : Bytes) : Indentation := { s with result := s.result ++ text }

/-- `result.append(indent_level * spaces, ' ')`, which throws where the number is negative. -/
def append_blanks : Option Indentation :=
  if 0 ≤ s.indent_level * spaces then
    some (s.write (List.replicate (s.indent_level * spaces).toNat (cs.code ' ')))
  else none

/-- The `switch` on a character outside of strings. -/
def structural (ch : UInt8) : Option Indentation :=
  if ch = cs.code '{' ∨ ch = cs.code '[' then
    let s := s.write [ch, cs.code '\n']
    append_blanks cs spaces { s with indent_level := s.indent_level + 1 }
  else if ch = cs.code '}' ∨ ch = cs.code ']' then
    let s := s.write [cs.code '\n']
    (append_blanks cs spaces { s with indent_level := s.indent_level - 1 }).map (write · [ch])
  else if ch = cs.code ',' then append_blanks cs spaces (s.write [ch, cs.code '\n'])
  else if ch = cs.code ':' then some (s.write [ch, cs.code ' '])
  else some (s.write [ch])

/-- One iteration of the loop. -/
def step (ch : UInt8) : Option Indentation :=
  if s.escape_next then some { s.write [ch] with escape_next := false }
  else if ch = cs.code '\\' ∧ s.in_string then some { s.write [ch] with escape_next := true }
  else if ch = cs.code '"' then some { s.write [ch] with in_string := !s.in_string }
  else if !s.in_string then structural cs spaces s ch
  else some (s.write [ch])

/-- The loop over a text. -/
def scan (text : Bytes) : Option Indentation := text.foldlM (step cs spaces) s

end Indentation

def add_json_indentation (json_str : Bytes) : Option Bytes :=
  (Indentation.scan cs spaces {} json_str).map Indentation.result

/-! The alphabet of the texts. -/

def mark_char : JsonText.Mark → Char
  | .open_object => '{'
  | .close_object => '}'
  | .open_array => '['
  | .close_array => ']'
  | .comma => ','
  | .colon => ':'

theorem mark_char_printable (m : JsonText.Mark) : mark_char m ∈ printable := by
  cases m <;> decide

def json_spaces : List Char := [' ', '\n', '\r', '\t']

theorem json_space_ne {space c : Char} (hspace : space ∈ json_spaces) (hc : c ∈ printable)
    (visible : c ≠ ' ') : cs.code space ≠ cs.code c := by
  have literals : ∀ space ∈ json_spaces, space ∈ printable ++ escapes := by decide
  have apart : ∀ space ∈ json_spaces, ∀ c ∈ printable, c ≠ ' ' → space ≠ c := by decide +kernel
  rw [Ne, cs.code_eq_iff (literals space hspace) (List.mem_append_left escapes hc)]
  exact apart space hspace c hc visible

def json_alphabet : JsonText.Alphabet UInt8 where
  quote := cs.code '"'
  escape := cs.code '\\'
  mark m := cs.code (mark_char m)
  white c := c ∈ json_spaces.map cs.code
  escape_ne_quote := cs.code_ne (by decide) (by decide) (by decide)
  mark_ne_quote m := cs.code_ne (mark_char_printable m) (by decide) (by cases m <;> decide)
  mark_ne_escape m := cs.code_ne (mark_char_printable m) (by decide) (by cases m <;> decide)
  mark_injective := by
    intro m n same
    have chars : mark_char m = mark_char n := by
      by_contra other
      exact cs.code_ne (mark_char_printable m) (mark_char_printable n) other same
    cases m <;> cases n <;> first | rfl | exact absurd chars (by decide)
  white_plain c white := by
    obtain ⟨space, hspace, rfl⟩ := List.mem_map.mp (of_decide_eq_true white)
    refine ⟨json_space_ne cs hspace (by decide) (by decide),
      json_space_ne cs hspace (by decide) (by decide), fun m => ?_⟩
    exact json_space_ne cs hspace (mark_char_printable m) (by cases m <;> decide)

end Zowex.zjson

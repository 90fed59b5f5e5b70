import Mathlib.Data.List.Nodup
import Mathlib.Data.List.Lex
import Mathlib.Tactic

/-! The native code page. Character literals of the source denote code points of
the execution character set, IBM-1047 on z/OS, and the `<cctype>` predicates
are those of the "C" locale over it. Everything that depends on either takes a
`Charset`; strings are byte lists. -/

namespace Zowex

/-- The content of a `std::string` or a `std::vector<char>`. -/
abbrev Bytes := List UInt8

/-- Membership of a text in a list is decided with the equality of texts. -/
instance lawful_bytes : LawfulBEq Bytes := inferInstance

/-- The literals the source writes between quotes, escapes excluded: `' '` to `'~'`. -/
def printable : List Char := (List.range' 0x20 95).map Char.ofNat

/-- What is said of the characters of a list is decided on these, not on all there are. -/
instance (priority := 1100) decidable_forall_chars (chars : List Char) (p : Char → Prop)
    [DecidablePred p] : Decidable (∀ c, c ∈ chars → p c) :=
  List.decidableBAll p chars

/-- The control characters with a named escape: `\b`, `\f`, `\n`, `\r`, `\t`. -/
def escapes : List Char := ['\x08', '\x0c', '\n', '\r', '\t']

structure Charset where
  code : Char → UInt8
  iscntrl : UInt8 → Bool
  isspace : UInt8 → Bool
  code_nodup : ((printable ++ escapes).map code).Nodup
  iscntrl_printable : ∀ c ∈ printable, iscntrl (code c) = false
  iscntrl_escapes : ∀ c ∈ escapes, iscntrl (code c) = true
  isspace_printable : ∀ c ∈ printable, c ≠ ' ' → isspace (code c) = false

namespace Charset

variable (cs : Charset)

/-- A string literal. -/
def str (s : String) : Bytes := s.toList.map cs.code

/-- Distinct literals are distinct bytes. -/
theorem code_eq_iff {a b : Char} (ha : a ∈ printable ++ escapes) (hb : b ∈ printable ++ escapes) :
    cs.code a = cs.code b ↔ a = b :=
  ⟨fun h => List.inj_on_of_nodup_map cs.code_nodup ha hb h, fun h => h ▸ rfl⟩

theorem code_ne {a b : Char} (ha : a ∈ printable) (hb : b ∈ printable) (other : a ≠ b) :
    cs.code a ≠ cs.code b := fun same =>
  other ((cs.code_eq_iff (List.mem_append_left _ ha) (List.mem_append_left _ hb)).mp same)

theorem code_beq {a b : Char} (ha : a ∈ printable ++ escapes) (hb : b ∈ printable ++ escapes) :
    (cs.code a == cs.code b) = (a == b) := by
  rw [Bool.eq_iff_iff, beq_iff_eq, beq_iff_eq, cs.code_eq_iff ha hb]

def upper : List Char := "ABCDEFGHIJKLMNOPQRSTUVWXYZ".toList
def lower : List Char := "abcdefghijklmnopqrstuvwxyz".toList

def isupper (c : UInt8) : Bool := (upper.map cs.code).contains c

/-- `std::tolower`: only the letters of the "C" locale change. -/
def tolower (c : UInt8) : UInt8 :=
  (((upper.map cs.code).zip (lower.map cs.code)).lookup c).getD c

/-- The value of a digit in base 16, none for every other character. -/
def hex_digit (c : UInt8) : Option ℕ :=
  (("0123456789abcdef".toList.map cs.code).zipIdx ++
    ("ABCDEF".toList.map cs.code).zipIdx 10).lookup c

end Charset

theorem forall_mem_of_all {α : Type} {l : List α} {p : α → Prop} [DecidablePred p]
    (h : (l.all fun c => p c) = true) : ∀ c ∈ l, p c := by
  simpa using h

/-- ASCII as a code page: a literal is its Unicode scalar value. -/
def ascii : Charset where
  code c := UInt8.ofNat c.toNat
  iscntrl b := b < 0x20 || b == 0x7f
  isspace b := b == 0x20 || (0x09 ≤ b && b ≤ 0x0d)
  code_nodup := by decide +kernel
  iscntrl_printable := forall_mem_of_all (by decide +kernel)
  iscntrl_escapes := forall_mem_of_all (by decide +kernel)
  isspace_printable := forall_mem_of_all (by decide +kernel)

/-- The code points of IBM-1047 for the literals above. -/
def ibm1047_table : List (Char × UInt8) := [
  (' ', 0x40), ('.', 0x4b), ('<', 0x4c), ('(', 0x4d), ('+', 0x4e), ('|', 0x4f),
  ('&', 0x50), ('!', 0x5a), ('$', 0x5b), ('*', 0x5c), (')', 0x5d), (';', 0x5e), ('^', 0x5f),
  ('-', 0x60), ('/', 0x61), (',', 0x6b), ('%', 0x6c), ('_', 0x6d), ('>', 0x6e), ('?', 0x6f),
  ('`', 0x79), (':', 0x7a), ('#', 0x7b), ('@', 0x7c), ('\'', 0x7d), ('=', 0x7e), ('"', 0x7f),
  ('~', 0xa1), ('[', 0xad), (']', 0xbd), ('\\', 0xe0), ('{', 0xc0), ('}', 0xd0),
  ('a', 0x81), ('b', 0x82), ('c', 0x83), ('d', 0x84), ('e', 0x85), ('f', 0x86), ('g', 0x87),
  ('h', 0x88), ('i', 0x89),
  ('j', 0x91), ('k', 0x92), ('l', 0x93), ('m', 0x94), ('n', 0x95), ('o', 0x96), ('p', 0x97),
  ('q', 0x98), ('r', 0x99),
  ('s', 0xa2), ('t', 0xa3), ('u', 0xa4), ('v', 0xa5), ('w', 0xa6), ('x', 0xa7), ('y', 0xa8),
  ('z', 0xa9),
  ('A', 0xc1), ('B', 0xc2), ('C', 0xc3), ('D', 0xc4), ('E', 0xc5), ('F', 0xc6), ('G', 0xc7),
  ('H', 0xc8), ('I', 0xc9),
  ('J', 0xd1), ('K', 0xd2), ('L', 0xd3), ('M', 0xd4), ('N', 0xd5), ('O', 0xd6), ('P', 0xd7),
  ('Q', 0xd8), ('R', 0xd9),
  ('S', 0xe2), ('T', 0xe3), ('U', 0xe4), ('V', 0xe5), ('W', 0xe6), ('X', 0xe7), ('Y', 0xe8),
  ('Z', 0xe9),
  ('0', 0xf0), ('1', 0xf1), ('2', 0xf2), ('3', 0xf3), ('4', 0xf4), ('5', 0xf5), ('6', 0xf6),
  ('7', 0xf7), ('8', 0xf8), ('9', 0xf9),
  ('\x08', 0x16), ('\x0c', 0x0c), ('\n', 0x15), ('\r', 0x0d), ('\t', 0x05)]

/-- IBM-1047. Its control characters are `X'00'` to `X'3F'` and `X'FF'`. -/
def ibm1047 : Charset where
  code c := (ibm1047_table.lookup c).getD 0x6f
  iscntrl b := b < 0x40 || b == 0xff
  isspace b := b == 0x40 || b == 0x05 || b == 0x0b || b == 0x0c || b == 0x0d || b == 0x15
  code_nodup := by decide +kernel
  iscntrl_printable := forall_mem_of_all (by decide +kernel)
  iscntrl_escapes := forall_mem_of_all (by decide +kernel)
  isspace_printable := forall_mem_of_all (by decide +kernel)

end Zowex

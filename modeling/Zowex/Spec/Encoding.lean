import Zowex.Spec.Charset

/-! The conversions of `zut.cpp`, and what the functions that write set up for them. `iconv` is a
parameter. The texts of the diagnostics are left out; `e_msg` tells whether there is one. -/

namespace Zowex

inductive DataType
  | eDataTypeText
  | eDataTypeBinary
  deriving DecidableEq, Repr

structure ZEncode where
  codepage : Bytes := []
  source_codepage : Bytes := []
  data_type : DataType := .eDataTypeText

/-- A conversion descriptor: the shift state it is opened in, the conversion of a buffer, none
where `iconv` gives -1 or leaves input, and the sequence that leads back to the initial state. -/
structure Iconv (Shift : Type) where
  initial : Shift
  convert : Shift → Bytes → Option (Bytes × Shift)
  flush : Shift → Option Bytes

/-- `iconv_open(to, from)`. -/
abbrev IconvOpen (Shift : Type) := Bytes → Bytes → Option (Iconv Shift)

variable {Shift : Type}

/-- None for -1. -/
def zut_iconv (cd : Iconv Shift) (shift : Shift) (input : Bytes) (max_output_size : ℕ)
    (flush_state : Bool) : Option (Bytes × Shift) := do
  let (output, shift) ← cd.convert shift input
  if output.length > max_output_size then none
  else if !flush_state then some (output, shift)
  else do
    let sequence ← cd.flush shift
    if (output ++ sequence).length > max_output_size then none
    else some (output ++ sequence, cd.initial)

/-- `zut_encode` with a descriptor, none for an exception. -/
def zut_encode_with (cd : Iconv Shift) (shift : Shift) (input : Bytes) (flush_state : Bool) :
    Option (Bytes × Shift) :=
  zut_iconv cd shift input (input.length * 4 + 16) flush_state

structure Encoded where
  /-- None for an exception. -/
  output : Option Bytes
  e_msg : Bool

/-- `zut_encode` with names. Without a converter there is only a diagnostic. -/
def zut_encode (iconv_open : IconvOpen Shift) (input from_encoding to_encoding : Bytes) : Encoded :=
  if from_encoding = to_encoding then ⟨some input, false⟩
  else
    match iconv_open to_encoding from_encoding with
    | none => ⟨some [], true⟩
    | some cd =>
      let output := zut_iconv cd cd.initial input (input.length * 4) true
      ⟨output.map Prod.fst, output.isNone⟩

/-- What the conversion of the input is, where there is one. -/
def conversion (iconv_open : IconvOpen Shift) (input from_encoding to_encoding : Bytes) :
    Option Bytes := do
  let cd ← iconv_open to_encoding from_encoding
  let (output, shift) ← cd.convert cd.initial input
  let sequence ← cd.flush shift
  some (output ++ sequence)

/-- The bytes, and whether there is a message for a failure. -/
def zut_iconv_flush (cd : Iconv Shift) (shift : Shift) : Bytes × Bool :=
  match cd.flush shift with
  | none => ([], true)
  | some sequence => if sequence.length > 16 then ([], true) else (sequence, false)

namespace zds

variable (cs : Charset)

def zds_use_codepage (opts : ZEncode) : Bool :=
  opts.data_type = .eDataTypeText && opts.codepage ≠ []

/-- The encoding of the user's side. -/
def source_encoding (opts : ZEncode) : Bytes :=
  if opts.source_codepage ≠ [] then opts.source_codepage else cs.str "UTF-8"

/-- The character, and whether there is a message for a conversion that failed. -/
def get_newline_char (iconv_open : IconvOpen Shift) (encoding : Bytes) : UInt8 × Bool :=
  if encoding = [] then (cs.code '\n', false)
  else
    let result := zut_encode iconv_open [cs.code '\n'] (cs.str "IBM-1047") encoding
    ((result.output.bind List.head?).getD (cs.code '\n'), result.e_msg)

structure EncodingSetup where
  has_encoding : Bool
  codepage : Bytes
  source_encoding : Bytes
  newline_char : UInt8

def setup_encoding (iconv_open : IconvOpen Shift) (opts : ZEncode) : EncodingSetup × Bool :=
  let has_encoding := zds_use_codepage opts
  let source_encoding := source_encoding cs opts
  let (newline_char, e_msg) :=
    get_newline_char cs iconv_open (if has_encoding then source_encoding else [])
  ({ has_encoding, codepage := opts.codepage, source_encoding, newline_char }, e_msg)

/-- The descriptor that the guard holds, none as well where there is no encoding. -/
def EncodingSetup.iconv_guard (setup : EncodingSetup) (iconv_open : IconvOpen Shift) :
    Option (Iconv Shift) :=
  if setup.has_encoding then iconv_open setup.codepage setup.source_encoding else none

def validate_iconv_setup (setup : EncodingSetup) (iconv_guard : Option (Iconv Shift)) : Bool :=
  !setup.has_encoding || iconv_guard.isSome

/-- Every call starts in the initial shift state, and flushes it. -/
def encode_line_if_needed (iconv_guard : Option (Iconv Shift)) (line : Bytes) : Option Bytes :=
  match iconv_guard with
  | none => some line
  | some cd => (zut_encode_with cd cd.initial line true).map Prod.fst

/-- The descriptor, where there is one, and its shift state. -/
abbrev Conversion (Shift : Type) := Option (Iconv Shift × Shift)

def Conversion.start (iconv_guard : Option (Iconv Shift)) : Conversion Shift :=
  iconv_guard.map fun cd => (cd, cd.initial)

def encode_chunk_if_needed (conversion : Conversion Shift) (chunk : Bytes) :
    Option (Bytes × Conversion Shift) :=
  match conversion with
  | none => some (chunk, none)
  | some (cd, shift) =>
    (zut_encode_with cd shift chunk false).map fun (output, shift) => (output, some (cd, shift))

/-- The sequence, none for a failure: an empty one counts as one where there is a message. -/
def flush_encoding_state (conversion : Conversion Shift) (e_msg : Bool) : Option Bytes :=
  match conversion with
  | none => some []
  | some (cd, shift) =>
    let (flush_buffer, failed) := zut_iconv_flush cd shift
    if flush_buffer = [] ∧ (e_msg || failed) then none else some flush_buffer

end zds
end Zowex

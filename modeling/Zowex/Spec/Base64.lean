import Zowex.Spec.Charset

/-! `zbase64.h`. Pointers into the input are positions in a list, the output buffer is
the list of the bytes written so far, `unsigned int` values stay below `2 ^ 24` and
are natural numbers. -/

namespace Zowex.zbase64

/-- The alphabet at its EBCDIC code points. -/
def encode_table_ascii : Bytes :=
  ibm1047.str "ABCDEFGHIJKLMNOPQRSTUVWXYZabcdefghijklmnopqrstuvwxyz0123456789+/"

/-- `'='`, compared against as 126 by the decoder. -/
def pad : UInt8 := ibm1047.code '='

def get_ebcdic_decode_table (c : UInt8) : ℕ :=
  let i := c.toNat
  if 193 ≤ i ∧ i < 193 + 9 then i - 193
  else if 209 ≤ i ∧ i < 209 + 9 then 9 + (i - 209)
  else if 226 ≤ i ∧ i < 226 + 8 then 18 + (i - 226)
  else if 129 ≤ i ∧ i < 129 + 9 then 26 + (i - 129)
  else if 145 ≤ i ∧ i < 145 + 9 then 35 + (i - 145)
  else if 162 ≤ i ∧ i < 162 + 8 then 44 + (i - 162)
  else if 240 ≤ i ∧ i < 240 + 10 then 52 + (i - 240)
  else if i = 78 then 62
  else if i = 97 then 63
  else if i = 126 then 254
  else 255

def encoded_size (input_size : ℕ) : ℕ := (input_size + 2) / 3 * 4

/-- The table entry of the six bits of `combined` above bit `shift`. -/
def sextet (combined shift : ℕ) : UInt8 :=
  encode_table_ascii.getD ((combined >>> shift) &&& 0x3f) 0

/-- The four characters of the `k`-th full three-byte block. -/
def encode_block (src : Bytes) (k : ℕ) : Bytes :=
  let block := fun j => (src.getD (k * 3 + j) 0).toNat
  let combined := (block 0 <<< 16) ||| (block 1 <<< 8) ||| block 2
  [sextet combined 18, sextet combined 12, sextet combined 6, sextet combined 0]

/-- `for (; i + 4 <= full_blocks; i += 4)`: twelve input bytes a round. -/
def encode_main_loop (src : Bytes) (full_blocks i : ℕ) (dst : Bytes) : ℕ × Bytes :=
  if i + 4 ≤ full_blocks then
    encode_main_loop src full_blocks (i + 4)
      (dst ++ encode_block src (i + 0) ++ encode_block src (i + 1) ++
        encode_block src (i + 2) ++ encode_block src (i + 3))
  else (i, dst)
termination_by full_blocks - i

/-- `for (; i < full_blocks; i++)`. -/
def encode_rest_loop (src : Bytes) (full_blocks i : ℕ) (dst : Bytes) : Bytes :=
  if i < full_blocks then
    encode_rest_loop src full_blocks (i + 1) (dst ++ encode_block src i)
  else dst
termination_by full_blocks - i

/-- The one or two bytes after the last full block, padded. -/
def encode_tail (src : Bytes) (full_blocks remaining : ℕ) : Bytes :=
  let hi := (src.getD (full_blocks * 3) 0).toNat <<< 16
  let combined :=
    if remaining > 1 then hi ||| ((src.getD (full_blocks * 3 + 1) 0).toNat <<< 8) else hi
  [sextet combined 18, sextet combined 12,
    if remaining > 1 then sextet combined 6 else pad, pad]

/-- `encode(const char *input, size_t input_len)`. -/
def encode (input : Bytes) : Bytes :=
  if input.length = 0 then []
  else
    let full_blocks := input.length / 3
    let (i, dst) := encode_main_loop input full_blocks 0 []
    let dst := encode_rest_loop input full_blocks i dst
    let remaining := input.length - full_blocks * 3
    if remaining > 0 then dst ++ encode_tail input full_blocks remaining else dst

/-- `encode(const std::string &input)`: the characters of the buffer overload's result. -/
def encode_string (input : Bytes) : Bytes := encode input

/-- What `std::invalid_argument::what()` says. -/
inductive DecodeError
  | length
  | character
deriving DecidableEq, Repr

def DecodeError.what : DecodeError → String
  | .length => "Invalid base64 input length"
  | .character => "Invalid base64 character"

/-- One round of the decoder: four characters to at most three bytes. -/
def decode_group (s0 s1 s2 s3 : UInt8) : Except DecodeError Bytes :=
  let c0 := get_ebcdic_decode_table s0
  let c1 := get_ebcdic_decode_table s1
  let c2 := if s2.toNat = 126 then 0 else get_ebcdic_decode_table s2
  let c3 := if s3.toNat = 126 then 0 else get_ebcdic_decode_table s3
  if (c0 ||| c1) &&& 0x80 ≠ 0 then .error .character
  else if s2.toNat ≠ 126 ∧ c2 &&& 0x80 ≠ 0 then .error .character
  else if s3.toNat ≠ 126 ∧ c3 &&& 0x80 ≠ 0 then .error .character
  else
    let combined := (c0 <<< 18) ||| (c1 <<< 12) ||| (c2 <<< 6) ||| c3
    let first := UInt8.ofNat ((combined >>> 16) &&& 0xff)
    if s2.toNat ≠ 126 then
      let second := UInt8.ofNat ((combined >>> 8) &&& 0xff)
      if s3.toNat ≠ 126 then .ok [first, second, UInt8.ofNat (combined &&& 0xff)]
      else .ok [first, second]
    else .ok [first]

/-- `while (src + 4 <= src_end)`. -/
def decode_loop (output : Bytes) : Bytes → Except DecodeError Bytes
  | s0 :: s1 :: s2 :: s3 :: src => do
    let group ← decode_group s0 s1 s2 s3
    decode_loop (output ++ group) src
  | _ => .ok output

/-- `decode(const char *input, size_t input_len)`. The padding count of the source only
sizes the reserved buffer. -/
def decode (input : Bytes) : Except DecodeError Bytes :=
  if input.length = 0 then .ok []
  else if input.length % 4 ≠ 0 then .error .length
  else decode_loop [] input

/-- `decode(const std::string &input)`. -/
def decode_string (input : Bytes) : Except DecodeError Bytes := decode input

/-! Streaming: `left_over` holds the bytes of an unfinished group between two calls. -/

/-- `load_leftover`: the combined input, and the emptied buffer. -/
def load_leftover (input left_over : Bytes) : Bytes × Bytes := (left_over ++ input, [])

/-- `store_leftover`: how much of the input is complete, and the buffer afterwards. -/
def store_leftover (combined_input : Bytes) (left_over : Option Bytes) (byte_multiple : ℕ) :
    ℕ × Option Bytes :=
  let extra_count := combined_input.length % byte_multiple
  let total_size := combined_input.length - extra_count
  match left_over with
  | some _ => if extra_count > 0
      then (total_size, some ((combined_input.drop total_size).take extra_count))
      else (total_size, left_over)
  | none => (total_size, none)

/-- The part both streaming overloads share: the complete groups to convert now, or none
for the early return, and the buffer afterwards. -/
def combine (input : Bytes) (left_over : Option Bytes) (byte_multiple : ℕ) :
    Option Bytes × Option Bytes :=
  let split := fun (combined_input : Bytes) (left_over : Option Bytes) =>
    let (input_len, left_over) := store_leftover combined_input left_over byte_multiple
    (some (combined_input.take input_len), left_over)
  match left_over with
  | some (b :: rest) =>
    let (combined_input, cleared) := load_leftover input (b :: rest)
    split combined_input (some cleared)
  | _ => if input.length = 0 then (none, left_over) else split input left_over

/-- `encode(input, input_len, left_over)`; the pointer may be null. -/
def encode_stream (input : Bytes) (left_over : Option Bytes) : Bytes × Option Bytes :=
  match combine input left_over 3 with
  | (none, left_over) => ([], left_over)
  | (some complete, left_over) => (encode complete, left_over)

/-- `decode(input, input_len, left_over)`. -/
def decode_stream (input : Bytes) (left_over : Option Bytes) :
    Except DecodeError Bytes × Option Bytes :=
  match combine input left_over 4 with
  | (none, left_over) => (.ok [], left_over)
  | (some complete, left_over) => (decode complete, left_over)

/-- Consecutive calls of the streaming encoder on one `left_over` buffer. -/
def encode_run : List Bytes → Option Bytes → List Bytes × Option Bytes
  | [], left_over => ([], left_over)
  | input :: inputs, left_over =>
    let (out, left_over) := encode_stream input left_over
    let (outs, left_over) := encode_run inputs left_over
    (out :: outs, left_over)

/-- Consecutive calls of the streaming decoder; an exception ends the sequence. -/
def decode_run : List Bytes → Option Bytes → Except DecodeError (List Bytes) × Option Bytes
  | [], left_over => (.ok [], left_over)
  | input :: inputs, left_over =>
    match decode_stream input left_over with
    | (.error e, left_over) => (.error e, left_over)
    | (.ok out, left_over) =>
      let (outs, left_over) := decode_run inputs left_over
      (outs.map (out :: ·), left_over)

end Zowex.zbase64

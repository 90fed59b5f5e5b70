import Zowex.Spec.Json

/-! `from_str` of `zjson.hpp`, over the services of the system that parse JSON. A handle stands
for a part of the parsed text. -/

namespace Zowex.zjson

inductive JsonType
  | HWTJ_NULL_TYPE
  | HWTJ_BOOLEAN_TYPE
  | HWTJ_NUMBER_TYPE
  | HWTJ_STRING_TYPE
  | HWTJ_ARRAY_TYPE
  | HWTJ_OBJECT_TYPE
  | other
  deriving DecidableEq

/-- What the services give, none where they return an error, and `std::strtod`: the number and
how far `endptr` is from the start. -/
structure Services (Handle : Type) where
  ZJSMINIT : Bool
  /-- The root of the parsed text. -/
  ZJSMPARS : Bytes → Option Handle
  ZJSNGJST : Handle → Option JsonType
  ZJSMGVAL : Handle → Option Bytes
  ZJSMGBOV : Handle → Option Bool
  ZJSMGNUE : Handle → Option ℕ
  ZJSMGAEN : Handle → ℕ → Option Handle
  ZJSMGOEN : Handle → ℕ → Option (Bytes × Handle)
  strtod : Bytes → Double × ℕ

def LLONG_MAX : ℤ := 2 ^ 63 - 1

def LLONG_MIN : ℤ := -2 ^ 63

section

variable (cs : Charset)

def is_dec_digit (c : UInt8) : Bool := c ∈ "0123456789".toList.map cs.code

/-- `std::strtoll(s, &endptr, 10)`: a value out of range gives the nearest one in range, and
`errno`, which is not looked at. -/
def strtoll (s : Bytes) : ℤ × ℕ :=
  let blanks := (s.takeWhile cs.isspace).length
  let s := s.dropWhile cs.isspace
  let (sign, negative) := strtoul_sign cs s
  let digits := (s.drop sign).takeWhile (is_dec_digit cs)
  let magnitude : ℕ := digits.foldl (fun acc c => acc * 10 + (cs.hex_digit c).getD 0) 0
  let val : ℤ := if negative then -magnitude else magnitude
  if digits = [] then (0, 0)
  else (max LLONG_MIN (min LLONG_MAX val), blanks + sign + digits.length)

def Error.custom (message : String) : Error := ⟨.Custom, cs.str message⟩

/-- A call that must return zero. -/
def checked {α : Type} (message : String) (result : Option α) : Except Error α :=
  result.elim (.error (.custom cs message)) .ok

variable {Handle : Type} (svc : Services Handle)

def malformed_number (str_val : Bytes) : Error :=
  .invalid_value cs (cs.str "Malformed JSON number: " ++ str_val)

/-- `endptr == str_val.c_str() || *endptr != '\0'` -/
def stopped_early (str_val : Bytes) (endptr : ℕ) : Bool :=
  endptr = 0 || (str_val.drop endptr).headD 0 ≠ 0

/-- The branch for numbers. -/
def number_to_value (str_val : Bytes) : Except Error Value :=
  if cs.code '.' ∈ str_val ∨ cs.code 'e' ∈ str_val ∨ cs.code 'E' ∈ str_val then
    let (num_val, endptr) := svc.strtod str_val
    if stopped_early str_val endptr then .error (malformed_number cs str_val)
    else .ok (.double num_val)
  else
    let (int_val, endptr) := strtoll cs str_val
    if stopped_early str_val endptr then .error (malformed_number cs str_val)
    else .ok (.integer int_val)

def MAX_JSON_DEPTH : ℕ := 64

/-- The first argument counts the levels of nesting that are left. -/
def json_handle_to_value : ℕ → Handle → Except Error Value
  | 0, _ =>
    .error (.custom cs ("JSON exceeds maximum nesting depth of " ++ toString MAX_JSON_DEPTH))
  | levels + 1, key_handle => do
    let type ← checked cs "Failed to determine JSON value type" (svc.ZJSNGJST key_handle)
    match type with
    | .HWTJ_NULL_TYPE => return .null
    | .HWTJ_BOOLEAN_TYPE =>
      return .bool (← checked cs "Failed to read JSON boolean value" (svc.ZJSMGBOV key_handle))
    | .HWTJ_NUMBER_TYPE =>
      number_to_value cs svc
        (← checked cs "Failed to read JSON number value" (svc.ZJSMGVAL key_handle))
    | .HWTJ_STRING_TYPE =>
      let raw_str ← checked cs "Failed to read JSON string value" (svc.ZJSMGVAL key_handle)
      return .string (← unescape_json_string cs raw_str)
    | .HWTJ_ARRAY_TYPE =>
      let num_entries ← checked cs "Failed to determine JSON array size" (svc.ZJSMGNUE key_handle)
      let elements ← (List.range num_entries).mapM fun i => do
        let element_handle ← checked cs
          ("Failed to read JSON array element at index " ++ toString i) (svc.ZJSMGAEN key_handle i)
        json_handle_to_value levels element_handle
      return .array elements
    | .HWTJ_OBJECT_TYPE =>
      let num_entries ← checked cs "Failed to determine JSON object size" (svc.ZJSMGNUE key_handle)
      let fields ← (List.range num_entries).mapM fun i => do
        let (key_name, value_handle) ← checked cs
          ("Failed to read JSON object field at index " ++ toString i) (svc.ZJSMGOEN key_handle i)
        return (key_name, ← json_handle_to_value levels value_handle)
      return .object fields
    | .other => .error (.custom cs "Unknown JSON value type encountered during parsing")

/-- `from_str<Value>` -/
def from_str_value (json_str : Bytes) : Except Error Value :=
  if !svc.ZJSMINIT then .error (.custom cs "Failed to initialize JSON parser")
  else do
    let root_handle ← checked cs "Failed to parse JSON string" (svc.ZJSMPARS json_str)
    json_handle_to_value cs svc MAX_JSON_DEPTH root_handle

end

/-- `as_uint64`. As with `as_int64`, the message of a failure is read by nobody. -/
def Value.as_uint64 : Value → Option ℤ
  | .integer i => if i < 0 then none else some i
  | .double (.finite q) =>
    if q.den = 1 ∧ 0 ≤ q.num ∧ q.num < 2 ^ 64 then some q.num else none
  | _ => none

/-- The integral types that a value is read as. The largest `size_t` depends on the platform. -/
inductive Target
  | int
  | unsigned_int
  | long_long
  | unsigned_long_long
  | size_t (largest : ℕ)

def Target.lowest : Target → ℤ
  | int => -2 ^ 31
  | long_long => LLONG_MIN
  | unsigned_int | unsigned_long_long | size_t _ => 0

def Target.highest : Target → ℤ
  | int => 2 ^ 31 - 1
  | unsigned_int => 2 ^ 32 - 1
  | long_long => LLONG_MAX
  | unsigned_long_long => 2 ^ 64 - 1
  | size_t largest => largest

/-- `Deserializable<T>::deserialize` -/
def Target.deserialize (value : Value) : Target → Option ℤ
  | int => value.as_int
  | unsigned_int => value.as_uint64.filter fun val => val ≤ unsigned_int.highest
  | long_long => value.as_int64
  | unsigned_long_long => value.as_uint64
  | size_t largest => value.as_uint64.filter fun val => val ≤ (size_t largest).highest

/-- `from_str<T>` -/
def from_str (cs : Charset) {Handle : Type} (svc : Services Handle) (target : Target)
    (json_str : Bytes) : Option ℤ :=
  (from_str_value cs svc json_str).toOption.bind fun parsed => target.deserialize parsed

end Zowex.zjson

import Mathlib.Data.Rat.Defs
import Zowex.Spec.JsonString

/-! `zjson::Value` of `zjson.hpp`. Reading and writing JSON text is the work of system
services, and a `Platform` stands for what they return. -/

namespace Zowex.zjson

/-- A `double`. What matters is whether it is finite, and its value then. -/
inductive Double
  | finite (value : ℚ)
  | infinite (negative : Bool)
  | nan
deriving DecidableEq

/-- An object keeps the fields it was built from, in that order. -/
inductive Value
  | null
  | bool (value : Bool)
  | integer (value : ℤ)
  | double (value : Double)
  | string (value : Bytes)
  | array (items : List Value)
  | object (fields : List (Bytes × Value))

/-- `std::map<std::string, Value>`, in the byte order of its keys. -/
abbrev ObjectMap := Std.ExtTreeMap Bytes Value compare

namespace Value

def is_null : Value → Bool
  | null => true
  | _ => false

def is_bool : Value → Bool
  | bool _ => true
  | _ => false

def is_integer : Value → Bool
  | integer _ => true
  | _ => false

def is_double : Value → Bool
  | double _ => true
  | _ => false

def is_string : Value → Bool
  | string _ => true
  | _ => false

def is_array : Value → Bool
  | array _ => true
  | _ => false

def is_object : Value → Bool
  | object _ => true
  | _ => false

def create_object : Value := object []

/-- `add_to_object`, on an object. -/
def add_to_object (v : Value) (key : Bytes) (value : Value) : Value :=
  match v with
  | object fields => object (fields ++ [(key, value)])
  | v => v

/-- The map of an object: of several fields with one name the last one counts. -/
def as_object (v : Value) : ObjectMap :=
  match v with
  | object fields => fields.foldl (fun obj field => obj.insert field.1 field.2) ∅
  | _ => ∅

def as_array (v : Value) : List Value :=
  match v with
  | array items => items
  | _ => []

end Value

end Zowex.zjson

namespace Zowex

open zjson

/-- The native code page and what the operating system answers. -/
structure Platform where
  cs : Charset
  /-- `from_str<Value>` -/
  from_str : Bytes → Except Error Value
  /-- `to_string` of an object or an array -/
  serialize : Value → Except Error Bytes
  /-- `ss << value` -/
  print_double : Double → Bytes
  tmpdir : Option Bytes
  geteuid : ℕ
  getpid : ℕ
  /-- `errno` of a failed call -/
  unlink : Bytes → Option ℤ
  mkfifo : Bytes → Option ℤ
  ENOENT : ℤ

namespace zjson

variable (sys : Platform)

def Error.invalid_type (expected found : Bytes) : Error :=
  ⟨.InvalidType, sys.cs.str "Invalid type. Expected " ++ expected ++ sys.cs.str ", found " ++ found⟩

def Error.invalid_data (msg : Bytes) : Error := ⟨.InvalidData, sys.cs.str "Invalid data: " ++ msg⟩

/-- `as_double`, on a number. -/
def Double.as_double (d : Double) : Except Error Double :=
  match d with
  | .finite _ => .ok d
  | _ => .error (.invalid_value sys.cs (sys.cs.str "Number is not finite: " ++ sys.print_double d))

/-- `to_string<Value>`. -/
def to_string (v : Value) : Except Error Bytes :=
  match v with
  | .object _ | .array _ => sys.serialize v
  | _ => .error ⟨.Custom, sys.cs.str "Serializing primitive values is not supported"⟩

/-- An integer as a stream or `std::to_string` writes it. -/
def decimal (i : ℤ) : Bytes := sys.cs.str (toString i)

/-- `as_int64`: the message of a failure is read by nobody. -/
def Value.as_int64 : Value → Option ℤ
  | .integer i => some i
  | .double (.finite q) =>
    if q.den = 1 ∧ -2 ^ 63 ≤ q.num ∧ q.num < 2 ^ 63 then some q.num else none
  | _ => none

/-- `Deserializable<int>`. -/
def Value.as_int (v : Value) : Option ℤ :=
  v.as_int64.filter fun i => -2 ^ 31 ≤ i ∧ i < 2 ^ 31

end zjson

end Zowex

import Zowex.Spec.Encoding
import Zowex.Spec.Json

/-! Registered structs of `zjson.hpp`. A struct type has a member of type `F i` for each `i`, and
a struct value is the function of its members. -/

namespace Zowex.zjson

inductive CaseStyle
  | none
  | lowercase
  | UPPERCASE
  | PascalCase
  | camelCase
  | snake_case
  | SCREAMING_SNAKE_CASE
  | kebab_case
  | SCREAMING_KEBAB_CASE
  deriving DecidableEq

section

variable (cs : Charset)

/-- `std::toupper`: only the letters of the "C" locale change. -/
def toupper (c : UInt8) : UInt8 :=
  (((Charset.lower.map cs.code).zip (Charset.upper.map cs.code)).lookup c).getD c

/-- The loop for `camelCase`, with the flag `capitalize_next`. -/
def camel_case : Bool → Bytes → Bytes
  | _, [] => []
  | capitalize_next, c :: name =>
    if c = cs.code '_' then camel_case true name
    else if capitalize_next then toupper cs c :: camel_case false name
    else cs.tolower c :: camel_case capitalize_next name

def capitalize_first : Bytes → Bytes
  | [] => []
  | c :: result => toupper cs c :: result

def transform_name (name : Bytes) : CaseStyle → Bytes
  | .none => name
  | .lowercase => name.map cs.tolower
  | .UPPERCASE => name.map (toupper cs)
  | .snake_case => name
  | .camelCase => camel_case cs false name
  | .PascalCase => capitalize_first cs (camel_case cs false name)
  | .SCREAMING_SNAKE_CASE => name.map (toupper cs)
  | .kebab_case => name.map fun c => if c = cs.code '_' then cs.code '-' else cs.tolower c
  | .SCREAMING_KEBAB_CASE => name.map fun c => if c = cs.code '_' then cs.code '-' else toupper cs c

end

/-- `Serializable<T>` and `Deserializable<T>`. -/
structure Serde (T : Type) where
  serialize : T → Except Error Value
  deserialize : Value → Except Error T

/-- A type of members: `std::optional<U>`, or any other. -/
inductive FieldCodec : Type → Type 1
  | plain {T : Type} (serde : Serde T) : FieldCodec T
  | optional {U : Type} (payload : Serde U) : FieldCodec (Option U)

namespace FieldCodec

variable {T : Type}

def serialize : FieldCodec T → T → Except Error Value
  | plain serde, value => serde.serialize value
  | optional _, none => .ok .null
  | optional payload, some value => payload.serialize value

def deserialize : FieldCodec T → Value → Except Error T
  | plain serde, value => serde.deserialize value
  | optional payload, value =>
    if value.is_null then .ok none else (payload.deserialize value).map some

/-- `FieldType{}`, where the type is optional. -/
def empty : FieldCodec T → Option T
  | plain _ => none
  | optional _ => some none

/-- An optional without a value. -/
def is_empty : FieldCodec T → T → Bool
  | plain _, _ => false
  | optional _, value => value.isNone

end FieldCodec

/-- `Field<T, FieldType>`. -/
structure Field (ι : Type) (F : ι → Type) where
  member : ι
  name : Bytes
  skip_serializing : Bool := false
  skip_deserializing : Bool := false
  skip_if_none : Bool := false
  flatten_field : Bool := false
  rename_to : Bytes := []
  default_value : Option (F member) := none

/-- What `ZJSON_SERIALIZABLE` and the specialisations of the configuration say of a type. -/
structure Struct (ι : Type) (F : ι → Type) where
  codec : ∀ i, FieldCodec (F i)
  /-- `StructType{}` -/
  init : ∀ i, F i
  rename_all_case : CaseStyle := .none
  deny_unknown_fields : Bool := false
  fields : List (Field ι F)

namespace Struct

variable (sys : Platform) {ι : Type} {F : ι → Type} (struct : Struct ι F)

def get_serialized_name (field : Field ι F) : Bytes :=
  if field.rename_to ≠ [] then field.rename_to
  else transform_name sys.cs field.name struct.rename_all_case

def name_collision (key : Bytes) : Error :=
  .invalid_data sys (sys.cs.str "Field name collision during flattening: '" ++ key ++
    sys.cs.str "' already exists in parent struct")

/-- The loop over the entries of a flattened object. -/
def flatten_entries (result : Value) : List (Bytes × Value) → Except Error Value
  | [] => .ok result
  | (key, val) :: entries =>
    if key ∈ result.as_object then .error (name_collision sys key)
    else flatten_entries (result.add_to_object key val) entries

/-- The part of `serialize_field` for a field that is not flattened. -/
def add_field (obj : ∀ i, F i) (result : Value) (field : Field ι F) : Except Error Value :=
  if (struct.codec field.member).is_empty (obj field.member) && field.skip_if_none then .ok result
  else do
    let value ← (struct.codec field.member).serialize (obj field.member)
    return result.add_to_object (get_serialized_name sys struct field) value

def serialize_field (obj : ∀ i, F i) (result : Value) (field : Field ι F) : Except Error Value :=
  if field.skip_serializing then .ok result
  else if field.flatten_field then do
    let nested_value ← (struct.codec field.member).serialize (obj field.member)
    if nested_value.is_object then flatten_entries sys result nested_value.as_object.toList
    else add_field sys struct obj result field
  else add_field sys struct obj result field

def serialize (obj : ∀ i, F i) : Except Error Value :=
  struct.fields.foldlM (serialize_field sys struct obj) Value.create_object

variable [DecidableEq ι]

/-- None when the field cannot be read. -/
def deserialize_field (object : ObjectMap) (obj : ∀ i, F i) (field : Field ι F) :
    Option (∀ i, F i) :=
  if field.skip_deserializing then some obj
  else if field.flatten_field then
    ((struct.codec field.member).deserialize (.object object.toList)).toOption.map
      (Function.update obj field.member)
  else
    match object[get_serialized_name sys struct field]? with
    | none =>
      (field.default_value.or (struct.codec field.member).empty).map
        (Function.update obj field.member)
    | some value =>
      ((struct.codec field.member).deserialize value).toOption.map
        (Function.update obj field.member)

/-- A flattened field takes any names. -/
def validate_no_unknown_fields (object : ObjectMap) : Except Error Unit :=
  if struct.fields.any Field.flatten_field then .ok ()
  else
    let names := struct.fields.map (get_serialized_name sys struct)
    match (object.toList.map Prod.fst).find? (· ∉ names) with
    | none => .ok ()
    | some key => .error ⟨.UnknownField, sys.cs.str "Unknown field: " ++ key⟩

def deserialize (value : Value) : Except Error (∀ i, F i) :=
  if !value.is_object then
    .error (.invalid_type sys (sys.cs.str "object") (sys.cs.str "other"))
  else
    match struct.fields.foldlM (deserialize_field sys struct value.as_object) struct.init with
    | none => .error (.invalid_data sys (sys.cs.str "Failed to deserialize fields"))
    | some result =>
      if struct.deny_unknown_fields then
        (validate_no_unknown_fields sys struct value.as_object).map fun _ => result
      else .ok result

def serde : Serde (∀ i, F i) := ⟨serialize sys struct, deserialize sys struct⟩

end Struct

end Zowex.zjson

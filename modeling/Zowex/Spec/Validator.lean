import Zowex.Spec.Json

/-! `validate_schema` of `validator.cpp`. -/

namespace Zowex.validator

open zjson

inductive FieldType
  | TYPE_BOOL
  | TYPE_NUMBER
  | TYPE_STRING
  | TYPE_ARRAY
  | TYPE_OBJECT
  | TYPE_ANY
deriving DecidableEq, Repr

structure FieldDescriptor where
  name : Bytes
  type : FieldType
  required : Bool
  array_element_type : FieldType := .TYPE_ANY
  nested_schema : Option (List FieldDescriptor) := none

def check_type (value : Value) : FieldType → Bool
  | .TYPE_BOOL => value.is_bool
  | .TYPE_NUMBER => value.is_integer || value.is_double
  | .TYPE_STRING => value.is_string
  | .TYPE_ARRAY => value.is_array
  | .TYPE_OBJECT => value.is_object
  | .TYPE_ANY => true

def type_name : FieldType → String
  | .TYPE_BOOL => "boolean"
  | .TYPE_NUMBER => "number"
  | .TYPE_STRING => "string"
  | .TYPE_ARRAY => "array"
  | .TYPE_OBJECT => "object"
  | .TYPE_ANY => "any"

def actual_type_name : Value → String
  | .null => "null"
  | .bool _ => "boolean"
  | .integer _ | .double _ => "number"
  | .string _ => "string"
  | .array _ => "array"
  | .object _ => "object"

variable (cs : Charset) (allow_unknown_fields : Bool)

def get_field_path (parent_field name : Bytes) : Bytes :=
  if parent_field = [] then name else parent_field ++ cs.str "." ++ name

def wrong_type (path : Bytes) (expected : FieldType) (value : Value) : Bytes :=
  cs.str "Field '" ++ path ++ cs.str "' has wrong type. Expected " ++ cs.str (type_name expected) ++
    cs.str ", got " ++ cs.str (actual_type_name value)

/-- The loop over the fields of the object, when unknown ones are refused. -/
def check_unknown_fields (schema : List FieldDescriptor) (parent_field : Bytes)
    (obj : ObjectMap) : Except Bytes Unit :=
  if allow_unknown_fields then .ok ()
  else
    match obj.toList.find? fun pair => !schema.any fun field => field.name = pair.1 with
    | some pair => .error (cs.str "Unknown field: " ++ get_field_path cs parent_field pair.1)
    | none => .ok ()

mutual

/-- The body of the loop over the schema. -/
def validate_field (obj : ObjectMap) (parent_field : Bytes) :
    FieldDescriptor → Except Bytes Unit
  | ⟨name, type, required, array_element_type, nested_schema⟩ =>
    match obj[name]? with
    | none =>
      if required then
        .error (cs.str "Missing required field: " ++ get_field_path cs parent_field name)
      else .ok ()
    | some value =>
      if value.is_null ∧ !required then .ok ()
      else if !check_type value type then
        .error (wrong_type cs (get_field_path cs parent_field name) type value)
      else
        match type, value with
        | .TYPE_OBJECT, value => validate_nested parent_field name value nested_schema
        | .TYPE_ARRAY, .array (first :: _) =>
          let element := name ++ cs.str "[0]"
          if array_element_type = .TYPE_ANY then .ok ()
          else if !check_type first array_element_type then
            .error (wrong_type cs (get_field_path cs parent_field name ++ cs.str "[0]")
              array_element_type first)
          else if array_element_type = .TYPE_OBJECT then
            validate_nested parent_field element first nested_schema
          else .ok ()
        | _, _ => .ok ()

/-- The recursive call on a value with a schema of its own, one level deep at most. -/
def validate_nested (parent_field path : Bytes) (value : Value) :
    Option (List FieldDescriptor) → Except Bytes Unit
  | none => .ok ()
  | some schema =>
    if parent_field ≠ [] then
      .error (cs.str "Nested schemas beyond 1 level deep are not supported")
    else if !value.is_object then .error (cs.str "Parameters must be an object")
    else do
      validate_fields value.as_object path schema
      check_unknown_fields cs allow_unknown_fields schema path value.as_object

def validate_fields (obj : ObjectMap) (parent_field : Bytes) :
    List FieldDescriptor → Except Bytes Unit
  | [] => .ok ()
  | field :: schema => do
    validate_field obj parent_field field
    validate_fields obj parent_field schema

end

def validate_schema (params : Value) (schema : List FieldDescriptor) : Except Bytes Unit :=
  if !params.is_object then .error (cs.str "Parameters must be an object")
  else do
    validate_fields cs allow_unknown_fields params.as_object [] schema
    check_unknown_fields cs allow_unknown_fields schema [] params.as_object

/-- What it means that a value satisfies a schema: every required field is there, every
field that is there has the declared type unless it is optional and null, the schemas of
objects and of first elements are satisfied in turn, and the fields are known ones. -/
inductive Satisfies : List FieldDescriptor → Value → Prop
  | intro {schema : List FieldDescriptor} {params : Value}
    (is_object : params.is_object = true)
    (required : ∀ field ∈ schema, field.required = true → field.name ∈ params.as_object)
    (typed : ∀ field ∈ schema, ∀ value, params.as_object[field.name]? = some value →
      (value.is_null = true ∧ field.required = false) ∨ check_type value field.type = true)
    (nested : ∀ field ∈ schema, ∀ value nested, params.as_object[field.name]? = some value →
      value.is_object = true → field.type = .TYPE_OBJECT →
        field.nested_schema = some nested → Satisfies nested value)
    (element : ∀ field ∈ schema, ∀ first rest, params.as_object[field.name]? =
      some (.array (first :: rest)) → field.type = .TYPE_ARRAY →
        check_type first field.array_element_type = true)
    (nested_element : ∀ field ∈ schema, ∀ first rest nested, params.as_object[field.name]? =
      some (.array (first :: rest)) → field.type = .TYPE_ARRAY →
        field.array_element_type = .TYPE_OBJECT → field.nested_schema = some nested →
          Satisfies nested first)
    (known : allow_unknown_fields = true ∨ ∀ key ∈ params.as_object, ∃ field ∈ schema,
      field.name = key) :
    Satisfies schema params

end Zowex.validator

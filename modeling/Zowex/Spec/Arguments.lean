import Zowex.Spec.Json

/-! From the parameters of a request to the arguments of a command. -/

namespace Zowex

open zjson

namespace plugin

/-- `plugin::Argument`; nothing here makes one dynamic. -/
inductive Argument
  | none
  | bool (val : Bool)
  | int (val : ℤ)
  | double (val : Double)
  | string (val : Bytes)
  | list (val : List Bytes)
deriving DecidableEq

def Argument.get_int : Argument → Option ℤ
  | int val => some val
  | _ => Option.none

def Argument.get_string_value : Argument → Bytes
  | string val => val
  | _ => []

abbrev ArgumentMap := Std.ExtTreeMap Bytes Argument compare

end plugin

namespace server

open plugin

variable (sys : Platform)

/-- `camel_case_to_kebab_case`; no hyphen stands before the first character. -/
def camel_case_to_kebab_case (cs : Charset) : Bytes → Bytes
  | [] => []
  | c :: input =>
    (if cs.isupper c then cs.tolower c else c) ::
      input.flatMap fun c => if cs.isupper c then [cs.code '-', cs.tolower c] else [c]

/-- The argument a scalar becomes, which may throw; none for the other types. -/
def scalar_argument (value : Value) : Option (Except Error Argument) :=
  match value with
  | .bool val => some (.ok (.bool val))
  | .integer val => some (.ok (.int val))
  | .double val => some ((val.as_double sys).map .double)
  | .string val => some (.ok (.string val))
  | .null | .array _ | .object _ => none

def value_argument (value : Value) : Except Error Argument :=
  match scalar_argument sys value with
  | some argument => argument
  | none => .ok (.string ((to_string sys value).toOption.getD []))

/-- One iteration of `convert_json_params_to_argument_map`. -/
def convert_pair (args : ArgumentMap) (pair : Bytes × Value) : Except Error ArgumentMap := do
  let argument ← value_argument sys pair.2
  return args.insert (camel_case_to_kebab_case sys.cs pair.1) argument

/-- The exception of a failure is its `what()`. -/
def convert_json_params_to_argument_map (params : Value) : Except Bytes ArgumentMap :=
  if !params.is_object then .error (sys.cs.str "Invalid parameters - must be an object")
  else (params.as_object.toList.foldlM (convert_pair sys) ∅).mapError Error.message

end server

end Zowex

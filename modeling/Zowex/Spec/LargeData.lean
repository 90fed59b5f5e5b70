import Zowex.Spec.Indentation
import Zowex.Spec.RpcServer
import Zowex.Spec.Tools

/-! How `RpcServer` writes a response with large data: the response is serialized with empty
strings, and the data is put into the text. -/

namespace Zowex.server

open zjson JsonText

variable (sys : Platform)

/-- `Serializable<ErrorDetails>` -/
def error_details_to_json (error : ErrorDetails) : Value :=
  .object
    [(sys.cs.str "code", .integer error.code),
      (sys.cs.str "message", .string error.message),
      (sys.cs.str "data", error.data.getD .null)]

/-- The version is the same in every response. -/
def rpc_response_to_json (response : RpcResponse) : Value :=
  .object
    ([(sys.cs.str "jsonrpc", .string (sys.cs.str "2.0"))] ++
      (response.result.map fun result => (sys.cs.str "result", result)).toList ++
      (response.error.map fun error =>
        (sys.cs.str "error", error_details_to_json sys error)).toList ++
      [(sys.cs.str "id", response.id.elim .null .integer)])

def add_large_data_to_json (json_string field_name data : Bytes) : Bytes :=
  let search_pattern := sys.cs.str "\"" ++ field_name ++ sys.cs.str "\":\"\""
  match tool.find search_pattern json_string with
  | none => json_string
  | some pos =>
    json_string.take pos ++
      (sys.cs.str "\"" ++ field_name ++ sys.cs.str "\":\"" ++ data ++ sys.cs.str "\"") ++
      json_string.drop (pos + search_pattern.length)

/-- `std::map<std::string, std::string>` -/
abbrev LargeData := Std.ExtTreeMap Bytes Bytes compare

def MiddlewareContext.get_large_data (context : MiddlewareContext) : LargeData :=
  context.large_data.foldl (fun m_large_data e => m_large_data.insert e.1 e.2) ∅

/-- The line of `print_response`, without the newline. -/
def response_line (response : RpcResponse) (context : MiddlewareContext) : Except Error Bytes := do
  let json_string ← to_string sys (rpc_response_to_json sys response)
  return context.get_large_data.toList.foldl
    (fun json_string e => add_large_data_to_json sys json_string e.1 e.2) json_string

/-! What the serializer of the system is taken for. -/

/-- Strings of these characters are written as they are. -/
def Verbatim (cs : Charset) (text : Bytes) : Prop :=
  ∀ c ∈ text, c ≠ cs.code '"' ∧ c ≠ cs.code '\\' ∧ cs.iscntrl c = false

/-- How names, strings and the other values are written. -/
structure Writer (cs : Charset) where
  name : Bytes → Literal (json_alphabet cs)
  string : Bytes → Literal (json_alphabet cs)
  scalar : Value → Scalar (json_alphabet cs)
  name_verbatim : ∀ text, Verbatim cs text → (name text).body = text
  string_verbatim : ∀ text, Verbatim cs text → (string text).body = text

namespace Writer

variable {cs : Charset} (writer : Writer cs)

mutual

/-- The fields of an object in the order of the map. -/
def json : Value → Json (json_alphabet cs)
  | .null => .scalar (writer.scalar .null)
  | .bool value => .scalar (writer.scalar (.bool value))
  | .integer value => .scalar (writer.scalar (.integer value))
  | .double value => .scalar (writer.scalar (.double value))
  | .string value => .string (writer.string value)
  | .array items => .array (item_jsons items)
  | .object fields =>
    .object (((field_jsons fields).foldl (fun m e => m.insert e.1 e.2)
      (∅ : Std.ExtTreeMap Bytes (Json (json_alphabet cs)) compare)).toList.map
        fun e => (writer.name e.1, e.2))

def item_jsons : List Value → List (Json (json_alphabet cs))
  | [] => []
  | item :: items => json item :: item_jsons items

def field_jsons : List (Bytes × Value) → List (Bytes × Json (json_alphabet cs))
  | [] => []
  | (name, value) :: fields => (name, json value) :: field_jsons fields

end

/-- Objects are written as compact texts with sorted keys. -/
def Emits (sys : Platform) (writer : Writer sys.cs) : Prop :=
  ∀ value, value.is_object = true → sys.serialize value = .ok (writer.json value).render

end Writer

/-- The result with the data in its fields. -/
def filled (large_data : List (Bytes × Bytes)) : Value → Value
  | .object fields =>
    .object ((Value.object fields).as_object.toList.map fun e =>
      (e.1, (large_data.lookup e.1).elim e.2 .string))
  | result => result

def RpcResponse.filled (response : RpcResponse) (large_data : List (Bytes × Bytes)) : RpcResponse :=
  { response with result := response.result.map (server.filled large_data) }

/-- The fields that are written before the one of this name. -/
def fields_up_to (key : Bytes) (value : Value) : List (Bytes × Value) :=
  value.as_object.toList.takeWhile fun e => e.1 ≠ key

end Zowex.server

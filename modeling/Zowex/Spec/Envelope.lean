import Zowex.Spec.Base64
import Zowex.Spec.Json

/-! The `--json` envelope of a command, `json_output.cpp`, and the part of `zjson.hpp` that hands
its values to the JSON services of the system. -/

namespace Zowex

namespace zjson

/-- What the services hold. The texts of strings and numbers are as they were handed over. -/
inductive Entry
  | null
  | bool (value : Bool)
  | number (text : Bytes)
  | string (text : Bytes)
  | array (items : List Entry)
  | object (fields : List (Bytes × Entry))

/-- The text of an instance, none where a call fails, what a text is read as, and the digits of a
`double`. -/
structure TextServices where
  ZJSMSERI : Entry → Option Bytes
  ZJSMPARS : Bytes → Option Entry
  print_double : Double → Bytes

/-- A text that was written is read as what it was written from. -/
def TextServices.Reads (svc : TextServices) : Prop :=
  ∀ entry text, svc.ZJSMSERI entry = some text → svc.ZJSMPARS text = some entry

section

variable (sys : Platform) (svc : TextServices)

/-- The fields of an object, in the order of its map. -/
def in_map_order (fields : List (Bytes × Except Error Entry)) :
    Except Error (List (Bytes × Entry)) :=
  let object : Std.ExtTreeMap Bytes (Except Error Entry) compare :=
    fields.foldl (fun m field => m.insert field.1 field.2) ∅
  object.toList.mapM fun field => field.2.map fun entry => (field.1, entry)

mutual

/-- `value_to_json_instance`. An empty string is handed over as the JSON text of one. -/
def value_to_entry : Value → Except Error Entry
  | .null => .ok .null
  | .bool value => .ok (.bool value)
  | .integer value => .ok (.number (decimal sys value))
  | .double value => (value.as_double sys).map fun value => .number (svc.print_double value)
  | .string value => .ok (.string (escape_json_string sys.cs value))
  | .array items => ((item_entries items).mapM id).map .array
  | .object fields => (in_map_order (field_entries fields)).map .object

def item_entries : List Value → List (Except Error Entry)
  | [] => []
  | item :: items => value_to_entry item :: item_entries items

def field_entries : List (Bytes × Value) → List (Bytes × Except Error Entry)
  | [] => []
  | (key, value) :: fields => (key, value_to_entry value) :: field_entries fields

end

/-- `value_to_json_string` of an object. -/
def object_to_json_string (value : Value) : Except Error Bytes := do
  let entry ← value_to_entry sys svc value
  match svc.ZJSMSERI entry with
  | none => .error ⟨.Custom, sys.cs.str "Failed to serialize JSON"⟩
  | some text => .ok text

end

end zjson

namespace json_output

open zjson

def MAX_PAYLOAD_BYTES : ℕ := 8 * 1024 * 1024

/-- The result of the handler is none where it has set no object. -/
structure Envelope where
  exit_code : ℤ
  data : Option Value
  captured_out : Bytes
  captured_err : Bytes
  error_message : Bytes
  stdout_is_payload : Bool

structure Payload where
  text : Bytes
  present : Bool
  encoded : Bool
  truncated : Bool

section

variable (sys : Platform) (svc : TextServices)

def is_json_safe_text (text : Bytes) : Bool :=
  text.all fun ch => ch ∈ escapes.map sys.cs.code || !sys.cs.iscntrl ch

def no_payload : Payload := ⟨[], false, false, false⟩

def resolve_payload (envelope : Envelope) (data : Value) : Payload :=
  if envelope.captured_out = [] then no_payload
  else
    let fields := data.as_object
    if fields.contains (sys.cs.str "data") then no_payload
    else if !envelope.stdout_is_payload && !fields.isEmpty then no_payload
    else
      let truncated := envelope.captured_out.length > MAX_PAYLOAD_BYTES
      let text := envelope.captured_out.take MAX_PAYLOAD_BYTES
      if is_json_safe_text sys text then ⟨text, true, false, truncated⟩
      else ⟨zbase64.encode text, true, true, truncated⟩

def build_data (node : Option Value) : Value :=
  match node with
  | none => Value.create_object
  | some data =>
    if data.is_object then data else Value.create_object.add_to_object (sys.cs.str "value") data

def diagnostics (envelope : Envelope) : Bytes :=
  if envelope.captured_err = [] then envelope.error_message else envelope.captured_err

def fallback (envelope : Envelope) : Bytes :=
  sys.cs.str "\x7b\"success\":" ++
    sys.cs.str (if envelope.exit_code = 0 then "true" else "false") ++
    sys.cs.str ",\"exitCode\":" ++ decimal sys envelope.exit_code ++
    sys.cs.str ",\"data\":\x7b\x7d" ++ sys.cs.str ",\"stderr\":\"\"" ++
    sys.cs.str ",\"jsonError\":\"failed to serialize command result\"\x7d"

/-- The object that is serialized. -/
def envelope_root (envelope : Envelope) : Value :=
  let data := build_data sys envelope.data
  let payload := resolve_payload sys envelope data
  let data :=
    if payload.present then data.add_to_object (sys.cs.str "data") (.string payload.text) else data
  .object
    ([(sys.cs.str "success", .bool (envelope.exit_code = 0)),
        (sys.cs.str "exitCode", .integer envelope.exit_code),
        (sys.cs.str "data", data),
        (sys.cs.str "stderr", .string (diagnostics envelope))] ++
      (if payload.encoded then [(sys.cs.str "encoding", .string (sys.cs.str "base64"))] else []) ++
      if payload.truncated then [(sys.cs.str "truncated", .bool true)] else [])

def serialize (envelope : Envelope) : Bytes :=
  match object_to_json_string sys svc (envelope_root sys envelope) with
  | .ok text => text
  | .error _ => fallback sys envelope

end

end json_output

end Zowex

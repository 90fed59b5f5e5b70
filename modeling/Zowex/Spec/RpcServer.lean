import Zowex.Spec.Builder

/-! `CommandDispatcher::dispatch` and `RpcServer::process_request`, up to the response they
print. Commands are registered with a handler that is not null. -/

namespace Zowex.server

open zjson plugin

namespace RpcErrorCode

def PARSE_ERROR : ℤ := -32700
def METHOD_NOT_FOUND : ℤ := -32601
def INVALID_PARAMS : ℤ := -32602
def INTERNAL_ERROR : ℤ := -32603

end RpcErrorCode

structure RpcRequest extends RpcNotification where
  id : ℤ

structure ErrorDetails where
  code : ℤ
  message : Bytes
  data : Option Value

structure RpcResponse where
  result : Option Value
  error : Option ErrorDetails
  id : Option ℤ

abbrev CommandMap := Std.ExtTreeMap Bytes CommandBuilder compare

variable (sys : Platform) (commands : CommandMap)

/-- What `dispatch` returns and leaves in the context, and the context the handler was
called with, if it was. -/
structure Dispatched where
  result : ℤ
  context : MiddlewareContext
  invoked : Option MiddlewareContext

def dispatch (command_name : Bytes) (context : MiddlewareContext) : Dispatched :=
  match commands[command_name]? with
  | none =>
    ⟨RpcErrorCode.METHOD_NOT_FOUND,
      context.errln sys (sys.cs.str "Command not found: " ++ command_name), none⟩
  | some builder =>
    let context := apply_input_transforms sys builder.transforms context
    match builder.handler context with
    | (after, .returned code) =>
      ⟨code, apply_output_transforms builder.transforms after, some context⟩
    | (after, .threw what) =>
      ⟨RpcErrorCode.INTERNAL_ERROR,
        (after.err (sys.cs.str "Command execution failed: ")).errln sys what, some context⟩
    | (after, .threw_unknown) =>
      ⟨RpcErrorCode.INTERNAL_ERROR,
        after.errln sys (sys.cs.str "Command execution failed with unknown error"), some context⟩

/-- `from_value<RpcRequest>`: absent and null parameters are the same to it. -/
def RpcRequest.from_value (value : Value) : Except Error RpcRequest :=
  if !value.is_object then
    .error (.invalid_type sys (sys.cs.str "object") (sys.cs.str "other"))
  else
    let obj := value.as_object
    let params := (obj[sys.cs.str "params"]?).filter fun params => !params.is_null
    match obj[sys.cs.str "jsonrpc"]?, obj[sys.cs.str "method"]?,
      (obj[sys.cs.str "id"]?).bind Value.as_int with
    | some (.string jsonrpc), some (.string method), some id =>
      .ok { jsonrpc := jsonrpc, method := method, params := params, id := id }
    | _, _, _ => .error (.invalid_data sys (sys.cs.str "Failed to deserialize fields"))

/-- `from_str<RpcRequest>`. -/
def RpcRequest.from_str (request_data : Bytes) : Except Error RpcRequest := do
  RpcRequest.from_value sys (← sys.from_str request_data)

def print_error (request_id : ℤ) (code : ℤ) (message : Bytes) (data : Option Value) : RpcResponse :=
  ⟨none, some ⟨code, message, data⟩, if request_id = -1 then none else some request_id⟩

/-- The error printed when the request cannot be parsed, and for every exception. -/
def print_parse_error (what : Bytes) : RpcResponse :=
  print_error (-1) RpcErrorCode.PARSE_ERROR (sys.cs.str "Failed to parse command request")
    (some (.string what))

/-- The first line of the error output, and the rest of it. -/
def process_error_output (error_output : Bytes) : Bytes × Bytes :=
  (error_output.takeWhile (· ≠ sys.cs.code '\n'),
    (error_output.dropWhile (· ≠ sys.cs.code '\n')).drop 1)

def convert_output_to_json (output : Bytes) : Value :=
  if output ≠ [] then
    match sys.from_str output with
    | .ok value => value
    | .error _ => .string output
  else Value.create_object

def validate_json_with_schema (method : Bytes) (data : Value) (is_request : Bool) :
    Except Bytes Unit :=
  match commands[method]? with
  | none => .ok ()
  | some builder =>
    match if is_request then builder.request_schema else builder.response_schema with
    | none => .ok ()
    | some schema => validator.validate_schema sys.cs is_request data schema

/-- The response to a command that has run. -/
def command_response (request : RpcRequest) (result : ℤ) (context : MiddlewareContext) :
    RpcResponse :=
  if result ≠ 0 then
    let (message, data) := process_error_output sys context.error
    let message :=
      if message = [] then
        sys.cs.str "Command execution failed (" ++ request.method ++ sys.cs.str ")"
      else message
    match context.object with
    | some err_object =>
      let err_object :=
        if data ≠ [] ∧ err_object.is_object then
          err_object.add_to_object (sys.cs.str "details") (.string data)
        else err_object
      print_error request.id result message (some err_object)
    | none =>
      print_error request.id result message (if data = [] then none else some (.string data))
  else
    let result_json := context.object.getD (convert_output_to_json sys context.output)
    if !result_json.is_object then
      print_parse_error sys (Error.invalid_type sys (sys.cs.str "object") (sys.cs.str "other")).message
    else
      let result_json := result_json.add_to_object (sys.cs.str "success") (.bool (context.error = []))
      match validate_json_with_schema sys commands request.method result_json false with
      | .error error_message =>
        print_error request.id RpcErrorCode.INTERNAL_ERROR
          (sys.cs.str "Response validation failed (" ++ request.method ++ sys.cs.str ")")
          (some (.string error_message))
      | .ok () => ⟨some result_json, none, some request.id⟩

/-- The response `process_request` prints, and the context the handler was called with. -/
structure Processed where
  response : RpcResponse
  invoked : Option MiddlewareContext

def request_arguments (request : RpcRequest) : Except Bytes ArgumentMap :=
  match request.params with
  | some params => convert_json_params_to_argument_map sys params
  | none => .ok ∅

/-- `process_request` from the conversion of the parameters on. -/
def run_command (request : RpcRequest) : Processed :=
  match request_arguments sys request with
  | .error what => ⟨print_parse_error sys what, none⟩
  | .ok args =>
    let dispatched := dispatch sys commands request.method { command_path := request.method, args }
    ⟨command_response sys commands request dispatched.result dispatched.context, dispatched.invoked⟩

def validate_request (request : RpcRequest) : Except Bytes Unit :=
  match request.params with
  | some params => validate_json_with_schema sys commands request.method params true
  | none => .ok ()

def process_request (request_data : Bytes) : Processed :=
  match RpcRequest.from_str sys request_data with
  | .error e => ⟨print_parse_error sys e.message, none⟩
  | .ok request =>
    if request.method ∉ commands then
      ⟨print_error request.id RpcErrorCode.METHOD_NOT_FOUND
        (sys.cs.str "Unrecognized command " ++ request.method) none, none⟩
    else
      match validate_request sys commands request with
      | .error error_message =>
        ⟨print_error request.id RpcErrorCode.INVALID_PARAMS
          (sys.cs.str "Request validation failed (" ++ request.method ++ sys.cs.str ")")
          (some (.string error_message)), none⟩
      | .ok () => run_command sys commands request

end Zowex.server

import Zowex.Spec.Arguments
import Zowex.Spec.Base64
import Zowex.Spec.Validator

/-! `CommandBuilder` of `builder.cpp` and the context its transforms work on. The calls on
the file system and the lines written to the client are recorded, not carried out. -/

namespace Zowex.server

open zjson plugin

structure RpcNotification where
  jsonrpc : Bytes
  method : Bytes
  params : Option Value

/-- `MiddlewareContext`. The object a handler sets is kept as the JSON it is converted to,
and `sent` are the lines `send_notification` wrote. -/
structure MiddlewareContext where
  command_path : Bytes
  args : ArgumentMap
  input : Bytes := []
  output : Bytes := []
  error : Bytes := []
  object : Option Value := none
  large_data : List (Bytes × Bytes) := []
  pending_notification : Option RpcNotification := none
  sent : List Bytes := []

inductive FifoMode
  | GET
  | PUT
deriving DecidableEq, Repr

inductive ArgTransform
  | RenameArg (arg_name renamed_to : Bytes)
  | SetDefault (arg_name : Bytes) (default_value : Argument)
  | WriteStdin (arg_name : Bytes) (base64 : Bool)
  | ReadStdout (arg_name : Bytes) (base64 : Bool)
  | HandleFifo (rpc_id_param arg_name : Bytes) (fifo_mode : FifoMode) (defer : Bool)
  | FlattenObj (arg_name : Bytes)
deriving DecidableEq

def LARGE_DATA_THRESHOLD : ℕ := 16 * 1024 * 1024

variable (sys : Platform)

/-- `err`, which takes a C string. -/
def MiddlewareContext.err (context : MiddlewareContext) (e : Bytes) : MiddlewareContext :=
  { context with error := context.error ++ e.takeWhile (· ≠ 0) }

def MiddlewareContext.errln (context : MiddlewareContext) (e : Bytes) : MiddlewareContext :=
  { context with error := context.error ++ e.takeWhile (· ≠ 0) ++ [sys.cs.code '\n'] }

def RpcNotification.to_value (notification : RpcNotification) : Value :=
  .object [(sys.cs.str "jsonrpc", .string notification.jsonrpc),
    (sys.cs.str "method", .string notification.method),
    (sys.cs.str "params", notification.params.getD .null)]

/-- `serialize_json`; the exception of a failure is its `what()`. -/
def serialize_json (val : Value) : Except Bytes Bytes :=
  (to_string sys val).mapError fun e => sys.cs.str "Failed to serialize JSON: " ++ e.message

/-- The loop over the properties of a flattened object: the arguments it leaves behind, and
the exception it ends with. -/
def flatten_properties (args : ArgumentMap) : List (Bytes × Value) → ArgumentMap × Option Error
  | [] => (args, none)
  | property :: properties =>
    match scalar_argument sys property.2 with
    | some (.ok argument) => flatten_properties (args.insert property.1 argument) properties
    | some (.error e) => (args, some e)
    | none => flatten_properties args properties

/-- `$TMPDIR/zowex_{uid}_{pid}_{stream_id}_fifo` -/
def pipe_path (stream_id : ℤ) : Bytes :=
  let tmp_dir := (sys.tmpdir.filter (· ≠ [])).getD (sys.cs.str "/tmp")
  tmp_dir ++ sys.cs.str "/zowex_" ++ decimal sys sys.geteuid ++ sys.cs.str "_" ++
    decimal sys sys.getpid ++ sys.cs.str "_" ++ decimal sys stream_id ++ sys.cs.str "_fifo"

def fifo_notification (fifo_mode : FifoMode) (stream_id : ℤ) : RpcNotification where
  jsonrpc := sys.cs.str "2.0"
  method := sys.cs.str (if fifo_mode = .GET then "receiveStream" else "sendStream")
  params := some (.object [(sys.cs.str "id", .integer (stream_id.bmod (2 ^ 32))),
    (sys.cs.str "pipePath", .string (pipe_path sys stream_id))])

/-- The body of the loop of `apply_input_transforms`. A failure is told to the error stream
only. -/
def apply_input_transform (context : MiddlewareContext) : ArgTransform → MiddlewareContext
  | .RenameArg arg_name renamed_to =>
    let kebab_name := camel_case_to_kebab_case sys.cs arg_name
    match context.args[kebab_name]? with
    | none => context
    | some value => { context with args := (context.args.erase kebab_name).insert renamed_to value }
  | .SetDefault arg_name default_value =>
    if arg_name ∈ context.args then context
    else { context with args := context.args.insert arg_name default_value }
  | .WriteStdin arg_name base64 =>
    match context.args[arg_name]? with
    | none => context
    | some arg =>
      let data := arg.get_string_value
      match if base64 then zbase64.decode_string data else .ok data with
      | .ok data => { context with input := data, args := context.args.erase arg_name }
      | .error e =>
        context.errln sys (sys.cs.str "Failed to process WriteStdin transform: " ++
          sys.cs.str e.what)
  | .ReadStdout _ _ => context
  | .FlattenObj arg_name =>
    match context.args[arg_name]? with
    | none => context
    | some arg =>
      match sys.from_str arg.get_string_value with
      | .error e =>
        context.errln sys (sys.cs.str "Failed to parse JSON for FlattenObj transform: " ++ e.message)
      | .ok jsonValue =>
        if !jsonValue.is_object then
          context.errln sys (sys.cs.str "FlattenObj transform requires a JSON object")
        else
          match flatten_properties sys context.args jsonValue.as_object.toList with
          | (args, none) => { context with args := args.erase arg_name }
          | (args, some e) =>
            MiddlewareContext.errln sys { context with args := args }
              (sys.cs.str "Failed to process FlattenObj transform: " ++ e.message)
  | .HandleFifo rpc_id_param arg_name fifo_mode defer =>
    match context.args[rpc_id_param]? with
    | none => context
    | some rpc_id_arg =>
      match rpc_id_arg.get_int with
      | none => context.errln sys (sys.cs.str "HandleFifo: RPC ID argument is not an integer")
      | some stream_id =>
        let path := pipe_path sys stream_id
        match (sys.unlink path).filter (· ≠ sys.ENOENT), sys.mkfifo path with
        | some errno, _ =>
          context.errln sys (sys.cs.str "Failed to delete existing FIFO pipe: " ++ path ++
            sys.cs.str ", errno: " ++ decimal sys errno)
        | none, some errno =>
          context.errln sys (sys.cs.str "Failed to create FIFO pipe: " ++ path ++
            sys.cs.str ", errno: " ++ decimal sys errno)
        | none, none =>
          let context := { context with args := context.args.insert arg_name (.string path) }
          let notification := fifo_notification sys fifo_mode stream_id
          if defer then { context with pending_notification := some notification }
          else
            match serialize_json sys (notification.to_value sys) with
            | .ok json_string => { context with sent := context.sent ++ [json_string] }
            | .error what =>
              context.errln sys (sys.cs.str "Failed to process HandleFifo transform: " ++ what)

def apply_input_transforms (transforms : List ArgTransform) (context : MiddlewareContext) :
    MiddlewareContext :=
  transforms.foldl (apply_input_transform sys) context

/-- The body of the loop of `apply_output_transforms`, which removes a FIFO without a trace
in the context. -/
def apply_output_transform (context : MiddlewareContext) : ArgTransform → MiddlewareContext
  | .ReadStdout arg_name base64 =>
    let data := if base64 then zbase64.encode_string context.output else context.output
    if LARGE_DATA_THRESHOLD ≤ data.length then
      { context with
        large_data := context.large_data ++ [(arg_name, data)]
        object := context.object.map (·.add_to_object arg_name (.string []))
        output := [] }
    else
      { context with object := context.object.map (·.add_to_object arg_name (.string data)) }
  | _ => context

def apply_output_transforms (transforms : List ArgTransform) (context : MiddlewareContext) :
    MiddlewareContext :=
  let obj := context.object.getD Value.create_object
  let context := { context with object := some obj }
  if !obj.is_object then context else transforms.foldl apply_output_transform context

/-- How a handler ends: it returns, throws a `std::exception` or throws anything else. -/
inductive HandlerResult
  | returned (code : ℤ)
  | threw (what : Bytes)
  | threw_unknown

/-- A handler changes the context it is given. -/
abbrev CommandHandler := MiddlewareContext → MiddlewareContext × HandlerResult

structure CommandBuilder where
  handler : CommandHandler
  transforms : List ArgTransform := []
  request_schema : Option (List validator.FieldDescriptor) := none
  response_schema : Option (List validator.FieldDescriptor) := none

end Zowex.server

import Zowex.Spec.Commands

/-! Which requests reach a handler, and in which context. -/

namespace Zowex.server

open zjson plugin

variable {sys : Platform} {commands : CommandMap} {request_data : Bytes} {request : RpcRequest}
  {builder : CommandBuilder}

theorem process_request_of_invalid (hr : RpcRequest.from_str sys request_data = .ok request)
    (hb : commands[request.method]? = some builder) {message : Bytes}
    (hv : validate_request sys commands request = .error message) :
    (process_request sys commands request_data).invoked = none ∧
      (process_request sys commands request_data).response.error.isSome = true := by
  have hin : request.method ∈ commands :=
    Std.ExtTreeMap.mem_iff_isSome_getElem?.mpr (Option.isSome_iff_exists.mpr ⟨_, hb⟩)
  rw [process_request, hr]
  simp only [hin, not_true_eq_false, ↓reduceIte, hv]
  exact ⟨trivial, rfl⟩

theorem process_request_of_valid (hr : RpcRequest.from_str sys request_data = .ok request)
    (hb : commands[request.method]? = some builder)
    (hv : validate_request sys commands request = .ok ()) :
    process_request sys commands request_data = run_command sys commands request := by
  have hin : request.method ∈ commands :=
    Std.ExtTreeMap.mem_iff_isSome_getElem?.mpr (Option.isSome_iff_exists.mpr ⟨_, hb⟩)
  rw [process_request, hr]
  simp only [hin, not_true_eq_false, ↓reduceIte, hv]

theorem run_command_invoked (hb : commands[request.method]? = some builder) {args : ArgumentMap}
    (ha : request_arguments sys request = .ok args) :
    (run_command sys commands request).invoked = some
      (apply_input_transforms sys builder.transforms { command_path := request.method, args }) := by
  rw [run_command, ha]
  simp only [dispatch, hb]
  split <;> rfl

theorem run_command_of_error {what : Bytes} (ha : request_arguments sys request = .error what) :
    (run_command sys commands request).invoked = none := by
  rw [run_command, ha]

/-- The handler is called exactly for the requests that pass the validation and the
conversion, in the context the input transforms leave. -/
theorem process_request_invoked (hr : RpcRequest.from_str sys request_data = .ok request)
    (hb : commands[request.method]? = some builder) {context : MiddlewareContext} :
    (process_request sys commands request_data).invoked = some context ↔
      validate_request sys commands request = .ok () ∧
        ∃ args, request_arguments sys request = .ok args ∧ context = apply_input_transforms sys
          builder.transforms { command_path := request.method, args } := by
  cases hv : validate_request sys commands request with
  | error message =>
    rw [(process_request_of_invalid hr hb hv).1]
    exact ⟨nofun, fun h => nomatch h.1⟩
  | ok u =>
    rw [process_request_of_valid hr hb hv]
    cases ha : request_arguments sys request with
    | error what =>
      rw [run_command_of_error ha]
      exact ⟨nofun, fun ⟨_, _, h, _⟩ => nomatch h⟩
    | ok args =>
      rw [run_command_invoked hb ha]
      constructor
      · rintro ⟨⟩
        exact ⟨rfl, args, rfl, rfl⟩
      · rintro ⟨-, args', ⟨⟩, rfl⟩
        rfl

/-- The JSON of a request. -/
def request_value (request : RpcRequest) : Value :=
  .object ([(ibm1047.str "jsonrpc", .string request.jsonrpc), (ibm1047.str "id", .integer request.id),
    (ibm1047.str "method", .string request.method)] ++
    (request.params.map (Prod.mk (ibm1047.str "params"))).toList)

theorem request_value_lookup (request : RpcRequest) :
    (request_value request).as_object[ibm1047.str "jsonrpc"]? = some (.string request.jsonrpc) ∧
      (request_value request).as_object[ibm1047.str "id"]? = some (.integer request.id) ∧
      (request_value request).as_object[ibm1047.str "method"]? = some (.string request.method) ∧
      (request_value request).as_object[ibm1047.str "params"]? = request.params := by
  have h1 : ibm1047.str "id" ≠ ibm1047.str "jsonrpc" := by decide
  have h2 : ibm1047.str "method" ≠ ibm1047.str "jsonrpc" := by decide
  have h3 : ibm1047.str "method" ≠ ibm1047.str "id" := by decide
  have h4 : ibm1047.str "params" ≠ ibm1047.str "jsonrpc" := by decide
  have h5 : ibm1047.str "params" ≠ ibm1047.str "id" := by decide
  have h6 : ibm1047.str "params" ≠ ibm1047.str "method" := by decide
  obtain ⟨⟨jsonrpc, method, params⟩, id⟩ := request
  cases params with
  | none =>
    simp [request_value, Value.as_object, Std.ExtTreeMap.getElem_insert, h1, h2, h3, h4.symm,
      h5.symm, h6.symm]
  | some params =>
    simp [request_value, Value.as_object, Std.ExtTreeMap.getElem_insert, h1, h2, h3, h4, h5, h6]

/-- A system whose parser is given these texts. It has no FIFO yet, and makes any. -/
def platform_reading (requests : List (Bytes × RpcRequest)) : Platform where
  cs := ibm1047
  from_str data :=
    match requests.lookup data with
    | some request => .ok (request_value request)
    | none => .error ⟨.Custom, ibm1047.str "Failed to parse JSON string"⟩
  serialize _ := .error ⟨.Custom, ibm1047.str "Failed to serialize JSON"⟩
  print_double _ := []
  tmpdir := none
  geteuid := 0
  getpid := 1
  unlink _ := some 129
  mkfifo _ := none
  ENOENT := 129

theorem from_str_platform_reading {requests : List (Bytes × RpcRequest)} {text : Bytes}
    {request : RpcRequest} (hin : requests.lookup text = some request)
    (hid : -2 ^ 31 ≤ request.id ∧ request.id < 2 ^ 31)
    (hp : request.params.all (fun params => !params.is_null) = true) :
    RpcRequest.from_str (platform_reading requests) text = .ok request := by
  have hread : (platform_reading requests).from_str text = .ok (request_value request) := by
    simp only [platform_reading, hin]
  have hint : (Value.integer request.id).as_int = some request.id := by
    rw [Value.as_int, Value.as_int64, Option.filter_some, if_pos (by simpa using hid)]
  have hparams : request.params.filter (fun params => !params.is_null) = request.params := by
    cases h : request.params with
    | none => rfl
    | some params =>
      rw [h] at hp
      exact if_pos (by simpa using hp)
  obtain ⟨hjsonrpc, hid, hmethod, hlookup⟩ := request_value_lookup request
  rw [RpcRequest.from_str, hread]
  change RpcRequest.from_value _ (request_value request) = _
  simp only [RpcRequest.from_value, platform_reading, hjsonrpc, hid, hmethod, hlookup,
    Option.bind_some, hint, hparams]
  rfl

/-- A handler that does nothing. -/
def idle_handler : CommandHandler := fun context => (context, .returned 0)

def ds_commands (handler : CommandHandler) : CommandMap :=
  ((∅ : CommandMap).insert (ibm1047.str "writeDataset") (writeDataset ibm1047 handler)).insert
    (ibm1047.str "readDataset") (readDataset ibm1047 handler)

theorem ds_commands_read {handler : CommandHandler} :
    (ds_commands handler)[ibm1047.str "readDataset"]? = some (readDataset ibm1047 handler) :=
  Std.ExtTreeMap.getElem?_insert_self

theorem ds_commands_write {handler : CommandHandler} :
    (ds_commands handler)[ibm1047.str "writeDataset"]? = some (writeDataset ibm1047 handler) := by
  have hne : compare (ibm1047.str "readDataset") (ibm1047.str "writeDataset") ≠ .eq := by decide
  rw [ds_commands, Std.ExtTreeMap.getElem?_insert, if_neg hne]
  exact Std.ExtTreeMap.getElem?_insert_self

/-- The text of a request with `members` after its method. -/
def request_text (method members : String) : Bytes :=
  ibm1047.str ("\x7b\"jsonrpc\":\"2.0\",\"id\":1,\"method\":\"" ++ method ++ "\"" ++ members ++ "\x7d")

def read_dataset_request (params : Option Value) : RpcRequest where
  jsonrpc := ibm1047.str "2.0"
  id := 1
  method := ibm1047.str "readDataset"
  params := params

end Zowex.server

import Zowex.Proofs.Transforms
import Zowex.Proofs.Validation

/-! A transform that fails says so in the error stream and nowhere else: the handler runs. -/

namespace Zowex.server

open zjson plugin

variable {sys : Platform}

/-- A failure is told to the error stream, in a line of its own. -/
def succeeds (sys : Platform) (context : MiddlewareContext) (t : ArgTransform) : Prop :=
  (apply_input_transform sys context t).error = context.error

theorem errln_error_ne (context : MiddlewareContext) (e : Bytes) :
    (context.errln sys e).error ≠ context.error := by
  intro h
  have hlen := congrArg List.length h
  simp [MiddlewareContext.errln] at hlen

/-- What a transform needs of the arguments it finds, and of the system. -/
def ArgTransform.fits (sys : Platform) (args : ArgumentMap) : ArgTransform → Prop
  | .WriteStdin arg_name base64 => ∀ arg, args[arg_name]? = some arg →
    base64 = true → ∃ data, zbase64.decode_string arg.get_string_value = .ok data
  | .FlattenObj arg_name => ∀ arg, args[arg_name]? = some arg →
    ∃ obj, sys.from_str arg.get_string_value = .ok obj ∧ obj.is_object = true ∧
      ∀ property ∈ obj.as_object.toList, ∀ d, property.2 = .double d → ∃ q, d = .finite q
  | .HandleFifo rpc_id_param _ fifo_mode defer => ∀ arg, args[rpc_id_param]? = some arg →
    ∃ stream_id, arg.get_int = some stream_id ∧
      (sys.unlink (pipe_path sys stream_id)).all (· = sys.ENOENT) = true ∧
      sys.mkfifo (pipe_path sys stream_id) = none ∧
      (defer = false → ∃ json, serialize_json sys
        ((fifo_notification sys fifo_mode stream_id).to_value sys) = .ok json)
  | _ => True

theorem scalar_argument_error_iff (sys : Platform) (value : Value) :
    (∃ e, scalar_argument sys value = some (.error e)) ↔
      ∃ d, value = .double d ∧ ∀ q, d ≠ .finite q := by
  cases value with
  | double d =>
    cases d with
    | finite q =>
      constructor
      · rintro ⟨e, h⟩
        cases h
      · rintro ⟨d, ⟨⟩, h⟩
        exact absurd rfl (h q)
    | infinite negative => exact ⟨fun _ => ⟨_, rfl, nofun⟩, fun _ => ⟨_, rfl⟩⟩
    | nan => exact ⟨fun _ => ⟨_, rfl, nofun⟩, fun _ => ⟨_, rfl⟩⟩
  | null | bool | integer | string | array | object =>
    refine iff_of_false ?_ ?_
    · rintro ⟨e, h⟩
      cases h
    · rintro ⟨d, h, -⟩
      cases h

theorem flatten_properties_succeeds (sys : Platform) (args : ArgumentMap)
    (properties : List (Bytes × Value)) :
    (flatten_properties sys args properties).2 = none ↔
      ∀ property ∈ properties, ∀ d, property.2 = .double d → ∃ q, d = .finite q := by
  induction properties generalizing args with
  | nil => exact ⟨fun _ => nofun, fun _ => rfl⟩
  | cons property properties ih =>
    rw [List.forall_mem_cons, flatten_properties]
    have hfails := scalar_argument_error_iff sys property.2
    split
    · next arg harg =>
      rw [ih]
      refine ⟨fun h => ⟨?_, h⟩, And.right⟩
      intro d hd
      by_contra hq
      obtain ⟨e, he⟩ := hfails.mpr ⟨d, hd, fun q h => hq ⟨q, h⟩⟩
      rw [harg] at he
      cases he
    · next e he =>
      obtain ⟨d, hd, hq⟩ := hfails.mp ⟨e, he⟩
      refine iff_of_false nofun ?_
      rintro ⟨h, -⟩
      obtain ⟨q, hq'⟩ := h d hd
      exact hq q hq'
    · next hnone =>
      rw [ih]
      refine ⟨fun h => ⟨?_, h⟩, And.right⟩
      intro d hd
      rw [hd] at hnone
      cases hnone

theorem write_stdin_succeeds {arg_name : Bytes} {base64 : Bool} {context : MiddlewareContext} :
    succeeds sys context (.WriteStdin arg_name base64) ↔
      (ArgTransform.WriteStdin arg_name base64).fits sys context.args := by
  simp only [succeeds, apply_input_transform, ArgTransform.fits]
  cases context.args[arg_name]? with
  | none =>
    refine iff_of_true rfl ?_
    rintro _ ⟨⟩
  | some arg =>
    cases base64 with
    | false =>
      refine iff_of_true rfl ?_
      rintro _ _ ⟨⟩
    | true =>
      simp only [↓reduceIte]
      cases hd : zbase64.decode_string arg.get_string_value with
      | error e =>
        refine iff_of_false (errln_error_ne _ _) ?_
        intro h
        obtain ⟨data, hdata⟩ := h arg rfl trivial
        rw [hd] at hdata
        cases hdata
      | ok data =>
        refine iff_of_true rfl ?_
        rintro _ ⟨⟩ -
        exact ⟨data, hd⟩

theorem flatten_obj_succeeds {arg_name : Bytes} {context : MiddlewareContext} :
    succeeds sys context (.FlattenObj arg_name) ↔
      (ArgTransform.FlattenObj arg_name).fits sys context.args := by
  simp only [succeeds, apply_input_transform, ArgTransform.fits]
  cases context.args[arg_name]? with
  | none =>
    refine iff_of_true rfl ?_
    rintro _ ⟨⟩
  | some arg =>
    simp only [Option.some.injEq, forall_eq']
    cases hp : sys.from_str arg.get_string_value with
    | error e =>
      refine iff_of_false (errln_error_ne _ _) ?_
      rintro ⟨obj, ⟨⟩, -⟩
    | ok obj =>
      by_cases ho : obj.is_object = true
      swap
      · simp only [ho, Bool.not_false, ↓reduceIte]
        refine iff_of_false (errln_error_ne _ _) ?_
        rintro ⟨_, ⟨⟩, ho', -⟩
        exact ho ho'
      simp only [ho, Bool.not_true, Bool.false_eq_true, ↓reduceIte]
      have hflat := flatten_properties_succeeds sys context.args obj.as_object.toList
      split
      · next args hargs =>
        rw [hargs] at hflat
        exact iff_of_true rfl ⟨obj, rfl, ho, hflat.mp rfl⟩
      · next args e hargs =>
        rw [hargs] at hflat
        refine iff_of_false (errln_error_ne { context with args := args } _) ?_
        rintro ⟨_, ⟨⟩, -, hfin⟩
        cases hflat.mpr hfin

theorem handle_fifo_succeeds {rpc_id_param arg_name : Bytes} {fifo_mode : FifoMode} {defer : Bool}
    {context : MiddlewareContext} :
    succeeds sys context (.HandleFifo rpc_id_param arg_name fifo_mode defer) ↔
      (ArgTransform.HandleFifo rpc_id_param arg_name fifo_mode defer).fits sys context.args := by
  simp only [succeeds, apply_input_transform, ArgTransform.fits]
  cases context.args[rpc_id_param]? with
  | none =>
    refine iff_of_true rfl ?_
    rintro _ ⟨⟩
  | some arg =>
    simp only [Option.some.injEq, forall_eq']
    cases arg.get_int with
    | none =>
      refine iff_of_false (errln_error_ne _ _) ?_
      rintro ⟨_, ⟨⟩, -⟩
    | some stream_id =>
      simp only [Option.some.injEq, exists_eq_left']
      cases hu : (sys.unlink (pipe_path sys stream_id)).filter (· ≠ sys.ENOENT) with
      | some errno =>
        refine iff_of_false (errln_error_ne _ _) ?_
        rintro ⟨hall, -⟩
        rw [Option.filter_eq_some_iff] at hu
        rw [hu.1] at hall
        exact absurd (of_decide_eq_true hall) (of_decide_eq_true hu.2)
      | none =>
        have hall : (sys.unlink (pipe_path sys stream_id)).all (· = sys.ENOENT) = true := by
          simpa [Option.all_eq_true] using hu
        cases sys.mkfifo (pipe_path sys stream_id) with
        | some errno =>
          refine iff_of_false (errln_error_ne _ _) ?_
          rintro ⟨-, ⟨⟩, -⟩
        | none =>
          cases defer with
          | true =>
            refine iff_of_true rfl ⟨hall, rfl, ?_⟩
            rintro ⟨⟩
          | false =>
            simp only [Bool.false_eq_true, ↓reduceIte, forall_const]
            cases hs : serialize_json sys ((fifo_notification sys fifo_mode stream_id).to_value sys)
              with
            | ok json => exact iff_of_true rfl ⟨hall, trivial, json, rfl⟩
            | error what =>
              refine iff_of_false (errln_error_ne { context with args := _ } _) ?_
              rintro ⟨-, -, json, ⟨⟩⟩

theorem succeeds_iff {t : ArgTransform} {context : MiddlewareContext} :
    succeeds sys context t ↔ t.fits sys context.args := by
  cases t with
  | RenameArg arg_name renamed_to =>
    refine iff_of_true ?_ trivial
    simp only [succeeds, apply_input_transform]
    split <;> rfl
  | SetDefault arg_name default_value =>
    refine iff_of_true ?_ trivial
    simp only [succeeds, apply_input_transform]
    split <;> rfl
  | WriteStdin arg_name base64 => exact write_stdin_succeeds
  | ReadStdout arg_name base64 => exact iff_of_true rfl trivial
  | HandleFifo rpc_id_param arg_name fifo_mode defer => exact handle_fifo_succeeds
  | FlattenObj arg_name => exact flatten_obj_succeeds

def ArgTransform.writes_stdin : ArgTransform → Bool
  | .WriteStdin _ _ => true
  | _ => false

theorem apply_input_transform_input {t : ArgTransform} (h : t.writes_stdin = false)
    (context : MiddlewareContext) :
    (apply_input_transform sys context t).input = context.input := by
  cases t with
  | WriteStdin arg_name base64 => contradiction
  | RenameArg | SetDefault | ReadStdout | HandleFifo | FlattenObj =>
    simp only [apply_input_transform]
    repeat' split
    all_goals rfl

theorem apply_input_transforms_input {transforms : List ArgTransform}
    (h : ∀ t ∈ transforms, t.writes_stdin = false) (context : MiddlewareContext) :
    (apply_input_transforms sys transforms context).input = context.input := by
  induction transforms generalizing context with
  | nil => rfl
  | cons t transforms ih =>
    rw [List.forall_mem_cons] at h
    exact (ih h.2 _).trans (apply_input_transform_input h.1 context)

theorem apply_input_transforms_append (pre post : List ArgTransform) (context : MiddlewareContext) :
    apply_input_transforms sys (pre ++ post) context =
      apply_input_transforms sys post (apply_input_transforms sys pre context) :=
  List.foldl_append

theorem apply_input_transforms_cons (t : ArgTransform) (post : List ArgTransform)
    (context : MiddlewareContext) :
    apply_input_transforms sys (t :: post) context =
      apply_input_transforms sys post (apply_input_transform sys context t) := rfl

/-- A `write_stdin` in base64 mode that fits leaves the decoded bytes. -/
theorem write_stdin_input {context : MiddlewareContext} {arg_name : Bytes} {arg : Argument}
    (harg : context.args[arg_name]? = some arg)
    (hfits : (ArgTransform.WriteStdin arg_name true).fits sys context.args) :
    zbase64.decode_string arg.get_string_value =
      .ok (apply_input_transform sys context (.WriteStdin arg_name true)).input := by
  obtain ⟨data, hd⟩ := hfits arg harg rfl
  simp only [apply_input_transform, harg, ↓reduceIte, hd]

/-- Every transform succeeds in the context it is given, and the standard input is what the
last `write_stdin`, when it decodes, finds under its name. -/
def inputs_delivered (sys : Platform) (transforms : List ArgTransform)
    (context : MiddlewareContext) : Prop :=
  (∀ pre t post, transforms = pre ++ t :: post →
      succeeds sys (apply_input_transforms sys pre context) t) ∧
    ∀ pre arg_name post, transforms = pre ++ .WriteStdin arg_name true :: post →
      (∀ t ∈ post, t.writes_stdin = false) →
        ∀ arg, (apply_input_transforms sys pre context).args[arg_name]? = some arg →
          zbase64.decode_string arg.get_string_value =
            .ok (apply_input_transforms sys transforms context).input

theorem inputs_delivered_iff {transforms : List ArgTransform} {context : MiddlewareContext} :
    inputs_delivered sys transforms context ↔ ∀ pre t post, transforms = pre ++ t :: post →
      t.fits sys (apply_input_transforms sys pre context).args := by
  constructor
  · rintro ⟨hsucceeds, -⟩ pre t post hsplit
    exact succeeds_iff.mp (hsucceeds pre t post hsplit)
  · intro hfits
    refine ⟨?_, ?_⟩
    · intro pre t post hsplit
      exact succeeds_iff.mpr (hfits pre t post hsplit)
    · intro pre arg_name post hsplit hlast arg harg
      rw [write_stdin_input harg (hfits pre _ post hsplit), hsplit, apply_input_transforms_append,
        apply_input_transforms_cons, apply_input_transforms_input hlast]

/-- Whenever a handler runs. -/
theorem handler_inputs_iff {commands : CommandMap} {request_data : Bytes} {request : RpcRequest}
    {builder : CommandBuilder} {context : MiddlewareContext}
    (hr : RpcRequest.from_str sys request_data = .ok request)
    (hb : commands[request.method]? = some builder)
    (hi : (process_request sys commands request_data).invoked = some context) :
    ∃ args, request_arguments sys request = .ok args ∧
      let start : MiddlewareContext := { command_path := request.method, args }
      context = apply_input_transforms sys builder.transforms start ∧
      (inputs_delivered sys builder.transforms start ↔
        ∀ pre t post, builder.transforms = pre ++ t :: post →
          t.fits sys (apply_input_transforms sys pre start).args) := by
  obtain ⟨-, args, ha, rfl⟩ := (process_request_invoked hr hb).mp hi
  exact ⟨args, ha, rfl, inputs_delivered_iff⟩

/-- `{"dsname":"A.B","data":"!"}` -/
def undecodable : Value := .object [
  (ibm1047.str "dsname", .string (ibm1047.str "A.B")),
  (ibm1047.str "data", .string (ibm1047.str "!"))]

def undecodable_text : Bytes :=
  request_text "writeDataset" ",\"params\":\x7b\"dsname\":\"A.B\",\"data\":\"!\"\x7d"

def undecodable_request : RpcRequest where
  jsonrpc := ibm1047.str "2.0"
  id := 1
  method := ibm1047.str "writeDataset"
  params := some undecodable

def undecodable_system : Platform :=
  platform_reading [(undecodable_text, undecodable_request)]

def undecodable_arguments : ArgumentMap :=
  ((∅ : ArgumentMap).insert (ibm1047.str "data") (.string (ibm1047.str "!"))).insert
    (ibm1047.str "dsname") (.string (ibm1047.str "A.B"))

def undecodable_start : MiddlewareContext :=
  { command_path := ibm1047.str "writeDataset", args := undecodable_arguments }

theorem undecodable_read :
    RpcRequest.from_str undecodable_system undecodable_text = .ok undecodable_request :=
  from_str_platform_reading List.lookup_cons_self (by decide) (by decide)

theorem undecodable_invoked :
    (process_request undecodable_system (ds_commands idle_handler) undecodable_text).invoked =
      some (apply_input_transforms undecodable_system (writeDataset ibm1047 idle_handler).transforms
        undecodable_start) := by
  refine (process_request_invoked undecodable_read ds_commands_write).mpr
    ⟨?_, undecodable_arguments, rfl, rfl⟩
  rw [validate_request_eq ds_commands_write rfl]
  rfl

theorem handler_inputs_iff_undecodable :
    ∃ args, request_arguments undecodable_system undecodable_request = .ok args ∧
      let start : MiddlewareContext := { command_path := ibm1047.str "writeDataset", args }
      let transforms := (writeDataset ibm1047 idle_handler).transforms
      apply_input_transforms undecodable_system transforms undecodable_start =
        apply_input_transforms undecodable_system transforms start ∧
      (inputs_delivered undecodable_system transforms start ↔
        ∀ pre t post, transforms = pre ++ t :: post →
          t.fits undecodable_system (apply_input_transforms undecodable_system pre start).args) :=
  handler_inputs_iff undecodable_read ds_commands_write undecodable_invoked

/-- `writeDataset` with `data` that is no base64 runs its handler on an empty input. -/
theorem handler_runs_undecoded :
    ∃ context, (process_request undecodable_system (ds_commands idle_handler)
        undecodable_text).invoked = some context ∧ context.input = [] ∧
      (∃ e, zbase64.decode_string (ibm1047.str "!") = .error e) ∧
      ¬inputs_delivered undecodable_system (writeDataset ibm1047 idle_handler).transforms
        undecodable_start := by
  refine ⟨_, undecodable_invoked, rfl, ⟨_, rfl⟩, ?_⟩
  intro h
  have hfits := inputs_delivered_iff.mp h [
    .RenameArg (ibm1047.str "dsname") (ibm1047.str "dsn"),
    .RenameArg (ibm1047.str "volume") (ibm1047.str "volser"),
    .SetDefault (ibm1047.str "encoding") (.string (ibm1047.str "IBM-1047"))] _ _ rfl
  obtain ⟨data, hd⟩ := hfits (.string (ibm1047.str "!")) rfl rfl
  cases hd

end Zowex.server

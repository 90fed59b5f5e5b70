import Zowex.Lib.Maps
import Zowex.Proofs.Transforms

/-! What becomes of the empty text that a null leaves under a name, as the input transforms
go over it. -/

namespace Zowex.server

open zjson plugin

variable {sys : Platform}

/-- The empty text is gone and the two contexts are one; or it is all they differ in, under a
name; or there is a complaint about it too; or it took effect in another way. -/
inductive NullFate
  | absorbed
  | carried (name : Bytes)
  | reported (name : Bytes)
  | unsettled
deriving DecidableEq

def MiddlewareContext.with_null (context : MiddlewareContext) (name : Bytes) : MiddlewareContext :=
  { context with args := context.args.insert name (.string []) }

/-- How the context of the request with the null follows the one of the request without. -/
def NullFate.Relates (context context' : MiddlewareContext) : NullFate → Prop
  | .absorbed => context' = context
  | .carried name => context.args[name]? ≠ some (.string []) ∧ context' = context.with_null name
  | .reported name => context.args[name]? ≠ some (.string []) ∧
    ∃ e, context' = { context.with_null name with error := e }
  | .unsettled => True

/-- The names of the properties `flatten_obj` makes arguments of. -/
def flattened (sys : Platform) : List (Bytes × Value) → List Bytes
  | [] => []
  | property :: properties =>
    match scalar_argument sys property.2 with
    | some (.ok _) => property.1 :: flattened sys properties
    | some (.error _) => []
    | none => flattened sys properties

def flattens (sys : Platform) (args : ArgumentMap) (arg_name name : Bytes) : Bool :=
  match args[arg_name]? with
  | none => false
  | some arg =>
    match sys.from_str arg.get_string_value with
    | .error _ => false
    | .ok obj => obj.is_object && (flattened sys obj.as_object.toList).contains name

def makes_fifo (sys : Platform) (args : ArgumentMap) (rpc_id_param : Bytes) : Bool :=
  match (args[rpc_id_param]?).bind Argument.get_int with
  | none => false
  | some stream_id =>
    (sys.unlink (pipe_path sys stream_id)).all (· = sys.ENOENT) &&
      (sys.mkfifo (pipe_path sys stream_id)).isNone

/-- One transform, in the context of the request without the null. -/
def null_step (sys : Platform) (context : MiddlewareContext) (name : Bytes) :
    ArgTransform → NullFate
  | .RenameArg arg_name renamed_to =>
    let kebab_name := camel_case_to_kebab_case sys.cs arg_name
    if kebab_name = name then
      if context.args[name]? = none ∧ context.args[renamed_to]? = some (.string []) then .absorbed
      else .carried renamed_to
    else if renamed_to = name ∧ kebab_name ∈ context.args then .absorbed
    else .carried name
  | .SetDefault arg_name default_value =>
    if arg_name = name ∧ context.args[name]? = none ∧ default_value = .string [] then .absorbed
    else .carried name
  | .WriteStdin arg_name _ =>
    if arg_name = name then
      if context.args[name]? = none ∧ context.input = [] then .absorbed else .unsettled
    else .carried name
  | .ReadStdout _ _ => .carried name
  | .FlattenObj arg_name =>
    if arg_name = name then
      match context.args[name]?, sys.from_str [] with
      | none, .error _ => .reported name
      | _, _ => .unsettled
    else if flattens sys context.args arg_name name then .absorbed
    else .carried name
  | .HandleFifo rpc_id_param arg_name _ _ =>
    if rpc_id_param = name then
      match context.args[name]? with
      | none => .reported name
      | some arg => if arg.get_int = none then .carried name else .unsettled
    else if arg_name = name ∧ makes_fifo sys context.args rpc_id_param then .absorbed
    else .carried name

theorem with_null_lookup_self (context : MiddlewareContext) (name : Bytes) :
    (context.with_null name).args[name]? = some (.string []) :=
  Std.ExtTreeMap.getElem?_insert_self

theorem with_null_lookup_ne {context : MiddlewareContext} {name k : Bytes} (h : name ≠ k) :
    (context.with_null name).args[k]? = context.args[k]? :=
  Maps.getElem?_insert_ne h

variable {context : MiddlewareContext} {name : Bytes}

theorem null_step_rename_arg (hne : context.args[name]? ≠ some (.string []))
    (arg_name renamed_to : Bytes) :
    (null_step sys context name (.RenameArg arg_name renamed_to)).Relates
      (apply_input_transform sys context (.RenameArg arg_name renamed_to))
      (apply_input_transform sys (context.with_null name) (.RenameArg arg_name renamed_to)) := by
  simp only [null_step, apply_input_transform]
  generalize camel_case_to_kebab_case sys.cs arg_name = kebab_name
  by_cases hk : kebab_name = name
  · subst hk
    rw [with_null_lookup_self]
    have hargs : ((context.with_null kebab_name).args.erase kebab_name) =
        context.args.erase kebab_name := Maps.erase_insert_self
    simp only [↓reduceIte, hargs]
    cases hv : context.args[kebab_name]? with
    | none =>
      rw [Maps.erase_of_getElem?_none hv]
      simp only [true_and]
      by_cases hr : context.args[renamed_to]? = some (.string [])
      · rw [if_pos hr]
        change ({ context with args := _ } : MiddlewareContext) = _
        rw [Maps.insert_of_getElem?_some hr]
      · rw [if_neg hr]
        exact ⟨hr, rfl⟩
    | some value =>
      rw [hv] at hne
      simp only [reduceCtorEq, false_and, ↓reduceIte]
      refine ⟨?_, ?_⟩
      · rw [Std.ExtTreeMap.getElem?_insert_self]
        exact hne
      · simp only [MiddlewareContext.with_null, Maps.insert_insert_self]
  · rw [if_neg hk, with_null_lookup_ne (Ne.symm hk)]
    cases hv : context.args[kebab_name]? with
    | none =>
      have hin : kebab_name ∉ context.args := by
        rw [Std.ExtTreeMap.mem_iff_isSome_getElem?, hv]
        exact Bool.false_ne_true
      rw [if_neg (fun h => hin h.2)]
      exact ⟨hne, rfl⟩
    | some value =>
      have hin : kebab_name ∈ context.args := by
        rw [Std.ExtTreeMap.mem_iff_isSome_getElem?, hv]
        rfl
      have hargs : (context.with_null name).args.erase kebab_name =
          (context.args.erase kebab_name).insert name (.string []) :=
        Maps.erase_insert_comm (Ne.symm hk)
      simp only [hin, and_true, hargs]
      by_cases hr : renamed_to = name
      · subst hr
        rw [if_pos rfl]
        simp only [NullFate.Relates, MiddlewareContext.with_null, Maps.insert_insert_self]
      · rw [if_neg hr]
        refine ⟨?_, ?_⟩
        · rw [Maps.getElem?_insert_ne hr, Maps.getElem?_erase_ne hk]
          exact hne
        · simp only [MiddlewareContext.with_null]
          rw [Maps.insert_comm (Ne.symm hr)]

theorem null_step_set_default (hne : context.args[name]? ≠ some (.string []))
    (arg_name : Bytes) (default_value : Argument) :
    (null_step sys context name (.SetDefault arg_name default_value)).Relates
      (apply_input_transform sys context (.SetDefault arg_name default_value))
      (apply_input_transform sys (context.with_null name) (.SetDefault arg_name default_value)) := by
  simp only [null_step, apply_input_transform]
  by_cases ha : arg_name = name
  · subst ha
    have hin : arg_name ∈ (context.with_null arg_name).args := by
      rw [Std.ExtTreeMap.mem_iff_isSome_getElem?, with_null_lookup_self]
      rfl
    rw [if_pos hin]
    cases hv : context.args[arg_name]? with
    | some value =>
      have hin : arg_name ∈ context.args := by
        rw [Std.ExtTreeMap.mem_iff_isSome_getElem?, hv]
        rfl
      rw [if_pos hin, if_neg (fun h => Option.some_ne_none _ h.2.1)]
      exact ⟨hne, rfl⟩
    | none =>
      have hin : arg_name ∉ context.args := by
        rw [Std.ExtTreeMap.mem_iff_isSome_getElem?, hv]
        exact Bool.false_ne_true
      rw [if_neg hin]
      by_cases hd : default_value = .string []
      · subst hd
        rw [if_pos ⟨rfl, rfl, rfl⟩]
        rfl
      · rw [if_neg (fun h => hd h.2.2)]
        refine ⟨?_, ?_⟩
        · rw [Std.ExtTreeMap.getElem?_insert_self]
          exact fun h => hd (Option.some.inj h)
        · simp only [MiddlewareContext.with_null, Maps.insert_insert_self]
  · have hiff : arg_name ∈ (context.with_null name).args ↔ arg_name ∈ context.args := by
      rw [Std.ExtTreeMap.mem_iff_isSome_getElem?, Std.ExtTreeMap.mem_iff_isSome_getElem?,
        with_null_lookup_ne (Ne.symm ha)]
    by_cases hin : arg_name ∈ context.args
    · rw [if_pos hin, if_pos (hiff.mpr hin), if_neg (fun h => ha h.1)]
      exact ⟨hne, rfl⟩
    · rw [if_neg hin, if_neg (mt hiff.mp hin), if_neg (fun h => ha h.1)]
      refine ⟨?_, ?_⟩
      · rw [Maps.getElem?_insert_ne ha]
        exact hne
      · simp only [MiddlewareContext.with_null]
        rw [Maps.insert_comm (Ne.symm ha)]

theorem null_step_write_stdin (hne : context.args[name]? ≠ some (.string []))
    (arg_name : Bytes) (base64 : Bool) :
    (null_step sys context name (.WriteStdin arg_name base64)).Relates
      (apply_input_transform sys context (.WriteStdin arg_name base64))
      (apply_input_transform sys (context.with_null name) (.WriteStdin arg_name base64)) := by
  simp only [null_step, apply_input_transform]
  by_cases ha : arg_name = name
  · subst ha
    rw [if_pos rfl]
    by_cases hfresh : context.args[arg_name]? = none ∧ context.input = []
    swap
    · rw [if_neg hfresh]
      trivial
    obtain ⟨hv, hinput⟩ := hfresh
    rw [if_pos ⟨hv, hinput⟩, with_null_lookup_self, hv]
    have hdecode : (if base64 = true then zbase64.decode_string [] else .ok []) = .ok [] := by
      cases base64 <;> rfl
    simp only [Argument.get_string_value, hdecode]
    have hargs : (context.with_null arg_name).args.erase arg_name = context.args := by
      rw [MiddlewareContext.with_null, Maps.erase_insert_self, Maps.erase_of_getElem?_none hv]
    rw [hargs]
    simp only [NullFate.Relates, MiddlewareContext.with_null, ← hinput]
  · rw [if_neg ha, with_null_lookup_ne (Ne.symm ha)]
    cases context.args[arg_name]? with
    | none => exact ⟨hne, rfl⟩
    | some arg =>
      simp only
      split
      · refine ⟨?_, ?_⟩
        · rw [Maps.getElem?_erase_ne ha]
          exact hne
        · simp only [MiddlewareContext.with_null]
          rw [Maps.erase_insert_comm (Ne.symm ha)]
      · exact ⟨hne, rfl⟩

theorem flatten_properties_lookup (args : ArgumentMap) {properties : List (Bytes × Value)}
    (h : name ∉ flattened sys properties) :
    (flatten_properties sys args properties).1[name]? = args[name]? := by
  induction properties generalizing args with
  | nil => rfl
  | cons property properties ih =>
    rw [flattened] at h
    rw [flatten_properties]
    split
    · next arg harg =>
      simp only [harg, List.mem_cons, not_or] at h
      rw [ih _ h.2, Maps.getElem?_insert_ne (Ne.symm h.1)]
    · rfl
    · next hnone =>
      rw [hnone] at h
      exact ih _ h

theorem flatten_properties_insert (sys : Platform) (args : ArgumentMap) (name : Bytes)
    (arg : Argument) (properties : List (Bytes × Value)) :
    flatten_properties sys (args.insert name arg) properties =
      if name ∈ flattened sys properties then flatten_properties sys args properties
      else ((flatten_properties sys args properties).1.insert name arg,
        (flatten_properties sys args properties).2) := by
  induction properties generalizing args with
  | nil => rfl
  | cons property properties ih =>
    rw [flatten_properties, flatten_properties, flattened]
    cases hs : scalar_argument sys property.2 with
    | none => exact ih _
    | some result =>
      cases result with
      | error e => rfl
      | ok value =>
        simp only [List.mem_cons]
        by_cases hk : name = property.1
        · subst hk
          rw [if_pos (.inl rfl), Maps.insert_insert_self]
        · simp only [hk, false_or]
          rw [Maps.insert_comm hk]
          exact ih _

theorem null_step_flatten_obj (hne : context.args[name]? ≠ some (.string []))
    (arg_name : Bytes) :
    (null_step sys context name (.FlattenObj arg_name)).Relates
      (apply_input_transform sys context (.FlattenObj arg_name))
      (apply_input_transform sys (context.with_null name) (.FlattenObj arg_name)) := by
  simp only [null_step, apply_input_transform]
  by_cases ha : arg_name = name
  · subst ha
    rw [if_pos rfl, with_null_lookup_self]
    cases hv : context.args[arg_name]? with
    | some arg => trivial
    | none =>
      simp only [Argument.get_string_value]
      cases sys.from_str [] with
      | ok obj => trivial
      | error e => exact ⟨hne, _, rfl⟩
  · rw [if_neg ha, with_null_lookup_ne (Ne.symm ha)]
    cases hv : context.args[arg_name]? with
    | none =>
      rw [show flattens sys context.args arg_name name = false by simp only [flattens, hv]]
      exact ⟨hne, rfl⟩
    | some arg =>
      simp only
      cases hp : sys.from_str arg.get_string_value with
      | error e =>
        rw [show flattens sys context.args arg_name name = false by simp only [flattens, hv, hp]]
        exact ⟨hne, rfl⟩
      | ok obj =>
        have hflattens : flattens sys context.args arg_name name =
            (obj.is_object && (flattened sys obj.as_object.toList).contains name) := by
          simp only [flattens, hv, hp]
        rw [hflattens]
        by_cases ho : obj.is_object = true
        swap
        · simp only [ho, Bool.false_and, Bool.false_eq_true, Bool.not_false, ↓reduceIte]
          exact ⟨hne, rfl⟩
        have hflat := flatten_properties_insert sys context.args name (.string [])
          obj.as_object.toList
        simp only [ho, Bool.true_and, Bool.not_true, Bool.false_eq_true, ↓reduceIte,
          List.contains_iff_mem, MiddlewareContext.with_null, hflat]
        by_cases hin : name ∈ flattened sys obj.as_object.toList
        · rw [if_pos hin, if_pos hin]
          rfl
        · rw [if_neg hin, if_neg hin]
          have hlookup := flatten_properties_lookup context.args hin
          generalize flatten_properties sys context.args obj.as_object.toList = result at hlookup
          obtain ⟨args, e⟩ := result
          cases e with
          | none =>
            refine ⟨?_, ?_⟩
            · rw [Maps.getElem?_erase_ne ha]
              exact hlookup.trans_ne hne
            · simp only [MiddlewareContext.with_null]
              rw [Maps.erase_insert_comm (Ne.symm ha)]
          | some e => exact ⟨hlookup.trans_ne hne, rfl⟩

theorem null_step_handle_fifo (hne : context.args[name]? ≠ some (.string []))
    (rpc_id_param arg_name : Bytes) (fifo_mode : FifoMode) (defer : Bool) :
    (null_step sys context name (.HandleFifo rpc_id_param arg_name fifo_mode defer)).Relates
      (apply_input_transform sys context (.HandleFifo rpc_id_param arg_name fifo_mode defer))
      (apply_input_transform sys (context.with_null name)
        (.HandleFifo rpc_id_param arg_name fifo_mode defer)) := by
  simp only [null_step, apply_input_transform]
  by_cases ha : rpc_id_param = name
  · subst ha
    rw [if_pos rfl, with_null_lookup_self]
    cases hv : context.args[rpc_id_param]? with
    | none =>
      rw [hv] at hne
      exact ⟨hv.trans_ne hne, _, rfl⟩
    | some arg =>
      by_cases hint : arg.get_int = none
      · simp only [hint, ↓reduceIte]
        exact ⟨hne, rfl⟩
      · simp only [hint, ↓reduceIte]
        trivial
  · rw [if_neg ha, with_null_lookup_ne (Ne.symm ha)]
    have hblocked (h : makes_fifo sys context.args rpc_id_param = false) :
        ¬(arg_name = name ∧ makes_fifo sys context.args rpc_id_param = true) := by
      rintro ⟨-, hmakes⟩
      rw [h] at hmakes
      cases hmakes
    cases hv : context.args[rpc_id_param]? with
    | none =>
      rw [if_neg (hblocked (by simp only [makes_fifo, hv, Option.bind_none]))]
      exact ⟨hne, rfl⟩
    | some arg =>
      simp only
      cases hint : arg.get_int with
      | none =>
        rw [if_neg (hblocked (by simp only [makes_fifo, hv, Option.bind_some, hint]))]
        exact ⟨hne, rfl⟩
      | some stream_id =>
        have hfifo : makes_fifo sys context.args rpc_id_param =
            ((sys.unlink (pipe_path sys stream_id)).all (· = sys.ENOENT) &&
              (sys.mkfifo (pipe_path sys stream_id)).isNone) := by
          simp only [makes_fifo, hv, Option.bind_some, hint]
        simp only
        cases hu : (sys.unlink (pipe_path sys stream_id)).filter (· ≠ sys.ENOENT) with
        | some errno =>
          rw [Option.filter_eq_some_iff] at hu
          have hrefused : (sys.unlink (pipe_path sys stream_id)).all (· = sys.ENOENT) = false := by
            rw [hu.1]
            simpa using hu.2
          rw [if_neg (hblocked (by rw [hfifo, hrefused, Bool.false_and]))]
          exact ⟨hne, rfl⟩
        | none =>
          have hall : (sys.unlink (pipe_path sys stream_id)).all (· = sys.ENOENT) = true := by
            simpa [Option.all_eq_true] using hu
          rw [hall, Bool.true_and] at hfifo
          cases hm : sys.mkfifo (pipe_path sys stream_id) with
          | some errno =>
            rw [if_neg (hblocked (by rw [hfifo, hm, Option.isNone_some]))]
            exact ⟨hne, rfl⟩
          | none =>
            rw [hm, Option.isNone_none] at hfifo
            simp only [hfifo, and_true]
            by_cases hname : arg_name = name
            · subst hname
              have hargs (arg : Argument) :
                  (context.with_null arg_name).args.insert arg_name arg =
                    context.args.insert arg_name arg := Maps.insert_insert_self
              rw [hargs, if_pos rfl]
              rfl
            · have hargs (arg : Argument) : (context.with_null name).args.insert arg_name arg =
                  (context.args.insert arg_name arg).insert name (.string []) :=
                Maps.insert_comm (Ne.symm hname)
              rw [hargs, if_neg hname]
              have hlookup (arg : Argument) : (context.args.insert arg_name arg)[name]? ≠
                  some (.string []) := (Maps.getElem?_insert_ne hname).trans_ne hne
              split
              · exact ⟨hlookup _, rfl⟩
              · split
                · exact ⟨hlookup _, rfl⟩
                · exact ⟨hlookup _, rfl⟩

theorem null_step_relates (hne : context.args[name]? ≠ some (.string [])) (t : ArgTransform) :
    (null_step sys context name t).Relates (apply_input_transform sys context t)
      (apply_input_transform sys (context.with_null name) t) := by
  cases t with
  | RenameArg arg_name renamed_to => exact null_step_rename_arg hne arg_name renamed_to
  | SetDefault arg_name default_value => exact null_step_set_default hne arg_name default_value
  | WriteStdin arg_name base64 => exact null_step_write_stdin hne arg_name base64
  | ReadStdout arg_name base64 => exact ⟨hne, rfl⟩
  | HandleFifo rpc_id_param arg_name fifo_mode defer =>
    exact null_step_handle_fifo hne rpc_id_param arg_name fifo_mode defer
  | FlattenObj arg_name => exact null_step_flatten_obj hne arg_name

theorem apply_input_transform_error (sys : Platform) (context : MiddlewareContext) (error : Bytes)
    (t : ArgTransform) :
    ∃ e, apply_input_transform sys { context with error := error } t =
      { apply_input_transform sys context t with error := e } := by
  cases t with
  | ReadStdout => exact ⟨_, rfl⟩
  | RenameArg | SetDefault | WriteStdin | HandleFifo | FlattenObj =>
    simp only [apply_input_transform]
    repeat' split
    all_goals exact ⟨_, rfl⟩

theorem apply_input_transforms_error (sys : Platform) (transforms : List ArgTransform)
    (context : MiddlewareContext) (error : Bytes) :
    ∃ e, apply_input_transforms sys transforms { context with error := error } =
      { apply_input_transforms sys transforms context with error := e } := by
  induction transforms generalizing context error with
  | nil => exact ⟨error, rfl⟩
  | cons t transforms ih =>
    obtain ⟨e, he⟩ := apply_input_transform_error sys context error t
    obtain ⟨e', he'⟩ := ih (apply_input_transform sys context t) e
    rw [← he] at he'
    exact ⟨e', he'⟩

/-- The same fate, when the request with the null has been complained about before. -/
def NullFate.once_reported : NullFate → NullFate
  | .absorbed => .unsettled
  | .carried name => .reported name
  | fate => fate

theorem NullFate.Relates.once_reported {fate : NullFate} {context context' : MiddlewareContext}
    (h : fate.Relates context context') (e : Bytes) :
    fate.once_reported.Relates context { context' with error := e } := by
  cases fate with
  | absorbed => trivial
  | carried name =>
    obtain ⟨hne, rfl⟩ := h
    exact ⟨hne, e, rfl⟩
  | reported name =>
    obtain ⟨hne, e', rfl⟩ := h
    exact ⟨hne, e, rfl⟩
  | unsettled => trivial

/-- The fate of the empty text under `name`, over all the input transforms. -/
def null_fate (sys : Platform) : List ArgTransform → MiddlewareContext → Bytes → NullFate
  | [], _, name => .carried name
  | t :: transforms, context, name =>
    match null_step sys context name t with
    | .carried name' => null_fate sys transforms (apply_input_transform sys context t) name'
    | .reported name' =>
      (null_fate sys transforms (apply_input_transform sys context t) name').once_reported
    | fate => fate

theorem null_fate_relates (transforms : List ArgTransform) {context : MiddlewareContext}
    {name : Bytes} (hne : context.args[name]? ≠ some (.string [])) :
    (null_fate sys transforms context name).Relates
      (apply_input_transforms sys transforms context)
      (apply_input_transforms sys transforms (context.with_null name)) := by
  induction transforms generalizing context name with
  | nil => exact ⟨hne, rfl⟩
  | cons t transforms ih =>
    have hstep : (null_step sys context name t).Relates _ _ := null_step_relates hne t
    rw [null_fate]
    change NullFate.Relates
      (apply_input_transforms sys transforms (apply_input_transform sys context t))
      (apply_input_transforms sys transforms
        (apply_input_transform sys (context.with_null name) t)) _
    generalize apply_input_transform sys (context.with_null name) t = next at hstep
    cases hfate : null_step sys context name t with
    | absorbed =>
      rw [hfate] at hstep
      rw [show next = _ from hstep]
      rfl
    | carried name' =>
      rw [hfate] at hstep
      obtain ⟨hne', rfl⟩ := hstep
      exact ih hne'
    | reported name' =>
      rw [hfate] at hstep
      obtain ⟨hne', e, rfl⟩ := hstep
      obtain ⟨e', he'⟩ := apply_input_transforms_error sys transforms
        ((apply_input_transform sys context t).with_null name') e
      rw [he']
      exact (ih hne').once_reported e'
    | unsettled => trivial

/-- Off the unsettled cases, the two contexts are one exactly when the empty text was absorbed,
and otherwise already their arguments differ. -/
theorem null_fate_absorbed_iff (transforms : List ArgTransform) {context : MiddlewareContext}
    {name : Bytes} (hne : context.args[name]? ≠ some (.string []))
    (hsettled : null_fate sys transforms context name ≠ .unsettled) :
    (apply_input_transforms sys transforms (context.with_null name)).args =
        (apply_input_transforms sys transforms context).args ↔
      null_fate sys transforms context name = .absorbed := by
  have hrelates : (null_fate sys transforms context name).Relates _ _ :=
    null_fate_relates transforms hne
  have hdiffers {final : MiddlewareContext} {name' : Bytes}
      (h : final.args[name']? ≠ some (.string [])) : (final.with_null name').args ≠ final.args := by
    intro heq
    rw [← heq, with_null_lookup_self] at h
    exact h rfl
  cases hfate : null_fate sys transforms context name with
  | absorbed =>
    rw [hfate] at hrelates
    rw [show _ = apply_input_transforms sys transforms context from hrelates]
    exact iff_of_true rfl rfl
  | carried name' =>
    rw [hfate] at hrelates
    rw [hrelates.2]
    exact iff_of_false (hdiffers hrelates.1) nofun
  | reported name' =>
    rw [hfate] at hrelates
    obtain ⟨hne', e, he⟩ := hrelates
    rw [he]
    exact iff_of_false (hdiffers hne') nofun
  | unsettled => contradiction

end Zowex.server

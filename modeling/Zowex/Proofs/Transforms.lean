import Zowex.Spec.Builder

/-! What an input transform leaves alone. -/

namespace Zowex.server

open zjson plugin

variable {sys : Platform}

/-- Whether a transform may change the argument under `name`. The names a flattened object
brings along are those of its properties. -/
def ArgTransform.touches (cs : Charset) (name : Bytes) : ArgTransform → Bool
  | .RenameArg arg_name renamed_to =>
    camel_case_to_kebab_case cs arg_name = name || renamed_to = name
  | .SetDefault arg_name _ | .WriteStdin arg_name _ | .HandleFifo _ arg_name _ _ => arg_name = name
  | .ReadStdout _ _ => false
  | .FlattenObj _ => true

@[simp] theorem errln_args (context : MiddlewareContext) (e : Bytes) :
    (context.errln sys e).args = context.args := rfl

theorem apply_input_transform_untouched {t : ArgTransform} {name : Bytes}
    (h : t.touches sys.cs name = false) (context : MiddlewareContext) :
    (apply_input_transform sys context t).args[name]? = context.args[name]? := by
  cases t with
  | RenameArg arg_name renamed_to =>
    simp only [ArgTransform.touches, Bool.or_eq_false_iff, decide_eq_false_iff_not] at h
    simp only [apply_input_transform]
    split
    · rfl
    · simp [Std.ExtTreeMap.getElem?_insert, Std.ExtTreeMap.getElem?_erase, h.1, h.2]
  | SetDefault arg_name default_value =>
    simp only [ArgTransform.touches, decide_eq_false_iff_not] at h
    simp only [apply_input_transform]
    split
    · rfl
    · simp [Std.ExtTreeMap.getElem?_insert, h]
  | WriteStdin arg_name base64 =>
    simp only [ArgTransform.touches, decide_eq_false_iff_not] at h
    simp only [apply_input_transform]
    split
    · rfl
    · split
      · simp [Std.ExtTreeMap.getElem?_erase, h]
      · rfl
  | ReadStdout arg_name base64 => rfl
  | FlattenObj arg_name => contradiction
  | HandleFifo rpc_id_param arg_name fifo_mode defer =>
    simp only [ArgTransform.touches, decide_eq_false_iff_not] at h
    simp only [apply_input_transform]
    repeat' split
    all_goals simp [Std.ExtTreeMap.getElem?_insert, h]

theorem apply_input_transforms_untouched {transforms : List ArgTransform} {name : Bytes}
    (h : ∀ t ∈ transforms, t.touches sys.cs name = false) (context : MiddlewareContext) :
    (apply_input_transforms sys transforms context).args[name]? = context.args[name]? := by
  induction transforms generalizing context with
  | nil => rfl
  | cons t transforms ih =>
    rw [List.forall_mem_cons] at h
    exact (ih h.2 _).trans (apply_input_transform_untouched h.1 context)

end Zowex.server

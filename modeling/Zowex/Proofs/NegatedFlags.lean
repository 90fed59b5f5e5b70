import Zowex.Lib.Maps
import Zowex.Proofs.HandlerCalls
import Zowex.Proofs.Registration

/-! The values of a flag and of the flag that turns it off, and what the two accessors make of
them. -/

namespace Zowex.parser

open lexer plugin

variable {p : Program} {frame : Frame} {flag : ArgumentDef}

/-- What is stored for a flag after it has been set some more times. -/
def set_flag (value : Option Argument) (settings : List Bool) : Option Argument :=
  settings.foldl (fun _ setting => some (.bool setting)) value

theorem set_flag_append (value : Option Argument) (settings later : List Bool) :
    set_flag value (settings ++ later) = set_flag (set_flag value settings) later :=
  List.foldl_append

theorem set_flag_some (default_value : Bool) (settings : List Bool) :
    set_flag (some (.bool default_value)) settings =
      some (.bool (settings.getLast?.getD default_value)) := by
  induction settings generalizing default_value with
  | nil => rfl
  | cons setting settings ih =>
    rw [set_flag, List.foldl_cons, ← set_flag, ih, List.getLast?_cons, Option.getD_some]

theorem settings_append (items later : List Item) (name : Bytes) :
    settings p (items ++ later) name = settings p items name ++ settings p later name := by
  rw [settings, List.flatMap_append, List.filterMap_append, settings, settings]

/-! What is stored, from the start of a command on. -/

theorem insert_value {values : ArgumentMap} {name : Bytes} {value : Argument} (key : Bytes) :
    (values.insert name value)[key]? = if name = key then some value else values[key]? := by
  split_ifs with h
  · subst h
    exact Std.ExtTreeMap.getElem?_insert_self
  · exact Maps.getElem?_insert_ne h

theorem defaults_skip {args : List ArgumentDef} {name : Bytes}
    (h : ∀ arg ∈ args, arg.name ≠ name) (values : ArgumentMap) :
    (args.foldl (fun values arg => if arg.is_help_flag || arg.is_json_flag then values
      else values.insert arg.name arg.default_value) values)[name]? = values[name]? := by
  induction args generalizing values with
  | nil => rfl
  | cons arg args ih =>
    rw [List.forall_mem_cons] at h
    rw [List.foldl_cons, ih h.2]
    split_ifs
    · rfl
    · exact Maps.getElem?_insert_ne h.1

theorem defaults_stored {args : List ArgumentDef} (hnodup : (args.map ArgumentDef.name).Nodup)
    (hmem : flag ∈ args) (hhelp : flag.is_help_flag = false) (hjson : flag.is_json_flag = false)
    (values : ArgumentMap) :
    (args.foldl (fun values arg => if arg.is_help_flag || arg.is_json_flag then values
      else values.insert arg.name arg.default_value) values)[flag.name]? =
        some flag.default_value := by
  induction args generalizing values with
  | nil => cases hmem
  | cons arg args ih =>
    rw [List.map_cons, List.nodup_cons] at hnodup
    rw [List.foldl_cons]
    rcases List.mem_cons.mp hmem with rfl | hlater
    · have hskip : ∀ arg ∈ args, arg.name ≠ flag.name := fun arg harg hname =>
        hnodup.1 (List.mem_map.mpr ⟨arg, harg, hname⟩)
      rw [defaults_skip hskip, hhelp, hjson]
      exact Std.ExtTreeMap.getElem?_insert_self
    · exact ih hnodup.2 hlater _

/-- The token behind a flag is read as a boolean. -/
theorem flag_argument {value : Option Token} (h : ∀ t ∈ value, is_value p .Flag false t) :
    value.elim (.bool true) (parse_token_value p.rt · .Flag false) = .bool (flag_value p value) := by
  rcases value with _ | token
  · rfl
  · have hvalue := (h token rfl).2.2
    obtain ⟨setting, hsetting⟩ :
        ∃ setting, parse_token_value p.rt token .Flag false = .bool setting := by
      cases token <;> first | exact ⟨_, rfl⟩ | cases hvalue
    simp [flag_value, hsetting, Argument.get_bool]

theorem combined_value {args : List ArgumentDef} (name : Bytes) (frame : Frame) :
    (args.foldl (fun frame arg => (frame.see arg.name).set arg.name (.bool true))
      frame).values[name]? =
      set_flag frame.values[name]?
        ((args.map fun arg => (arg.name, true)).filterMap fun s =>
          if s.1 = name then some s.2 else none) := by
  induction args generalizing frame with
  | nil => rfl
  | cons arg args ih =>
    rw [List.foldl_cons, ih, Frame.set, Frame.see, insert_value, List.map_cons,
      List.filterMap_cons]
    dsimp only
    split_ifs <;> rfl

theorem mem_of_names {cmd : Command} {token : Token} {arg : ArgumentDef}
    (h : names p cmd token arg) : arg ∈ cmd.args ∧ arg.positional = false := by
  have hfind {name : Bytes} {is_short : Bool}
      (hfind : find_keyword_arg p.rt cmd.args name is_short = some arg) :
      arg ∈ cmd.args ∧ arg.positional = false := by
    have hkeyword := List.find?_some hfind
    rw [Bool.and_eq_true, Bool.not_eq_true'] at hkeyword
    exact ⟨List.mem_of_find?_eq_some hfind, hkeyword.1⟩
  cases token with
  | TokFlagShort name => exact hfind h.2
  | TokFlagLong name => exact hfind h
  | _ => cases h

/-- An item sets a flag as it says, and leaves it alone otherwise. -/
theorem Item.apply_flag {item : Item} {index : ℕ} (hnamed : WellNamed p.rt (frame.cmd p).args)
    (hfits : item.fits p (frame.cmd p) index) (hmem : flag ∈ (frame.cmd p).args)
    (htype : flag.type = .Flag) (hkeyword : flag.positional = false) :
    (item.apply p frame).values[flag.name]? =
      set_flag frame.values[flag.name]? (settings p [item] flag.name) := by
  have hother {arg : ArgumentDef} (harg : arg ∈ (frame.cmd p).args) (hne : arg ≠ flag) :
      arg.name ≠ flag.name := fun hname => hne (hnamed.eq_of_name harg hmem hname)
  cases item with
  | passthrough words => rfl
  | combined letters args =>
    rw [settings, List.flatMap_singleton]
    exact combined_value flag.name frame
  | json token arg =>
    rw [Item.apply, Frame.set, Frame.see, insert_value]
    simp only [settings, Item.flags_set, List.flatMap_singleton, List.filterMap_cons,
      List.filterMap_nil]
    split_ifs <;> rfl
  | flag token arg value =>
    rw [Item.apply, Frame.set, Frame.see, insert_value, flag_argument hfits.2.2.2.2]
    simp only [settings, Item.flags_set, List.flatMap_singleton, List.filterMap_cons,
      List.filterMap_nil]
    split_ifs <;> rfl
  | option token arg values =>
    have hne : arg ≠ flag := fun h => hfits.2.2.2.1 (h ▸ htype)
    rw [Item.apply, Frame.set, Maps.getElem?_insert_ne (hother (mem_of_names hfits.1).1 hne)]
    rfl
  | dynamic name type values => rfl
  | positional arg values =>
    have harg := List.mem_filter.mp (List.mem_of_getElem? hfits.1)
    simp only [Bool.and_eq_true] at harg
    have hne : arg ≠ flag := by
      rintro rfl
      rw [hkeyword] at harg
      cases harg.2.1.1
    rw [Item.apply, Frame.set]
    dsimp only
    rw [Maps.getElem?_insert_ne (hother harg.1 hne)]
    rfl

/-- After its command has been reached, a flag has the last of its settings. -/
theorem Reads.flag_stored (hargs : ∀ command, WellNamed p.rt (p.command command).args) {root : Ref}
    {path : Bytes} {json_inherited : Bool} {tokens rest : List Token} {last : Frame}
    {items : List Item}
    (hreads : Reads p (start_frame p root path json_inherited) tokens rest last items)
    (hmem : flag ∈ (last.cmd p).args) (htype : flag.type = .Flag)
    (hkeyword : flag.positional = false) (hhelp : flag.is_help_flag = false)
    (hjson : flag.is_json_flag = false) :
    last.values[flag.name]? =
      set_flag (some flag.default_value) (settings p items flag.name) := by
  induction hreads with
  | start => exact defaults_stored (hargs root).nodup hmem hhelp hjson ∅
  | item item _ _ _ hfits ih =>
    rw [Item.apply_cmd] at hmem
    rw [Item.apply_flag (hargs _) hfits hmem htype hkeyword, ih hmem, settings_append,
      set_flag_append]
  | subcommand word sub _ _ ih => exact defaults_stored (hargs sub).nodup hmem hhelp hjson ∅

/-- No dynamic keyword has the name of an argument. -/
theorem Reads.dynamic_other {root : Frame} (hroot : root.dynamic_values = ∅)
    {tokens rest : List Token} {last : Frame} {items : List Item}
    (hreads : Reads p root tokens rest last items) (hmem : flag ∈ (last.cmd p).args)
    (hkeyword : flag.positional = false) : last.dynamic_values[flag.name]? = none := by
  induction hreads with
  | start => simp [hroot]
  | @item token following rest frame items item _ _ _ hfits ih =>
    rw [Item.apply_cmd] at hmem
    cases item with
    | combined letters args =>
      exact (congrArg (·[flag.name]?) (combined_frame args frame).2.2.2.1).trans (ih hmem)
    | dynamic name type values =>
      have hname : name ≠ flag.name := by
        rintro rfl
        have hno := List.find?_eq_none.mp hfits.1 flag hmem
        simp [hkeyword] at hno
      rw [Item.apply, Maps.getElem?_insert_ne hname]
      exact ih hmem
    | _ => exact ih hmem
  | subcommand word sub _ _ ih => simp [start_frame]

theorem default_positionals_other {args : List ArgumentDef} {name : Bytes}
    (h : ∀ arg ∈ args, arg.name ≠ name) (values : ArgumentMap) :
    (default_positionals args values).1[name]? = values[name]? := by
  induction args generalizing values with
  | nil => rfl
  | cons arg args ih =>
    rw [List.forall_mem_cons] at h
    rw [default_positionals]
    split_ifs
    · rfl
    · rw [ih h.2, Maps.getElem?_insert_ne h.1]

/-- What a flag is set to when the handler is called, in the result and for the handler. -/
theorem Handled.flag_value (hargs : ∀ command, WellNamed p.rt (p.command command).args)
    {root : Ref} {tokens : List Token} {last : Frame} {items : List Item} {hooks : List Call}
    {args : ContextArgs} {outcome : Outcome}
    (hreads : Reads p (start_frame p root [] false) tokens [] last items)
    (hhandled : Handled p last hooks args outcome) (hmem : flag ∈ (last.cmd p).args)
    (htype : flag.type = .Flag) (hkeyword : flag.positional = false)
    (hhelp : flag.is_help_flag = false) (hjson : flag.is_json_flag = false) {default_value : Bool}
    (hdefault : flag.default_value = .bool default_value) :
    let value := some (.bool ((settings p items flag.name).getLast?.getD default_value))
    outcome.result.values[flag.name]? = value ∧ args.args[flag.name]? = value := by
  intro value
  have hstored := hreads.flag_stored hargs hmem htype hkeyword hhelp hjson
  rw [hdefault, set_flag_some] at hstored
  have hpositional : ∀ arg ∈ (pos_args (last.cmd p)).drop last.positional_index,
      arg.name ≠ flag.name := by
    intro arg harg hname
    have hpos := List.mem_filter.mp (List.mem_of_mem_drop harg)
    simp only [Bool.and_eq_true] at hpos
    obtain rfl := (hargs _).eq_of_name hpos.1 hmem hname
    rw [hkeyword] at hpos
    cases hpos.2.1.1
  have hvalues := (default_positionals_other hpositional last.values).trans hstored
  rw [hhandled.result.1, hhandled.values, Std.ExtTreeMap.getElem?_union,
    hreads.dynamic_other rfl hmem hkeyword, Option.none_or]
  exact ⟨hvalues, hvalues⟩

/-- The two accessors give what the user has set only where the last `--no-` flag is set to true, and
nothing turns the flag on again. -/
theorem negated_flag_read_iff (hargs : ∀ command, Registered p.rt (p.command command).args)
    {root : Ref} {tokens : List Token} {outcome : Outcome}
    (h : parse_tokens p root tokens = some outcome) {command : Ref} {args : ContextArgs}
    (hcall : .handler command args ∈ outcome.calls) (hmem : flag ∈ (p.command command).args)
    (htype : flag.type = .Flag) (hdefault : flag.default_value = .bool true)
    (default_value : Bool) :
    ∃ last items, Reads p (start_frame p root [] false) tokens [] last items ∧
      last.command = command ∧
      ((outcome.result.get_value p flag.name default_value = user_setting p items flag.name ∧
          io_get_bool p.rt args.args flag.name = some (user_setting p items flag.name)) ↔
        (settings p items (negation_name p.rt flag.name)).getLast? = some true ∧
          user_setting p items flag.name = false) := by
  obtain ⟨last, items, hooks, hreads, hhandled, rfl⟩ := handler_of_call h hcall
  refine ⟨last, items, hreads, rfl, ?_⟩
  have hnamed (command : Ref) := (hargs command).well_named
  obtain ⟨hnegation, -⟩ := (hnamed last.command).negated flag hmem htype hdefault
  obtain ⟨hresult, hio⟩ := hhandled.flag_value hnamed hreads hnegation rfl rfl rfl rfl rfl
  have hname : (negation p.rt flag).name = p.rt.str "no-" ++ flag.name := rfl
  rw [hname] at hresult hio
  have hcontains : outcome.result.values.contains (p.rt.str "no-" ++ flag.name) = true := by
    rw [Std.ExtTreeMap.contains_eq_isSome_getElem?, hresult]
    rfl
  have hget : outcome.result.get_value p flag.name default_value = false := by
    rw [ParseResult.get_value, get_value_bool, if_pos hcontains]
  have hread : io_get_bool p.rt args.args flag.name =
      some !((settings p items (negation_name p.rt flag.name)).getLast?.getD false) := by
    rw [io_get_bool, hio]
    rfl
  rw [hget, hread, Option.some_inj]
  rcases (settings p items (negation_name p.rt flag.name)).getLast? with _ | _ | _ <;>
    rcases user_setting p items flag.name with _ | _ <;> simp

def color_argument : ArgumentDef :=
  { negation ascii_runtime (json_argument ascii_runtime) with
    name := ascii.str "color"
    default_value := .bool true }

def color_program : Program :=
  example_program [color_argument, negation ascii_runtime color_argument] (some 0)

theorem color_registered (command : Ref) :
    Registered ascii_runtime (color_program.command command).args := by
  have hregister : register_argument ascii_runtime (new_arguments ascii_runtime) color_argument =
      .ok (color_program.command 0).args := by decide +kernel
  exact .register color_argument .new rfl rfl hregister

/-- `zowex --no-color` -/
theorem negated_flag_read_iff_off :
    ∃ outcome args, parse_tokens color_program 0 [.TokFlagLong (ascii.str "no-color")] =
        some outcome ∧ .handler 0 args ∈ outcome.calls ∧
      ∃ last items, Reads color_program (start_frame color_program 0 [] false)
          [.TokFlagLong (ascii.str "no-color")] [] last items ∧ last.command = 0 ∧
        ((outcome.result.get_value color_program (ascii.str "color") true =
              user_setting color_program items (ascii.str "color") ∧
            io_get_bool ascii_runtime args.args (ascii.str "color") =
              some (user_setting color_program items (ascii.str "color"))) ↔
          (settings color_program items (negation_name ascii_runtime (ascii.str "color"))).getLast?
              = some true ∧
            user_setting color_program items (ascii.str "color") = false) := by
  have hparse : ((parse_tokens color_program 0 [.TokFlagLong (ascii.str "no-color")]).any
      fun outcome => outcome.calls.any (is_handler_call 0)) = true := by decide +kernel
  obtain ⟨outcome, houtcome, hcalls⟩ := (Option.any_eq_true _ _).mp hparse
  obtain ⟨args, hargs⟩ := handler_of_is_handler_call hcalls
  have hmem : color_argument ∈ (color_program.command 0).args := by decide +kernel
  exact ⟨outcome, args, houtcome, hargs,
    negated_flag_read_iff color_registered houtcome hargs hmem rfl rfl true⟩

/-- `zowex` -/
theorem flag_never_read_as_on :
    ((parse_argv color_program 0 [ascii.str "zowex"]).map fun outcome =>
      (outcome.result.get_value color_program (ascii.str "color") true,
        outcome.calls.map fun call => match call with
          | .hook _ _ _ => none
          | .handler _ args => io_get_bool ascii_runtime args.args (ascii.str "color"))) =
      some (false, [some true]) := by
  decide +kernel

end Zowex.parser

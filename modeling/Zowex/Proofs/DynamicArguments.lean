import Zowex.Proofs.NegatedFlags
import Zowex.Spec.DynamicArguments

/-! The values of the declared arguments and of the dynamic keywords, from the start of a command to
its handler. A keyword is dynamic also where a positional argument has its name, and then takes that
argument's place. -/

namespace Zowex.parser

open lexer plugin

variable {p : Program} {frame : Frame} {arg : ArgumentDef}

theorem combined_value_for {args : List ArgumentDef} {value : Argument}
    (h : frame.values[arg.name]? = some value) :
    (args.foldl (fun frame arg => (frame.see arg.name).set arg.name (.bool true))
      frame).values[arg.name]? =
        some (if arg.name ∈ args.map ArgumentDef.name then .bool true else value) := by
  induction args generalizing frame value with
  | nil => simpa using h
  | cons next args ih =>
    have hset : ((frame.see next.name).set next.name (.bool true)).values[arg.name]? =
        some (if next.name = arg.name then .bool true else value) := by
      rw [Frame.set, Frame.see, insert_value, h]
      split_ifs <;> rfl
    rw [List.foldl_cons, ih hset]
    by_cases hname : next.name = arg.name
    · simp [hname]
    · simp [hname, Ne.symm hname]

/-- An item changes the value of an argument as it says. -/
theorem Item.apply_value {value : Argument} (item : Item)
    (h : frame.values[arg.name]? = some value) :
    (item.apply p frame).values[arg.name]? = some (item.value_for p arg value) := by
  cases item with
  | passthrough words => exact h
  | combined letters args => exact combined_value_for h
  | json token matched =>
    rw [Item.apply, Frame.set, Frame.see, insert_value, h, Item.value_for]
    split_ifs <;> rfl
  | flag token matched given =>
    rw [Item.apply, Frame.set, Frame.see, insert_value, h, Item.value_for]
    split_ifs <;> rfl
  | option token matched values =>
    rw [Item.apply, Frame.set, insert_value, Item.value_for]
    split_ifs with hname
    · rw [hname, stored_strings, h, Option.bind_some]
    · exact h
  | dynamic name type values => exact h
  | positional matched values =>
    rw [Item.apply, Frame.set, Item.value_for]
    dsimp only
    rw [insert_value, h]
    split_ifs <;> rfl

theorem declared_value_append (items : List Item) (item : Item) :
    declared_value p (items ++ [item]) arg = item.value_for p arg (declared_value p items arg) := by
  rw [declared_value, List.foldl_append]
  rfl

/-- After its command has been reached, an argument has the value that was parsed or defaulted. -/
theorem Reads.declared (hargs : ∀ command, WellNamed p.rt (p.command command).args) {root : Ref}
    {path : Bytes} {json_inherited : Bool} {tokens rest : List Token} {last : Frame}
    {items : List Item}
    (hreads : Reads p (start_frame p root path json_inherited) tokens rest last items)
    (hmem : arg ∈ (last.cmd p).args) (hhelp : arg.is_help_flag = false)
    (hjson : arg.is_json_flag = false) :
    last.values[arg.name]? = some (declared_value p items arg) := by
  induction hreads with
  | start => exact defaults_stored (hargs root).nodup hmem hhelp hjson ∅
  | item item _ _ _ _ ih =>
    rw [Item.apply_cmd] at hmem
    rw [declared_value_append]
    exact item.apply_value (ih hmem)
  | subcommand word sub _ _ ih => exact defaults_stored (hargs sub).nodup hmem hhelp hjson ∅

/-! The defaults of the positional arguments that are missing. -/

theorem pos_args_nodup {cmd : Command} (h : WellNamed p.rt cmd.args) :
    ((pos_args cmd).map ArgumentDef.name).Nodup :=
  (List.filter_sublist.map ArgumentDef.name).nodup h.nodup

theorem exists_of_mem_right {α β : Type} {r : α → β → Prop} {as : List α} {bs : List β}
    (h : List.Forall₂ r as bs) {b : β} (hb : b ∈ bs) : ∃ a, r a b := by
  induction h with
  | nil => cases hb
  | cons hab _ ih =>
    rcases List.mem_cons.mp hb with rfl | hb
    · exact ⟨_, hab⟩
    · exact ih hb

/-- An item gives no positional argument behind the one it is for. -/
theorem Item.value_for_later {item : Item} (hnamed : WellNamed p.rt (frame.cmd p).args)
    (hfits : item.fits p (frame.cmd p) frame.positional_index)
    (hlater : arg ∈ (pos_args (frame.cmd p)).drop (item.apply p frame).positional_index)
    (value : Argument) : item.value_for p arg value = value := by
  have harg := List.mem_filter.mp (List.mem_of_mem_drop hlater)
  simp only [Bool.and_eq_true] at harg
  have hkeyword {other : ArgumentDef}
      (hother : other ∈ (frame.cmd p).args ∧ other.positional = false) :
      other.name ≠ arg.name := by
    intro hname
    obtain rfl := hnamed.eq_of_name hother.1 harg.1 hname
    rw [hother.2] at harg
    cases harg.2.1.1
  cases item with
  | passthrough words => rfl
  | combined letters args =>
    rw [Item.value_for, if_neg]
    intro hmem
    obtain ⟨other, hother, hname⟩ := List.mem_map.mp hmem
    obtain ⟨c, hfind⟩ := exists_of_mem_right hfits.2 hother
    exact hkeyword (@mem_of_names _ _ (.TokFlagShort [c]) _ ⟨le_rfl, hfind.1⟩) hname
  | json token matched => exact if_neg (hkeyword (mem_of_names hfits.1))
  | flag token matched given => exact if_neg (hkeyword (mem_of_names hfits.1))
  | option token matched values => exact if_neg (hkeyword (mem_of_names hfits.1))
  | dynamic name type values => rfl
  | positional matched values =>
    refine if_neg fun hname => ?_
    obtain ⟨i, hi⟩ := List.mem_iff_getElem?.mp hlater
    rw [List.getElem?_drop] at hi
    have hsame : ((pos_args (frame.cmd p)).map ArgumentDef.name)[frame.positional_index]? =
        ((pos_args (frame.cmd p)).map ArgumentDef.name)[frame.positional_index + 1 + i]? := by
      have hnext : (pos_args (frame.cmd p))[frame.positional_index + 1 + i]? = some arg := hi
      rw [List.getElem?_map, List.getElem?_map, hfits.1, hnext]
      exact congrArg some hname
    have hlt : frame.positional_index < ((pos_args (frame.cmd p)).map ArgumentDef.name).length := by
      rw [List.length_map]
      exact (List.getElem?_eq_some_iff.mp hfits.1).1
    have hindex := (List.getElem?_inj hlt (pos_args_nodup hnamed)).mp hsame
    omega

theorem Item.apply_index (item : Item) :
    frame.positional_index ≤ (item.apply p frame).positional_index := by
  cases item with
  | combined letters args => exact (combined_frame args frame).2.1.ge
  | positional matched values => exact Nat.le_succ _
  | _ => exact le_rfl

/-- The positional arguments that are missing have their defaults. -/
theorem Reads.missing (hargs : ∀ command, WellNamed p.rt (p.command command).args) {root : Ref}
    {path : Bytes} {json_inherited : Bool} {tokens rest : List Token} {last : Frame}
    {items : List Item}
    (hreads : Reads p (start_frame p root path json_inherited) tokens rest last items)
    (hmem : arg ∈ (pos_args (last.cmd p)).drop last.positional_index) :
    declared_value p items arg = arg.default_value := by
  induction hreads with
  | start => rfl
  | @item token following rest frame items item _ _ _ hfits ih =>
    rw [Item.apply_cmd] at hmem
    rw [declared_value_append, Item.value_for_later (hargs _) hfits hmem]
    exact ih ((List.drop_sublist_drop_left _ item.apply_index).subset hmem)
  | subcommand word sub _ _ ih => rfl

theorem default_positionals_same {args : List ArgumentDef} {values : ArgumentMap}
    (h : ∀ arg ∈ args, values[arg.name]? = some arg.default_value) (name : Bytes) :
    (default_positionals args values).1[name]? = values[name]? := by
  induction args generalizing values with
  | nil => rfl
  | cons arg args ih =>
    rw [List.forall_mem_cons] at h
    have hinsert (key : Bytes) :
        (values.insert arg.name arg.default_value)[key]? = values[key]? := by
      rw [insert_value]
      split_ifs with hkey
      · rw [← hkey, h.1]
      · rfl
    rw [default_positionals]
    split_ifs
    · rfl
    · rw [ih, hinsert]
      intro other hother
      rw [hinsert]
      exact h.2 other hother

/-! Dynamic keywords. -/

theorem Reads.dynamic {root : Ref} {path : Bytes} {json_inherited : Bool}
    {tokens rest : List Token} {last : Frame} {items : List Item}
    (hreads : Reads p (start_frame p root path json_inherited) tokens rest last items)
    (name : Bytes) : last.dynamic_values[name]? = last_dynamic p items name := by
  induction hreads with
  | start => simp [start_frame, last_dynamic]
  | @item token following rest frame items item _ _ _ _ ih =>
    have happend : last_dynamic p (items ++ [item]) name =
        (item.dynamic_value p name).or (last_dynamic p items name) := by
      rw [last_dynamic, List.filterMap_append, List.getLast?_append, last_dynamic]
      rcases h : item.dynamic_value p name with _ | value <;> simp [h]
    rw [happend, ← ih]
    cases item with
    | combined letters args =>
      exact congrArg (·[name]?) (combined_frame args frame).2.2.2.1
    | dynamic keyword type values =>
      rw [Item.apply, insert_value, Item.dynamic_value]
      split_ifs <;> rfl
    | _ => rfl
  | subcommand word sub _ _ ih => simp [start_frame, last_dynamic]

theorem last_dynamic_eq_none {items : List Item} {name : Bytes} :
    last_dynamic p items name = none ↔
      ∀ type values, .dynamic name type values ∉ items := by
  rw [last_dynamic, List.getLast?_eq_none_iff, List.filterMap_eq_nil_iff]
  constructor
  · intro h type values hmem
    have hnone := h _ hmem
    rw [Item.dynamic_value, if_pos rfl] at hnone
    cases hnone
  · intro h item hmem
    cases item with
    | dynamic keyword type values =>
      rw [Item.dynamic_value, if_neg]
      rintro rfl
      exact h type values hmem
    | _ => rfl

/-- A dynamic keyword may have the name of a positional argument, but of no other. -/
theorem Reads.dynamic_positional {root : Frame} {tokens rest : List Token} {last : Frame}
    {items : List Item} (hreads : Reads p root tokens rest last items) {name : Bytes}
    {type : ArgType} {values : List Token} (hmem : .dynamic name type values ∈ items)
    (harg : arg ∈ (last.cmd p).args) (hname : arg.name = name) : arg.positional = true := by
  induction hreads with
  | start => cases hmem
  | @item token following rest frame items item _ _ _ hfits ih =>
    rw [Item.apply_cmd] at harg
    rcases List.mem_append.mp hmem with hmem | hmem
    · exact ih hmem harg
    · obtain rfl := List.mem_singleton.mp hmem
      have hnone := List.find?_eq_none.mp hfits.1 arg harg
      simpa [hname] using hnone
  | subcommand word sub _ _ ih => cases hmem

/-! The handler. -/

theorem dynamic_arguments_get (result : ParseResult) (name : Bytes) :
    (dynamic_arguments (invocation_args result))[name]? = result.dynamic_values[name]? := by
  rw [dynamic_arguments, Std.ExtTreeMap.getElem?_filterMap', invocation_args,
    Std.ExtTreeMap.getElem?_union, Std.ExtTreeMap.getElem?_map, Std.ExtTreeMap.getElem?_map]
  rcases result.dynamic_values[name]? with _ | value
  · rcases result.values[name]? with _ | value <;> rfl
  · rfl

/-- What a handler gets is what is marked and what is not. -/
theorem Handled.unmarked {hooks : List Call} {args : ContextArgs} {outcome : Outcome}
    (h : Handled p frame hooks args outcome) (name : Bytes) :
    args.args[name]? = (invocation_args outcome.result)[name]?.map Prod.fst := by
  rw [h.values, ← h.result.1, ← h.dynamic, invocation_args, Std.ExtTreeMap.getElem?_union,
    Std.ExtTreeMap.getElem?_union, Std.ExtTreeMap.getElem?_map, Std.ExtTreeMap.getElem?_map]
  rcases outcome.result.dynamic_values[name]? with _ | value
  · rcases outcome.result.values[name]? with _ | value <;> rfl
  · rfl

/-- What the handler gets for a declared argument. -/
theorem Handled.declared (hargs : ∀ command, WellNamed p.rt (p.command command).args)
    {root : Ref} {tokens : List Token} {last : Frame} {items : List Item} {hooks : List Call}
    {args : ContextArgs} {outcome : Outcome}
    (hreads : Reads p (start_frame p root [] false) tokens [] last items)
    (hhandled : Handled p last hooks args outcome) (hmem : arg ∈ (last.cmd p).args)
    (hhelp : arg.is_help_flag = false) (hjson : arg.is_json_flag = false) :
    args.args[arg.name]? =
      (last_dynamic p items arg.name).or (some (declared_value p items arg)) := by
  have hmissing : ∀ other ∈ (pos_args (last.cmd p)).drop last.positional_index,
      last.values[other.name]? = some other.default_value := by
    intro other hother
    have hpos := List.mem_filter.mp (List.mem_of_mem_drop hother)
    simp only [Bool.and_eq_true, Bool.not_eq_true'] at hpos
    rw [hreads.declared hargs hpos.1 hpos.2.1.2 hpos.2.2, hreads.missing hargs hother]
  rw [hhandled.values, Std.ExtTreeMap.getElem?_union, hreads.dynamic,
    default_positionals_same hmissing, hreads.declared hargs hmem hhelp hjson]

/-- Declared arguments are left alone exactly if no option has the name of a positional argument. -/
theorem declared_untouched_iff (hargs : ∀ command, Registered p.rt (p.command command).args)
    {root : Ref} {tokens : List Token} {outcome : Outcome}
    (h : parse_tokens p root tokens = some outcome) {command : Ref} {args : ContextArgs}
    (hcall : .handler command args ∈ outcome.calls) :
    ∃ last items, Reads p (start_frame p root [] false) tokens [] last items ∧
      last.command = command ∧
      (Untouched p (p.command command) items args
          (dynamic_arguments (invocation_args outcome.result)) ↔
        ∀ name type values, .dynamic name type values ∈ items →
          ∀ arg ∈ (p.command command).args, arg.positional = true → arg.name ≠ name) := by
  obtain ⟨last, items, hooks, hreads, hhandled, rfl⟩ := handler_of_call h hcall
  refine ⟨last, items, hreads, rfl, ?_⟩
  have hnamed (command : Ref) := (hargs command).well_named
  have hget (name : Bytes) : (dynamic_arguments (invocation_args outcome.result))[name]? =
      last_dynamic p items name := by
    rw [dynamic_arguments_get, hhandled.dynamic, hreads.dynamic]
  constructor
  · intro huntouched name type values hmem arg harg _ hname
    have hdynamic := huntouched.dynamic name
    rw [hget, if_pos ⟨arg, harg, hname⟩] at hdynamic
    exact last_dynamic_eq_none.mp hdynamic type values hmem
  · intro hnone
    have hno {arg : ArgumentDef} (harg : arg ∈ (last.cmd p).args) :
        last_dynamic p items arg.name = none := by
      rw [last_dynamic_eq_none]
      intro type values hmem
      have hpositional := hreads.dynamic_positional hmem harg rfl
      exact hnone arg.name type values hmem arg harg hpositional rfl
    constructor
    · intro arg harg hhelp hjson
      rw [hhandled.declared hnamed hreads harg hhelp hjson, hno harg, Option.none_or]
    · intro name
      rw [hget]
      split_ifs with hdeclared
      · obtain ⟨arg, harg, rfl⟩ := hdeclared
        exact hno harg
      · rfl

/-- A file, and any other option. -/
def open_program : Program :=
  { example_program [file_argument .Single] (some 0) with
    command := fun _ =>
      { example_command [file_argument .Single] (some 0) with dynamic := some .Single } }

theorem open_registered (command : Ref) :
    Registered ascii_runtime (open_program.command command).args := by
  have hregister : register_argument ascii_runtime (new_arguments ascii_runtime)
      (file_argument .Single) = .ok (open_program.command 0).args := by decide +kernel
  exact .register (file_argument .Single) .new rfl rfl hregister

/-- `zowex f --colour red` -/
def colour_tokens : List Token :=
  argv_tokens ascii_runtime (["f", "--colour", "red"].map ascii.str)

theorem declared_untouched_iff_colour :
    ∃ outcome args, parse_tokens open_program 0 colour_tokens = some outcome ∧
      .handler 0 args ∈ outcome.calls ∧
      ∃ last items, Reads open_program (start_frame open_program 0 [] false) colour_tokens []
          last items ∧ last.command = 0 ∧
        (Untouched open_program (open_program.command 0) items args
            (dynamic_arguments (invocation_args outcome.result)) ↔
          ∀ name type values, .dynamic name type values ∈ items →
            ∀ arg ∈ (open_program.command 0).args, arg.positional = true → arg.name ≠ name) := by
  have hparse : ((parse_tokens open_program 0 colour_tokens).any
      fun outcome => outcome.calls.any (is_handler_call 0)) = true := by decide +kernel
  obtain ⟨outcome, houtcome, hcalls⟩ := (Option.any_eq_true _ _).mp hparse
  obtain ⟨args, hargs⟩ := handler_of_is_handler_call hcalls
  exact ⟨outcome, args, houtcome, hargs, declared_untouched_iff open_registered houtcome hargs⟩

/-- `zowex f --file g` -/
theorem positional_overridden :
    ∃ outcome args, parse_argv open_program 0 (["zowex", "f", "--file", "g"].map ascii.str) =
        some outcome ∧ .handler 0 args ∈ outcome.calls ∧
      ∀ items, ¬ Untouched open_program (open_program.command 0) items args
        (dynamic_arguments (invocation_args outcome.result)) := by
  have hparse : ((parse_argv open_program 0 (["zowex", "f", "--file", "g"].map ascii.str)).any
      fun outcome => outcome.calls.any (is_handler_call 0) &&
        (dynamic_arguments (invocation_args outcome.result))[ascii.str "file"]? =
          some (.string (ascii.str "g"))) = true := by decide +kernel
  obtain ⟨outcome, houtcome, hcalls⟩ := (Option.any_eq_true _ _).mp hparse
  rw [Bool.and_eq_true, decide_eq_true_eq] at hcalls
  obtain ⟨args, hargs⟩ := handler_of_is_handler_call hcalls.1
  refine ⟨outcome, args, houtcome, hargs, fun items huntouched => ?_⟩
  have hdynamic := huntouched.dynamic (ascii.str "file")
  rw [hcalls.2, if_pos ⟨file_argument .Single, by decide +kernel, rfl⟩] at hdynamic
  cases hdynamic

end Zowex.parser

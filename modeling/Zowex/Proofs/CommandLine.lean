import Zowex.Spec.CommandLine

/-! The loop of the parser reads a command line item by item, and calls a handler at its end
only. -/

namespace Zowex.parser

open lexer plugin

variable {p : Program} {frame frame' : Frame} {token : Token} {rest rest' tokens : List Token}

/-! Progress of each part of the loop. -/

theorem parse_token_value_eq_none_of_flag {type : ArgType} {coerce_as_string : Bool}
    (h : token = .TokDoubleMinus ∨ is_flag_token token = true) :
    (parse_token_value p.rt token type coerce_as_string).is_none = true := by
  rcases h with rfl | h
  · rfl
  · cases token <;> first | rfl | cases h

theorem is_value_of_not_none {type : ArgType} {coerce_as_string : Bool}
    (h : (parse_token_value p.rt token type coerce_as_string).is_none = false) :
    is_value p type coerce_as_string token := by
  refine ⟨?_, ?_, h⟩
  · by_contra hflag
    rw [Bool.not_eq_false] at hflag
    rw [parse_token_value_eq_none_of_flag (.inr hflag)] at h
    cases h
  · rintro rfl
    cases h

theorem is_none_of_get_string {a : Argument} {text : Bytes} (h : a.get_string = some text) :
    a.is_none = false := by
  cases a <;> first | rfl | cases h

/-- A value that several values are read for is a string. -/
theorem get_string_of_multiple {coerce_as_string : Bool}
    (h : (parse_token_value p.rt token .Multiple coerce_as_string).is_none = false) :
    (parse_token_value p.rt token .Multiple coerce_as_string).get_string =
      some (string_value p coerce_as_string token) := by
  cases token <;> first | rfl | cases h

theorem collect_values_spec (coerce_as_string : Bool) (tokens : List Token) :
    ∃ values, tokens = values ++ (collect_values p.rt coerce_as_string tokens).2 ∧
      (collect_values p.rt coerce_as_string tokens).1 =
        values.map (string_value p coerce_as_string) ∧
      ∀ t ∈ values, is_value p .Multiple coerce_as_string t := by
  induction tokens with
  | nil => exact ⟨[], rfl, rfl, by simp⟩
  | cons token tokens ih =>
    rw [collect_values]
    split_ifs with hflag
    · exact ⟨[], rfl, rfl, by simp⟩
    · rcases hstring :
        (parse_token_value p.rt token .Multiple coerce_as_string).get_string with _ | text
      · exact ⟨[], rfl, rfl, by simp⟩
      · obtain ⟨values, htokens, hvalues, hall⟩ := ih
        have hvalue := is_value_of_not_none (is_none_of_get_string hstring)
        have htext := (get_string_of_multiple hvalue.2.2).symm.trans hstring
        refine ⟨token :: values, ?_, ?_, ?_⟩
        · exact congrArg (token :: ·) htokens
        · rw [List.map_cons, ← hvalues, Option.some.inj htext]
        · exact List.forall_mem_cons.mpr ⟨hvalue, hall⟩

theorem parse_passthrough_more (h : parse_passthrough p frame token rest = .more frame' rest') :
    (Item.passthrough rest).fits p (frame.cmd p) frame.positional_index ∧ rest' = [] ∧
      frame' = (Item.passthrough rest).apply p frame := by
  unfold parse_passthrough at h
  split_ifs at h with hallow
  · cases h
    exact ⟨hallow, rfl, rfl⟩
  · cases h

theorem parse_combined_more {letters : Bytes}
    (h : parse_combined p frame rest letters = .more frame' rest') :
    ∃ args, List.Forall₂ (fun c arg =>
        find_keyword_arg p.rt (frame.cmd p).args [c] true = some arg ∧
          arg.is_help_flag = false ∧ arg.type = .Flag) letters args ∧ rest' = rest ∧
      frame' = (Item.combined letters args).apply p frame := by
  induction letters generalizing frame with
  | nil =>
    cases h
    exact ⟨[], .nil, rfl, rfl⟩
  | cons c letters ih =>
    rw [parse_combined] at h
    rcases hfind : find_keyword_arg p.rt (frame.cmd p).args [c] true with _ | arg
    · rw [hfind] at h
      cases h
    · rw [hfind] at h
      dsimp only at h
      split_ifs at h with hhelp htype
      · cases h
      · obtain ⟨args, hargs, hrest, hframe⟩ := ih h
        refine ⟨arg :: args, .cons ⟨hfind, by simpa using hhelp, by simpa using htype⟩ hargs,
          hrest, hframe⟩

theorem parse_flag_value_more {arg : ArgumentDef}
    (h : parse_flag_value p (frame.see arg.name) arg tokens = .more frame' rest')
    (token : Token) :
    ∃ value : Option Token, (∀ t ∈ value, is_value p .Flag false t) ∧
      tokens = value.toList ++ rest' ∧ frame' = (Item.flag token arg value).apply p frame := by
  rcases tokens with _ | ⟨t, tokens⟩
  · cases h
    exact ⟨none, by simp, rfl, rfl⟩
  · simp only [parse_flag_value] at h
    split_ifs at h with hnone
    · cases h
      exact ⟨none, by simp, rfl, rfl⟩
    · cases h
      rw [Bool.or_eq_true, not_or, Bool.not_eq_true, Bool.not_eq_true] at hnone
      refine ⟨some t, ?_, rfl, rfl⟩
      rintro t' ⟨⟩
      exact is_value_of_not_none hnone.2

theorem parse_option_value_more {arg : ArgumentDef}
    (h : parse_option_value p (frame.see arg.name) arg tokens = .more frame' rest')
    (htype : arg.type ≠ .Flag) (token : Token) :
    ∃ values, values ≠ [] ∧ (arg.type = .Single → values.length = 1) ∧
      (∀ t ∈ values, is_value p arg.type arg.coerce_as_string t) ∧
      tokens = values ++ rest' ∧ frame' = (Item.option token arg values).apply p frame := by
  rcases tokens with _ | ⟨t, tokens⟩
  · cases h
  · simp only [parse_option_value] at h
    split_ifs at h with hflag hnone hsingle
    · cases h
    · cases h
    · cases h
      rw [Bool.not_eq_true] at hnone
      refine ⟨[t], by simp, fun _ => rfl, ?_, rfl, ?_⟩
      · exact List.forall_mem_singleton.mpr (is_value_of_not_none hnone)
      · simp only [Item.apply, item_value, hsingle]
    · have hmultiple : arg.type = .Multiple := by
        rcases hcases : arg.type with _ | _ | _
        · exact absurd hcases htype
        · exact absurd hcases hsingle
        · rfl
      rw [Bool.not_eq_true] at hnone
      rw [hmultiple] at hnone h
      rw [get_string_of_multiple hnone] at h
      obtain ⟨values, htokens, hvalues, hall⟩ :=
        collect_values_spec (p := p) arg.coerce_as_string tokens
      cases h
      refine ⟨t :: values, by simp, by simp [hmultiple], ?_, ?_, ?_⟩
      · rw [hmultiple]
        exact List.forall_mem_cons.mpr ⟨is_value_of_not_none hnone, hall⟩
      · exact congrArg (t :: ·) htokens
      · simp only [Item.apply, item_value, hmultiple, hvalues, List.map_cons]
        rfl

theorem parse_dynamic_more {type : ArgType} {name : Bytes}
    (h : parse_dynamic p frame type name tokens = .more frame' rest') :
    type ≠ .Flag ∧ ∃ values, values ≠ [] ∧ (type = .Single → values.length = 1) ∧
      (∀ t ∈ values, is_value p type false t) ∧ tokens = values ++ rest' ∧
      frame' = (Item.dynamic name type values).apply p frame := by
  unfold parse_dynamic at h
  rcases type with _ | _ | _
  · cases h
  · dsimp only at h
    rcases tokens with _ | ⟨t, tokens⟩
    · cases h
    · dsimp only at h
      split_ifs at h with hflag hnone
      · cases h
      · cases h
      · cases h
        rw [Bool.not_eq_true] at hnone
        refine ⟨by simp, [t], by simp, fun _ => rfl, ?_, rfl, rfl⟩
        exact List.forall_mem_singleton.mpr (is_value_of_not_none hnone)
  · dsimp only at h
    split_ifs at h with hflag hnil
    · cases h
    · cases h
    · cases h
      obtain ⟨values, htokens, hvalues, hall⟩ := collect_values_spec (p := p) false tokens
      refine ⟨by simp, values, ?_, by simp, hall, htokens, ?_⟩
      · rintro rfl
        exact hnil hvalues
      · simp only [Item.apply, item_value, hvalues, List.nil_append]

/-- What a round that goes on has read: an item, or the name of a subcommand, or nothing where a
positional argument is a flag. -/
inductive Round (p : Program) (frame : Frame) (tokens : List Token) (frame' : Frame)
    (rest' : List Token) : Prop
  | item (item : Item) : item.fits p (frame.cmd p) frame.positional_index →
      tokens = item.tokens ++ rest' → frame' = item.apply p frame → Round p frame tokens frame' rest'
  | subcommand (word : Bytes) (sub : Ref) : find_subcommand p (frame.cmd p) word = .command sub →
      tokens = .TokId word :: rest' →
      frame' = start_frame p sub (frame.command_path p ++ p.rt.str " ") (frame.json_inherited ||
        get_value_bool p.rt frame.values (frame.cmd p).args (p.rt.str "json") false) →
      Round p frame tokens frame' rest'
  | stuck (arg : ArgumentDef) : (pos_args (frame.cmd p))[frame.positional_index]? = some arg →
      arg.type = .Flag → rest' = tokens → frame' = frame → Round p frame tokens frame' rest'

theorem parse_keyword_more {name : Bytes} (is_short : Bool)
    (htoken : token = if is_short then .TokFlagShort name else .TokFlagLong name)
    (h : parse_keyword p frame token name is_short rest = .more frame' rest') :
    Round p frame (token :: rest) frame' rest' := by
  unfold parse_keyword at h
  dsimp only at h
  by_cases hcombined : (is_short && decide (name.length > 1)) = true
  · rw [if_pos hcombined] at h
    rw [Bool.and_eq_true, decide_eq_true_eq] at hcombined
    obtain ⟨args, hargs, hrest, hframe⟩ := parse_combined_more h
    refine .item (.combined name args) ⟨hcombined.2, hargs⟩ ?_ hframe
    rw [htoken, if_pos hcombined.1, hrest]
    rfl
  · rw [if_neg hcombined] at h
    have hnames (arg : ArgumentDef)
        (hfind : find_keyword_arg p.rt (frame.cmd p).args name is_short = some arg) :
        names p (frame.cmd p) token arg := by
      rcases is_short with _ | _
      · rw [htoken]
        exact hfind
      · rw [htoken]
        refine ⟨?_, hfind⟩
        simpa using hcombined
    rcases hfind : find_keyword_arg p.rt (frame.cmd p).args name is_short with _ | arg
    · rw [hfind] at h
      rcases is_short with _ | _
      · rcases hdynamic : (frame.cmd p).dynamic with _ | type
        · rw [hdynamic] at h
          cases h
        · rw [hdynamic] at h
          obtain ⟨htype, values, hne, hlength, hall, htokens, hframe⟩ := parse_dynamic_more h
          refine .item (.dynamic name type values)
            ⟨hfind, hdynamic, htype, hne, hlength, hall⟩ ?_ hframe
          rw [htoken, htokens]
          rfl
      · cases h
    · rw [hfind] at h
      dsimp only at h
      split_ifs at h with hhelp hjson hflag
      · rw [Bool.not_eq_true] at hhelp
        cases h
        exact .item (.json token arg) ⟨hnames arg hfind, hhelp, hjson⟩ rfl rfl
      · rw [Bool.not_eq_true] at hhelp hjson
        obtain ⟨value, hvalue, htokens, hframe⟩ := parse_flag_value_more h token
        refine .item (.flag token arg value)
          ⟨hnames arg hfind, hhelp, hjson, hflag, hvalue⟩ ?_ hframe
        rw [htokens]
        rfl
      · rw [Bool.not_eq_true] at hhelp hjson
        obtain ⟨values, hne, hlength, hall, htokens, hframe⟩ :=
          parse_option_value_more h hflag token
        refine .item (.option token arg values)
          ⟨hnames arg hfind, hhelp, hjson, hflag, hne, hlength, hall⟩ ?_ hframe
        rw [htokens]
        rfl

theorem parse_positional_more (h : parse_positional p frame token rest = .more frame' rest') :
    Round p frame (token :: rest) frame' rest' := by
  unfold parse_positional at h
  rcases harg : (pos_args (frame.cmd p))[frame.positional_index]? with _ | arg
  · rw [harg] at h
    cases h
  rw [harg] at h
  dsimp only at h
  split_ifs at h with hnone
  · cases h
  rw [Bool.not_eq_true] at hnone
  have hvalue := is_value_of_not_none hnone
  rcases htype : arg.type with _ | _ | _
  · rw [htype] at h
    cases h
    exact .stuck arg harg htype rfl rfl
  · rw [htype] at h
    cases h
    refine .item (.positional arg [token]) ⟨harg, by simp [htype], by simp, fun _ => rfl,
      List.forall_mem_singleton.mpr hvalue⟩ rfl ?_
    simp only [Item.apply, item_value, htype]
    rfl
  · rw [htype] at h hnone hvalue
    dsimp only at h
    rw [get_string_of_multiple hnone] at h
    obtain ⟨values, htokens, hvalues, hall⟩ :=
      collect_values_spec (p := p) arg.coerce_as_string rest
    cases h
    refine .item (.positional arg (token :: values)) ⟨harg, by simp [htype], by simp,
      by simp [htype], ?_⟩ ?_ ?_
    · rw [htype]
      exact List.forall_mem_cons.mpr ⟨hvalue, hall⟩
    · exact congrArg (token :: ·) htokens
    · simp only [Item.apply, item_value, htype, hvalues, List.map_cons, List.nil_append]
      rfl

theorem parse_word_more {word : Bytes} (htoken : token = .TokId word)
    (h : parse_word p frame token word rest = .more frame' rest') :
    Round p frame (token :: rest) frame' rest' := by
  unfold parse_word at h
  dsimp only at h
  split at h
  next sub hsub =>
    cases h
    exact .subcommand word sub hsub (htoken ▸ rfl) rfl
  next => cases h
  next =>
    split_ifs at h
    · cases h
    · exact parse_positional_more h

/-- Every round that goes on reads one of the three. -/
theorem parse_token_more (h : parse_token p frame token rest = .more frame' rest') :
    Round p frame (token :: rest) frame' rest' := by
  unfold parse_token at h
  split at h
  next =>
    obtain ⟨hfits, rfl, hframe⟩ := parse_passthrough_more h
    exact .item (.passthrough rest) hfits (List.append_nil _).symm hframe
  next name => exact parse_keyword_more true rfl h
  next name => exact parse_keyword_more false rfl h
  next word => exact parse_word_more rfl h
  next => exact parse_positional_more h

/-! The calls of a parse. -/

/-- Hooks from some index on, behind the calls of those before them. -/
theorem run_hooks_spec (command : Ref) (is_help_request : Bool) (hooks : List PreCommandHook)
    (i : ℕ) :
    let outcome := run_hooks command is_help_request hooks i (hook_calls command is_help_request i)
    (outcome.1 = true → outcome.2 = hook_calls command is_help_request (i + hooks.length) ∧
      ∀ (j : ℕ) (hook : PreCommandHook), hooks[j]? = some hook →
        hook (hook_calls command is_help_request (i + j)) command is_help_request = true) ∧
    (outcome.1 = false → ∃ (j : ℕ) (hook : PreCommandHook), hooks[j]? = some hook ∧
      outcome.2 = hook_calls command is_help_request (i + j + 1) ∧
      hook (hook_calls command is_help_request (i + j)) command is_help_request = false) := by
  induction hooks generalizing i with
  | nil => simp [run_hooks]
  | cons hook hooks ih =>
    have hcalls : hook_calls command is_help_request i ++ [.hook i command is_help_request] =
        hook_calls command is_help_request (i + 1) := by
      rw [hook_calls, hook_calls, List.range_succ, List.map_append]
      rfl
    intro outcome
    by_cases haccept : hook (hook_calls command is_help_request i) command is_help_request = true
    · have houtcome : outcome = run_hooks command is_help_request hooks (i + 1)
          (hook_calls command is_help_request (i + 1)) := by
        simp only [outcome, run_hooks, haccept, if_true, hcalls]
      rw [houtcome]
      obtain ⟨haccepted, hrefused⟩ := ih (i + 1)
      refine ⟨fun h => ?_, fun h => ?_⟩
      · obtain ⟨hcalls, hall⟩ := haccepted h
        refine ⟨by rw [hcalls, List.length_cons, Nat.add_right_comm, Nat.add_assoc], ?_⟩
        intro j hook' hj
        rcases j with _ | j
        · obtain rfl : hook = hook' := by simpa using hj
          exact haccept
        · have hlater := hall j hook' (by simpa using hj)
          rwa [Nat.add_right_comm, Nat.add_assoc] at hlater
      · obtain ⟨j, hook', hj, hcalls, hno⟩ := hrefused h
        rw [Nat.add_right_comm i 1 j] at hcalls hno
        exact ⟨j + 1, hook', by simpa using hj, hcalls, hno⟩
    · have houtcome : outcome = (false, hook_calls command is_help_request (i + 1)) := by
        simp only [outcome, run_hooks, haccept, hcalls]
        rfl
      rw [houtcome]
      refine ⟨by simp, fun _ => ⟨0, hook, rfl, rfl, ?_⟩⟩
      rwa [Bool.not_eq_true] at haccept

/-- A command without hooks calls none. -/
theorem execute_pre_hooks_spec (command : Ref) (is_help_request : Bool) :
    let outcome := execute_pre_hooks p command is_help_request
    (outcome.1 = true → if (p.command command).pre_hooks
      then accepted p command is_help_request outcome.2 else outcome.2 = []) ∧
    (outcome.1 = false → refused p command is_help_request outcome.2) := by
  intro outcome
  by_cases hhooks : (p.command command).pre_hooks = true
  · have houtcome : outcome = run_hooks command is_help_request p.hooks 0 [] := by
      simp only [outcome, execute_pre_hooks, hhooks, if_true]
    obtain ⟨haccepted, hrefused⟩ := run_hooks_spec command is_help_request p.hooks 0
    rw [if_pos hhooks, houtcome]
    simp only [Nat.zero_add] at haccepted hrefused
    exact ⟨haccepted, hrefused⟩
  · have houtcome : outcome = (true, []) := by
      simp only [outcome, execute_pre_hooks, hhooks]
      rfl
    rw [if_neg hhooks, houtcome]
    exact ⟨fun _ => rfl, by simp⟩

theorem hook_calls_is_hook {command : Ref} {is_help_request : Bool} {n : ℕ} :
    ∀ call ∈ hook_calls command is_help_request n, is_hook call := by
  intro call hcall
  obtain ⟨i, -, rfl⟩ := List.mem_map.mp hcall
  trivial

theorem execute_pre_hooks_is_hook (command : Ref) (is_help_request : Bool) :
    ∀ call ∈ (execute_pre_hooks p command is_help_request).2, is_hook call := by
  obtain ⟨haccepted, hrefused⟩ := execute_pre_hooks_spec (p := p) command is_help_request
  rcases hresult : (execute_pre_hooks p command is_help_request).1 with _ | _
  · obtain ⟨i, hook, -, hcalls, -⟩ := hrefused hresult
    rw [hcalls]
    exact hook_calls_is_hook
  · have hcalls := haccepted hresult
    split_ifs at hcalls
    · rw [hcalls.1]
      exact hook_calls_is_hook
    · rw [hcalls]
      simp

/-- An outcome without a handler: an error, the help, or what is left where a hook refuses. -/
structure Unhandled (p : Program) (outcome : Outcome) : Prop where
  calls : ∀ call ∈ outcome.calls, is_hook call
  result : (outcome.result.status = .ParseError ∧ outcome.result.exit_code = 1) ∨
    outcome.result.status = .HelpRequested ∨
      (outcome.result.status = .Success ∧ outcome.result.exit_code = 1 ∧
        ∃ command is_help_request, refused p command is_help_request outcome.calls)

theorem request_help_unhandled (frame : Frame) (rest : List Token) :
    Unhandled p (request_help p frame rest) := by
  have hcalls := execute_pre_hooks_is_hook (p := p) frame.command true
  have hrefused := (execute_pre_hooks_spec (p := p) frame.command true).2
  unfold request_help
  rcases hhooks : execute_pre_hooks p frame.command true with ⟨_ | _, calls⟩
  · rw [hhooks] at hcalls hrefused
    exact ⟨hcalls, .inr (.inr ⟨rfl, rfl, frame.command, true, hrefused rfl⟩)⟩
  · rw [hhooks] at hcalls
    exact ⟨hcalls, .inr (.inl rfl)⟩

theorem error_unhandled {message : Bytes} {outcome : Outcome}
    (h : parse_error p frame message rest = .stop outcome) : Unhandled p outcome := by
  cases h
  exact ⟨by simp, .inl ⟨rfl, rfl⟩⟩

theorem parse_combined_stop {letters : Bytes} {outcome : Outcome}
    (h : parse_combined p frame rest letters = .stop outcome) : Unhandled p outcome := by
  induction letters generalizing frame with
  | nil => cases h
  | cons c letters ih =>
    rw [parse_combined] at h
    rcases hfind : find_keyword_arg p.rt (frame.cmd p).args [c] true with _ | arg
    · rw [hfind] at h
      exact error_unhandled h
    · rw [hfind] at h
      dsimp only at h
      split_ifs at h
      · cases h
        exact ⟨by simp, .inr (.inl rfl)⟩
      · exact error_unhandled h
      · exact ih h

theorem parse_dynamic_stop {type : ArgType} {name : Bytes} {outcome : Outcome}
    (h : parse_dynamic p frame type name tokens = .stop outcome) : Unhandled p outcome := by
  unfold parse_dynamic at h
  rcases type with _ | _ | _
  · exact error_unhandled h
  · dsimp only at h
    rcases tokens with _ | ⟨t, tokens⟩
    · exact error_unhandled h
    · dsimp only at h
      split_ifs at h
      · exact error_unhandled h
      · exact error_unhandled h
  · dsimp only at h
    split_ifs at h
    · exact error_unhandled h
    · exact error_unhandled h

theorem parse_option_value_stop {arg : ArgumentDef} {outcome : Outcome}
    (h : parse_option_value p frame arg tokens = .stop outcome) : Unhandled p outcome := by
  rcases tokens with _ | ⟨t, tokens⟩
  · exact error_unhandled h
  · simp only [parse_option_value] at h
    split_ifs at h
    · exact error_unhandled h
    · exact error_unhandled h
    · split at h
      · exact error_unhandled h
      · cases h

theorem parse_flag_value_stop {arg : ArgumentDef} {outcome : Outcome}
    (h : parse_flag_value p frame arg tokens = .stop outcome) : False := by
  rcases tokens with _ | ⟨t, tokens⟩
  · cases h
  · simp only [parse_flag_value] at h
    split_ifs at h

theorem parse_keyword_stop {name : Bytes} {is_short : Bool} {outcome : Outcome}
    (h : parse_keyword p frame token name is_short rest = .stop outcome) :
    Unhandled p outcome := by
  unfold parse_keyword at h
  dsimp only at h
  by_cases hcombined : (is_short && decide (name.length > 1)) = true
  · rw [if_pos hcombined] at h
    exact parse_combined_stop h
  rw [if_neg hcombined] at h
  rcases hfind : find_keyword_arg p.rt (frame.cmd p).args name is_short with _ | arg
  · rw [hfind] at h
    dsimp only at h
    split at h
    · exact parse_dynamic_stop h
    · exact error_unhandled h
  · rw [hfind] at h
    dsimp only at h
    split_ifs at h
    · cases h
      exact request_help_unhandled frame _
    · exact absurd h fun h => parse_flag_value_stop h
    · exact parse_option_value_stop h

theorem parse_positional_stop {outcome : Outcome}
    (h : parse_positional p frame token rest = .stop outcome) :
    Unhandled p outcome := by
  unfold parse_positional at h
  rcases harg : (pos_args (frame.cmd p))[frame.positional_index]? with _ | arg
  · rw [harg] at h
    exact error_unhandled h
  rw [harg] at h
  dsimp only at h
  split_ifs at h
  · exact error_unhandled h
  · split at h
    · cases h
    · split at h
      · exact error_unhandled h
      · cases h
    · cases h

theorem parse_token_stop {outcome : Outcome}
    (h : parse_token p frame token rest = .stop outcome) : Unhandled p outcome := by
  unfold parse_token at h
  split at h
  next =>
    unfold parse_passthrough at h
    split_ifs at h
    exact error_unhandled h
  next => exact parse_keyword_stop h
  next => exact parse_keyword_stop h
  next word =>
    unfold parse_word at h
    dsimp only at h
    split at h
    · cases h
    · exact error_unhandled h
    · split_ifs at h
      · exact error_unhandled h
      · exact parse_positional_stop h
  next => exact parse_positional_stop h

theorem Item.fits_delimiter {cmd : Command} {index : ℕ} {item : Item}
    (h : item.fits p cmd index) (hitem : ∀ words, item ≠ .passthrough words) :
    .TokDoubleMinus ∉ item.tokens := by
  have hkeyword {t : Token} {arg : ArgumentDef} (hnames : names p cmd t arg) :
      t ≠ .TokDoubleMinus := by
    rintro rfl
    exact hnames
  have hvalues {type : ArgType} {coerce_as_string : Bool} {values : List Token}
      (hall : ∀ t ∈ values, is_value p type coerce_as_string t) : .TokDoubleMinus ∉ values :=
    fun hmem => (hall _ hmem).2.1 rfl
  rcases item with words | ⟨letters, args⟩ | ⟨t, arg⟩ | ⟨t, arg, value⟩ | ⟨t, arg, values⟩ |
    ⟨name, type, values⟩ | ⟨arg, values⟩
  · exact absurd rfl (hitem words)
  · simp [Item.tokens]
  · simpa [Item.tokens] using (hkeyword h.1).symm
  · have hall : ∀ t ∈ value.toList, is_value p .Flag false t := by simpa using h.2.2.2.2
    have hmem := hvalues hall
    simpa [Item.tokens, (hkeyword h.1).symm] using hmem
  · have hmem := hvalues h.2.2.2.2.2.2
    simpa [Item.tokens, (hkeyword h.1).symm] using hmem
  · have hmem := hvalues h.2.2.2.2.2
    simpa [Item.tokens] using hmem
  · exact hvalues h.2.2.2.2

/-- A loop that returns has read all tokens and finishes, or it stops at one of them. -/
theorem parse_loop_reads {root : Frame} {all : List Token} {items : List Item} {n : ℕ}
    {outcome : Outcome} (h : parse_loop p n frame tokens = some outcome)
    (hreads : Reads p root all tokens frame items) :
    (∃ last items', Reads p root all [] last items' ∧ outcome = finish p last) ∨
      Unhandled p outcome := by
  induction n generalizing frame tokens items with
  | zero => cases h
  | succ n ih =>
    rcases tokens with _ | ⟨token, rest⟩
    · cases h
      exact .inl ⟨frame, items, hreads, rfl⟩
    rw [parse_loop] at h
    rcases hround : parse_token p frame token rest with ⟨next, rest'⟩ | stopped
    · rw [hround] at h
      rcases parse_token_more hround with ⟨item, hfits, htokens, rfl⟩ |
        ⟨word, sub, hsub, htokens, rfl⟩ | ⟨arg, -, -, rfl, rfl⟩
      · exact ih h (hreads.item item hround htokens hfits)
      · rw [htokens] at hreads
        exact ih h (hreads.subcommand word sub hsub)
      · exact ih h hreads
    · rw [hround] at h
      cases h
      exact .inr (parse_token_stop hround)

end Zowex.parser

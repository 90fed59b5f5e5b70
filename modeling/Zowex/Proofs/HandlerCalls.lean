import Zowex.Proofs.CommandLine

/-! A parse calls one handler at most, and only for a command line that it has read to its end and
that gives what the command of the handler asks for. -/

namespace Zowex.parser

open lexer plugin

variable {p : Program} {frame : Frame}

/-! What the items leave in a frame. -/

theorem combined_frame (args : List ArgumentDef) (frame : Frame) :
    let next := args.foldl (fun frame arg => (frame.see arg.name).set arg.name (.bool true)) frame
    next.command = frame.command ∧ next.positional_index = frame.positional_index ∧
      next.passthrough_args = frame.passthrough_args ∧
      next.dynamic_values = frame.dynamic_values ∧
      (∀ name, name ∈ next.args_seen ↔
        name ∈ args.map ArgumentDef.name ∨ name ∈ frame.args_seen) := by
  induction args generalizing frame with
  | nil => simp
  | cons arg args ih =>
    obtain ⟨hcommand, hindex, hpassthrough, hdynamic, hseen⟩ :=
      ih ((frame.see arg.name).set arg.name (.bool true))
    refine ⟨hcommand, hindex, hpassthrough, hdynamic, fun name => (hseen name).trans ?_⟩
    rw [Frame.set, Frame.see, List.mem_cons, List.map_cons, List.mem_cons]
    exact or_left_comm.trans or_assoc.symm

@[simp] theorem Item.apply_command (item : Item) : (item.apply p frame).command = frame.command := by
  cases item with
  | combined letters args => exact (combined_frame args frame).1
  | _ => rfl

@[simp] theorem Item.apply_cmd (item : Item) : (item.apply p frame).cmd p = frame.cmd p := by
  rw [Frame.cmd, Item.apply_command, Frame.cmd]

theorem Item.apply_seen (item : Item) (name : Bytes) :
    name ∈ (item.apply p frame).args_seen ↔ name ∈ item.keywords ∨ name ∈ frame.args_seen := by
  cases item with
  | combined letters args => exact (combined_frame args frame).2.2.2.2 name
  | _ => simp [Item.apply, Item.keywords, Frame.see, Frame.set]

theorem Reads.seen {root last : Frame} {tokens rest : List Token} {items : List Item}
    (hreads : Reads p root tokens rest last items) (hroot : root.args_seen = []) (name : Bytes) :
    name ∈ last.args_seen ↔ given items name := by
  induction hreads with
  | start => simp [hroot, given]
  | item item _ _ _ _ ih =>
    rw [Item.apply_seen, ih, given, given]
    simp [or_and_right, exists_or, or_comm]
  | subcommand word sub _ _ ih => simp [start_frame, given]

theorem sorted_pairs_eq_nil {pairs : List (Bytes × Bytes)} (h : sorted_pairs pairs = []) :
    pairs = [] := by
  have hlength := congrArg List.length h
  rw [sorted_pairs, List.length_mergeSort, List.length_nil, List.length_eq_zero_iff] at hlength
  exact (List.dedup_eq_nil pairs).mp hlength

/-- The handler of the last command was called, behind its hooks. -/
structure Handled (p : Program) (frame : Frame) (hooks : List Call) (args : ContextArgs)
    (outcome : Outcome) : Prop where
  handler : ∃ handler, (frame.cmd p).handler = some handler ∧
    outcome.result.exit_code = p.run handler args
  status : outcome.result.status = .Success
  calls : outcome.calls = hooks ++ [.handler frame.command args]
  hooks : if (frame.cmd p).pre_hooks then accepted p frame.command false hooks else hooks = []
  option : missing_option p frame = none
  positional : (default_positionals ((pos_args (frame.cmd p)).drop frame.positional_index)
    frame.values).2 = none
  conflicts : conflicts (frame.cmd p).args frame.args_seen = []
  path : args.command_path = frame.command_path p
  values : args.args = (default_positionals
    ((pos_args (frame.cmd p)).drop frame.positional_index) frame.values).1 ∪ frame.dynamic_values
  passthrough : args.passthrough_args = frame.passthrough_args
  result : outcome.result.values = (default_positionals
      ((pos_args (frame.cmd p)).drop frame.positional_index) frame.values).1 ∧
    outcome.result.command = some frame.command
  dynamic : outcome.result.dynamic_values = frame.dynamic_values
  rest : outcome.rest = []

/-- Neither a handler nor subcommands: there is nothing to do. -/
structure Empty (p : Program) (frame : Frame) (outcome : Outcome) : Prop where
  handler : (frame.cmd p).handler = none
  commands : (frame.cmd p).commands = []
  status : outcome.result.status = .Success
  exit_code : outcome.result.exit_code = 0
  calls : outcome.calls = []
  rest : outcome.rest = []

theorem call_handler_spec {handler : ℕ} {values : ArgumentMap}
    (hhandler : (frame.cmd p).handler = some handler) (hoption : missing_option p frame = none)
    (hpositionals : default_positionals ((pos_args (frame.cmd p)).drop frame.positional_index)
      frame.values = (values, none))
    (hconflicts : conflicts (frame.cmd p).args frame.args_seen = []) :
    let outcome := call_handler p { frame with values := values } handler
    (∃ hooks args, Handled p frame hooks args outcome) ∨ Unhandled p outcome := by
  intro outcome
  obtain ⟨haccepted, hrefused⟩ := execute_pre_hooks_spec (p := p) frame.command false
  have hcalls := execute_pre_hooks_is_hook (p := p) frame.command false
  rcases hhooks : execute_pre_hooks p frame.command false with ⟨_ | _, calls⟩
  · rw [hhooks] at hrefused hcalls
    have houtcome : outcome.calls = calls ∧ outcome.result.status = .Success ∧
        outcome.result.exit_code = 1 := by
      simp [outcome, call_handler, hhooks, Frame.result]
    obtain ⟨hsame, hstatus, hexit⟩ := houtcome
    refine .inr ⟨?_, .inr (.inr ⟨hstatus, hexit, frame.command, false, ?_⟩)⟩
    · rw [hsame]
      exact hcalls
    · rw [hsame]
      exact hrefused rfl
  · rw [hhooks] at haccepted
    refine .inl ⟨calls, ?_, ?handled⟩
    case handled =>
      constructor
      case handler => exact ⟨handler, hhandler, by simp [outcome, call_handler, hhooks]; rfl⟩
      case status => simp [outcome, call_handler, hhooks, Frame.result]
      case calls => simp [outcome, call_handler, hhooks]
      case hooks => exact haccepted rfl
      case option => exact hoption
      case positional => rw [hpositionals]
      case conflicts => exact hconflicts
      case path => rfl
      case values => rw [hpositionals]
      case passthrough => rfl
      case result => simp [outcome, call_handler, hhooks, hpositionals, Frame.result]
      case dynamic => simp [outcome, call_handler, hhooks, Frame.result]
      case rest => simp [outcome, call_handler, hhooks]

/-- How a parse of the tokens may end, at the end of the loop. -/
theorem finish_spec (frame : Frame) :
    (∃ hooks args, Handled p frame hooks args (finish p frame)) ∨ Unhandled p (finish p frame) ∨
      Empty p frame (finish p frame) := by
  have herror (frame : Frame) (message : Bytes) : Unhandled p
      { result := { frame.result p with
          status := .ParseError, exit_code := 1, error_message := message }
        rest := []
        calls := [] } := ⟨by simp, .inl ⟨rfl, rfl⟩⟩
  rw [finish]
  dsimp only
  rcases hoption : missing_option p frame with _ | arg
  · dsimp only
    rcases hpositionals : default_positionals
      ((pos_args (frame.cmd p)).drop frame.positional_index) frame.values with ⟨values, _ | arg⟩
    · dsimp only
      by_cases hconflicts : sorted_pairs (conflicts (frame.cmd p).args frame.args_seen) = []
      · rw [if_neg (not_not.mpr hconflicts)]
        rcases hhandler : (frame.cmd p).handler with _ | handler
        · dsimp only
          by_cases hcommands : (frame.cmd p).commands = []
          · rw [if_neg (not_not.mpr hcommands)]
            exact .inr (.inr ⟨hhandler, hcommands, rfl, rfl, rfl, rfl⟩)
          · rw [if_pos hcommands]
            exact .inr (.inl (request_help_unhandled _ _))
        · rcases call_handler_spec hhandler hoption hpositionals
            (sorted_pairs_eq_nil hconflicts) with hhandled | hunhandled
          · exact .inl hhandled
          · exact .inr (.inl hunhandled)
      · rw [if_pos hconflicts]
        exact .inr (.inl (herror _ _))
    · exact .inr (.inl (herror _ _))
  · exact .inr (.inl (herror _ _))

theorem check_rest_of_nil {outcome : Outcome} (h : outcome.rest = []) :
    check_rest p outcome = outcome := by
  rw [check_rest, h]
  split
  · rename_i hcons
    cases hcons
  · rfl

theorem Unhandled.check_rest {outcome : Outcome} (h : Unhandled p outcome) :
    Unhandled p (check_rest p outcome) := by
  unfold parser.check_rest
  split
  · exact ⟨h.calls, .inl ⟨rfl, rfl⟩⟩
  · exact h

/-- How a parse of these tokens may end. -/
inductive Parsed (p : Program) (root : Ref) (tokens : List Token) (outcome : Outcome) : Prop
  | handled {last : Frame} {items : List Item} (hooks : List Call) (args : ContextArgs) :
      Reads p (start_frame p root [] false) tokens [] last items →
      Handled p last hooks args outcome → Parsed p root tokens outcome
  | unhandled : Unhandled p outcome → Parsed p root tokens outcome
  | empty {last : Frame} {items : List Item} :
      Reads p (start_frame p root [] false) tokens [] last items →
      Empty p last outcome → Parsed p root tokens outcome

theorem parse_tokens_spec {root : Ref} {tokens : List Token} {outcome : Outcome}
    (h : parse_tokens p root tokens = some outcome) : Parsed p root tokens outcome := by
  obtain ⟨stopped, hloop, rfl⟩ := Option.map_eq_some_iff.mp h
  rcases parse_loop_reads hloop .start with ⟨last, items, hreads, rfl⟩ | hunhandled
  · rcases finish_spec last with ⟨hooks, args, hhandled⟩ | hunhandled | hempty
    · rw [check_rest_of_nil hhandled.rest]
      exact .handled hooks args hreads hhandled
    · exact .unhandled hunhandled.check_rest
    · rw [check_rest_of_nil hempty.rest]
      exact .empty hreads hempty
  · exact .unhandled hunhandled.check_rest

theorem Handled.is_hook {hooks : List Call} {args : ContextArgs} {outcome : Outcome}
    (h : Handled p frame hooks args outcome) : ∀ call ∈ hooks, is_hook call := by
  have hhooks := h.hooks
  split_ifs at hhooks
  · rw [hhooks.1]
    exact hook_calls_is_hook
  · rw [hhooks]
    simp

/-- The handler that a parse calls is that of the command the tokens lead to. -/
theorem handler_of_call {root : Ref} {tokens : List Token} {outcome : Outcome} {command : Ref}
    {args : ContextArgs} (h : parse_tokens p root tokens = some outcome)
    (hcall : .handler command args ∈ outcome.calls) :
    ∃ last items hooks, Reads p (start_frame p root [] false) tokens [] last items ∧
      Handled p last hooks args outcome ∧ last.command = command := by
  rcases parse_tokens_spec h with ⟨hooks, args', hreads, hhandled⟩ | hunhandled | ⟨-, hempty⟩
  · rw [hhandled.calls] at hcall
    rcases List.mem_append.mp hcall with hhook | hlast
    · exact absurd (hhandled.is_hook _ hhook) id
    · have hsame := List.mem_singleton.mp hlast
      simp only [Call.handler.injEq] at hsame
      obtain ⟨rfl, rfl⟩ := hsame
      exact ⟨_, _, hooks, hreads, hhandled, rfl⟩
  · exact absurd (hunhandled.calls _ hcall) id
  · rw [hempty.calls] at hcall
    cases hcall

def example_command (args : List ArgumentDef) (handler : Option ℕ) : Command where
  name := ascii.str "zowex"
  args := new_arguments ascii_runtime ++ args
  commands := []
  aliases := []
  handler := handler
  dynamic := none
  allow_passthrough := true
  privileged := false
  json_capture := true
  pre_hooks := true

def example_program (args : List ArgumentDef) (handler : Option ℕ) : Program where
  rt := ascii_runtime
  command _ := example_command args handler
  hooks := []
  run _ _ := 0

def is_handler_call (command : Ref) : Call → Bool
  | .hook _ _ _ => false
  | .handler called _ => called = command

theorem handler_of_is_handler_call {command : Ref} {calls : List Call}
    (h : calls.any (is_handler_call command) = true) : ∃ args, .handler command args ∈ calls := by
  obtain ⟨call, hmem, hcall⟩ := List.any_eq_true.mp h
  rcases call with _ | ⟨called, args⟩
  · cases hcall
  · obtain rfl : called = command := by simpa [is_handler_call] using hcall
    exact ⟨args, hmem⟩

def file_argument (type : ArgType) : ArgumentDef :=
  { json_argument ascii_runtime with
    name := ascii.str "file"
    aliases := []
    type := type
    positional := true
    is_json_flag := false }

end Zowex.parser

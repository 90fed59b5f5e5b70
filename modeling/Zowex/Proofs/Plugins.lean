import Zowex.Lib.Descents
import Zowex.Lib.Maps
import Zowex.Proofs.PreHooks
import Zowex.Proofs.Registration
import Zowex.Spec.Plugins

/-! Plug-ins and the built-in commands: what the registration changes is out of the way of a command
line that starts with a built-in command. -/

namespace Zowex.parser

open lexer plugin

variable {p p' : Program} {frame : Frame} {token : Token} {rest : List Token}

/-! Programs that have a command in common parse alike in it. -/

/-- Two programs have a command in common. -/
structure Shares (p p' : Program) (ref : Ref) : Prop where
  rt : p'.rt = p.rt
  hooks : p'.hooks = p.hooks
  run : p'.run = p.run
  command : p'.command ref = p.command ref

theorem Shares.cmd (h : Shares p p' frame.command) : frame.cmd p' = frame.cmd p := h.command

theorem Shares.result (h : Shares p p' frame.command) : frame.result p' = frame.result p := by
  rw [Frame.result, Frame.result, Frame.command_path, Frame.command_path, h.cmd]

theorem Shares.parse_error (h : Shares p p' frame.command) (message : Bytes) :
    parse_error p' frame message rest = parse_error p frame message rest := by
  rw [parser.parse_error, parser.parse_error, h.result]

theorem Shares.execute_pre_hooks {ref : Ref} (h : Shares p p' ref) (is_help_request : Bool) :
    execute_pre_hooks p' ref is_help_request = execute_pre_hooks p ref is_help_request := by
  rw [parser.execute_pre_hooks, parser.execute_pre_hooks, h.command, h.hooks]

theorem Shares.request_help (h : Shares p p' frame.command) :
    request_help p' frame rest = request_help p frame rest := by
  rw [parser.request_help, parser.request_help, h.execute_pre_hooks, h.result]

theorem Shares.parse_combined (h : Shares p p' frame.command) (letters : Bytes) :
    parse_combined p' frame rest letters = parse_combined p frame rest letters := by
  induction letters generalizing frame with
  | nil => rfl
  | cons c letters ih =>
    unfold parser.parse_combined
    rw [h.rt, h.cmd]
    split
    · rw [h.parse_error]
    · split_ifs
      · rw [h.result]
      · rw [h.parse_error]
      · exact ih h

theorem Shares.parse_dynamic (h : Shares p p' frame.command) (type : ArgType) (name : Bytes)
    (tokens : List Token) :
    parse_dynamic p' frame type name tokens = parse_dynamic p frame type name tokens := by
  simp only [parser.parse_dynamic, h.rt, h.parse_error]

theorem Shares.parse_flag_value (h : Shares p p' frame.command) (arg : ArgumentDef)
    (tokens : List Token) :
    parse_flag_value p' frame arg tokens = parse_flag_value p frame arg tokens := by
  cases tokens with
  | nil => rfl
  | cons token rest => simp only [parser.parse_flag_value, h.rt]

theorem Shares.parse_option_value (h : Shares p p' frame.command) (arg : ArgumentDef)
    (tokens : List Token) :
    parse_option_value p' frame arg tokens = parse_option_value p frame arg tokens := by
  cases tokens with
  | nil => simp only [parser.parse_option_value, h.rt, h.parse_error]
  | cons token rest => simp only [parser.parse_option_value, h.rt, h.parse_error]

theorem Shares.parse_keyword (h : Shares p p' frame.command) (name : Bytes) (is_short : Bool) :
    parse_keyword p' frame token name is_short rest =
      parse_keyword p frame token name is_short rest := by
  have hsee (arg : ArgumentDef) : Shares p p' (frame.see arg.name).command := h
  simp only [parser.parse_keyword, h.rt, h.cmd, h.parse_combined, h.parse_dynamic, h.parse_error,
    h.request_help, (hsee _).parse_flag_value, (hsee _).parse_option_value]

theorem Shares.parse_passthrough (h : Shares p p' frame.command) :
    parse_passthrough p' frame token rest = parse_passthrough p frame token rest := by
  simp only [parser.parse_passthrough, h.rt, h.cmd, h.parse_error]

theorem Shares.parse_positional (h : Shares p p' frame.command) :
    parse_positional p' frame token rest = parse_positional p frame token rest := by
  simp only [parser.parse_positional, h.rt, h.cmd, h.parse_error]

theorem find_subcommand_congr {cmd : Command} {word : Bytes}
    (h : ∀ entry ∈ cmd.commands, (p'.command entry.2).aliases = (p.command entry.2).aliases) :
    find_subcommand p' cmd word = find_subcommand p cmd word := by
  have hfilter : (cmd.commands.filter fun sub => (p'.command sub.2).aliases.contains word) =
      cmd.commands.filter fun sub => (p.command sub.2).aliases.contains word :=
    List.filter_congr fun entry hentry => by rw [h entry hentry]
  rw [find_subcommand, find_subcommand, hfilter]

/-- Programs that have a command and those right below it in common. -/
structure SharesBelow (p p' : Program) (ref : Ref) : Prop extends Shares p p' ref where
  below : ∀ entry ∈ (p.command ref).commands, p'.command entry.2 = p.command entry.2

theorem SharesBelow.find_subcommand (h : SharesBelow p p' frame.command) (word : Bytes) :
    find_subcommand p' (frame.cmd p) word = find_subcommand p (frame.cmd p) word :=
  find_subcommand_congr fun entry hentry => congrArg Command.aliases (h.below entry hentry)

theorem find_subcommand_mem {cmd : Command} {word : Bytes} {sub : Ref}
    (h : find_subcommand p cmd word = .command sub) : ∃ entry ∈ cmd.commands, entry.2 = sub := by
  unfold find_subcommand at h
  split at h
  next entry hfind =>
    cases h
    exact ⟨entry, List.mem_of_find?_eq_some hfind, rfl⟩
  next hnone =>
    split at h
    · cases h
    next entry hone =>
      cases h
      have hmem : entry ∈ [entry] := List.mem_singleton_self entry
      rw [← hone] at hmem
      exact ⟨entry, (List.mem_filter.mp hmem).1, rfl⟩
    · cases h

theorem parse_word_command {word : Bytes} {sub : Ref}
    (h : find_subcommand p (frame.cmd p) word = .command sub) :
    parse_word p frame token word rest = .more (start_frame p sub
      (frame.command_path p ++ p.rt.str " ") (frame.json_inherited ||
        get_value_bool p.rt frame.values (frame.cmd p).args (p.rt.str "json") false)) rest := by
  rw [parse_word, h]

theorem start_frame_congr {sub : Ref} (path : Bytes) (json_inherited : Bool)
    (h : p'.command sub = p.command sub) :
    start_frame p' sub path json_inherited = start_frame p sub path json_inherited := by
  rw [start_frame, start_frame, h]

theorem SharesBelow.parse_word (h : SharesBelow p p' frame.command) (word : Bytes) :
    parse_word p' frame token word rest = parse_word p frame token word rest := by
  unfold parser.parse_word
  dsimp only
  rw [h.cmd, h.find_subcommand, h.rt, Frame.command_path, Frame.command_path, h.cmd,
    h.parse_positional, h.parse_error, h.parse_error]
  split
  next sub hsub =>
    obtain ⟨entry, hentry, rfl⟩ := find_subcommand_mem hsub
    rw [start_frame_congr _ _ (h.below entry hentry)]
  · rfl
  · rfl

theorem SharesBelow.parse_token (h : SharesBelow p p' frame.command) :
    parse_token p' frame token rest = parse_token p frame token rest := by
  unfold parser.parse_token
  split
  · exact h.parse_passthrough
  · exact h.parse_keyword _ _
  · exact h.parse_keyword _ _
  · exact h.parse_word _
  · exact h.parse_positional

theorem Shares.call_handler (h : Shares p p' frame.command) (handler : ℕ) :
    call_handler p' frame handler = call_handler p frame handler := by
  simp only [parser.call_handler, h.execute_pre_hooks, h.result, h.cmd, Frame.command_path, h.rt,
    h.run]

theorem Shares.finish (h : Shares p p' frame.command) : finish p' frame = finish p frame := by
  have hmissing : missing_option p' frame = missing_option p frame := by
    rw [missing_option, missing_option, h.cmd]
  have hconflict : conflict_text p' = conflict_text p := by
    funext pair
    rw [conflict_text, conflict_text, h.rt]
  have hvalues (values : ArgumentMap) : Shares p p' ({ frame with values } : Frame).command := h
  unfold parser.finish
  rw [hmissing, hconflict]
  simp only [h.rt, h.cmd, h.result, (hvalues _).result, (hvalues _).request_help,
    (hvalues _).call_handler]

/-- Programs that have a set of commands in common which no subcommand leaves. -/
structure SharesAll (p p' : Program) (set : Ref → Prop) : Prop where
  command : ∀ ref, set ref → Shares p p' ref
  closed : ∀ ref, set ref → ∀ entry ∈ (p.command ref).commands, set entry.2

theorem SharesAll.below {set : Ref → Prop} {ref : Ref} (h : SharesAll p p' set) (href : set ref) :
    SharesBelow p p' ref where
  toShares := h.command ref href
  below := fun entry hentry => (h.command entry.2 (h.closed ref href entry hentry)).command

theorem SharesAll.parse_loop {set : Ref → Prop} (h : SharesAll p p' set)
    (hset : set frame.command) (n : ℕ) (tokens : List Token) :
    parse_loop p' n frame tokens = parse_loop p n frame tokens := by
  induction n generalizing frame tokens with
  | zero => rfl
  | succ n ih =>
    cases tokens with
    | nil => exact congrArg some (h.command _ hset).finish
    | cons token rest =>
      rw [parser.parse_loop, parser.parse_loop, (h.below hset).parse_token]
      cases hround : parser.parse_token p frame token rest with
      | stop outcome => rfl
      | more next rest' =>
        refine ih ?_ rest'
        rcases parse_token_more hround with ⟨item, -, -, rfl⟩ | ⟨word, sub, hsub, -, rfl⟩ |
          ⟨arg, -, -, rfl, rfl⟩
        · rw [Item.apply_command]
          exact hset
        · obtain ⟨entry, hentry, rfl⟩ := find_subcommand_mem hsub
          exact h.closed _ hset entry hentry
        · exact hset

theorem check_rest_congr (h : p'.rt = p.rt) (outcome : Outcome) :
    check_rest p' outcome = check_rest p outcome := by
  rw [check_rest, check_rest, h]

end Zowex.parser

namespace Zowex.parser.Tree

open Descents

variable {tree tree' : Tree} {change : Command → Command} {stack : ℕ} {parent sub ref : Ref}

/-- The commands of a set have other marks or arguments, and nothing else has changed. -/
structure Marked (set : Ref → Prop) (tree tree' : Tree) : Prop where
  outside : ∀ ref, ¬ set ref → tree'.command ref = tree.command ref
  name : ∀ ref, (tree'.command ref).name = (tree.command ref).name
  aliases : ∀ ref, (tree'.command ref).aliases = (tree.command ref).aliases
  commands : ∀ ref, (tree'.command ref).commands = (tree.command ref).commands
  rt : tree'.rt = tree.rt
  root : tree'.root = tree.root
  hooks : tree'.hooks = tree.hooks

theorem Marked.refl (set : Ref → Prop) (tree : Tree) : Marked set tree tree :=
  ⟨fun _ _ => rfl, fun _ => rfl, fun _ => rfl, fun _ => rfl, rfl, rfl, rfl⟩

theorem Marked.trans {set : Ref → Prop} {tree'' : Tree} (h : Marked set tree tree')
    (h' : Marked set tree' tree'') : Marked set tree tree'' where
  outside := fun ref href => (h'.outside ref href).trans (h.outside ref href)
  name := fun ref => (h'.name ref).trans (h.name ref)
  aliases := fun ref => (h'.aliases ref).trans (h.aliases ref)
  commands := fun ref => (h'.commands ref).trans (h.commands ref)
  rt := h'.rt.trans h.rt
  root := h'.root.trans h.root
  hooks := h'.hooks.trans h.hooks

theorem Marked.children {set : Ref → Prop} (h : Marked set tree tree') :
    tree'.children = tree.children := by
  funext ref
  rw [Tree.children, Tree.children, h.commands]

theorem Marked.reaches {set : Ref → Prop} (h : Marked set tree tree') :
    tree'.reaches = tree.reaches := by
  have hchild : tree'.child = tree.child := by
    funext parent sub
    rw [child, child, h.children]
  rw [Tree.reaches, Tree.reaches, hchild]

theorem Marked.name_taken {set : Ref → Prop} (h : Marked set tree tree') :
    tree'.name_taken parent sub = tree.name_taken parent sub := by
  simp only [Tree.name_taken, h.name, h.aliases, h.commands]

theorem Changed.marked {set : Ref → Prop} (h : Changed change set tree tree')
    (hname : ∀ cmd, (change cmd).name = cmd.name)
    (haliases : ∀ cmd, (change cmd).aliases = cmd.aliases)
    (hcommands : ∀ cmd, (change cmd).commands = cmd.commands) : Marked set tree tree' := by
  have hsame (ref : Ref) : tree'.command ref = change (tree.command ref) ∨
      tree'.command ref = tree.command ref := by
    by_cases hset : set ref
    · exact .inl (h.inside ref hset)
    · exact .inr (h.outside ref hset)
  refine ⟨h.outside, fun ref => ?_, fun ref => ?_, fun ref => ?_, h.rt, h.root, h.hooks⟩
  · rcases hsame ref with heq | heq
    · rw [heq, hname]
    · rw [heq]
  · rcases hsame ref with heq | heq
    · rw [heq, haliases]
    · rw [heq]
  · rcases hsame ref with heq | heq
    · rw [heq, hcommands]
    · rw [heq]

theorem ensure_arguments_marked (tree : Tree) (ref : Ref) :
    Marked (tree.reaches ref) tree (tree.ensure_arguments ref) := by
  have h : Marked (· = ref) tree (tree.ensure_arguments ref) :=
    Changed.marked (changed_update tree ref) (fun _ => rfl) (fun _ => rfl) (fun _ => rfl)
  refine ⟨fun other hother => h.outside other ?_, h.name, h.aliases, h.commands, rfl, rfl, rfl⟩
  rintro rfl
  exact hother .refl

theorem pass_privilege_marked (h : tree.pass_privilege stack parent sub = some tree') :
    Marked (tree.reaches sub) tree tree' := by
  unfold pass_privilege at h
  split_ifs at h
  · exact (set_privileged_changed h).marked (fun _ => rfl) (fun _ => rfl) (fun _ => rfl)
  · cases h
    exact .refl _ _

theorem pass_pre_hooks_marked (h : tree.pass_pre_hooks stack parent sub = some tree') :
    Marked (tree.reaches sub) tree tree' := by
  unfold pass_pre_hooks at h
  split_ifs at h
  · exact (set_pre_hooks_changed h).marked (fun _ => rfl) (fun _ => rfl) (fun _ => rfl)
  · cases h
    exact .refl _ _

/-- A command that is hung somewhere is marked, with all below it, and then attached. -/
theorem add_command_marked (h : tree.add_command stack parent sub = some tree') :
    ∃ marked, Marked (tree.reaches sub) tree marked ∧
      tree' = if tree.name_taken parent sub then marked else marked.attach parent sub := by
  obtain ⟨second, hsecond, h⟩ := Option.bind_eq_some_iff.mp h
  obtain ⟨third, hthird, h⟩ := Option.bind_eq_some_iff.mp h
  have hensured := ensure_arguments_marked tree sub
  have hsecond := pass_privilege_marked hsecond
  rw [hensured.reaches] at hsecond
  have hthird := pass_pre_hooks_marked hthird
  rw [hsecond.reaches, hensured.reaches] at hthird
  have hmarked := (hensured.trans hsecond).trans hthird
  refine ⟨third, hmarked, ?_⟩
  rw [← hmarked.name_taken]
  exact (Option.some.inj h).symm

/-- A change is passed down to the end exactly if the stack is as deep as what is below. -/
theorem propagate_returns (hidem : ∀ cmd, change (change cmd) = change cmd)
    (hcommands : ∀ cmd, (change cmd).commands = cmd.commands) :
    (∃ tree', tree.propagate change stack ref = some tree') ↔ Shallow tree.children stack ref := by
  induction stack generalizing tree ref with
  | zero => simp [propagate, Shallow]
  | succ stack ih =>
    have hfold (subs : List Ref) {first : Tree} (hfirst : first.children = tree.children) :
        (∃ last, subs.foldlM (propagate change stack) first = some last) ↔
          ∀ next ∈ subs, Shallow tree.children stack next := by
      induction subs generalizing first with
      | nil => simp
      | cons next subs ihsubs =>
        rw [List.forall_mem_cons, ← hfirst, ← ih]
        constructor
        · rintro ⟨last, hlast⟩
          rw [List.foldlM_cons] at hlast
          obtain ⟨middle, hnext, hrest⟩ := Option.bind_eq_some_iff.mp hlast
          have hchildren := (propagate_changed hidem hcommands hnext).children hcommands
          rw [hfirst]
          exact ⟨⟨middle, hnext⟩, (ihsubs (hchildren.trans hfirst)).mp ⟨last, hrest⟩⟩
        · rintro ⟨⟨middle, hnext⟩, hrest⟩
          have hchildren := (propagate_changed hidem hcommands hnext).children hcommands
          rw [hfirst] at hrest
          obtain ⟨last, hlast⟩ := (ihsubs (hchildren.trans hfirst)).mpr hrest
          exact ⟨last, by rw [List.foldlM_cons, hnext]; exact hlast⟩
    rw [propagate]
    exact hfold _ ((changed_update tree ref).children hcommands)

theorem set_privileged_returns :
    (∃ tree', tree.set_privileged stack ref true = some tree') ↔ Shallow tree.children stack ref :=
  propagate_returns (fun _ => rfl) (fun _ => rfl)

theorem set_pre_hooks_returns :
    (∃ tree', tree.set_pre_hooks stack ref = some tree') ↔ Shallow tree.children stack ref :=
  propagate_returns (fun _ => rfl) (fun _ => rfl)

theorem pass_privilege_pre_hooks (h : tree.pass_privilege stack parent sub = some tree')
    (ref : Ref) : (tree'.command ref).pre_hooks = (tree.command ref).pre_hooks := by
  unfold pass_privilege at h
  split_ifs at h
  · have hchanged := set_privileged_changed h
    by_cases href : tree.reaches sub ref
    · rw [hchanged.inside ref href]
    · rw [hchanged.outside ref href]
  · cases h
    rfl

theorem ensure_arguments_marks (tree : Tree) (sub ref : Ref) :
    ((tree.ensure_arguments sub).command ref).pre_hooks = (tree.command ref).pre_hooks ∧
      ((tree.ensure_arguments sub).command ref).privileged = (tree.command ref).privileged := by
  obtain ⟨change, -, hhooks, hprivileged, hchanged⟩ := ensure_arguments_changed tree sub
  by_cases href : ref = sub
  · rw [hchanged.inside ref href]
    exact ⟨hhooks _, hprivileged _⟩
  · rw [hchanged.outside ref href]
    exact ⟨rfl, rfl⟩

/-- Below a command that has the hooks. -/
theorem add_command_returns (hhooks : (tree.command parent).pre_hooks = true) :
    (∃ tree', tree.add_command stack parent sub = some tree') ↔
      Shallow tree.children stack sub := by
  have hensured := (ensure_arguments_marked tree sub).children
  constructor
  · rintro ⟨tree', h⟩
    obtain ⟨second, hsecond, h⟩ := Option.bind_eq_some_iff.mp h
    obtain ⟨third, hthird, h⟩ := Option.bind_eq_some_iff.mp h
    have hmark : (second.command parent).pre_hooks = true := by
      rw [pass_privilege_pre_hooks hsecond, (ensure_arguments_marks tree sub parent).1, hhooks]
    rw [pass_pre_hooks, if_pos hmark] at hthird
    have hshallow := set_pre_hooks_returns.mp ⟨third, hthird⟩
    rwa [(pass_privilege_marked hsecond).children, hensured] at hshallow
  · intro hshallow
    have hsecond : ∃ second,
        (tree.ensure_arguments sub).pass_privilege stack parent sub = some second := by
      unfold pass_privilege
      split_ifs
      · exact set_privileged_returns.mpr (by rwa [hensured])
      · exact ⟨_, rfl⟩
    obtain ⟨second, hsecond⟩ := hsecond
    have hmark : (second.command parent).pre_hooks = true := by
      rw [pass_privilege_pre_hooks hsecond, (ensure_arguments_marks tree sub parent).1, hhooks]
    obtain ⟨third, hthird⟩ : ∃ third, second.pass_pre_hooks stack parent sub = some third := by
      rw [pass_pre_hooks, if_pos hmark]
      exact set_pre_hooks_returns.mpr (by
        rwa [(pass_privilege_marked hsecond).children, hensured])
    rw [add_command, hsecond, Option.bind_eq_bind, Option.bind_some, hthird]
    exact ⟨_, rfl⟩

/-- Below a command without marks nothing is passed down. -/
theorem add_command_unmarked (hprivileged : (tree.command parent).privileged = false)
    (hhooks : (tree.command parent).pre_hooks = false) :
    tree.add_command stack parent sub =
      some (if (tree.ensure_arguments sub).name_taken parent sub then tree.ensure_arguments sub
        else (tree.ensure_arguments sub).attach parent sub) := by
  obtain ⟨hmarks, hmark⟩ := ensure_arguments_marks tree sub parent
  rw [hhooks] at hmarks
  rw [hprivileged] at hmark
  rw [add_command, pass_privilege, hmark]
  change (Tree.pass_pre_hooks stack (tree.ensure_arguments sub) parent sub).bind _ = _
  rw [pass_pre_hooks, hmarks]
  rfl

end Zowex.parser.Tree

namespace Zowex.parser

open lexer plugin

variable {rt : Runtime} {args args' : List ArgumentDef} {arg : ArgumentDef}

theorem register_argument_unprefixed (h : register_argument rt args arg = .ok args') :
    (rt.str "no-").isPrefixOf arg.name = false := by
  unfold register_argument at h
  by_cases hhelp : arg.name = rt.str "help"
  · rw [if_pos hhelp] at h
    cases h
  rw [if_neg hhelp] at h
  by_cases hno : (rt.str "no-").isPrefixOf arg.name = true
  · rw [if_pos hno] at h
    cases h
  · rwa [Bool.not_eq_true] at hno

theorem negation_name_ne_json (name : Bytes) : negation_name rt name ≠ rt.str "json" := by
  intro h
  have hhead := congrArg List.head? h
  have hcode : rt.code 'n' = rt.code 'j' := Option.some.inj hhead
  exact absurd ((rt.code_eq_iff (by decide) (by decide)).mp hcode) (by decide)

/-- Neither of the names that `--json` is looked up by. -/
def Unrelated (rt : Runtime) (arg : ArgumentDef) : Prop :=
  arg.name ≠ rt.str "json" ∧ arg.name ≠ negation_name rt (rt.str "json")

theorem register_argument_unrelated (h : register_argument rt args arg = .ok args')
    (hjson : ∃ existing ∈ args, existing.name = rt.str "json") :
    ∃ added, args' = args ++ added ∧ ∀ new ∈ added, Unrelated rt new := by
  obtain ⟨haccepted, hargs⟩ := register_argument_accepted h
  obtain ⟨existing, hexisting, hname⟩ := hjson
  have hne : arg.name ≠ rt.str "json" := fun heq =>
    haccepted.name existing hexisting (hname.trans heq.symm)
  have hstored : Unrelated rt (stored_argument arg) := by
    refine ⟨hne, fun heq => ?_⟩
    have hprefix := register_argument_unprefixed h
    have harg : arg.name = rt.str "no-" ++ rt.str "json" := heq
    rw [harg, List.isPrefixOf_iff_prefix.mpr (List.prefix_append _ _)] at hprefix
    cases hprefix
  have hnegation : Unrelated rt (negation rt arg) := by
    refine ⟨negation_name_ne_json arg.name, fun heq => hne ?_⟩
    exact List.append_cancel_left heq
  rcases hargs with ⟨rfl, -⟩ | ⟨rfl, -⟩
  · refine ⟨_, rfl, ?_⟩
    simp only [List.mem_cons, List.not_mem_nil, or_false, forall_eq_or_imp, forall_eq]
    exact ⟨hstored, hnegation⟩
  · refine ⟨_, rfl, ?_⟩
    simpa using hstored

/-- The value of `--json` at the start. -/
theorem start_values_unrelated {added : List ArgumentDef} {name : Bytes}
    (h : ∀ new ∈ added, new.name ≠ name) (values : ArgumentMap) :
    (added.foldl (fun values arg => if arg.is_help_flag || arg.is_json_flag then values
      else values.insert arg.name arg.default_value) values)[name]? = values[name]? := by
  induction added generalizing values with
  | nil => rfl
  | cons new added ih =>
    obtain ⟨hnew, hadded⟩ := List.forall_mem_cons.mp h
    rw [List.foldl_cons, ih hadded]
    split_ifs
    · rfl
    · exact Maps.getElem?_insert_ne hnew

theorem find_json_append {added : List ArgumentDef}
    (hjson : ∃ existing ∈ args, existing.name = rt.str "json") :
    (args ++ added).find? (·.name = rt.str "json") = args.find? (·.name = rt.str "json") := by
  obtain ⟨existing, hexisting, hname⟩ := hjson
  have hsome : (args.find? (·.name = rt.str "json")).isSome := by
    rw [List.find?_isSome]
    exact ⟨existing, hexisting, by simpa using hname⟩
  rw [List.find?_append, Option.or_of_isSome hsome]

end Zowex.parser

namespace Zowex.plugin

open lexer parser Tree

variable {b : BuiltIn} {context context' : RegistrationContext} {stack : ℕ} {ref : Ref}

/-- What the registration leaves of the tree, when the commands it creates are those up to `next`:
the built-in commands, and what a command line that starts with one sees of the root. -/
structure Apart (b : BuiltIn) (next : Ref) (tree : Tree) : Prop where
  rt : tree.rt = b.tree.rt
  root : tree.root = b.tree.root
  hooks : tree.hooks = b.tree.hooks
  builtin : ∀ ref < b.first, ref ≠ b.tree.root → tree.command ref = b.tree.command ref
  root_name : (tree.command b.tree.root).name = (b.tree.command b.tree.root).name
  root_hooks : (tree.command b.tree.root).pre_hooks = true
  root_args : ∃ added, (tree.command b.tree.root).args =
    (b.tree.command b.tree.root).args ++ added ∧ ∀ new ∈ added, Unrelated b.tree.rt new
  unaliased : ∀ ref, b.first ≤ ref → ref < next →
    (tree.command ref).name ∉ (tree.command ref).aliases
  below : ∀ ref, b.first ≤ ref → ref < next →
    ∀ entry ∈ (tree.command ref).commands, b.first ≤ entry.2 ∧ entry.2 < next

theorem Apart.find_builtin {next : Ref} {tree : Tree} (h : Apart b next tree)
    (run : ℕ → ContextArgs → ℤ) (cmd : Command)
    (hcmd : ∀ entry ∈ cmd.commands, entry.2 < b.first ∧ entry.2 ≠ b.tree.root) (word : Bytes) :
    find_subcommand (tree.program run) cmd word = find_subcommand (b.tree.program run) cmd word :=
  find_subcommand_congr fun entry hentry => by
    obtain ⟨hlt, hne⟩ := hcmd entry hentry
    exact congrArg Command.aliases (h.builtin entry.2 hlt hne)

/-- The commands of the tree without plug-ins other than the root are read as before. -/
theorem Apart.shares {next : Ref} {tree : Tree} (h : Apart b next tree)
    (run : ℕ → ContextArgs → ℤ) : SharesAll (b.tree.program run) (tree.program run)
      fun ref => ref < b.first ∧ ref ≠ b.tree.root where
  command := fun ref href => ⟨h.rt, h.hooks, rfl, h.builtin ref href.1 href.2⟩
  closed := fun ref href entry hentry =>
    b.below ref entry.2 href.1 (List.mem_map.mpr ⟨entry, hentry, rfl⟩)

/-- `--json` on the root is not given before the name of a command. -/
theorem Apart.root_json {next : Ref} {tree : Tree} (h : Apart b next tree)
    (run : ℕ → ContextArgs → ℤ) (path : Bytes) (json_inherited : Bool) :
    get_value_bool b.tree.rt
        (start_frame (tree.program run) b.tree.root path json_inherited).values
        (tree.command b.tree.root).args (b.tree.rt.str "json") false =
      get_value_bool b.tree.rt
        (start_frame (b.tree.program run) b.tree.root path json_inherited).values
        (b.tree.command b.tree.root).args (b.tree.rt.str "json") false := by
  obtain ⟨added, hargs, hadded⟩ := h.root_args
  have hvalues (name : Bytes) (hname : ∀ new ∈ added, new.name ≠ name) :
      (start_frame (tree.program run) b.tree.root path json_inherited).values[name]? =
        (start_frame (b.tree.program run) b.tree.root path json_inherited).values[name]? := by
    rw [start_frame, start_frame]
    dsimp only [program]
    rw [hargs, List.foldl_append, start_values_unrelated hname]
  have hjson := hvalues (b.tree.rt.str "json") fun new hnew => (hadded new hnew).1
  have hno := hvalues (b.tree.rt.str "no-" ++ b.tree.rt.str "json") fun new hnew =>
    (hadded new hnew).2
  rw [get_value_bool, get_value_bool, Std.ExtTreeMap.contains_eq_isSome_getElem?,
    Std.ExtTreeMap.contains_eq_isSome_getElem?, hjson, hno, hargs, find_json_append b.json]

/-- A command line that starts with a built-in command, if its name still stands for it. -/
theorem Apart.parse_tokens {next : Ref} {tree : Tree} (h : Apart b next tree) {word : Bytes}
    (hword : word ∈ top_level_names b.tree)
    (hfind : find_subcommand (tree.program fun _ _ => 0) (tree.command b.tree.root) word =
      find_subcommand (b.tree.program fun _ _ => 0) (b.tree.command b.tree.root) word)
    (run : ℕ → ContextArgs → ℤ) (rest : List Token) :
    parse_tokens (tree.program run) tree.root (.TokId word :: rest) =
      parse_tokens (b.tree.program run) b.tree.root (.TokId word :: rest) := by
  obtain ⟨sub, hsub⟩ := b.found word hword
  let first (tree : Tree) : Frame := start_frame (tree.program run) b.tree.root [] false
  have hnew : find_subcommand (tree.program run) ((first tree).cmd (tree.program run)) word =
      .command sub := hfind.trans hsub
  have hold : find_subcommand (b.tree.program run) ((first b.tree).cmd (b.tree.program run)) word =
      .command sub := hsub
  obtain ⟨entry, hentry, rfl⟩ := find_subcommand_mem hsub
  have hin := b.below b.tree.root entry.2 b.root_lt (List.mem_map.mpr ⟨entry, hentry, rfl⟩)
  have hpath : (first tree).command_path (tree.program run) =
      (first b.tree).command_path (b.tree.program run) := by
    rw [Frame.command_path, Frame.command_path]
    exact congrArg ([] ++ ·) h.root_name
  have hjson : get_value_bool (tree.program run).rt (first tree).values
      ((first tree).cmd (tree.program run)).args ((tree.program run).rt.str "json") false =
        get_value_bool b.tree.rt (first b.tree).values (b.tree.command b.tree.root).args
          (b.tree.rt.str "json") false := by
    rw [← h.root_json run [] false, program, h.rt]
    rfl
  have hrt : (tree.program run).rt = (b.tree.program run).rt := h.rt
  have hround : parse_token (tree.program run) (first tree) (.TokId word) rest =
      parse_token (b.tree.program run) (first b.tree) (.TokId word) rest := by
    rw [parse_token, parse_token, parse_word_command hnew, parse_word_command hold, hpath, hjson,
      hrt, start_frame_congr _ _ ((h.shares run).command entry.2 hin).command]
    rfl
  rw [h.root, parser.parse_tokens, parser.parse_tokens, parse_command, parse_command, parse_loop,
    parse_loop, hround, parse_token, parse_word_command hold]
  dsimp only
  rw [(h.shares run).parse_loop hin]
  exact congrArg (Option.map · _) (funext (check_rest_congr hrt))

theorem Apart.parse_argv {next : Ref} {tree : Tree} (h : Apart b next tree) {word : Bytes}
    (hword : word ∈ top_level_names b.tree)
    (hfind : find_subcommand (tree.program fun _ _ => 0) (tree.command b.tree.root) word =
      find_subcommand (b.tree.program fun _ _ => 0) (b.tree.command b.tree.root) word)
    (run : ℕ → ContextArgs → ℤ) (program : Bytes) {args : List Bytes} {rest : List Token}
    (hargs : argv_tokens b.tree.rt args = .TokId word :: rest) :
    parse_argv (tree.program run) tree.root (program :: args) =
      parse_argv (b.tree.program run) b.tree.root (program :: args) := by
  have hrt : (tree.program run).rt = b.tree.rt := h.rt
  rw [parser.parse_argv, parser.parse_argv, hrt, hargs]
  exact (h.parse_tokens hword hfind run rest).trans (congrArg _ hargs.symm)

theorem Apart.parse_line {next : Ref} {tree : Tree} (h : Apart b next tree) {word : Bytes}
    (hword : word ∈ top_level_names b.tree)
    (hfind : find_subcommand (tree.program fun _ _ => 0) (tree.command b.tree.root) word =
      find_subcommand (b.tree.program fun _ _ => 0) (b.tree.command b.tree.root) word)
    (run : ℕ → ContextArgs → ℤ) {line : Bytes} {rest : List Token}
    (hline : tokenize b.tree.rt line = .ok (.TokId word :: rest)) :
    parse_line (tree.program run) tree.root line =
      parse_line (b.tree.program run) b.tree.root line := by
  have hrt : (tree.program run).rt = b.tree.rt := h.rt
  have hline' : tokenize (b.tree.program run).rt line = .ok (.TokId word :: rest) := hline
  rw [parser.parse_line, parser.parse_line, hrt, hline, hline']
  dsimp only
  split_ifs
  · cases rest with
    | nil => simp_all
    | cons token rest => exact h.parse_tokens hword hfind run _
  · exact h.parse_tokens hword hfind run rest

/-! The calls. -/

/-- Before the commit, after some calls. -/
structure Uncommitted (b : BuiltIn) (calls : List RegistrationCall)
    (context : RegistrationContext) : Prop extends Apart b context.next context.tree where
  first : context.first = b.first
  next : context.next = b.first + (calls.filterMap created_name).length
  names : ∀ (index : ℕ) (name : Bytes), (calls.filterMap created_name)[index]? = some name →
    (context.tree.command (b.first + index)).name = name
  root_commands : (context.tree.command b.tree.root).commands =
    (b.tree.command b.tree.root).commands
  unmarked : ∀ ref, b.first ≤ ref → ref < context.next →
    (context.tree.command ref).privileged = false ∧ (context.tree.command ref).pre_hooks = false
  builtin_names : context.builtin_names = top_level_names b.tree
  claimed_names : context.claimed_names = top_level_names b.tree
  pending : ∀ sub, some sub ∈ context.pending_root_commands → b.first ≤ sub ∧ sub < context.next

variable {calls : List RegistrationCall} {call : RegistrationCall}

theorem uncommitted_new (b : BuiltIn) : Uncommitted b [] (.new b.tree b.first) where
  rt := rfl
  root := rfl
  hooks := rfl
  builtin := fun _ _ _ => rfl
  root_name := rfl
  root_hooks := b.hooked
  root_args := ⟨[], (List.append_nil _).symm, by simp⟩
  unaliased := fun ref hge hlt => absurd hlt (Nat.not_lt.mpr hge)
  below := fun ref hge hlt => absurd hlt (Nat.not_lt.mpr hge)
  first := rfl
  next := rfl
  names := by simp
  root_commands := rfl
  unmarked := fun ref hge hlt => absurd hlt (Nat.not_lt.mpr hge)
  builtin_names := rfl
  claimed_names := rfl
  pending := by simp [RegistrationContext.new]

/-- A call that creates no command leaves the names. -/
theorem Uncommitted.after (h : Uncommitted b calls context) (hnone : created_name call = none) :
    Uncommitted b (calls ++ [call]) context := by
  have hsame : (calls ++ [call]).filterMap created_name = calls.filterMap created_name := by
    rw [List.filterMap_append, List.filterMap_cons_none hnone, List.filterMap_nil,
      List.append_nil]
  refine { h with next := ?_, names := ?_ }
  · rw [hsame]
    exact h.next
  · rw [hsame]
    exact h.names

/-- What a handle stands for. -/
theorem Uncommitted.to_record (h : Uncommitted b calls context) (handle : CommandHandle) :
    (context.to_record (some handle) = none ∧ handle_name b calls handle = none) ∨
      ∃ ref, context.to_record (some handle) = some ref ∧
        handle_name b calls handle = some (context.tree.command ref).name ∧
        (ref = b.tree.root ∨ b.first ≤ ref ∧ ref < context.next) := by
  cases handle with
  | root =>
    refine .inr ⟨b.tree.root, ?_, ?_, .inl rfl⟩
    · rw [RegistrationContext.to_record, h.root]
    · rw [handle_name, h.root_name]
  | created index =>
    rw [RegistrationContext.to_record, h.first, handle_name]
    by_cases hlt : index < (calls.filterMap created_name).length
    · have hnext : b.first + index < context.next := by
        rw [h.next]
        exact Nat.add_lt_add_left hlt _
      rw [if_pos hnext, List.getElem?_eq_getElem hlt]
      refine .inr ⟨_, rfl, ?_, .inr ⟨Nat.le_add_right _ _, hnext⟩⟩
      rw [h.names index _ (List.getElem?_eq_getElem hlt)]
    · have hnext : ¬ b.first + index < context.next := by
        rw [h.next]
        exact fun hin => hlt (Nat.lt_of_add_lt_add_left hin)
      rw [if_neg hnext, List.getElem?_eq_none (Nat.not_lt.mp hlt)]
      exact .inl ⟨rfl, rfl⟩

/-- How a call may change a command. -/
structure Keeps (b : BuiltIn) (next : Ref) (ref : Ref) (cmd cmd' : Command) : Prop where
  name : cmd'.name = cmd.name
  privileged : cmd'.privileged = cmd.privileged
  pre_hooks : cmd'.pre_hooks = cmd.pre_hooks
  unaliased : cmd.name ∉ cmd.aliases → cmd'.name ∉ cmd'.aliases
  below : ∀ entry ∈ cmd'.commands, entry ∈ cmd.commands ∨ b.first ≤ entry.2 ∧ entry.2 < next
  root_commands : ref = b.tree.root → cmd'.commands = cmd.commands
  root_args : ref = b.tree.root → (∃ arg ∈ cmd.args, arg.name = b.tree.rt.str "json") →
    ∃ added, cmd'.args = cmd.args ++ added ∧ ∀ new ∈ added, Unrelated b.tree.rt new

theorem Uncommitted.update (h : Uncommitted b calls context) {change : Command → Command}
    (href : ref = b.tree.root ∨ b.first ≤ ref ∧ ref < context.next)
    (hkeeps : Keeps b context.next ref (context.tree.command ref)
      (change (context.tree.command ref))) : Uncommitted b calls (context.update ref change) := by
  have hself : (context.update ref change).tree.command ref = change (context.tree.command ref) :=
    Function.update_self _ _ _
  have hother (other : Ref) (hne : other ≠ ref) :
      (context.update ref change).tree.command other = context.tree.command other :=
    Function.update_of_ne hne _ _
  have hname (other : Ref) : ((context.update ref change).tree.command other).name =
      (context.tree.command other).name := by
    by_cases hne : other = ref
    · rw [hne, hself, hkeeps.name]
    · rw [hother other hne]
  constructor
  case toApart =>
    refine ⟨h.rt, h.root, h.hooks, fun other hlt hne => ?_, (hname _).trans h.root_name, ?_, ?_,
      fun other hge hlt => ?_, fun other hge hlt => ?_⟩
    · have hout : other ≠ ref := by
        rintro rfl
        rcases href with heq | ⟨hge, -⟩
        · exact hne heq
        · exact absurd hlt (Nat.not_lt.mpr hge)
      rw [hother other hout]
      exact h.builtin other hlt hne
    · by_cases heq : b.tree.root = ref
      · rw [heq, hself, hkeeps.pre_hooks, ← heq]
        exact h.root_hooks
      · rw [hother _ heq]
        exact h.root_hooks
    · obtain ⟨added, hargs, hadded⟩ := h.root_args
      by_cases heq : b.tree.root = ref
      · subst heq
        obtain ⟨arg, harg, hjson⟩ := b.json
        obtain ⟨later, hlater, hnew⟩ := hkeeps.root_args rfl
          ⟨arg, by rw [hargs]; exact List.mem_append_left _ harg, hjson⟩
        refine ⟨added ++ later, ?_, fun new hmem => ?_⟩
        · rw [hself, hlater, hargs, List.append_assoc]
        · exact (List.mem_append.mp hmem).elim (hadded new) (hnew new)
      · rw [hother _ heq]
        exact ⟨added, hargs, hadded⟩
    · by_cases heq : other = ref
      · subst heq
        rw [hself]
        exact hkeeps.unaliased (h.unaliased other hge hlt)
      · rw [hother other heq]
        exact h.unaliased other hge hlt
    · by_cases heq : other = ref
      · subst heq
        rw [hself]
        intro entry hentry
        exact (hkeeps.below entry hentry).elim (h.below other hge hlt entry) id
      · rw [hother other heq]
        exact h.below other hge hlt
  case first => exact h.first
  case next => exact h.next
  case names => exact fun index name hindex => (hname _).trans (h.names index name hindex)
  case root_commands =>
    by_cases heq : b.tree.root = ref
    · subst heq
      rw [hself, hkeeps.root_commands rfl, h.root_commands]
    · rw [hother _ heq, h.root_commands]
  case unmarked =>
    intro other hge hlt
    by_cases heq : other = ref
    · subst heq
      rw [hself, hkeeps.privileged, hkeeps.pre_hooks]
      exact h.unmarked other hge hlt
    · rw [hother other heq]
      exact h.unmarked other hge hlt
  case builtin_names => exact h.builtin_names
  case claimed_names => exact h.claimed_names
  case pending => exact h.pending

theorem Uncommitted.create_command (h : Uncommitted b calls context) (name : Option Bytes) :
    Uncommitted b (calls ++ [.create_command name]) (context.create_command (name.getD [])) := by
  have hself : (context.create_command (name.getD [])).tree.command context.next =
      new_command context.tree.rt (name.getD []) := Function.update_self _ _ _
  have hother (other : Ref) (hne : other ≠ context.next) :
      (context.create_command (name.getD [])).tree.command other = context.tree.command other :=
    Function.update_of_ne hne _ _
  have hfirst : b.first ≤ context.next := by
    rw [h.next]
    exact Nat.le_add_right _ _
  have hroot : b.tree.root ≠ context.next := (Nat.lt_of_lt_of_le b.root_lt hfirst).ne
  have hold {other : Ref} (hlt : other < context.next + 1) (hne : other ≠ context.next) :
      other < context.next := (Nat.lt_succ_iff.mp hlt).lt_of_ne hne
  have hcreated : (calls ++ [RegistrationCall.create_command name]).filterMap created_name =
      calls.filterMap created_name ++ [name.getD []] := by
    rw [List.filterMap_append]
    rfl
  constructor
  case toApart =>
    refine ⟨h.rt, h.root, h.hooks, fun other hlt hne => ?_, ?_, ?_, ?_,
      fun other hge hlt => ?_, fun other hge hlt => ?_⟩
    · rw [hother other (hlt.trans_le hfirst).ne]
      exact h.builtin other hlt hne
    · rw [hother _ hroot]
      exact h.root_name
    · rw [hother _ hroot]
      exact h.root_hooks
    · rw [hother _ hroot]
      exact h.root_args
    · by_cases heq : other = context.next
      · rw [heq, hself]
        exact List.not_mem_nil
      · rw [hother other heq]
        exact h.unaliased other hge (hold hlt heq)
    · by_cases heq : other = context.next
      · rw [heq, hself]
        exact fun entry hentry => absurd hentry List.not_mem_nil
      · rw [hother other heq]
        intro entry hentry
        obtain ⟨hentry, hin⟩ := h.below other hge (hold hlt heq) entry hentry
        exact ⟨hentry, Nat.lt_succ_of_lt hin⟩
  case first => exact h.first
  case next =>
    rw [hcreated, List.length_append, List.length_singleton, ← Nat.add_assoc, ← h.next]
    rfl
  case names =>
    intro index found hindex
    rw [hcreated] at hindex
    by_cases hlt : index < (calls.filterMap created_name).length
    · rw [List.getElem?_append_left hlt] at hindex
      have hne : b.first + index ≠ context.next := by
        rw [h.next]
        exact fun heq => hlt.ne (Nat.add_left_cancel heq)
      rw [hother _ hne]
      exact h.names index found hindex
    · rw [List.getElem?_append_right (Nat.not_lt.mp hlt)] at hindex
      have hzero : index - (calls.filterMap created_name).length = 0 := by
        by_contra hpos
        rw [List.getElem?_eq_none (Nat.one_le_iff_ne_zero.mpr hpos)] at hindex
        cases hindex
      rw [hzero] at hindex
      have heq : b.first + index = context.next := by
        rw [h.next, Nat.le_antisymm (Nat.le_of_sub_eq_zero hzero) (Nat.not_lt.mp hlt)]
      rw [heq, hself]
      exact Option.some.inj hindex
  case root_commands =>
    rw [hother _ hroot]
    exact h.root_commands
  case unmarked =>
    intro other hge hlt
    by_cases heq : other = context.next
    · rw [heq, hself]
      exact ⟨rfl, rfl⟩
    · rw [hother other heq]
      exact h.unmarked other hge (hold hlt heq)
  case builtin_names => exact h.builtin_names
  case claimed_names => exact h.claimed_names
  case pending =>
    intro sub hsub
    obtain ⟨hge, hlt⟩ := h.pending sub hsub
    exact ⟨hge, Nat.lt_succ_of_lt hlt⟩

/-- The call gives a command its own name as an alias. -/
def OwnAlias (b : BuiltIn) (calls : List RegistrationCall) (call : RegistrationCall) : Prop :=
  ∃ handle als, call = .add_alias (some handle) (some als) ∧ handle_name b calls handle = some als

theorem Uncommitted.add_alias (h : Uncommitted b calls context)
    (href : ref = b.tree.root ∨ b.first ≤ ref ∧ ref < context.next) {als : Bytes}
    (hne : als ≠ (context.tree.command ref).name) :
    Uncommitted b calls
      (context.update ref fun cmd => { cmd with aliases := cmd.aliases ++ [als] }) := by
  refine h.update href ⟨rfl, rfl, rfl, fun hmem => ?_, fun entry => .inl, fun _ => rfl,
    fun _ _ => ⟨[], (List.append_nil _).symm, by simp⟩⟩
  simpa [hmem] using hne.symm

theorem Uncommitted.add_argument (h : Uncommitted b calls context)
    (href : ref = b.tree.root ∨ b.first ≤ ref ∧ ref < context.next) (arg : ArgumentDef) :
    Uncommitted b calls (context.add_argument ref arg) := by
  refine h.update href ?_
  split
  next args hargs =>
    refine ⟨rfl, rfl, rfl, id, fun entry => .inl, fun _ => rfl, fun _ hjson => ?_⟩
    rw [h.rt] at hargs
    exact register_argument_unrelated hargs hjson
  next =>
    exact ⟨rfl, rfl, rfl, id, fun entry => .inl, fun _ => rfl,
      fun _ _ => ⟨[], (List.append_nil _).symm, by simp⟩⟩

theorem Uncommitted.set_handler (h : Uncommitted b calls context)
    (href : ref = b.tree.root ∨ b.first ≤ ref ∧ ref < context.next) (handler : Option ℕ) :
    Uncommitted b calls (context.update ref fun cmd => { cmd with handler := handler }) :=
  h.update href ⟨rfl, rfl, rfl, id, fun entry => .inl, fun _ => rfl,
    fun _ _ => ⟨[], (List.append_nil _).symm, by simp⟩⟩

theorem Uncommitted.ensure_arguments (h : Uncommitted b calls context)
    (hge : b.first ≤ ref) (hlt : ref < context.next) :
    Uncommitted b calls { context with tree := context.tree.ensure_arguments ref } := by
  have hne : ref ≠ b.tree.root := (b.root_lt.trans_le hge).ne'
  exact h.update (.inr ⟨hge, hlt⟩) ⟨rfl, rfl, rfl, id, fun entry => .inl, fun _ => rfl,
    fun heq => absurd heq hne⟩

theorem Uncommitted.attach (h : Uncommitted b calls context) {parent sub : Ref}
    (hparent : b.first ≤ parent ∧ parent < context.next)
    (hsub : b.first ≤ sub ∧ sub < context.next) :
    Uncommitted b calls { context with tree := context.tree.attach parent sub } := by
  have hne : parent ≠ b.tree.root := (b.root_lt.trans_le hparent.1).ne'
  let entry := ((context.tree.command sub).name, sub)
  let hang (cmd : Command) : Command :=
    { cmd with
      commands := cmd.commands.orderedInsert (fun a b => (compare a.1 b.1).isLE) entry }
  have hkeeps : Keeps b context.next parent (context.tree.command parent)
      (hang (context.tree.command parent)) := by
    refine ⟨rfl, rfl, rfl, id, fun entry hentry => ?_, fun heq => absurd heq hne,
      fun heq => absurd heq hne⟩
    rcases (List.mem_orderedInsert _).mp hentry with rfl | hold
    · exact .inr hsub
    · exact .inl hold
  exact h.update (.inr hparent) hkeeps

/-- Nothing is passed down before the commit, however deep the stack is. -/
theorem Uncommitted.add_subcommand (h : Uncommitted b calls context) {parent sub : Ref}
    (hparent : parent = b.tree.root ∨ b.first ≤ parent ∧ parent < context.next)
    (hsub : sub = b.tree.root ∨ b.first ≤ sub ∧ sub < context.next) :
    ∃ context', (∀ stack, context.add_subcommand stack parent sub = .ok context') ∧
      Uncommitted b calls context' := by
  have hptr (other : Ref) (hother : context.command_ptr sub = some other) :
      other = sub ∧ b.first ≤ sub ∧ sub < context.next := by
    rw [RegistrationContext.command_ptr] at hother
    split_ifs at hother with heq
    rw [h.root] at heq
    exact ⟨(Option.some.inj hother).symm, hsub.resolve_left heq⟩
  simp only [RegistrationContext.add_subcommand]
  rw [h.root]
  by_cases hroot : parent = b.tree.root
  · refine ⟨_, fun _ => if_pos hroot, { h with pending := fun other hother => ?_ }⟩
    rcases List.mem_append.mp hother with hold | hnew
    · exact h.pending other hold
    · obtain ⟨rfl, hin⟩ := hptr other (List.mem_singleton.mp hnew).symm
      exact hin
  · simp only [if_neg hroot]
    have hparent := hparent.resolve_left hroot
    cases hsome : context.command_ptr sub with
    | none => exact ⟨context, fun _ => rfl, h⟩
    | some other =>
      obtain ⟨rfl, hsub⟩ := hptr other hsome
      obtain ⟨hprivileged, hhooks⟩ := h.unmarked parent hparent.1 hparent.2
      have hensured := h.ensure_arguments hsub.1 hsub.2
      simp only [add_command_unmarked hprivileged hhooks]
      refine ⟨_, fun _ => rfl, ?_⟩
      split_ifs
      · exact hensured
      · exact hensured.attach hparent hsub

theorem Uncommitted.add_to_server (h : Uncommitted b calls context) (ref : Ref) :
    Uncommitted b calls (context.add_to_server ref) :=
  { h with }

theorem not_ownAlias (hcall : ∀ handle als, call ≠ .add_alias (some handle) (some als)) :
    ¬ OwnAlias b calls call :=
  fun ⟨handle, als, heq, _⟩ => hcall handle als heq

/-- A call that returns, and is none of those that create a command. -/
def Returns (b : BuiltIn) (calls : List RegistrationCall) (context : RegistrationContext)
    (call : RegistrationCall) : Prop :=
  ∃ context', (∀ stack, context.call stack call = .ok context') ∧
    Uncommitted b (calls ++ [call]) context'

theorem Uncommitted.ignored (h : Uncommitted b calls context) (hnone : created_name call = none)
    (hcall : ∀ stack, context.call stack call = .ok context) : Returns b calls context call :=
  ⟨context, hcall, h.after hnone⟩

/-- A call returns unless it gives a command its own name. -/
theorem Uncommitted.returns (h : Uncommitted b calls context) (hown : ¬ OwnAlias b calls call) :
    Returns b calls context call := by
  cases call with
  | create_command name => exact ⟨_, fun _ => rfl, h.create_command name⟩
  | add_alias command als =>
    rcases command with _ | handle
    · exact h.ignored rfl fun _ => rfl
    rcases als with _ | als
    · refine h.ignored rfl fun _ => ?_
      cases hr : context.to_record (some handle) <;> simp only [RegistrationContext.call, hr]
    · rcases h.to_record handle with ⟨hnone, -⟩ | ⟨ref, href, hname, hin⟩
      · refine h.ignored rfl fun _ => ?_
        simp only [RegistrationContext.call, hnone]
      · have hne : als ≠ (context.tree.command ref).name := by
          rintro rfl
          exact hown ⟨handle, _, rfl, hname⟩
        refine ⟨_, fun _ => ?_, (h.add_alias hin hne).after rfl⟩
        simp only [RegistrationContext.call, href, RegistrationContext.add_alias, if_neg hne]
  | add_keyword_arg command name aliases type required default_value =>
    rcases command with _ | handle
    · exact h.ignored rfl fun _ => rfl
    rcases name with _ | name
    · refine h.ignored rfl fun _ => ?_
      cases hr : context.to_record (some handle) <;> simp only [RegistrationContext.call, hr]
    · rcases h.to_record handle with ⟨hnone, -⟩ | ⟨ref, href, -, hin⟩
      · refine h.ignored rfl fun _ => ?_
        simp only [RegistrationContext.call, hnone]
      · have hadded := h.add_argument hin
          (keyword_argument name aliases type required default_value)
        refine ⟨_, fun _ => ?_, hadded.after rfl⟩
        simp only [RegistrationContext.call, href]
  | add_positional_arg command name required default_value =>
    rcases command with _ | handle
    · exact h.ignored rfl fun _ => rfl
    rcases name with _ | name
    · refine h.ignored rfl fun _ => ?_
      cases hr : context.to_record (some handle) <;> simp only [RegistrationContext.call, hr]
    · rcases h.to_record handle with ⟨hnone, -⟩ | ⟨ref, href, -, hin⟩
      · refine h.ignored rfl fun _ => ?_
        simp only [RegistrationContext.call, hnone]
      · have hadded := h.add_argument hin (positional_argument name required default_value)
        refine ⟨_, fun _ => ?_, hadded.after rfl⟩
        simp only [RegistrationContext.call, href]
  | set_handler command handler =>
    rcases command with _ | handle
    · exact h.ignored rfl fun _ => rfl
    rcases h.to_record handle with ⟨hnone, -⟩ | ⟨ref, href, -, hin⟩
    · refine h.ignored rfl fun _ => ?_
      simp only [RegistrationContext.call, hnone]
    · refine ⟨_, fun _ => ?_, (h.set_handler hin handler).after rfl⟩
      simp only [RegistrationContext.call, href]
  | add_subcommand parent child =>
    rcases parent with _ | parent
    · exact h.ignored rfl fun _ => rfl
    rcases child with _ | child
    · refine h.ignored rfl fun _ => ?_
      have hnull : context.to_record none = none := rfl
      cases hr : context.to_record (some parent) <;>
        simp only [RegistrationContext.call, hr, hnull]
    rcases h.to_record parent with ⟨hnone, -⟩ | ⟨above, habove, -, hparent⟩
    · refine h.ignored rfl fun _ => ?_
      simp only [RegistrationContext.call, hnone]
    rcases h.to_record child with ⟨hnone, -⟩ | ⟨sub, hsub, -, hchild⟩
    · refine h.ignored rfl fun _ => ?_
      simp only [RegistrationContext.call, habove, hnone]
    · obtain ⟨context', hadd, hkept⟩ := h.add_subcommand hparent hchild
      refine ⟨context', fun stack => ?_, hkept.after rfl⟩
      simp only [RegistrationContext.call, habove, hsub]
      exact hadd stack
  | add_to_server command =>
    rcases command with _ | handle
    · exact h.ignored rfl fun _ => rfl
    rcases h.to_record handle with ⟨hnone, -⟩ | ⟨ref, href, -, -⟩
    · refine h.ignored rfl fun _ => ?_
      simp only [RegistrationContext.call, hnone]
    · refine ⟨_, fun _ => ?_, (h.add_to_server ref).after rfl⟩
      simp only [RegistrationContext.call, href]

/-- An alias that is the name of its command is an exception nobody catches. -/
theorem Uncommitted.throws (h : Uncommitted b calls context) (hown : OwnAlias b calls call) :
    context.call stack call = .error .exception := by
  obtain ⟨handle, als, rfl, hname⟩ := hown
  rcases h.to_record handle with ⟨-, hnone⟩ | ⟨ref, href, hsome, -⟩
  · rw [hname] at hnone
    cases hnone
  · rw [hname] at hsome
    simp only [RegistrationContext.call, href, RegistrationContext.add_alias,
      if_pos (Option.some.inj hsome)]

/-- All calls return unless one of them gives a command its own name. -/
theorem Uncommitted.run (h : Uncommitted b calls context) (later : List RegistrationCall)
    (hown : ∀ before call after, later = before ++ call :: after →
      ¬ OwnAlias b (calls ++ before) call) :
    ∃ context', (∀ stack, later.foldlM (fun context => context.call stack) context = .ok context') ∧
      Uncommitted b (calls ++ later) context' := by
  induction later generalizing calls context with
  | nil => exact ⟨context, fun _ => rfl, by rwa [List.append_nil]⟩
  | cons call later ih =>
    have hfirst : ¬ OwnAlias b calls call := by
      simpa using hown [] call later rfl
    obtain ⟨next, hcall, hnext⟩ := h.returns hfirst
    obtain ⟨last, hrun, hlast⟩ := ih hnext fun before later' after heq => by
      simpa using hown (call :: before) later' after (by rw [heq]; rfl)
    refine ⟨last, fun stack => ?_, by simpa using hlast⟩
    rw [List.foldlM_cons, hcall stack]
    exact hrun stack

theorem Uncommitted.run_only (h : Uncommitted b calls context) {later : List RegistrationCall}
    {last : RegistrationContext}
    (hrun : later.foldlM (fun context => context.call stack) context = .ok last)
    {before after : List RegistrationCall} (hsplit : later = before ++ call :: after) :
    ¬ OwnAlias b (calls ++ before) call := by
  induction before generalizing calls context later with
  | nil =>
    intro hown
    rw [List.append_nil] at hown
    rw [hsplit, List.nil_append, List.foldlM_cons, h.throws hown] at hrun
    cases hrun
  | cons first before ih =>
    rw [hsplit, List.cons_append, List.foldlM_cons] at hrun
    by_cases hown : OwnAlias b calls first
    · rw [h.throws hown] at hrun
      cases hrun
    · obtain ⟨next, hcall, hnext⟩ := h.returns hown
      rw [hcall stack] at hrun
      simpa using ih hnext hrun rfl

end Zowex.plugin

namespace Zowex.parser

variable {p : Program} {cmd : Command}

/-! A new subcommand among the others. -/

theorem filter_orderedInsert_of_not {α : Type*} {r : α → α → Prop} [DecidableRel r]
    {keep : α → Bool} {new : α} (hnew : keep new = false) (old : List α) :
    (old.orderedInsert r new).filter keep = old.filter keep := by
  induction old with
  | nil => simp [hnew]
  | cons first old ih =>
    rw [List.orderedInsert_cons]
    split_ifs
    · rw [List.filter_cons_of_neg (by simp [hnew])]
    · simp only [List.filter_cons, ih]

theorem filter_orderedInsert_of_only {α : Type*} {r : α → α → Prop} [DecidableRel r]
    {keep : α → Bool} {new : α} (hnew : keep new = true) {old : List α}
    (hold : ∀ other ∈ old, keep other = false) :
    (old.orderedInsert r new).filter keep = [new] := by
  induction old with
  | nil => simp [hnew]
  | cons first old ih =>
    obtain ⟨hfirst, hrest⟩ := List.forall_mem_cons.mp hold
    rw [List.orderedInsert_cons]
    split_ifs
    · rw [List.filter_cons_of_pos hnew, List.filter_eq_nil_iff.mpr]
      exact fun other hother => by simp [hold other hother]
    · rw [List.filter_cons_of_neg (by simp [hfirst]), ih hrest]

/-- A subcommand answers to a word. -/
def Answers (p : Program) (word : Bytes) (entry : Bytes × Ref) : Prop :=
  entry.1 = word ∨ word ∈ (p.command entry.2).aliases

theorem find_subcommand_inserted_of_not {word : Bytes} {new : Bytes × Ref}
    {r : Bytes × Ref → Bytes × Ref → Prop} [DecidableRel r] (hnew : ¬ Answers p word new) :
    find_subcommand p { cmd with commands := cmd.commands.orderedInsert r new } word =
      find_subcommand p cmd word := by
  rw [Answers, not_or] at hnew
  rw [find_subcommand, find_subcommand, ← List.head?_filter, ← List.head?_filter,
    filter_orderedInsert_of_not (by simpa using hnew.1),
    filter_orderedInsert_of_not (by simpa using hnew.2)]

theorem find_subcommand_inserted_of_only {word : Bytes} {new : Bytes × Ref}
    {r : Bytes × Ref → Bytes × Ref → Prop} [DecidableRel r] (hnew : Answers p word new)
    (hold : ∀ entry ∈ cmd.commands, ¬ Answers p word entry) :
    find_subcommand p { cmd with commands := cmd.commands.orderedInsert r new } word =
      .command new.2 := by
  simp only [Answers, not_or] at hold
  rw [find_subcommand, ← List.head?_filter]
  by_cases hname : new.1 = word
  · rw [filter_orderedInsert_of_only (by simpa using hname)
      fun entry hentry => by simpa using (hold entry hentry).1]
    rfl
  · rw [filter_orderedInsert_of_not (by simpa using hname), List.filter_eq_nil_iff.mpr
      fun entry hentry => by simpa using (hold entry hentry).1,
      filter_orderedInsert_of_only (by simpa using hnew.resolve_left hname)
        fun entry hentry => by simpa using (hold entry hentry).2]
    rfl

end Zowex.parser

namespace Zowex.plugin

open lexer parser Tree Descents

variable {b : BuiltIn} {registered context : RegistrationContext} {stack : ℕ} {sub : Ref}

/-! The commit. -/

theorem mem_top_level_names {tree : Tree} {word : Bytes} : word ∈ top_level_names tree ↔
    ∃ entry ∈ (tree.command tree.root).commands,
      Answers (tree.program fun _ _ => 0) word entry := by
  rw [top_level_names, List.mem_flatMap]
  refine exists_congr fun entry => and_congr_right fun _ => ?_
  rw [List.mem_cons, Answers, eq_comm]
  rfl

theorem mem_command_tokens {tree : Tree} {word : Bytes} : word ∈ command_tokens tree sub ↔
    Answers (tree.program fun _ _ => 0) word ((tree.command sub).name, sub) := by
  rw [command_tokens, List.mem_cons, Answers, eq_comm]
  rfl

/-- In the commit, after some of the commands. -/
structure Committing (b : BuiltIn) (registered context : RegistrationContext) : Prop
    extends Apart b registered.next context.tree where
  name : ∀ ref, (context.tree.command ref).name = (registered.tree.command ref).name
  aliases : ∀ ref, (context.tree.command ref).aliases = (registered.tree.command ref).aliases
  commands : ∀ ref ≠ b.tree.root,
    (context.tree.command ref).commands = (registered.tree.command ref).commands
  builtin_names : context.builtin_names = top_level_names b.tree
  claimed : ∀ word ∈ top_level_names context.tree, word ∈ context.claimed_names
  found : ∀ word ∈ top_level_names context.tree, ∃ sub, find_subcommand
    (context.tree.program fun _ _ => 0) (context.tree.command context.tree.root) word = .command sub
  kept : ∀ word ∈ top_level_names b.tree, word ∈ context.claimed_names ∧
    find_subcommand (context.tree.program fun _ _ => 0) (context.tree.command b.tree.root) word =
      find_subcommand (b.tree.program fun _ _ => 0) (b.tree.command b.tree.root) word

theorem Uncommitted.committing {calls : List RegistrationCall} (h : Uncommitted b calls registered) :
    Committing b registered registered := by
  have hbelow (entry : Bytes × Ref) (hentry : entry ∈ (b.tree.command b.tree.root).commands) :
      entry.2 < b.first ∧ entry.2 ≠ b.tree.root :=
    b.below b.tree.root entry.2 b.root_lt (List.mem_map.mpr ⟨entry, hentry, rfl⟩)
  have hnames : top_level_names registered.tree = top_level_names b.tree := by
    rw [top_level_names, top_level_names, h.root, h.root_commands]
    refine List.flatMap_congr fun entry hentry => ?_
    rw [h.builtin entry.2 (hbelow entry hentry).1 (hbelow entry hentry).2]
  have hfind (word : Bytes) : find_subcommand (registered.tree.program fun _ _ => 0)
      (registered.tree.command b.tree.root) word =
        find_subcommand (b.tree.program fun _ _ => 0) (b.tree.command b.tree.root) word := by
    rw [← h.toApart.find_builtin _ _ hbelow, find_subcommand, find_subcommand, h.root_commands]
  refine ⟨h.toApart, fun _ => rfl, fun _ => rfl, fun _ _ => rfl, h.builtin_names, ?_, ?_, ?_⟩
  · rw [h.claimed_names, hnames]
    exact fun word => id
  · rw [hnames, h.root]
    intro word hword
    rw [hfind]
    exact b.found word hword
  · rw [h.claimed_names]
    exact fun word hword => ⟨hword, hfind word⟩

/-- The built-in tokens are claimed as well. -/
theorem Committing.find_collision (h : Committing b registered context) (tokens : List Bytes) :
    context.find_collision tokens = tokens.any context.claimed_names.contains := by
  rw [RegistrationContext.find_collision, h.builtin_names]
  refine congrArg (List.any tokens) (funext fun token => ?_)
  by_cases hbuiltin : token ∈ top_level_names b.tree
  · simp [hbuiltin, (h.kept token hbuiltin).1]
  · simp [hbuiltin]

theorem Committing.tokens (h : Committing b registered context) (sub : Ref) :
    command_tokens context.tree sub = command_tokens registered.tree sub := by
  rw [command_tokens, command_tokens, h.name, h.aliases]

/-- Where no token is claimed, `add_command` does not throw. -/
theorem Committing.name_not_taken (h : Committing b registered context)
    (hsub : b.first ≤ sub ∧ sub < registered.next)
    (hfree : ∀ token ∈ command_tokens context.tree sub, token ∉ context.claimed_names) :
    context.tree.name_taken context.tree.root sub = false := by
  have hentry (entry : Bytes × Ref)
      (hmem : entry ∈ (context.tree.command context.tree.root).commands) (word : Bytes)
      (hanswers : Answers (context.tree.program fun _ _ => 0) word entry) :
      word ∉ command_tokens context.tree sub :=
    fun htoken => hfree word htoken (h.claimed word (mem_top_level_names.mpr
      ⟨entry, hmem, hanswers⟩))
  have hname : (context.tree.command sub).name ∈ command_tokens context.tree sub :=
    List.mem_cons_self
  have halias (als : Bytes) (hals : als ∈ (context.tree.command sub).aliases) :
      als ∈ command_tokens context.tree sub := List.mem_cons_of_mem _ hals
  rw [name_taken]
  simp only [Bool.or_eq_false_iff]
  refine ⟨⟨?_, ?_⟩, ?_⟩
  · rw [List.any_eq_false]
    intro entry hmem hsame
    exact hentry entry hmem _ (.inl (by simpa using hsame)) hname
  · rw [List.any_eq_false]
    intro entry hmem htaken
    rw [Bool.or_eq_true, List.any_eq_true] at htaken
    rcases htaken with hsame | ⟨als, hals, hsame⟩
    · exact hentry entry hmem _ (.inr (List.contains_iff_mem.mp hsame)) hname
    · rw [Bool.or_eq_true] at hsame
      refine hentry entry hmem als ?_ (halias als hals)
      rcases hsame with heq | hin
      · exact .inl (by simpa using heq)
      · exact .inr (List.contains_iff_mem.mp hin)
  · have hunaliased := h.unaliased sub hsub.1 hsub.2
    simpa using hunaliased

/-- What is below a command of the plug-ins stays the same. -/
theorem Committing.shallow_iff (h : Committing b registered context) {n : ℕ}
    (hsub : b.first ≤ sub ∧ sub < registered.next) :
    Shallow context.tree.children n sub ↔ Shallow registered.tree.children n sub := by
  induction n generalizing sub with
  | zero => rfl
  | succ n ih =>
    have hne : sub ≠ b.tree.root := (b.root_lt.trans_le hsub.1).ne'
    have hchildren : context.tree.children sub = registered.tree.children sub := by
      rw [Tree.children, Tree.children, h.commands sub hne]
    rw [Shallow, Shallow, hchildren]
    refine forall₂_congr fun next hnext => ih ?_
    rw [← hchildren] at hnext
    obtain ⟨entry, hentry, rfl⟩ := List.mem_map.mp hnext
    exact h.below sub hsub.1 hsub.2 entry hentry

theorem Committing.reaches (h : Committing b registered context)
    (hsub : b.first ≤ sub ∧ sub < registered.next) {ref : Ref}
    (hreaches : context.tree.reaches sub ref) : b.first ≤ ref ∧ ref < registered.next := by
  induction hreaches with
  | refl => exact hsub
  | @tail parent next _ hchild ih =>
    obtain ⟨entry, hentry, rfl⟩ := List.mem_map.mp hchild
    exact h.below parent ih.1 ih.2 entry hentry

theorem Committing.reject (h : Committing b registered context) (sub : Ref) :
    Committing b registered (context.reject sub) :=
  { h with }

/-- A command below the root, and its tokens claimed. -/
structure Hung (b : BuiltIn) (registered context : RegistrationContext) (sub : Ref)
    (tree : Tree) : Prop where
  committing : Committing b registered
    { context with
      tree := tree, claimed_names := context.claimed_names ++ command_tokens context.tree sub }
  children : ∀ ref, tree.child b.tree.root ref ↔ context.tree.child b.tree.root ref ∨ ref = sub

theorem Committing.hung (h : Committing b registered context)
    (hsub : b.first ≤ sub ∧ sub < registered.next)
    (hfree : ∀ token ∈ command_tokens context.tree sub, token ∉ context.claimed_names)
    {tree : Tree} (hadd : context.tree.add_command stack context.tree.root sub = some tree) :
    Hung b registered context sub tree := by
  obtain ⟨marked, hmarked, htree⟩ := add_command_marked hadd
  rw [h.name_not_taken hsub hfree, if_neg Bool.false_ne_true, h.root] at htree
  have hcreated (ref : Ref) (href : context.tree.reaches sub ref) :=
    h.reaches hsub href
  have hrootout : ¬ context.tree.reaches sub b.tree.root := fun hin =>
    absurd b.root_lt (Nat.not_lt.mpr (hcreated _ hin).1)
  have hroot : marked.command b.tree.root = context.tree.command b.tree.root :=
    hmarked.outside _ hrootout
  let new : Bytes × Ref := ((context.tree.command sub).name, sub)
  let before (x y : Bytes × Ref) : Prop := (compare x.1 y.1).isLE
  have hself : tree.command b.tree.root = { context.tree.command b.tree.root with
      commands := (context.tree.command b.tree.root).commands.orderedInsert before new } := by
    rw [htree, ← hroot]
    have hname : ((marked.command sub).name, sub) = new := by rw [hmarked.name]
    rw [Tree.attach, hname]
    exact Function.update_self _ _ _
  have hother (ref : Ref) (hne : ref ≠ b.tree.root) : tree.command ref = marked.command ref := by
    rw [htree]
    exact Function.update_of_ne hne _ _
  have houtline (ref : Ref) : (tree.command ref).name = (context.tree.command ref).name ∧
      (tree.command ref).aliases = (context.tree.command ref).aliases := by
    by_cases heq : ref = b.tree.root
    · rw [heq, hself]
      exact ⟨rfl, rfl⟩
    · rw [hother ref heq]
      exact ⟨hmarked.name ref, hmarked.aliases ref⟩
  have hcommands (ref : Ref) (hne : ref ≠ b.tree.root) :
      (tree.command ref).commands = (context.tree.command ref).commands := by
    rw [hother ref hne, hmarked.commands]
  have hne {ref : Ref} (hge : b.first ≤ ref) : ref ≠ b.tree.root := (b.root_lt.trans_le hge).ne'
  have htreeroot : tree.root = b.tree.root := by
    rw [htree]
    exact hmarked.root.trans h.root
  have hanswers (word : Bytes) (entry : Bytes × Ref) :
      Answers (tree.program fun _ _ => 0) word entry ↔
        Answers (context.tree.program fun _ _ => 0) word entry :=
    or_congr_right (by rw [program, (houtline entry.2).2, program])
  have hfind (word : Bytes) (cmd : Command) : find_subcommand (tree.program fun _ _ => 0) cmd word =
      find_subcommand (context.tree.program fun _ _ => 0) cmd word :=
    find_subcommand_congr fun entry _ => (houtline entry.2).2
  have hold (word : Bytes) (hword : word ∉ command_tokens context.tree sub) :
      find_subcommand (tree.program fun _ _ => 0) (tree.command b.tree.root) word =
        find_subcommand (context.tree.program fun _ _ => 0) (context.tree.command b.tree.root)
          word := by
    rw [hself, find_subcommand_inserted_of_not, hfind]
    rw [hanswers]
    exact fun hnew => hword (mem_command_tokens.mpr hnew)
  have hnew (word : Bytes) (hword : word ∈ command_tokens context.tree sub) :
      find_subcommand (tree.program fun _ _ => 0) (tree.command b.tree.root) word =
        .command sub := by
    rw [hself, find_subcommand_inserted_of_only]
    · rw [hanswers]
      exact mem_command_tokens.mp hword
    · intro entry hentry hanswer
      rw [hanswers] at hanswer
      refine hfree word hword (h.claimed word (mem_top_level_names.mpr ⟨entry, ?_, hanswer⟩))
      rwa [h.root]
  have hnames (word : Bytes) (hword : word ∈ top_level_names tree) :
      word ∈ top_level_names context.tree ∨ word ∈ command_tokens context.tree sub := by
    obtain ⟨entry, hentry, hanswer⟩ := mem_top_level_names.mp hword
    rw [hanswers] at hanswer
    rw [htreeroot, hself] at hentry
    rcases (List.mem_orderedInsert _).mp hentry with rfl | hentry
    · exact .inr (mem_command_tokens.mpr hanswer)
    · exact .inl (mem_top_level_names.mpr ⟨entry, by rwa [h.root], hanswer⟩)
  refine ⟨⟨⟨?_, htreeroot, ?_, fun ref hlt href => ?_, ?_, ?_, ?_, fun ref hge hlt => ?_,
    fun ref hge hlt => ?_⟩, fun ref => (houtline ref).1.trans (h.name ref),
    fun ref => (houtline ref).2.trans (h.aliases ref),
    fun ref href => (hcommands ref href).trans (h.commands ref href), h.builtin_names,
    fun word hword => ?_, fun word hword => ?_, fun word hword => ?_⟩, fun ref => ?_⟩
  · rw [htree]
    exact hmarked.rt.trans h.rt
  · rw [htree]
    exact hmarked.hooks.trans h.hooks
  · refine (hother ref href).trans ((hmarked.outside ref fun hin => ?_).trans
      (h.builtin ref hlt href))
    exact absurd hlt (Nat.not_lt.mpr (hcreated ref hin).1)
  · exact (houtline _).1.trans h.root_name
  · rw [hself]
    exact h.root_hooks
  · rw [hself]
    exact h.root_args
  · rw [(houtline ref).1, (houtline ref).2]
    exact h.unaliased ref hge hlt
  · rw [hcommands ref (hne hge)]
    exact h.below ref hge hlt
  · rcases hnames word hword with hmem | hmem
    · exact List.mem_append_left _ (h.claimed word hmem)
    · exact List.mem_append_right _ hmem
  · rw [htreeroot]
    by_cases htoken : word ∈ command_tokens context.tree sub
    · exact ⟨sub, hnew word htoken⟩
    · rw [hold word htoken, ← h.root]
      exact h.found word ((hnames word hword).resolve_right htoken)
  · obtain ⟨hclaimed, hkept⟩ := h.kept word hword
    refine ⟨List.mem_append_left _ hclaimed, ?_⟩
    rw [hold word fun htoken => hfree word htoken hclaimed]
    exact hkept
  · rw [child, child, Tree.children, Tree.children, hself]
    simp only [List.mem_map, List.mem_orderedInsert]
    constructor
    · rintro ⟨entry, rfl | hentry, rfl⟩
      · exact .inr rfl
      · exact .inl ⟨entry, hentry, rfl⟩
    · rintro (⟨entry, hentry, rfl⟩ | rfl)
      · exact ⟨entry, .inr hentry, rfl⟩
      · exact ⟨new, .inl rfl, rfl⟩

theorem Committing.commit_claimed (h : Committing b registered context)
    (hclaimed : (command_tokens registered.tree sub).any context.claimed_names.contains = true) :
    context.commit stack (some sub) = .ok (context.reject sub) := by
  rw [RegistrationContext.commit, RegistrationContext.commit_root_command, h.find_collision,
    h.tokens, if_pos hclaimed]

theorem Committing.free (h : Committing b registered context)
    (hfree : (command_tokens registered.tree sub).any context.claimed_names.contains ≠ true) :
    ∀ token ∈ command_tokens context.tree sub, token ∉ context.claimed_names := by
  rw [h.tokens]
  simpa using hfree

/-- A command whose tokens are free is hung below the root, if the stack is deep enough. -/
theorem Committing.commit_free (h : Committing b registered context)
    (hsub : b.first ≤ sub ∧ sub < registered.next)
    (hfree : (command_tokens registered.tree sub).any context.claimed_names.contains ≠ true) :
    ((∃ next, context.commit stack (some sub) = .ok next) ↔
      Shallow registered.tree.children stack sub) ∧
    ∀ next, context.commit stack (some sub) = .ok next →
      ∃ tree, Hung b registered context sub tree ∧ next = { context with
        tree := tree, claimed_names := context.claimed_names ++ command_tokens context.tree sub } := by
  have htokens := h.free hfree
  have hhooks : (context.tree.command context.tree.root).pre_hooks = true := by
    rw [h.root]
    exact h.root_hooks
  rw [← h.shallow_iff hsub, ← add_command_returns hhooks, RegistrationContext.commit,
    RegistrationContext.commit_root_command, h.find_collision, h.tokens, if_neg hfree,
    h.name_not_taken hsub htokens]
  cases hadd : context.tree.add_command stack context.tree.root sub with
  | none => simp
  | some tree =>
    refine ⟨⟨fun _ => ⟨tree, rfl⟩, fun _ => ⟨_, rfl⟩⟩, ?_⟩
    rintro _ ⟨⟩
    exact ⟨tree, h.hung hsub htokens hadd, rfl⟩

/-- The commit returns exactly if the stack is deep enough for all that is accepted. -/
theorem Committing.commit_returns (h : Committing b registered context)
    (pending : List (Option Ref))
    (hpending : ∀ sub, some sub ∈ pending → b.first ≤ sub ∧ sub < registered.next) :
    (∃ last, pending.foldlM (fun context => context.commit stack) context = .ok last) ↔
      ∀ sub ∈ accepted registered.tree context.claimed_names pending,
        Shallow registered.tree.children stack sub := by
  induction pending generalizing context with
  | nil => exact ⟨fun _ sub hsub => absurd hsub List.not_mem_nil, fun _ => ⟨context, rfl⟩⟩
  | cons first pending ih =>
    have hrest := fun sub hsub => hpending sub (List.mem_cons_of_mem _ hsub)
    rw [List.foldlM_cons]
    cases first with
    | none => exact ih h hrest
    | some sub =>
      have hsub := hpending sub List.mem_cons_self
      rw [accepted]
      by_cases hclaimed :
          (command_tokens registered.tree sub).any context.claimed_names.contains = true
      · rw [h.commit_claimed hclaimed, if_pos hclaimed]
        exact ih (h.reject sub) hrest
      · obtain ⟨hreturns, hnext⟩ := h.commit_free hsub hclaimed
        rw [if_neg hclaimed, List.forall_mem_cons, ← hreturns, ← h.tokens]
        cases hcommit : context.commit stack (some sub) with
        | error e => simp [bind, Except.bind]
        | ok next =>
          obtain ⟨tree, hhung, rfl⟩ := hnext next hcommit
          exact (ih hhung.committing hrest).trans (and_iff_right ⟨_, rfl⟩).symm

/-- The root gets the commands that are accepted, and the others that were to be there are on the
server no more. -/
theorem Committing.commit_pending (h : Committing b registered context)
    {pending : List (Option Ref)} {last : RegistrationContext}
    (hpending : ∀ sub, some sub ∈ pending → b.first ≤ sub ∧ sub < registered.next)
    (hfold : pending.foldlM (fun context => context.commit stack) context = .ok last) :
    Committing b registered last ∧
      (∀ ref, last.tree.child b.tree.root ref ↔ context.tree.child b.tree.root ref ∨
        ref ∈ accepted registered.tree context.claimed_names pending) ∧
      ∀ sub, some sub ∈ last.server_commands → some sub ∈ context.server_commands ∧
        (some sub ∈ pending → sub ∈ accepted registered.tree context.claimed_names pending) := by
  induction pending generalizing context with
  | nil =>
    cases hfold
    exact ⟨h, fun ref => by simp [accepted], fun sub hsub => ⟨hsub, by simp⟩⟩
  | cons first pending ih =>
    have hrest := fun sub hsub => hpending sub (List.mem_cons_of_mem _ hsub)
    rw [List.foldlM_cons] at hfold
    cases first with
    | none =>
      obtain ⟨hlast, hchildren, hserver⟩ := ih h hrest hfold
      exact ⟨hlast, hchildren, fun sub hsub =>
        ⟨(hserver sub hsub).1, fun hmem => (hserver sub hsub).2 (by simpa using hmem)⟩⟩
    | some sub =>
      have hsub := hpending sub List.mem_cons_self
      rw [accepted]
      by_cases hclaimed :
          (command_tokens registered.tree sub).any context.claimed_names.contains = true
      · rw [h.commit_claimed hclaimed] at hfold
        rw [if_pos hclaimed]
        obtain ⟨hlast, hchildren, hserver⟩ := ih (h.reject sub) hrest hfold
        refine ⟨hlast, hchildren, fun other hother => ?_⟩
        obtain ⟨hold, hlater⟩ := hserver other hother
        have hkept := List.mem_filter.mp hold
        refine ⟨hkept.1, fun hmem => hlater ?_⟩
        rcases List.mem_cons.mp hmem with heq | hmem
        · exact absurd heq (by simpa using hkept.2)
        · exact hmem
      · obtain ⟨-, hnext⟩ := h.commit_free hsub hclaimed
        cases hcommit : context.commit stack (some sub) with
        | error e =>
          rw [hcommit] at hfold
          cases hfold
        | ok next =>
          rw [hcommit] at hfold
          obtain ⟨tree, hhung, rfl⟩ := hnext next hcommit
          obtain ⟨hlast, hchildren, hserver⟩ := ih hhung.committing hrest hfold
          rw [h.tokens] at hchildren hserver
          rw [if_neg hclaimed]
          refine ⟨hlast, fun ref => ?_, fun other hother => ?_⟩
          · rw [hchildren, hhung.children, List.mem_cons, or_assoc]
          · obtain ⟨hold, hlater⟩ := hserver other hother
            refine ⟨hold, fun hmem => ?_⟩
            rcases List.mem_cons.mp hmem with heq | hmem
            · exact List.mem_cons.mpr (.inl (Option.some.inj heq))
            · exact List.mem_cons_of_mem _ (hlater hmem)

theorem accepted_pending {tree : Tree} {claimed : List Bytes} {pending : List (Option Ref)}
    (h : sub ∈ accepted tree claimed pending) : some sub ∈ pending := by
  induction pending generalizing claimed with
  | nil => exact absurd h List.not_mem_nil
  | cons first pending ih =>
    cases first with
    | none => exact List.mem_cons_of_mem _ (ih h)
    | some other =>
      rw [accepted] at h
      split_ifs at h
      · exact List.mem_cons_of_mem _ (ih h)
      · rcases List.mem_cons.mp h with rfl | h
        · exact List.mem_cons_self
        · exact List.mem_cons_of_mem _ (ih h)

variable {calls : List RegistrationCall}

/-- Some stack is deep enough where nothing is below itself. -/
theorem Uncommitted.acyclic_iff (h : Uncommitted b calls registered) :
    (∃ stack, ∀ top ∈ registered.accepted, Shallow registered.tree.children stack top) ↔
      registered.Acyclic := by
  constructor
  · rintro ⟨stack, hshallow⟩ top htop sub hreaches
    exact (hshallow top htop).acyclic hreaches
  · intro hacyclic
    refine shallow_all fun top htop => exists_shallow ?_ (hacyclic top htop)
    refine (Set.finite_Iio registered.next).subset fun ref hreaches => ?_
    exact (h.committing.reaches (h.pending top (accepted_pending htop)) hreaches).2

theorem names_itself_iff : NamesItself b calls ↔
    ∃ before call after, calls = before ++ call :: after ∧ OwnAlias b before call := by
  constructor
  · rintro ⟨before, handle, als, after, heq, hname⟩
    exact ⟨before, _, after, heq, handle, als, rfl, hname⟩
  · rintro ⟨before, _, after, heq, handle, als, rfl, hname⟩
    exact ⟨before, handle, als, after, heq, hname⟩

variable {providers : List CommandProvider}

/-- Before the commit, only an alias that is the name of its command is fatal. -/
theorem register_calls_returns (hnames : ¬ NamesItself b (provider_calls providers)) :
    ∃ registered, (∀ stack, register_calls stack (.new b.tree b.first) providers = .ok registered) ∧
      Uncommitted b (provider_calls providers) registered := by
  refine (uncommitted_new b).run _ fun before call after heq hown => ?_
  exact hnames (names_itself_iff.mpr ⟨before, call, after, heq, hown⟩)

theorem register_calls_named {registered : RegistrationContext}
    (h : register_calls stack (.new b.tree b.first) providers = .ok registered) :
    ¬ NamesItself b (provider_calls providers) := by
  rw [names_itself_iff]
  rintro ⟨before, call, after, heq, hown⟩
  exact (uncommitted_new b).run_only h heq hown

theorem register_commands_iff
    (h : register_calls stack (.new b.tree b.first) providers = .ok registered) :
    register_commands stack b.tree b.first providers = .ok context ↔
      ∃ last, registered.pending_root_commands.foldlM
        (fun context : RegistrationContext => context.commit stack) registered = .ok last ∧
          { last with pending_root_commands := [] } = context := by
  rw [register_commands, h]
  change registered.commit_root_commands stack = .ok context ↔ _
  rw [RegistrationContext.commit_root_commands]
  cases registered.pending_root_commands.foldlM
      (fun context : RegistrationContext => context.commit stack) registered with
  | error e => simp [bind, Except.bind]
  | ok last => simp [bind, Except.bind, pure, Except.pure]

theorem Committing.contained (h : Committing b registered context)
    (hchildren : ∀ ref, context.tree.child b.tree.root ref ↔
      b.tree.child b.tree.root ref ∨ ref ∈ registered.accepted)
    (hserver : ∀ sub, some sub ∈ context.server_commands →
      some sub ∈ registered.pending_root_commands → sub ∈ registered.accepted) :
    Contained b registered context where
  argv := fun run program args word rest hword hargs =>
    h.toApart.parse_argv hword (h.kept word hword).2 run program hargs
  line := fun run line word rest hword hline =>
    h.toApart.parse_line hword (h.kept word hword).2 run hline
  names := h.found
  children := fun ref => by
    rw [h.root]
    exact hchildren ref
  server := hserver

/-- The registration returns, with a stack that is deep enough, unless a command is given its own
name as an alias or one that is accepted has a command below itself. Plug-ins do not change what a
built-in command is, and each name at the top level stands for one command. -/
theorem plugins_contained (b : BuiltIn) (providers : List CommandProvider) :
    ((∃ stack context, register_commands stack b.tree b.first providers = .ok context) ↔
      ¬ NamesItself b (provider_calls providers) ∧ ∀ registered,
        register_calls 0 (.new b.tree b.first) providers = .ok registered → registered.Acyclic) ∧
    ∀ stack context, register_commands stack b.tree b.first providers = .ok context →
      ∃ registered, register_calls 0 (.new b.tree b.first) providers = .ok registered ∧
        Contained b registered context := by
  have hok {stack : ℕ} {context : RegistrationContext}
      (h : register_commands stack b.tree b.first providers = .ok context) :
      ¬ NamesItself b (provider_calls providers) := by
    rw [register_commands] at h
    cases hcalls : register_calls stack (.new b.tree b.first) providers with
    | error e =>
      rw [hcalls] at h
      cases h
    | ok registered => exact register_calls_named hcalls
  constructor
  · constructor
    · rintro ⟨stack, context, h⟩
      obtain ⟨registered, hregistered, huncommitted⟩ := register_calls_returns (hok h)
      refine ⟨hok h, fun other hother => ?_⟩
      rw [hregistered 0] at hother
      cases hother
      obtain ⟨last, hlast, -⟩ := (register_commands_iff (hregistered stack)).mp h
      exact huncommitted.acyclic_iff.mp ⟨stack, (huncommitted.committing.commit_returns _
        huncommitted.pending).mp ⟨last, hlast⟩⟩
    · rintro ⟨hnames, hacyclic⟩
      obtain ⟨registered, hregistered, huncommitted⟩ := register_calls_returns hnames
      obtain ⟨stack, hshallow⟩ := huncommitted.acyclic_iff.mpr (hacyclic _ (hregistered 0))
      obtain ⟨last, hlast⟩ := (huncommitted.committing.commit_returns _
        huncommitted.pending).mpr hshallow
      exact ⟨stack, _, (register_commands_iff (hregistered stack)).mpr ⟨last, hlast, rfl⟩⟩
  · intro stack context h
    obtain ⟨registered, hregistered, huncommitted⟩ := register_calls_returns (hok h)
    obtain ⟨last, hlast, rfl⟩ := (register_commands_iff (hregistered stack)).mp h
    obtain ⟨hcommitted, hchildren, hserver⟩ :=
      huncommitted.committing.commit_pending huncommitted.pending hlast
    have hdone : Committing b registered { last with pending_root_commands := [] } :=
      { hcommitted with }
    refine ⟨registered, hregistered 0, hdone.contained (fun ref => ?_) fun sub hsub hmem =>
      (hserver sub hsub).2 hmem⟩
    have hold : registered.tree.child b.tree.root ref ↔ b.tree.child b.tree.root ref := by
      rw [child, child, Tree.children, Tree.children, huncommitted.root_commands]
    exact (hchildren ref).trans (or_congr_left hold)

/-- `zo` with the command `ds`. -/
def zo_tree : Tree where
  rt := ascii_runtime
  command ref := { example_command [] (if ref = 0 then none else some 0) with
    name := ascii.str (if ref = 0 then "zo" else "ds")
    commands := if ref = 0 then [(ascii.str "ds", 1)] else []
    pre_hooks := decide (ref = 0) }
  json_registered _ := true
  root := 0
  hooks := []

theorem zo_below (parent sub : Ref) (_ : parent < 2) (h : zo_tree.child parent sub) :
    sub < 2 ∧ sub ≠ zo_tree.root := by
  suffices hsub : sub = 1 by
    rw [hsub]
    exact ⟨Nat.one_lt_two, Nat.one_ne_zero⟩
  by_cases hroot : parent = 0
  · subst hroot
    exact List.mem_singleton.mp h
  · have hnone : zo_tree.children parent = [] := by
      simp only [Tree.children, zo_tree, if_neg hroot, List.map_nil]
    rw [child, hnone] at h
    exact absurd h List.not_mem_nil

theorem zo_json : ∃ arg ∈ (zo_tree.command zo_tree.root).args, arg.name = ascii.str "json" :=
  ⟨json_argument ascii_runtime, by decide +kernel, rfl⟩

theorem zo_found (word : Bytes) (h : word ∈ top_level_names zo_tree) : ∃ sub, find_subcommand
    (zo_tree.program fun _ _ => 0) (zo_tree.command zo_tree.root) word = .command sub := by
  have hword : word = ascii.str "ds" := List.mem_singleton.mp h
  rw [hword]
  exact ⟨1, rfl⟩

def zo : BuiltIn where
  tree := zo_tree
  first := 2
  root_lt := Nat.zero_lt_two
  below := zo_below
  hooked := rfl
  json := zo_json
  found := zo_found

/-- A command that shadows `ds`, and one that does not. -/
def shadowing : CommandProvider := some [
  .create_command (some (ascii.str "ds")), .add_subcommand (some .root) (some (.created 0)),
  .add_to_server (some (.created 0)), .create_command (some (ascii.str "hello")),
  .add_subcommand (some .root) (some (.created 1)), .add_to_server (some (.created 1))]

theorem plugins_contained_zo : ∃ registered context,
    register_commands 1 zo.tree zo.first [shadowing] = .ok context ∧
      Contained zo registered context ∧ context.rejected_commands = [ascii.str "ds"] ∧
      context.server_commands = [some 3] := by
  have hreturns : (register_commands 1 zo.tree zo.first [shadowing]).toOption.any
      (fun context => context.rejected_commands = [ascii.str "ds"] ∧
        context.server_commands = [some 3]) = true := by
    decide +kernel
  cases hr : register_commands 1 zo.tree zo.first [shadowing] with
  | error e =>
    rw [hr] at hreturns
    cases hreturns
  | ok context =>
    rw [hr] at hreturns
    obtain ⟨registered, -, hcontained⟩ := (plugins_contained zo [shadowing]).2 1 context hr
    exact ⟨registered, context, rfl, hcontained, of_decide_eq_true hreturns⟩

end Zowex.plugin

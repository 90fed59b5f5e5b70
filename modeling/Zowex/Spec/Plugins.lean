import Zowex.Spec.CommandTree

/-! The registration of the commands of plug-ins, `plugin.cpp`: the calls that their providers make,
and the commit of the commands that they hang below the root. -/

namespace Zowex.plugin

open lexer parser

/-- What `get_root_command` returns, or the result of a `create_command`, in their order. -/
inductive CommandHandle
  | root
  | created (index : ℕ)
  deriving DecidableEq

/-- `CommandDefaultValue`. -/
inductive DefaultValue
  | None
  | Bool (value : ℤ)
  | Int (value : ℤ)
  | Double (value : zjson.Double)
  | String (value : Option Bytes)

/-- A default that is a null pointer is none. -/
def convert_default : Option DefaultValue → Argument
  | some (.Bool value) => .bool (value ≠ 0)
  | some (.Int value) => .int value
  | some (.Double value) => .double value
  | some (.String (some value)) => .string value
  | _ => .none

/-- A call of a provider. Pointers may be null; a handle that no call has returned is taken for
one. -/
inductive RegistrationCall
  | create_command (name : Option Bytes)
  | add_alias (command : Option CommandHandle) (als : Option Bytes)
  | add_keyword_arg (command : Option CommandHandle) (name : Option Bytes)
      (aliases : List (Option Bytes)) (type : ArgType) (required : Bool)
      (default_value : Option DefaultValue)
  | add_positional_arg (command : Option CommandHandle) (name : Option Bytes) (required : Bool)
      (default_value : Option DefaultValue)
  | set_handler (command : Option CommandHandle) (handler : Option ℕ)
  | add_subcommand (parent child : Option CommandHandle)
  | add_to_server (command : Option CommandHandle)

/-- `RegistrationContextImpl`. The commands it creates are those from `first` on, before `next`; a
`command_ptr` that is null is none. -/
structure RegistrationContext where
  tree : Tree
  first : Ref
  next : Ref
  builtin_names : List Bytes
  claimed_names : List Bytes
  pending_root_commands : List (Option Ref)
  server_commands : List (Option Ref)
  rejected_commands : List Bytes

/-- How a registration may end: an exception leaves it, or it does not return. -/
inductive Stop
  | exception
  | overflow

def new_command (rt : Runtime) (name : Bytes) : Command where
  name := name
  args := new_arguments rt
  commands := []
  aliases := []
  handler := none
  dynamic := none
  allow_passthrough := false
  privileged := false
  json_capture := true
  pre_hooks := false

def keyword_argument (name : Bytes) (aliases : List (Option Bytes)) (type : ArgType)
    (required : Bool) (default_value : Option DefaultValue) : ArgumentDef where
  name := name
  aliases := aliases.filterMap id
  type := type
  positional := false
  required := required
  coerce_as_string := false
  default_value := convert_default default_value
  is_help_flag := false
  is_json_flag := false
  conflicts_with := []

def positional_argument (name : Bytes) (required : Bool) (default_value : Option DefaultValue) :
    ArgumentDef where
  name := name
  aliases := []
  type := .Single
  positional := true
  required := required
  coerce_as_string := false
  default_value := convert_default default_value
  is_help_flag := false
  is_json_flag := false
  conflicts_with := []

/-- The names and aliases of the subcommands of the root. -/
def top_level_names (tree : Tree) : List Bytes :=
  (tree.command tree.root).commands.flatMap fun entry => entry.1 :: (tree.command entry.2).aliases

def command_tokens (tree : Tree) (command : Ref) : List Bytes :=
  (tree.command command).name :: (tree.command command).aliases

namespace RegistrationContext

def new (tree : Tree) (first : Ref) : RegistrationContext where
  tree := tree
  first := first
  next := first
  builtin_names := top_level_names tree
  claimed_names := top_level_names tree
  pending_root_commands := []
  server_commands := []
  rejected_commands := []

variable (context : RegistrationContext)

/-- The command of a handle, none for null. -/
def to_record : Option CommandHandle → Option Ref
  | some .root => some context.tree.root
  | some (.created index) =>
    if context.first + index < context.next then some (context.first + index) else none
  | none => none

/-- `get_command_ptr`: null for the root. -/
def command_ptr (command : Ref) : Option Ref :=
  if command = context.tree.root then none else some command

def update (command : Ref) (change : Command → Command) : RegistrationContext :=
  { context with tree := context.tree.update command change }

def create_command (name : Bytes) : RegistrationContext :=
  { context with
    tree := { context.tree with
      command := Function.update context.tree.command context.next
        (new_command context.tree.rt name)
      json_registered := Function.update context.tree.json_registered context.next true }
    next := context.next + 1 }

/-- An exception of `add_alias` is not caught. -/
def add_alias (command : Ref) (als : Bytes) : Except Stop RegistrationContext :=
  if als = (context.tree.command command).name then .error .exception
  else .ok (context.update command fun cmd => { cmd with aliases := cmd.aliases ++ [als] })

/-- An argument that is refused is left out. -/
def add_argument (command : Ref) (arg : ArgumentDef) : RegistrationContext :=
  context.update command fun cmd =>
    match register_argument context.tree.rt cmd.args arg with
    | .ok args => { cmd with args := args }
    | .error _ => cmd

def add_subcommand (stack : ℕ) (parent child : Ref) : Except Stop RegistrationContext :=
  if parent = context.tree.root then
    .ok { context with
      pending_root_commands := context.pending_root_commands ++ [context.command_ptr child] }
  else
    match context.command_ptr child with
    | none => .ok context
    | some child =>
      match context.tree.add_command stack parent child with
      | none => .error .overflow
      | some tree => .ok { context with tree := tree }

def add_to_server (command : Ref) : RegistrationContext :=
  { context with server_commands := context.server_commands ++ [context.command_ptr command] }

/-- A call. Null pointers to commands and names do nothing. -/
def call (stack : ℕ) : RegistrationCall → Except Stop RegistrationContext
  | .create_command name => .ok (context.create_command (name.getD []))
  | .add_alias command als =>
    match context.to_record command, als with
    | some command, some als => context.add_alias command als
    | _, _ => .ok context
  | .add_keyword_arg command name aliases type required default_value =>
    match context.to_record command, name with
    | some command, some name =>
      .ok (context.add_argument command
        (keyword_argument name aliases type required default_value))
    | _, _ => .ok context
  | .add_positional_arg command name required default_value =>
    match context.to_record command, name with
    | some command, some name =>
      .ok (context.add_argument command (positional_argument name required default_value))
    | _, _ => .ok context
  | .set_handler command handler =>
    match context.to_record command with
    | some command => .ok (context.update command fun cmd => { cmd with handler := handler })
    | none => .ok context
  | .add_subcommand parent child =>
    match context.to_record parent, context.to_record child with
    | some parent, some child => context.add_subcommand stack parent child
    | _, _ => .ok context
  | .add_to_server command =>
    match context.to_record command with
    | some command => .ok (context.add_to_server command)
    | none => .ok context

/-- `find_collision`, without the token it finds. -/
def find_collision (tokens : List Bytes) : Bool :=
  tokens.any fun token =>
    context.builtin_names.contains token || context.claimed_names.contains token

def reject (command : Ref) : RegistrationContext :=
  { context with
    rejected_commands := context.rejected_commands ++ [(context.tree.command command).name]
    server_commands := context.server_commands.filter (· ≠ some command) }

/-- The loop body of `commit_root_commands`. -/
def commit_root_command (stack : ℕ) (command : Ref) : Except Stop RegistrationContext :=
  let tokens := command_tokens context.tree command
  if context.find_collision tokens then .ok (context.reject command)
  else
    match context.tree.add_command stack context.tree.root command with
    | none => .error .overflow
    | some tree =>
      -- where a name is taken, `add_command` has thrown
      if context.tree.name_taken context.tree.root command then
        .ok ({ context with tree := tree }.reject command)
      else .ok { context with tree := tree, claimed_names := context.claimed_names ++ tokens }

def commit (stack : ℕ) (command : Option Ref) : Except Stop RegistrationContext :=
  match command with
  | none => .ok context
  | some command => context.commit_root_command stack command

def commit_root_commands (stack : ℕ) : Except Stop RegistrationContext := do
  let committed ← context.pending_root_commands.foldlM (fun context => context.commit stack) context
  return { committed with pending_root_commands := [] }

end RegistrationContext

/-- The calls of a provider; none where a factory or what it creates is null. -/
abbrev CommandProvider := Option (List RegistrationCall)

/-- All the calls of the providers, in their order. -/
def provider_calls (providers : List CommandProvider) : List RegistrationCall :=
  providers.flatMap fun provider => provider.getD []

/-- The registration up to the commit. -/
def register_calls (stack : ℕ) (context : RegistrationContext) (providers : List CommandProvider) :
    Except Stop RegistrationContext :=
  (provider_calls providers).foldlM (fun context => context.call stack) context

/-- `PluginManager::register_commands`. -/
def register_commands (stack : ℕ) (tree : Tree) (first : Ref) (providers : List CommandProvider) :
    Except Stop RegistrationContext := do
  let context ← register_calls stack (.new tree first) providers
  context.commit_root_commands stack

/-- The tree before the plug-ins: the commands made so far are those before `first`, a parser has
been constructed for the root, and each top-level name stands for one command. -/
structure BuiltIn where
  tree : Tree
  first : Ref
  root_lt : tree.root < first
  below : ∀ parent sub, parent < first → tree.child parent sub → sub < first ∧ sub ≠ tree.root
  hooked : (tree.command tree.root).pre_hooks = true
  json : ∃ arg ∈ (tree.command tree.root).args, arg.name = tree.rt.str "json"
  found : ∀ word ∈ top_level_names tree, ∃ sub,
    find_subcommand (tree.program fun _ _ => 0) (tree.command tree.root) word = .command sub

variable (b : BuiltIn)

/-! What the calls must keep to. -/

def created_name : RegistrationCall → Option Bytes
  | .create_command name => some (name.getD [])
  | _ => none

/-- The name of a command, after some calls. -/
def handle_name (calls : List RegistrationCall) : CommandHandle → Option Bytes
  | .root => some (b.tree.command b.tree.root).name
  | .created index => (calls.filterMap created_name)[index]?

/-- Some call gives a command its own name as an alias. -/
def NamesItself (calls : List RegistrationCall) : Prop :=
  ∃ before handle als after, calls = before ++ .add_alias (some handle) (some als) :: after ∧
    handle_name b before handle = some als

/-- The commands that are hung below the root: those whose tokens are not claimed before. -/
def accepted (tree : Tree) (claimed : List Bytes) : List (Option Ref) → List Ref
  | [] => []
  | none :: pending => accepted tree claimed pending
  | some command :: pending =>
    let tokens := command_tokens tree command
    if tokens.any claimed.contains then accepted tree claimed pending
    else command :: accepted tree (claimed ++ tokens) pending

def RegistrationContext.accepted (context : RegistrationContext) : List Ref :=
  plugin.accepted context.tree context.claimed_names context.pending_root_commands

/-- No command below one that is accepted is below itself. -/
def RegistrationContext.Acyclic (context : RegistrationContext) : Prop :=
  ∀ top ∈ context.accepted, ∀ sub, context.tree.reaches top sub →
    ¬ Relation.TransGen context.tree.child sub sub

/-- Command lines that start with a built-in command are read as without plug-ins. Each name at the
top level stands for one command, and the commands there are the built-in ones and those that are
accepted. The server gets none that was to be there and is not. -/
structure Contained (registered context : RegistrationContext) : Prop where
  argv : ∀ run program args word rest, word ∈ top_level_names b.tree →
    argv_tokens b.tree.rt args = .TokId word :: rest →
    parse_argv (context.tree.program run) context.tree.root (program :: args) =
      parse_argv (b.tree.program run) b.tree.root (program :: args)
  line : ∀ run line word rest, word ∈ top_level_names b.tree →
    tokenize b.tree.rt line = .ok (.TokId word :: rest) →
    parse_line (context.tree.program run) context.tree.root line =
      parse_line (b.tree.program run) b.tree.root line
  names : ∀ word ∈ top_level_names context.tree, ∃ sub, find_subcommand
    (context.tree.program fun _ _ => 0) (context.tree.command context.tree.root) word = .command sub
  children : ∀ sub, context.tree.child context.tree.root sub ↔
    b.tree.child b.tree.root sub ∨ sub ∈ registered.accepted
  server : ∀ sub, some sub ∈ context.server_commands →
    some sub ∈ registered.pending_root_commands → sub ∈ registered.accepted

end Zowex.plugin

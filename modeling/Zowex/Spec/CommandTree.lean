import Mathlib.Data.List.Sort
import Mathlib.Logic.Function.Basic
import Mathlib.Logic.Relation
import Zowex.Spec.Parser

/-! How the tree of commands is built: the arguments of a command, the commands below it, and the
marks that it passes down to them. -/

namespace Zowex.parser

open lexer plugin

section

variable (rt : Runtime)

def help_argument : ArgumentDef where
  name := rt.str "help"
  aliases := [rt.str "-h", rt.str "--help"]
  type := .Flag
  positional := false
  required := false
  coerce_as_string := false
  default_value := .bool false
  is_help_flag := true
  is_json_flag := false
  conflicts_with := []

def json_argument : ArgumentDef where
  name := rt.str "json"
  aliases := [rt.str "--json", rt.str "--rfj"]
  type := .Flag
  positional := false
  required := false
  coerce_as_string := false
  default_value := .bool false
  is_help_flag := false
  is_json_flag := true
  conflicts_with := []

def ensure_help_argument (args : List ArgumentDef) : List ArgumentDef :=
  if args.any (·.name = rt.str "help") then args else args ++ [help_argument rt]

def ensure_json_argument (json_registered : Bool) (args : List ArgumentDef) : List ArgumentDef :=
  if !json_registered then args
  else if args.any fun arg => arg.name = rt.str "json" || arg.aliases.contains (rt.str "--json") ||
      arg.aliases.contains (rt.str "--rfj") then args
  else args ++ [json_argument rt]

/-- The arguments of a new command. -/
def new_arguments : List ArgumentDef := ensure_json_argument rt true (ensure_help_argument rt [])

def disable_json_output (args : List ArgumentDef) : List ArgumentDef :=
  args.filter fun arg => !arg.is_json_flag

def negation_name (name : Bytes) : Bytes := rt.str "no-" ++ name

/-- The flag that turns another one off. -/
def negation (arg : ArgumentDef) : ArgumentDef where
  name := negation_name rt arg.name
  aliases := []
  type := .Flag
  positional := false
  required := false
  coerce_as_string := false
  default_value := .bool false
  is_help_flag := false
  is_json_flag := false
  conflicts_with := []

/-- A new argument, or the message of an exception. A flag without a default is off. -/
def register_argument (args : List ArgumentDef) (arg : ArgumentDef) :
    Except Bytes (List ArgumentDef) :=
  if arg.name = rt.str "help" then
    .error (rt.str "argument name 'help' is reserved for the automatic help flag.")
  else if (rt.str "no-").isPrefixOf arg.name then
    .error (rt.str "argument name cannot start with 'no-'. this prefix is reserved for " ++
      rt.str "automatic negation flags.")
  else if arg.aliases.any fun als => als ≠ [] && (rt.str "--no-").isPrefixOf als then
    .error (rt.str "alias cannot start with '--no-'. this prefix is reserved for " ++
      rt.str "automatic negation flags.")
  else if args.any (·.name = arg.name) then
    .error (rt.str "argument name '" ++ arg.name ++ rt.str "' already exists.")
  else
    match args.flatMap fun existing =>
      arg.aliases.filter fun als => als ≠ [] && existing.aliases.contains als with
    | als :: _ => .error (rt.str "alias '" ++ als ++ rt.str "' already exists.")
    | [] =>
      let final_default_value :=
        if arg.type = .Flag && arg.default_value.is_none then .bool false else arg.default_value
      let final_arg := { arg with default_value := final_default_value }
      if arg.type = .Flag && final_default_value.get_bool = some true then
        if args.any (·.name = negation_name rt arg.name) then
          .error (rt.str "automatic negation flag name '" ++ negation_name rt arg.name ++
            rt.str "' conflicts with an existing argument.")
        else .ok (args ++ [final_arg, negation rt arg])
      else .ok (args ++ [final_arg])

/-- The arguments a command may have: what it has from the start, or not where it refuses
`--json`, and what is registered. -/
inductive Registered : List ArgumentDef → Prop
  | new : Registered (new_arguments rt)
  | register {args args' : List ArgumentDef} (arg : ArgumentDef) : Registered args →
      arg.is_help_flag = false → arg.is_json_flag = false →
      register_argument rt args arg = .ok args' → Registered args'
  | disable_json {args : List ArgumentDef} : Registered args →
      Registered (disable_json_output args)
  /-- `add_command` makes sure of both once more. -/
  | ensure {args : List ArgumentDef} (json_registered : Bool) : Registered args →
      Registered (ensure_json_argument rt json_registered (ensure_help_argument rt args))

/-- The arguments of a command, and whether it accepts `--json`. -/
structure Options where
  args : List ArgumentDef
  json_registered : Bool
deriving DecidableEq

def new_options : Options where
  args := new_arguments rt
  json_registered := true

/-- What changes the arguments of a command. -/
inductive Change
  | register_argument (arg : ArgumentDef)
  | disable_json_output
  | ensure_arguments

/-- The arguments after a change, none where it throws. -/
def change (options : Options) : Change → Option Options
  | .register_argument arg =>
    (register_argument rt options.args arg).toOption.map fun args => { options with args := args }
  | .disable_json_output => some ⟨disable_json_output options.args, false⟩
  | .ensure_arguments =>
    let args := ensure_help_argument rt options.args
    some { options with args := ensure_json_argument rt options.json_registered args }

end

/-- The commands, the root among them, and the hooks of the parser. -/
structure Tree where
  rt : Runtime
  command : Ref → Command
  json_registered : Ref → Bool
  root : Ref
  hooks : List PreCommandHook

namespace Tree

/-- The commands right below a command. -/
def children (tree : Tree) (ref : Ref) : List Ref := (tree.command ref).commands.map (·.2)

def update (tree : Tree) (ref : Ref) (change : Command → Command) : Tree :=
  { tree with command := Function.update tree.command ref (change (tree.command ref)) }

/-- A change of a command and of all commands below it. None if they are nested deeper than the
stack, as they are where a command is below itself. -/
def propagate (change : Command → Command) : ℕ → Tree → Ref → Option Tree
  | 0, _, _ => none
  | stack + 1, tree, ref =>
    (tree.children ref).foldlM (propagate change stack) (tree.update ref change)

def set_privileged (stack : ℕ) (tree : Tree) (ref : Ref) (privileged : Bool) : Option Tree :=
  tree.propagate (fun cmd => { cmd with privileged := privileged }) stack ref

/-- All commands that have hooks have those of the parser. -/
def set_pre_hooks (stack : ℕ) (tree : Tree) (ref : Ref) : Option Tree :=
  tree.propagate (fun cmd => { cmd with pre_hooks := true }) stack ref

def ensure_arguments (tree : Tree) (ref : Ref) : Tree :=
  tree.update ref fun cmd =>
    let args := ensure_help_argument tree.rt cmd.args
    { cmd with args := ensure_json_argument tree.rt (tree.json_registered ref) args }

/-- Whether `add_command` throws: the name or an alias of the command is taken, or they are the
same. -/
def name_taken (tree : Tree) (parent sub : Ref) : Bool :=
  let cmd := tree.command sub
  let siblings := (tree.command parent).commands
  siblings.any (·.1 = cmd.name) ||
    (siblings.any fun sibling => (tree.command sibling.2).aliases.contains cmd.name ||
      cmd.aliases.any fun als =>
        sibling.1 = als || (tree.command sibling.2).aliases.contains als) ||
    cmd.aliases.contains cmd.name

/-- The subcommands are kept in the order of their names. -/
def attach (tree : Tree) (parent sub : Ref) : Tree :=
  let entry := ((tree.command sub).name, sub)
  tree.update parent fun cmd =>
    let commands := cmd.commands.orderedInsert (fun a b => (compare a.1 b.1).isLE) entry
    { cmd with commands := commands }

def pass_privilege (stack : ℕ) (tree : Tree) (parent sub : Ref) : Option Tree :=
  if (tree.command parent).privileged then tree.set_privileged stack sub true else some tree

def pass_pre_hooks (stack : ℕ) (tree : Tree) (parent sub : Ref) : Option Tree :=
  if (tree.command parent).pre_hooks then tree.set_pre_hooks stack sub else some tree

/-- The marks are passed down first, and stay where `add_command` throws. -/
def add_command (stack : ℕ) (tree : Tree) (parent sub : Ref) : Option Tree := do
  let tree ← (tree.ensure_arguments sub).pass_privilege stack parent sub
  let tree ← tree.pass_pre_hooks stack parent sub
  return if tree.name_taken parent sub then tree else tree.attach parent sub

def add_pre_command_hook (stack : ℕ) (tree : Tree) (hook : PreCommandHook) : Option Tree :=
  { tree with hooks := tree.hooks ++ [hook] }.set_pre_hooks stack tree.root

/-- The operations that build a tree. -/
inductive Building
  | add_command (parent sub : Ref)
  | set_privileged (command : Ref) (privileged : Bool)
  | add_pre_command_hook (hook : PreCommandHook)

/-- What an operation does, none if it does not return. -/
def build (stack : ℕ) (tree : Tree) : Building → Option Tree
  | .add_command parent sub => tree.add_command stack parent sub
  | .set_privileged command privileged => tree.set_privileged stack command privileged
  | .add_pre_command_hook hook => tree.add_pre_command_hook stack hook

def child (tree : Tree) (parent sub : Ref) : Prop := sub ∈ tree.children parent

/-- A command is another one, or is attached somewhere below it. -/
def reaches (tree : Tree) : Ref → Ref → Prop := Relation.ReflTransGen tree.child

/-- An operation takes no privilege from a command that is also below a privileged one elsewhere. -/
def keeps_privilege (tree : Tree) : Building → Prop
  | .set_privileged command false => ∀ parent sub, tree.reaches command sub →
      tree.child parent sub → (tree.command parent).privileged = true → tree.reaches command parent
  | _ => True

/-- Commands as their constructors leave them, but for what has been set on each of them alone; a
parser has been constructed for the root. -/
structure Fresh (tree : Tree) : Prop where
  commands : ∀ ref, (tree.command ref).commands = []
  privileged : ∀ ref, (tree.command ref).privileged = false
  pre_hooks : ∀ ref, (tree.command ref).pre_hooks = decide (ref = tree.root)
  hooks : tree.hooks = []

/-- The program that parses with the tree. -/
def program (tree : Tree) (run : ℕ → ContextArgs → ℤ) : Program where
  rt := tree.rt
  command := tree.command
  hooks := tree.hooks
  run := run

end Tree

end Zowex.parser

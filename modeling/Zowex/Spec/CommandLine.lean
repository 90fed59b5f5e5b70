import Zowex.Spec.CommandTree

/-! How a command line is read: as names of subcommands, each with the flags, options and
positional arguments before it, and as those of the last command. -/

namespace Zowex.parser

open lexer plugin

/-- Tokens that are read together, with the arguments they are for. -/
inductive Item
  | passthrough (words : List Token)
  /-- Flags of one letter each behind one `-`. -/
  | combined (letters : Bytes) (args : List ArgumentDef)
  | json (token : Token) (arg : ArgumentDef)
  | flag (token : Token) (arg : ArgumentDef) (value : Option Token)
  | option (token : Token) (arg : ArgumentDef) (values : List Token)
  | dynamic (name : Bytes) (type : ArgType) (values : List Token)
  | positional (arg : ArgumentDef) (values : List Token)

namespace Item

def tokens : Item → List Token
  | passthrough words => .TokDoubleMinus :: words
  | combined letters _ => [.TokFlagShort letters]
  | json token _ => [token]
  | flag token _ value => token :: value.toList
  | option token _ values => token :: values
  | dynamic name _ values => .TokFlagLong name :: values
  | positional _ values => values

end Item

section

variable (p : Program)

/-- The string a value token stands for where strings are expected. -/
def string_value (coerce_as_string : Bool) (token : Token) : Bytes :=
  ((parse_token_value p.rt token .Multiple coerce_as_string).get_string).getD []

/-- What the tokens of an item stand for as the value of an argument of some type. -/
def item_value (type : ArgType) (coerce_as_string : Bool) (earlier : List Bytes)
    (values : List Token) : Argument :=
  match type, values with
  | .Multiple, values => .list (earlier ++ values.map (string_value p coerce_as_string))
  | type, value :: _ => parse_token_value p.rt value type coerce_as_string
  | _, [] => .none

/-- The strings that are stored for a name. -/
def stored_strings (values : ArgumentMap) (name : Bytes) : List Bytes :=
  (values[name]?.bind Argument.get_string_vector).getD []

namespace Item

/-- What an item changes. -/
def apply (frame : Frame) : Item → Frame
  | passthrough words =>
    { frame with passthrough_args := frame.passthrough_args ++ words.map (Token.print p.rt) }
  | combined _ args =>
    args.foldl (fun frame arg => (frame.see arg.name).set arg.name (.bool true)) frame
  | json _ arg => (frame.see arg.name).set arg.name (.bool true)
  | flag _ arg value =>
    (frame.see arg.name).set arg.name
      (value.elim (.bool true) (parse_token_value p.rt · .Flag false))
  | option _ arg values =>
    (frame.see arg.name).set arg.name
      (item_value p arg.type arg.coerce_as_string (stored_strings frame.values arg.name) values)
  | dynamic name type values =>
    { frame with
      dynamic_values := frame.dynamic_values.insert name (item_value p type false [] values) }
  | positional arg values =>
    { frame.set arg.name (item_value p arg.type arg.coerce_as_string [] values) with
      positional_index := frame.positional_index + 1 }

end Item

/-- The flag token stands for the argument. -/
def names (cmd : Command) (token : Token) (arg : ArgumentDef) : Prop :=
  match token with
  | .TokFlagShort name => name.length ≤ 1 ∧ find_keyword_arg p.rt cmd.args name true = some arg
  | .TokFlagLong name => find_keyword_arg p.rt cmd.args name false = some arg
  | _ => False

/-- The token may be one of the values of an argument. -/
def is_value (type : ArgType) (coerce_as_string : Bool) (token : Token) : Prop :=
  is_flag_token token = false ∧ token ≠ .TokDoubleMinus ∧
    (parse_token_value p.rt token type coerce_as_string).is_none = false

/-- The tokens of an item are read as the command has it. The index is that of the next
positional argument. -/
def Item.fits (cmd : Command) (index : ℕ) : Item → Prop
  | .passthrough _ => cmd.allow_passthrough = true
  | .combined letters args => 1 < letters.length ∧
      List.Forall₂ (fun c arg => find_keyword_arg p.rt cmd.args [c] true = some arg ∧
        arg.is_help_flag = false ∧ arg.type = .Flag) letters args
  | .json token arg => names p cmd token arg ∧ arg.is_help_flag = false ∧ arg.is_json_flag = true
  | .flag token arg value => names p cmd token arg ∧ arg.is_help_flag = false ∧
      arg.is_json_flag = false ∧ arg.type = .Flag ∧ ∀ t ∈ value, is_value p .Flag false t
  | .option token arg values => names p cmd token arg ∧ arg.is_help_flag = false ∧
      arg.is_json_flag = false ∧ arg.type ≠ .Flag ∧ values ≠ [] ∧
      (arg.type = .Single → values.length = 1) ∧
      ∀ t ∈ values, is_value p arg.type arg.coerce_as_string t
  | .dynamic name type values => find_keyword_arg p.rt cmd.args name false = none ∧
      cmd.dynamic = some type ∧ type ≠ .Flag ∧ values ≠ [] ∧
      (type = .Single → values.length = 1) ∧ ∀ t ∈ values, is_value p type false t
  | .positional arg values => (pos_args cmd)[index]? = some arg ∧ arg.type ≠ .Flag ∧
      values ≠ [] ∧ (arg.type = .Single → values.length = 1) ∧
      ∀ t ∈ values, is_value p arg.type arg.coerce_as_string t

/-- From a frame at its start and these tokens, rounds of the loop have come to this frame and what
is left of the tokens. The items are those read since the name of the last subcommand. -/
inductive Reads (root : Frame) (tokens : List Token) : List Token → Frame → List Item → Prop
  | start : Reads root tokens tokens root []
  | item {token : Token} {following rest : List Token} {frame : Frame} {items : List Item}
      (item : Item) : Reads root tokens (token :: following) frame items →
      parse_token p frame token following = .more (item.apply p frame) rest →
      token :: following = item.tokens ++ rest →
      item.fits p (frame.cmd p) frame.positional_index →
      Reads root tokens rest (item.apply p frame) (items ++ [item])
  | subcommand {rest : List Token} {frame : Frame} {items : List Item} (word : Bytes) (sub : Ref) :
      Reads root tokens (.TokId word :: rest) frame items →
      find_subcommand p (frame.cmd p) word = .command sub →
      Reads root tokens rest (start_frame p sub (frame.command_path p ++ p.rt.str " ")
        (frame.json_inherited ||
          get_value_bool p.rt frame.values (frame.cmd p).args (p.rt.str "json") false)) []

/-- The keyword arguments an item gives, by name. -/
def Item.keywords : Item → List Bytes
  | .combined _ args => args.map (·.name)
  | .json _ arg => [arg.name]
  | .flag _ arg _ => [arg.name]
  | .option _ arg _ => [arg.name]
  | _ => []

def given (items : List Item) (name : Bytes) : Prop :=
  ∃ item ∈ items, name ∈ item.keywords

/-- What the token behind a flag, or its absence, sets the flag to. -/
def flag_value (value : Option Token) : Bool :=
  value.elim true fun token => (parse_token_value p.rt token .Flag false).get_bool = some true

/-- The flags an item sets, by name. -/
def Item.flags_set : Item → List (Bytes × Bool)
  | .combined _ args => args.map fun arg => (arg.name, true)
  | .json _ arg => [(arg.name, true)]
  | .flag _ arg value => [(arg.name, flag_value p value)]
  | _ => []

/-- What a flag is set to, each time that it is. -/
def settings (items : List Item) (name : Bytes) : List Bool :=
  (items.flatMap (Item.flags_set p)).filterMap fun s => if s.1 = name then some s.2 else none

/-- What the user has set a flag to that is on by default, by its name or by that of the flag that
turns it off. -/
def user_setting (items : List Item) (name : Bytes) : Bool :=
  (((items.flatMap (Item.flags_set p)).filterMap fun s =>
    if s.1 = name then some s.2
    else if s.1 = negation_name p.rt name then some !s.2
    else none).getLast?).getD true

/-- No argument that must be there is missing. -/
def complete (cmd : Command) (items : List Item) : Prop :=
  ∀ arg ∈ cmd.args, arg.required = true → arg.is_help_flag = false → arg.is_json_flag = false →
    if arg.positional then ∃ values, .positional arg values ∈ items else given items arg.name

/-- No two keyword arguments that exclude each other are given. -/
def compatible (cmd : Command) (items : List Item) : Prop :=
  ∀ arg ∈ cmd.args, ∀ other ∈ arg.conflicts_with, given items arg.name → given items other →
    other = arg.name

def is_hook : Call → Prop
  | .hook _ _ _ => True
  | .handler _ _ => False

/-- The first calls of a list of hooks. -/
def hook_calls (command : Ref) (is_help_request : Bool) (n : ℕ) : List Call :=
  (List.range n).map (.hook · command is_help_request)

/-- All hooks were called for a command, and accepted it. -/
def accepted (command : Ref) (is_help_request : Bool) (calls : List Call) : Prop :=
  calls = hook_calls command is_help_request p.hooks.length ∧
    ∀ (i : ℕ) (hook : PreCommandHook), p.hooks[i]? = some hook →
      hook (hook_calls command is_help_request i) command is_help_request = true

/-- The hooks were called for a command up to one that refused it. -/
def refused (command : Ref) (is_help_request : Bool) (calls : List Call) : Prop :=
  ∃ (i : ℕ) (hook : PreCommandHook), p.hooks[i]? = some hook ∧
    calls = hook_calls command is_help_request (i + 1) ∧
    hook (hook_calls command is_help_request i) command is_help_request = false

/-- A parse has called one handler, of a command that all words lead to and whose conditions they
meet, or none. Then it ends with an error, with the help, where a hook refuses, or at a command that
has nothing to do. -/
inductive Ending (root : Ref) (tokens : List Token) (outcome : Outcome) : Prop
  | handler {last : Frame} {items : List Item} (hooks : List Call) (args : ContextArgs) :
      Reads p (start_frame p root [] false) tokens [] last items →
      complete (last.cmd p) items → compatible (last.cmd p) items →
      (∀ call ∈ hooks, is_hook call) → outcome.calls = hooks ++ [.handler last.command args] →
      Ending root tokens outcome
  | error : (∀ call ∈ outcome.calls, is_hook call) → outcome.result.status = .ParseError →
      outcome.result.exit_code = 1 → Ending root tokens outcome
  | help : (∀ call ∈ outcome.calls, is_hook call) → outcome.result.status = .HelpRequested →
      Ending root tokens outcome
  | refused (command : Ref) (is_help_request : Bool) :
      refused p command is_help_request outcome.calls → outcome.result.exit_code = 1 →
      Ending root tokens outcome
  | empty {last : Frame} {items : List Item} :
      Reads p (start_frame p root [] false) tokens [] last items → (last.cmd p).handler = none →
      (last.cmd p).commands = [] → outcome.calls = [] → Ending root tokens outcome

end

end Zowex.parser

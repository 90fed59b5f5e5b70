import Zowex.Spec.Arguments
import Zowex.Spec.Lexer

/-! The command-line parser, `parser.hpp`: one call of `parse` over a tree of commands, up to the
call of a handler. -/

namespace Zowex.plugin

def Argument.is_none : Argument → Bool
  | .none => true
  | _ => false

def Argument.get_string : Argument → Option Bytes
  | .string val => some val
  | _ => Option.none

def Argument.get_bool : Argument → Option Bool
  | .bool val => some val
  | _ => Option.none

def Argument.get_string_vector : Argument → Option (List Bytes)
  | .list val => some val
  | _ => Option.none

end Zowex.plugin

namespace Zowex.parser

open lexer plugin

inductive ArgType
  | Flag
  | Single
  | Multiple
  deriving DecidableEq, Repr

structure ArgumentDef where
  name : Bytes
  aliases : List Bytes
  type : ArgType
  positional : Bool
  required : Bool
  coerce_as_string : Bool
  default_value : Argument
  is_help_flag : Bool
  is_json_flag : Bool
  conflicts_with : List Bytes
  deriving DecidableEq

/-- A `command_ptr`. -/
abbrev Ref := ℕ

/-- A `Command`. The subcommands are found by the name they had when they were added. -/
structure Command where
  name : Bytes
  args : List ArgumentDef
  commands : List (Bytes × Ref)
  aliases : List Bytes
  handler : Option ℕ
  /-- The type of the dynamic keywords, where they are allowed. -/
  dynamic : Option ArgType
  allow_passthrough : Bool
  privileged : Bool
  json_capture : Bool
  /-- `m_pre_hooks` points to the hooks of the parser. -/
  pre_hooks : Bool

inductive ParserStatus
  | Success
  | HelpRequested
  | ParseError
  deriving DecidableEq, Repr

structure ParseResult where
  status : ParserStatus
  exit_code : ℤ
  error_message : Bytes
  command_path : Bytes
  values : ArgumentMap
  dynamic_values : ArgumentMap
  passthrough_args : List Bytes
  command : Option Ref
  json_requested : Bool
  json_suppressed : Bool

/-- What a handler gets. -/
structure ContextArgs where
  command_path : Bytes
  args : ArgumentMap
  passthrough_args : List Bytes
  redirecting_output : Bool

/-- A call that a parse makes: of the hook with that number, or of the handler of a command. -/
inductive Call
  | hook (index : ℕ) (command : Ref) (is_help_request : Bool)
  | handler (command : Ref) (args : ContextArgs)

/-- A hook may depend on the calls before it. -/
abbrev PreCommandHook := List Call → Ref → Bool → Bool

/-- What a parse depends on: the commands, the hooks of the parser and the handlers. -/
structure Program where
  rt : Runtime
  command : Ref → Command
  hooks : List PreCommandHook
  run : ℕ → ContextArgs → ℤ

/-- The local variables of `Command::parse`. -/
structure Frame where
  command : Ref
  command_path_before : Bytes
  json_inherited : Bool
  values : ArgumentMap
  dynamic_values : ArgumentMap
  passthrough_args : List Bytes
  args_seen : List Bytes
  positional_index : ℕ

/-- A result, the tokens that were not read, and the calls that were made. -/
structure Outcome where
  result : ParseResult
  rest : List Token
  calls : List Call

/-- One round of the loop in `Command::parse` goes on or returns. -/
inductive Progress
  | more (frame : Frame) (rest : List Token)
  | stop (outcome : Outcome)

def is_flag_token : Token → Bool
  | .TokFlagShort _ => true
  | .TokFlagLong _ => true
  | _ => false

section

variable (rt : Runtime)

/-- Whether an alias stands for the flag. -/
def alias_matches (flag_name_value : Bytes) (is_short_flag_kind : Bool) (als : Bytes) : Bool :=
  if is_short_flag_kind then als.length = 2 && als = rt.code '-' :: flag_name_value
  else als.length > 2 && als = rt.code '-' :: rt.code '-' :: flag_name_value

def find_keyword_arg (args : List ArgumentDef) (flag_name_value : Bytes)
    (is_short_flag_kind : Bool) : Option ArgumentDef :=
  args.find? fun arg => !arg.positional &&
    (arg.name = flag_name_value ||
      arg.aliases.any (alias_matches rt flag_name_value is_short_flag_kind))

def join (sep : Bytes) : List Bytes → Bytes
  | [] => []
  | [text] => text
  | text :: texts => text ++ sep ++ join sep texts

def get_display_name (arg : ArgumentDef) : Bytes :=
  let long_flag := rt.str "--" ++ arg.name
  let canonical :=
    if arg.name ≠ [] && !arg.positional && !arg.aliases.contains long_flag then [long_flag] else []
  join (rt.str ", ") (arg.aliases.filter (· ≠ []) ++ canonical) ++
    match arg.type with
    | .Flag => []
    | .Single => rt.str " <value>"
    | .Multiple => rt.str " <value>" ++ rt.str "..."

def parse_token_value (token : Token) (expected_type : ArgType) (coerce_as_string : Bool) :
    Argument :=
  let expect_string := expected_type = .Single || expected_type = .Multiple
  let prefer_string := expected_type = .Multiple || coerce_as_string
  match token with
  | .TokId text =>
    if expected_type = .Flag then .bool (text = rt.str "true") else .string text
  | .TokStrLit content =>
    let text := Token.str_lit_value rt content
    if expected_type = .Flag then .bool (text = rt.str "true") else .string text
  | .TokIntLit value _ =>
    if !expect_string then .none
    else if prefer_string then .string (token.print rt) else .int value
  | .TokFloatLit value _ =>
    if !expect_string then .none
    else if prefer_string then .string (token.print rt) else .double (.finite value)
  | .TokTrue => if expect_string then .string (rt.str "true") else .bool true
  | .TokFalse => if expect_string then .string (rt.str "false") else .bool false
  | .TokTimes => if expect_string then .string (rt.str "*") else .none
  | _ => .none

/-- The values from here to the next flag, or to a token that is no string. -/
def collect_values (coerce_as_string : Bool) : List Token → List Bytes × List Token
  | [] => ([], [])
  | token :: tokens =>
    if is_flag_token token then ([], token :: tokens)
    else
      match (parse_token_value rt token .Multiple coerce_as_string).get_string with
      | none => ([], token :: tokens)
      | some value =>
        let later := collect_values coerce_as_string tokens
        (value :: later.1, later.2)

/-- The specialization of `get_value` for `bool`. -/
def get_value_bool (values : ArgumentMap) (args : List ArgumentDef) (name : Bytes)
    (default_value : Bool) : Bool :=
  if values.contains (rt.str "no-" ++ name) then false
  else
    match values[name]?.bind Argument.get_bool with
    | some value => value
    | none =>
      ((args.find? (·.name = name)).bind fun arg => arg.default_value.get_bool).getD default_value

/-- `Io::get<bool>`; none if it throws. -/
def io_get_bool (args : ArgumentMap) (key : Bytes) : Option Bool :=
  match args[rt.str "no-" ++ key]?.bind Argument.get_bool with
  | some value => some !value
  | none => args[key]?.bind Argument.get_bool

end

section

variable (p : Program)

/-- `ParseResult::get_value<bool>`. -/
def ParseResult.get_value (result : ParseResult) (name : Bytes) (default_value : Bool) : Bool :=
  let defs := result.command.elim [] fun command => (p.command command).args
  get_value_bool p.rt result.values defs name default_value

def Frame.cmd (frame : Frame) : Command := p.command frame.command

def pos_args (cmd : Command) : List ArgumentDef :=
  cmd.args.filter fun arg => arg.positional && !arg.is_help_flag && !arg.is_json_flag

/-- The frame `Command::parse` starts with: the defaults are stored. -/
def start_frame (command : Ref) (command_path_before : Bytes) (json_inherited : Bool) : Frame where
  command := command
  command_path_before := command_path_before
  json_inherited := json_inherited
  values := (p.command command).args.foldl (fun values arg =>
    if arg.is_help_flag || arg.is_json_flag then values
    else values.insert arg.name arg.default_value) ∅
  dynamic_values := ∅
  passthrough_args := []
  args_seen := []
  positional_index := 0

def Frame.command_path (frame : Frame) : Bytes :=
  frame.command_path_before ++ (frame.cmd p).name

def Frame.result (frame : Frame) : ParseResult where
  status := .Success
  exit_code := 0
  error_message := []
  command_path := frame.command_path p
  values := frame.values
  dynamic_values := frame.dynamic_values
  passthrough_args := frame.passthrough_args
  command := some frame.command
  json_requested := false
  json_suppressed := false

def Frame.set (frame : Frame) (name : Bytes) (value : Argument) : Frame :=
  { frame with values := frame.values.insert name value }

def Frame.see (frame : Frame) (name : Bytes) : Frame :=
  { frame with args_seen := name :: frame.args_seen }

def parse_error (frame : Frame) (error_message : Bytes) (rest : List Token) : Progress :=
  .stop {
    result := { frame.result p with
      status := .ParseError, exit_code := 1, error_message := error_message }
    rest := rest
    calls := [] }

def run_hooks (command : Ref) (is_help_request : Bool) :
    List PreCommandHook → ℕ → List Call → Bool × List Call
  | [], _, calls => (true, calls)
  | hook :: hooks, i, calls =>
    let called := calls ++ [.hook i command is_help_request]
    if hook calls command is_help_request then
      run_hooks command is_help_request hooks (i + 1) called
    else (false, called)

def execute_pre_hooks (command : Ref) (is_help_request : Bool) : Bool × List Call :=
  if (p.command command).pre_hooks then run_hooks command is_help_request p.hooks 0 []
  else (true, [])

/-- The hooks may refuse the help, which is then neither shown nor an error. -/
def request_help (frame : Frame) (rest : List Token) : Outcome :=
  let (accepted, calls) := execute_pre_hooks p frame.command true
  if accepted then
    { result := { frame.result p with status := .HelpRequested }, rest := rest, calls := calls }
  else { result := { frame.result p with exit_code := 1 }, rest := rest, calls := calls }

/-- `-abc`: each letter is a flag of its own. -/
def parse_combined (frame : Frame) (rest : List Token) : Bytes → Progress
  | [] => .more frame rest
  | c :: letters =>
    match find_keyword_arg p.rt (frame.cmd p).args [c] true with
    | none => parse_error p frame (p.rt.str "unknown option in combined flags: -" ++ [c]) rest
    | some arg =>
      if arg.is_help_flag then
        .stop {
          result := { frame.result p with status := .HelpRequested }, rest := rest, calls := [] }
      else if arg.type ≠ .Flag then
        parse_error p frame
          (p.rt.str "option -" ++ [c] ++ p.rt.str " requires a value and cannot be combined.") rest
      else parse_combined ((frame.see arg.name).set arg.name (.bool true)) rest letters

/-- A keyword no argument is defined for, where such keywords are allowed. -/
def parse_dynamic (frame : Frame) (dynamic_type : ArgType) (name : Bytes) :
    List Token → Progress
  | tokens =>
    let option := p.rt.str "option --" ++ name
    let invalid := p.rt.str "invalid value for option --" ++ name
    match dynamic_type with
    | .Single =>
      match tokens with
      | [] => parse_error p frame (option ++ p.rt.str " requires a value.") []
      | token :: rest =>
        if is_flag_token token then
          parse_error p frame (option ++ p.rt.str " requires a value.") tokens
        else
          let value := parse_token_value p.rt token .Single false
          if value.is_none then parse_error p frame invalid tokens
          else
            .more { frame with dynamic_values := frame.dynamic_values.insert name value } rest
    | .Multiple =>
      if tokens = [] || tokens.head?.any is_flag_token then
        parse_error p frame (option ++ p.rt.str " requires at least one value.") tokens
      else
        let (values, rest) := collect_values p.rt false tokens
        if values = [] then parse_error p frame invalid tokens
        else
          .more
            { frame with dynamic_values := frame.dynamic_values.insert name (.list values) } rest
    | .Flag =>
      parse_error p frame
        (p.rt.str "internal error: unsupported dynamic keyword configuration") tokens

/-- The optional value of a flag, behind it. -/
def parse_flag_value (frame : Frame) (arg : ArgumentDef) : List Token → Progress
  | [] => .more (frame.set arg.name (.bool true)) []
  | token :: rest =>
    let value := parse_token_value p.rt token .Flag false
    if is_flag_token token || value.is_none then
      .more (frame.set arg.name (.bool true)) (token :: rest)
    else .more (frame.set arg.name value) rest

/-- The value or values of an option, behind it. -/
def parse_option_value (frame : Frame) (arg : ArgumentDef) : List Token → Progress
  | [] =>
    parse_error p frame
      (p.rt.str "option " ++ get_display_name p.rt arg ++ p.rt.str " requires a value.") []
  | token :: rest =>
    if is_flag_token token then
      parse_error p frame
        (p.rt.str "option " ++ get_display_name p.rt arg ++ p.rt.str " requires a value.")
        (token :: rest)
    else
      let value := parse_token_value p.rt token arg.type arg.coerce_as_string
      if value.is_none then
        parse_error p frame (p.rt.str "invalid value for option " ++ get_display_name p.rt arg)
          (token :: rest)
      else if arg.type = .Single then .more (frame.set arg.name value) rest
      else
        match value.get_string with
        | none =>
          parse_error p frame
            (p.rt.str "internal error: expected string value for multiple option " ++ arg.name)
            (token :: rest)
        | some first =>
          -- the values of a repeated option, and a default, stay in front
          let earlier := (frame.values[arg.name]?.bind Argument.get_string_vector).getD []
          let (later, rest) := collect_values p.rt arg.coerce_as_string rest
          .more (frame.set arg.name (.list (earlier ++ first :: later))) rest

/-- A flag token, with what follows it. -/
def parse_keyword (frame : Frame) (token : Token) (flag_name : Bytes) (is_short : Bool)
    (rest : List Token) : Progress :=
  let cmd := frame.cmd p
  if is_short && flag_name.length > 1 then parse_combined p frame rest flag_name
  else
    match find_keyword_arg p.rt cmd.args flag_name is_short with
    | none =>
      match is_short, cmd.dynamic with
      | false, some dynamic_type => parse_dynamic p frame dynamic_type flag_name rest
      | _, _ =>
        parse_error p frame
          (p.rt.str "unknown option: " ++ p.rt.str (if is_short then "-" else "--") ++ flag_name)
          (token :: rest)
    | some arg =>
      if arg.is_help_flag then .stop (request_help p frame (token :: rest))
      else if arg.is_json_flag then
        .more ((frame.see arg.name).set arg.name (.bool true)) rest
      else if arg.type = .Flag then parse_flag_value p (frame.see arg.name) arg rest
      else parse_option_value p (frame.see arg.name) arg rest

/-- A subcommand by its name or, failing that, by an alias. -/
inductive Found
  | command (sub : Ref)
  | ambiguous
  | nothing

def find_subcommand (cmd : Command) (word : Bytes) : Found :=
  match cmd.commands.find? (·.1 = word) with
  | some sub => .command sub.2
  | none =>
    match cmd.commands.filter fun sub => (p.command sub.2).aliases.contains word with
    | [] => .nothing
    | [sub] => .command sub.2
    | _ => .ambiguous

/-- A token that is no flag and no subcommand. -/
def parse_positional (frame : Frame) (token : Token) (rest : List Token) : Progress :=
  match (pos_args (frame.cmd p))[frame.positional_index]? with
  | none =>
    parse_error p frame (p.rt.str "unexpected argument: " ++ token.print p.rt) (token :: rest)
  | some arg =>
    let value := parse_token_value p.rt token arg.type arg.coerce_as_string
    let next := { frame with positional_index := frame.positional_index + 1 }
    if value.is_none then
      parse_error p frame
        (p.rt.str "invalid value for positional argument '" ++ arg.name ++ p.rt.str "'")
        (token :: rest)
    else
      match arg.type with
      | .Single => .more (next.set arg.name value) rest
      | .Multiple =>
        match value.get_string with
        | none =>
          parse_error p frame
            (p.rt.str "internal error: expected string value for multiple positional argument " ++
              arg.name) (token :: rest)
        | some first =>
          let (later, rest) := collect_values p.rt arg.coerce_as_string rest
          .more (next.set arg.name (.list (first :: later))) rest
      -- nothing is read, and the loop comes back to the same token
      | .Flag => .more frame (token :: rest)

def parse_word (frame : Frame) (token : Token) (word : Bytes) (rest : List Token) : Progress :=
  let cmd := frame.cmd p
  match find_subcommand p cmd word with
  | .command sub =>
    .more (start_frame p sub (frame.command_path p ++ p.rt.str " ")
      (frame.json_inherited ||
        get_value_bool p.rt frame.values cmd.args (p.rt.str "json") false)) rest
  | .ambiguous =>
    parse_error p frame
      (p.rt.str "ambiguous alias '" ++ word ++ p.rt.str "' matches multiple subcommands.")
      (token :: rest)
  | .nothing =>
    if cmd.commands ≠ [] && frame.positional_index = 0 && cmd.handler.isNone then
      parse_error p frame (p.rt.str "unknown command or group: " ++ word) (token :: rest)
    else parse_positional p frame token rest

def parse_passthrough (frame : Frame) (token : Token) (rest : List Token) : Progress :=
  if (frame.cmd p).allow_passthrough then
    .more { frame with
      passthrough_args := frame.passthrough_args ++ rest.map (Token.print p.rt) } []
  else
    parse_error p frame (p.rt.str
      "unexpected delimiter '--'. This command does not accept passthrough arguments.")
      (token :: rest)

/-- One round of the loop. -/
def parse_token (frame : Frame) (token : Token) (rest : List Token) : Progress :=
  match token with
  | .TokDoubleMinus => parse_passthrough p frame token rest
  | .TokFlagShort name => parse_keyword p frame token name true rest
  | .TokFlagLong name => parse_keyword p frame token name false rest
  | .TokId word => parse_word p frame token word rest
  | _ => parse_positional p frame token rest

def missing_option (frame : Frame) : Option ArgumentDef :=
  (frame.cmd p).args.find? fun arg =>
    !arg.positional && !arg.is_help_flag && arg.required && !frame.args_seen.contains arg.name

/-- The defaults of the positional arguments that are missing, up to a required one. -/
def default_positionals : List ArgumentDef → ArgumentMap → ArgumentMap × Option ArgumentDef
  | [], values => (values, none)
  | arg :: args, values =>
    if arg.required then (values, some arg)
    else default_positionals args (values.insert arg.name arg.default_value)

def ordered (a b : Bytes) : Bytes × Bytes := if compare b a = .lt then (b, a) else (a, b)

/-- The pairs of names of options that exclude each other and are both given. -/
def conflicts (args : List ArgumentDef) (seen : List Bytes) : List (Bytes × Bytes) :=
  args.flatMap fun arg =>
    if seen.contains arg.name then
      (arg.conflicts_with.filter fun other => seen.contains other && arg.name ≠ other).map
        (ordered arg.name)
    else []

/-- A `std::set` of pairs in its order. -/
def sorted_pairs (pairs : List (Bytes × Bytes)) : List (Bytes × Bytes) :=
  pairs.dedup.mergeSort fun a b => ((compare a.1 b.1).then (compare a.2 b.2)).isLE

def conflict_text (pair : Bytes × Bytes) : Bytes :=
  p.rt.str "--" ++ pair.1 ++ p.rt.str " conflicts with --" ++ pair.2

def call_handler (frame : Frame) (handler : ℕ) : Outcome :=
  let cmd := frame.cmd p
  let (accepted, calls) := execute_pre_hooks p frame.command false
  if accepted then
    let json_wanted := frame.json_inherited ||
      get_value_bool p.rt frame.values cmd.args (p.rt.str "json") false
    let json_active := json_wanted && cmd.json_capture
    let args : ContextArgs :=
      { command_path := frame.command_path p
        args := frame.values ∪ frame.dynamic_values
        passthrough_args := frame.passthrough_args
        redirecting_output := json_active }
    { result := { frame.result p with
        exit_code := p.run handler args
        json_requested := json_active
        json_suppressed := json_wanted && !cmd.json_capture }
      rest := []
      calls := calls ++ [.handler frame.command args] }
  else { result := { frame.result p with exit_code := 1 }, rest := [], calls := calls }

/-- After the loop: the checks, then the handler or the help of a group. -/
def finish (frame : Frame) : Outcome :=
  let cmd := frame.cmd p
  let error (frame : Frame) (message : Bytes) : Outcome :=
    { result := { frame.result p with
        status := .ParseError, exit_code := 1, error_message := message }
      rest := []
      calls := [] }
  match missing_option p frame with
  | some arg =>
    error frame (p.rt.str "missing required option: " ++ get_display_name p.rt arg)
  | none =>
    let (values, missing) :=
      default_positionals ((pos_args cmd).drop frame.positional_index) frame.values
    let frame := { frame with values := values }
    match missing with
    | some arg =>
      error frame (p.rt.str "missing required positional argument: " ++ arg.name)
    | none =>
      let pairs := sorted_pairs (conflicts cmd.args frame.args_seen)
      if pairs ≠ [] then
        error frame (p.rt.str "conflicting options provided: " ++
          join (p.rt.str "; ") (pairs.map (conflict_text p)))
      else
        match cmd.handler with
        | none =>
          if cmd.commands ≠ [] then request_help p frame []
          else { result := frame.result p, rest := [], calls := [] }
        | some handler => call_handler p frame handler

/-- The loops of `Command::parse`, in a command and in the subcommands below it. None if they do
not end in as many rounds. -/
def parse_loop : ℕ → Frame → List Token → Option Outcome
  | 0, _, _ => none
  | _ + 1, frame, [] => some (finish p frame)
  | n + 1, frame, token :: rest =>
    match parse_token p frame token rest with
    | .more frame rest => parse_loop n frame rest
    | .stop outcome => some outcome

/-- `Command::parse` of the root command. A round that goes on reads a token, or the next one does
the same again, so that there are no more rounds than tokens, and one more, unless there is no
end to them. -/
def parse_command (root : Ref) (tokens : List Token) : Option Outcome :=
  parse_loop p (tokens.length + 1) (start_frame p root [] false) tokens

/-- Tokens that are left over are an error. -/
def check_rest (outcome : Outcome) : Outcome :=
  match outcome.result.status, outcome.rest with
  | .Success, token :: _ =>
    { outcome with
      result := { outcome.result with
        status := .ParseError
        exit_code := 1
        error_message := p.rt.str "unexpected arguments starting from: " ++ token.print p.rt } }
  | _, _ => outcome

def parse_tokens (root : Ref) (tokens : List Token) : Option Outcome :=
  (parse_command p root tokens).map (check_rest p)

/-- A result without a command. -/
def error_outcome (message : Bytes) : Outcome where
  result :=
    { status := .ParseError, exit_code := 1, error_message := message, command_path := []
      values := ∅, dynamic_values := ∅, passthrough_args := [], command := none
      json_requested := false, json_suppressed := false }
  rest := []
  calls := []

end

section

variable (rt : Runtime)

def classify_literal_or_identifier (arg : Bytes) : Token :=
  match tokenize rt arg with
  | .ok [.TokIntLit value base, .TokEof] => .TokIntLit value base
  | .ok [.TokFloatLit value has_exponent, .TokEof] => .TokFloatLit value has_exponent
  | .ok [.TokTrue, .TokEof] => .TokTrue
  | .ok [.TokFalse, .TokEof] => .TokFalse
  | _ => .TokId arg

/-- The same quote at both ends. -/
def is_quoted (arg : Bytes) : Bool :=
  arg.length ≥ 2 && ((arg.head? = some (rt.code '"') && arg.getLast? = some (rt.code '"')) ||
    (arg.head? = some (rt.code '\'') && arg.getLast? = some (rt.code '\'')))

def classify_argument (arg : Bytes) : Token :=
  if arg.length > 2 && arg.head? = some (rt.code '-') && arg.tail.head? = some (rt.code '-') then
    .TokFlagLong (arg.drop 2)
  else if arg.length > 1 && arg.head? = some (rt.code '-') then .TokFlagShort (arg.drop 1)
  else if is_quoted rt arg then .TokStrLit (arg.drop 1).dropLast
  else classify_literal_or_identifier rt arg

/-- The tokens of the words of `argv`; those behind the first `--` are not looked at. -/
def argv_tokens : List Bytes → List Token
  | [] => []
  | arg :: args =>
    if arg = rt.str "--" then .TokDoubleMinus :: args.map .TokId
    else classify_argument rt arg :: argv_tokens args

def lex_error_text : LexErrorKind → String
  | .InvalidChar => "invalid character"
  | .UnclosedString => "unclosed string literal"
  | .UnknownEscape => "unknown escape character"
  | .IntOutOfRange => "integer literal out of 64-bit range"
  | .IncompleteInt => "incomplete integer literal"
  | .FloatOutOfRange => "floating-point literal out of range"
  | .InvalidFloat => "invalid floating-point literal"

end

section

variable (p : Program)

/-- `parse(argc, argv)`. None if it does not return. -/
def parse_argv (root : Ref) : List Bytes → Option Outcome
  | [] => some (error_outcome (p.rt.str "invalid arguments provided (argc < 1)"))
  | _ :: args => parse_tokens p root (argv_tokens p.rt args)

/-- `parse(command_line)`. The message of a lexer error is without its location. -/
def parse_line (root : Ref) (command_line : Bytes) : Option Outcome :=
  match tokenize p.rt command_line with
  | .ok tokens =>
    parse_tokens p root (if tokens.getLast? = some .TokEof then tokens.dropLast else tokens)
  | .error kind => some (error_outcome (p.rt.str (lex_error_text kind)))

end

end Zowex.parser

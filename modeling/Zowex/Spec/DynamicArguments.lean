import Zowex.Spec.CommandLine

/-! What a handler gets of the arguments that its command declares, and of the keywords that it
does not. -/

namespace Zowex.parser

open lexer plugin

/-- The arguments of an invocation, and whether each is marked as dynamic. -/
def invocation_args (result : ParseResult) : Std.ExtTreeMap Bytes (Argument × Bool) compare :=
  result.values.map (fun _ value => (value, false)) ∪
    result.dynamic_values.map fun _ value => (value, true)

/-- `InvocationContext::dynamic_arguments`. -/
def dynamic_arguments (args : Std.ExtTreeMap Bytes (Argument × Bool) compare) : ArgumentMap :=
  args.filterMap fun _ arg => if arg.2 then some arg.1 else none

section

variable (p : Program)

/-- What an item makes of the value that an argument has before it. -/
def Item.value_for (arg : ArgumentDef) (value : Argument) : Item → Argument
  | .combined _ args => if arg.name ∈ args.map ArgumentDef.name then .bool true else value
  | .json _ matched => if matched.name = arg.name then .bool true else value
  | .flag _ matched given =>
    if matched.name = arg.name then given.elim (.bool true) (parse_token_value p.rt · .Flag false)
    else value
  | .option _ matched values =>
    if matched.name = arg.name then
      item_value p matched.type matched.coerce_as_string (value.get_string_vector.getD []) values
    else value
  | .positional matched values =>
    if matched.name = arg.name then
      item_value p matched.type matched.coerce_as_string [] values
    else value
  | .passthrough _ => value
  | .dynamic _ _ _ => value

/-- The value that was parsed or defaulted for an argument. -/
def declared_value (items : List Item) (arg : ArgumentDef) : Argument :=
  items.foldl (Item.value_for p arg) arg.default_value

/-- The value of a dynamic keyword. -/
def Item.dynamic_value (name : Bytes) : Item → Option Argument
  | .dynamic keyword type values =>
    if keyword = name then some (item_value p type false [] values) else none
  | _ => none

/-- The last value of a dynamic keyword. -/
def last_dynamic (items : List Item) (name : Bytes) : Option Argument :=
  (items.filterMap (Item.dynamic_value p name)).getLast?

/-- Each declared argument reaches the handler with its value, and the dynamic arguments are the
options that no declared argument has the name of, with their last values. -/
structure Untouched (cmd : Command) (items : List Item) (args : ContextArgs)
    (dynamic : ArgumentMap) : Prop where
  declared : ∀ arg ∈ cmd.args, arg.is_help_flag = false → arg.is_json_flag = false →
    args.args[arg.name]? = some (declared_value p items arg)
  dynamic : ∀ name, dynamic[name]? =
    if ∃ arg ∈ cmd.args, arg.name = name then none else last_dynamic p items name

end

end Zowex.parser

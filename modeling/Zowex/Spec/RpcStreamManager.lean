import Zowex.Lib.Shell

/-! The remote command lines of `RpcStreamManager.ts`, with `ZSshUtils.quotePath`, and the
files they open when the login shell runs them. -/

namespace Zowex.sdk

open Shell

/-- What `unsafeRe` lets pass: `\w` and `@%-+=:,./`. -/
def safe (c : Char) : Bool :=
  c.isAlphanum || c ∈ ['_', '@', '%', '-', '+', '=', ':', ',', '.', '/']

/-- `path.replace(/('+)/g, "'\"$1\"'")`; the flag tells that a run of quotes is open. -/
def quote_runs : Bool → Text → Text
  | false, [] => []
  | true, [] => ['"', '\'']
  | false, c :: cs =>
    if c = '\'' then '\'' :: '"' :: '\'' :: quote_runs true cs else c :: quote_runs false cs
  | true, c :: cs =>
    if c = '\'' then '\'' :: quote_runs true cs else '"' :: '\'' :: c :: quote_runs false cs

def strip_start (text : Text) : Text :=
  if ['\'', '\''].isPrefixOf text then text.drop 2 else text

def strip_end (text : Text) : Text :=
  if ['\'', '\''].isSuffixOf text then text.take (text.length - 2) else text

def quote_path (path : Text) : Text :=
  if path = [] then ['\'', '\'']
  else if path.all safe then path
  -- `.replace(/^''|''$/g, "")`
  else strip_end (strip_start ('\'' :: quote_runs false path ++ ['\'']))

/-- The command of `uploadStream`. -/
def upload_command (pipe_path : Text) : Text :=
  "exec /bin/sh -c \"cat > ".toList ++ quote_path pipe_path ++ ['"']

/-- The command of `downloadStream`. -/
def download_command (pipe_path : Text) : Text :=
  "exec /bin/sh -c \"cat ".toList ++ quote_path pipe_path ++ ['"']

inductive Opened
  | reads (file : Text)
  | writes (file : Text)
  deriving DecidableEq, Repr

/-- The files `cat` and its redirections open. An operand that starts with `-` is an option or
the standard input. -/
def cat_opens (command : Simple) : Option (List Opened) :=
  match command.argv with
  | [] => none
  | name :: operands =>
    if name = "cat".toList ∧ operands.all (·.head? ≠ some '-') then
      some (command.outputs.map .writes ++ operands.map .reads)
    else none

/-- `exec /bin/sh -c` replaces the login shell by one that reads the next word. -/
def exec_script (command : Simple) : Option Text :=
  match command.argv with
  | exec :: sh :: flag :: script :: _ =>
    if exec = "exec".toList ∧ sh = "/bin/sh".toList ∧ flag = "-c".toList ∧ command.outputs = [] then
      some script
    else none
  | _ => none

/-- The files opened when the login shell runs the line. None if anything else is expanded or
executed. -/
def opens (line : Text) : Option (List Opened) := do
  let script ← exec_script (← simple (← read line))
  cat_opens (← simple (← read script))

example : opens (upload_command "/tmp/a b;c".toList) = some [.writes "/tmp/a b;c".toList] := by
  decide +kernel

end Zowex.sdk

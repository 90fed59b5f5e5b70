import Zowex.Lib.Paths
import Zowex.Spec.RpcStreamManager

/-! The server path of `ZSshUtils.ts` and `ZSshClient.ts`: the remote paths and command lines made
of it, and the directories that these name. -/

namespace Zowex.sdk

open Shell
open Paths hiding Text

def SERVER_PAX_FILE : Text := "server.pax.Z".toList

def BIN_NAME : Text := "zo".toList

def EXIT_CODE_MARKER : Text := "@@ZOWE_EXIT_CODE@@".toList

/-- `serverPath.replace(/^~/, ".")`. -/
def remote_dir (server_path : Text) : Text :=
  match server_path with
  | '~' :: rest => '.' :: rest
  | _ => server_path

def remote_pax_path (server_path : Text) : Text := join (remote_dir server_path) SERVER_PAX_FILE

def mkdir_command (path : Text) : Text := "mkdir -p ".toList ++ quote_path path

/-- The commands of `pathExists` and `lacksWriteAccess`. -/
def test_command (flag : Char) (path : Text) : Text :=
  "test -".toList ++ [flag, ' '] ++ quote_path path

def rm_command (path : Text) : Text := "rm -rf ".toList ++ quote_path path

def quote_remote_path (path : Text) : Text :=
  if path = ['~'] ∨ ['~', '/'] <+: path then '~' :: quote_path (path.drop 1) else quote_path path

/-- The wrapped command of `execAsync`. -/
def exec_async (args : List Text) : Text :=
  List.intercalate [' '] args ++ (" || echo \"".toList ++ EXIT_CODE_MARKER ++ "$?\" >&2".toList)

def start_command (server_path : Text) (args : List Text) : Text :=
  exec_async (quote_remote_path (join server_path BIN_NAME) :: "server".toList :: args)

/-! What the commands name. -/

def is_option (operand : Text) : Bool := operand.head? = some '-' && decide (2 ≤ operand.length)

/-- `rm` does nothing with a root directory, nor with an operand that ends in `.` or `..`. -/
def refused_by_rm (operand : Text) : Bool :=
  match ((parts operand).filter (· ≠ [])).getLast? with
  | none => true
  | some last => last = dot || last = dotdot

/-- The directory operand of `test -e`, `test -w`, `mkdir -p` and `rm -rf`. -/
def operand (line : Text) : Option Text := do
  let command ← simple (← Shell.read line)
  match command.argv with
  | [utility, _, operand] =>
    if utility = "test".toList then some operand
    else if is_option operand then none
    else if utility = "rm".toList ∧ refused_by_rm operand = true then none
    else some operand
  | _ => none

section

variable {Dir : Type} (fs : FileSystem Dir)

def named_by (line : Text) : Option Dir := (operand line).bind fs.resolve

/-- The directory of the program that a line starts; one without a slash is looked up on the
`PATH`. -/
def started_by (line : Text) : Option Dir :=
  match command_word line with
  | none => none
  | some word =>
    if word.home then fs.walk fs.home (directory_steps word.text)
    else if '/' ∈ word.text then fs.directory_of word.text
    else none

/-- The directory that `installServer` creates. -/
def created (server_path : Text) : Option Dir :=
  named_by fs (mkdir_command (remote_dir server_path))

/-- It is the one that the archive is uploaded to and extracted in, and the one that is tested,
started from and removed. -/
structure OneDirectory (server_path : Text) (args : List Text) : Prop where
  checked : named_by fs (test_command 'e' (remote_dir server_path)) = created fs server_path
  uploaded : fs.directory_of (remote_pax_path server_path) = created fs server_path
  extracted : fs.resolve (remote_dir server_path) = created fs server_path
  exists_tested : named_by fs (test_command 'e' server_path) = created fs server_path
  write_tested : named_by fs (test_command 'w' server_path) = created fs server_path
  started : started_by fs (start_command server_path args) = created fs server_path
  removed : named_by fs (rm_command server_path) = created fs server_path

end

/-! `uninstallServer`. -/

structure CommandResult where
  code : Option ℤ
  stderr : Text

inductive Answer
  | go_on
  | stop
  | throws
  deriving DecidableEq

/-- The result of the command, none if it is not executed, and the answer of `onError` to it. -/
structure Attempt where
  result : Option CommandResult
  answer : Answer

inductive Uninstalled
  | returned (last : CommandResult)
  | thrown
  /-- There is an attempt to come. -/
  | unfinished

def EXPIRED_PASSWORD_CODES : List Text := ["FOTS1668".toList, "FOTS1669".toList]

def expired (text : Text) : Bool := EXPIRED_PASSWORD_CODES.any (· <:+: text)

def uninstall_server (on_error : Bool) : List Attempt → Uninstalled
  | [] => .unfinished
  | ⟨none, _⟩ :: _ => .thrown
  | ⟨some result, answer⟩ :: later =>
    if expired result.stderr then
      -- `routeExpiredPasswordError`
      if on_error = true ∧ answer ≠ .throws then .returned result else .thrown
    else if result.code = some 0 then .returned result
    else if on_error then
      match answer with
      | .go_on => uninstall_server on_error later
      | .stop | .throws => .thrown
    else .thrown

/-- One path names one directory, and an uninstall that returns leaves none: its last command, when
it has ended with 0, has left nothing at its operand. -/
structure OneName (server_path : Text) (args : List Text) (on_error : Bool)
    (attempts : List Attempt) : Prop where
  same : ∀ (Dir : Type) (fs : FileSystem Dir), OneDirectory fs server_path args
  uninstalled : ∀ last, uninstall_server on_error attempts = .returned last →
    ∀ (Dir : Type) (fs : FileSystem Dir),
      (last.code = some 0 → named_by fs (rm_command server_path) = none) →
        created fs server_path = none

end Zowex.sdk

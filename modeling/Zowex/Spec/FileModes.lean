import Zowex.Spec.CommandLine
import Zowex.Spec.DsCommands
import Zowex.Spec.RpcServer

/-! The commands of `uss.cpp` that take a mode, and the two ways in which one reaches them: as a
word of a command line and as a string of a request. -/

namespace Zowex.uss

open lexer parser plugin server ds

structure CreateOptions where
  create_dir : Bool
  overwrite : Bool

/-- What the commands call, which change the files and give a return code. -/
structure Services (Files : Type) where
  zusf_chmod_uss_file_or_dir (file : Bytes) (mode : ℕ) (recursive : Bool) : Files → Files × ℤ
  zusf_create_uss_file_or_dir (file : Bytes) (mode : ℕ) (options : CreateOptions) :
    Files → Files × ℤ

/-- The loop that takes the decimal digits of a mode for octal ones. -/
def octal_loop (temp_mode multiplier mode : ℕ) : ℕ :=
  if temp_mode = 0 then mode
  else octal_loop (temp_mode / 10) (multiplier * 8) (mode + temp_mode % 10 * multiplier)
termination_by temp_mode

/-- The mode is narrowed to an `int` first, and the loop is for positive ones. -/
def convert_mode (mode : ℤ) : ℕ := octal_loop (mode.bmod (2 ^ 32)).toNat 1 0

section

variable (rt : Runtime)

def get_bool (args : ArgumentMap) (key : String) (default_value : Bool) : Bool :=
  (io_get_bool rt args (rt.str key)).getD default_value

def get_int (args : ArgumentMap) (key : String) (default_value : ℤ) : ℤ :=
  (args[rt.str key]?.bind Argument.get_int).getD default_value

def octal_digits : List Char := "01234567".toList

/-- Three or four octal digits. -/
def IsMode (text : Bytes) : Prop :=
  (∀ c ∈ text, c ∈ octal_digits.map rt.code) ∧ 3 ≤ text.length ∧ text.length ≤ 4

instance (text : Bytes) : Decidable (IsMode rt text) :=
  inferInstanceAs (Decidable (_ ∧ _ ∧ _))

/-- What `handle_uss_chmod` takes for the mode. None if it refuses the argument. -/
def chmod_mode (args : ArgumentMap) : Option ℤ :=
  let mode := get_int rt args "mode" 0
  let mode_str := get_string rt.toCharset args "mode"
  if mode = 0 ∧ mode_str ≠ [] then
    -- at most four digits: `stoll` does not throw
    if IsMode rt mode_str then some (strtoll rt .Dec mode_str) else none
  else some mode

variable {Files : Type} (sv : Services Files)

def change_mode (args : ArgumentMap) (mode : ℕ) (files : Files) : Files × ℤ :=
  let (files, rc) := sv.zusf_chmod_uss_file_or_dir (get_string rt.toCharset args "file-path") mode
    (get_bool rt args "recursive" false) files
  (files, if rc ≠ 0 then zjb.RTNCD_FAILURE else rc)

def handle_uss_chmod (args : ArgumentMap) (files : Files) : Files × ℤ :=
  match chmod_mode rt args with
  | none => (files, zjb.RTNCD_FAILURE)
  | some mode => change_mode rt sv args (convert_mode mode) files

def create_file (args : ArgumentMap) (mode : ℕ) (files : Files) : Files × ℤ :=
  let (files, rc) := sv.zusf_create_uss_file_or_dir (get_string rt.toCharset args "file-path") mode
    ⟨false, get_bool rt args "overwrite" false⟩ files
  (files, if rc = zjb.RTNCD_WARNING then zjb.RTNCD_WARNING
    else if rc ≠ 0 then zjb.RTNCD_FAILURE else rc)

def handle_uss_create_file (args : ArgumentMap) (files : Files) : Files × ℤ :=
  let mode := get_int rt args "mode" 644
  if mode = 0 then (files, zjb.RTNCD_FAILURE)
  else create_file rt sv args (convert_mode mode) files

def create_dir (args : ArgumentMap) (mode : ℕ) (files : Files) : Files × ℤ :=
  let (files, rc) := sv.zusf_create_uss_file_or_dir (get_string rt.toCharset args "file-path") mode
    ⟨true, false⟩ files
  (files, if rc ≠ 0 then zjb.RTNCD_FAILURE else rc)

def handle_uss_create_dir (args : ArgumentMap) (files : Files) : Files × ℤ :=
  let mode := get_int rt args "mode" 755
  if mode = 0 then (files, zjb.RTNCD_FAILURE)
  else create_dir rt sv args (convert_mode mode) files

/-- The handler of `createFile`. -/
def handle_uss_create (args : ArgumentMap) (files : Files) : Files × ℤ :=
  if get_bool rt args "is-dir" false then handle_uss_create_dir rt sv args files
  else handle_uss_create_file rt sv args files

inductive ModeCommand
  | chmod
  | create_file
  | create_dir
  deriving DecidableEq

namespace ModeCommand

/-- The command with the mode it has made of its argument. -/
def perform : ModeCommand → ArgumentMap → ℕ → Files → Files × ℤ
  | chmod => change_mode rt sv
  | create_file => uss.create_file rt sv
  | create_dir => uss.create_dir rt sv

/-- The argument as `register_commands` has it. -/
def mode_argument (cmd : ModeCommand) : ArgumentDef where
  name := rt.str "mode"
  aliases := if cmd = chmod then [] else [rt.str "--mode"]
  type := .Single
  positional := cmd = chmod
  required := cmd = chmod
  coerce_as_string := false
  default_value := .none
  is_help_flag := false
  is_json_flag := false
  conflicts_with := []

def handler : ModeCommand → ArgumentMap → Files → Files × ℤ
  | chmod => handle_uss_chmod rt sv
  | create_file => handle_uss_create_file rt sv
  | create_dir => handle_uss_create_dir rt sv

/-- The field of a request that has the mode. -/
def field : ModeCommand → String
  | chmod => "mode"
  | create_file | create_dir => "permissions"

def transforms : ModeCommand → List ArgTransform
  | chmod => [.RenameArg (rt.str "fspath") (rt.str "file-path")]
  | create_file | create_dir => [.RenameArg (rt.str "fspath") (rt.str "file-path"),
      .RenameArg (rt.str "permissions") (rt.str "mode")]

/-- What the server calls. -/
def rpc_handler : ModeCommand → ArgumentMap → Files → Files × ℤ
  | chmod => handle_uss_chmod rt sv
  | create_file | create_dir => handle_uss_create rt sv

/-- The mode that the command goes on with. None if it refuses its argument. -/
def applied_mode : ModeCommand → ArgumentMap → Option ℕ
  | chmod, args => (chmod_mode rt args).map convert_mode
  | create_file, args =>
    let mode := get_int rt args "mode" 644
    if mode = 0 then none else some (convert_mode mode)
  | create_dir, args =>
    let mode := get_int rt args "mode" 755
    if mode = 0 then none else some (convert_mode mode)

/-- The arguments of a request are for the command. -/
def requested : ModeCommand → ArgumentMap → Prop
  | chmod, _ => True
  | create_file, args => get_bool rt args "is-dir" false = false
  | create_dir, args => get_bool rt args "is-dir" false = true

end ModeCommand

/-- The one token that an item has for an argument. -/
def word_for (arg : ArgumentDef) : Item → Option Token
  | .option _ matched (value :: _) => if matched.name = arg.name then some value else none
  | .positional matched (value :: _) => if matched.name = arg.name then some value else none
  | _ => none

def last_word (arg : ArgumentDef) (items : List Item) : Option Token :=
  (items.filterMap (word_for arg)).getLast?

inductive Route
  | command_line
  | request

/-- What is called by a route. -/
def Route.call : Route → ModeCommand → ArgumentMap → Files → Files × ℤ
  | command_line, cmd => cmd.handler rt sv
  | request, cmd => cmd.rpc_handler rt sv

/-- The number that octal digits write. -/
def octal_value (text : Bytes) : ℕ :=
  text.foldl (fun value c => value * 8 + (rt.hex_digit c).getD 0) 0

/-- The command applies the mode that its argument writes in octal digits, or changes nothing. -/
def OctalOrRejected (cmd : ModeCommand) (route : Route) (text : Bytes) (args : ArgumentMap) :
    Prop :=
  ∀ (Files : Type) (sv : Services Files) (files : Files),
    if IsMode rt text then
      route.call rt sv cmd args files = cmd.perform rt sv args (octal_value rt text) files
    else
      (route.call rt sv cmd args files).1 = files ∧ (route.call rt sv cmd args files).2 ≠ 0

/-- What the parser makes of a word. -/
def parsed (text : Bytes) : Argument :=
  parse_token_value rt (classify_argument rt text) .Single false

/-- The texts that are treated as they should be, by command and route. -/
def TreatedRight : ModeCommand → Route → Bytes → Prop
  | .chmod, .command_line, text => IsMode rt text ∨
      ∃ word, parsed rt text = .string word ∧ word ≠ [] ∧ ¬ IsMode rt word
  | .chmod, .request, text => text ≠ []
  | .create_file, .command_line, text | .create_dir, .command_line, text =>
    if IsMode rt text then octal_value rt text ≠ 0 else parsed rt text = .int 0
  | .create_file, .request, text => text = rt.str "644" ∨ text = rt.str "0644"
  | .create_dir, .request, text => text = rt.str "755" ∨ text = rt.str "0755"

end

end Zowex.uss

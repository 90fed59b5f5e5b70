import Mathlib.Data.List.SplitOn
import Zowex.Spec.Charset

/-! Programs that `zut.cpp` runs in a child process, and the environment that the child gets. -/

namespace Zowex.zut

variable (cs : Charset)

/-- What the process finds around it. `environ` has the entries of its environment. -/
structure Process where
  environ : List Bytes
  /-- `access("/bin/sh", X_OK)`. -/
  sh_executable : Bool
  /-- Both pipes and the null device are opened. -/
  pipes_opened : Bool

structure Child where
  program : Bytes
  argv : List Bytes
  environ : List Bytes
  deriving DecidableEq

def getenv (process : Process) (name : Bytes) : Option Bytes :=
  (process.environ.find? (name ++ [cs.code '=']).isPrefixOf).map fun entry =>
    entry.drop (name.length + 1)

/-! `zut_private_command_requires_noshareas`. -/

def ZUT_NOSHAREAS_COMMANDS : List Bytes := ["newgrp", "su", "sg", "zoa"].map cs.str

def is_whitespace (c : UInt8) : Bool := c ∈ [' ', '\t', '\n'].map cs.code

def tokens (command : Bytes) : List Bytes :=
  (command.splitOnP (is_whitespace cs)).filter (· ≠ [])

/-- An equals sign that is not the first character. -/
def has_equals (token : Bytes) : Bool :=
  token.contains (cs.code '=') && token.head? ≠ some (cs.code '=')

def basename (token : Bytes) : Bytes := (token.reverse.takeWhile (· ≠ cs.code '/')).reverse

def zut_private_command_requires_noshareas (command : Bytes) : Bool :=
  ((tokens cs command).find? fun token => !has_equals cs token).any fun token =>
    basename cs token ∈ ZUT_NOSHAREAS_COMMANDS cs

/-! The environment and the child. -/

def is_shareas (entry : Bytes) : Bool := (cs.str "_BPX_SHAREAS=").isPrefixOf entry

def zut_private_build_env (process : Process) (command : Bytes) : List Bytes :=
  let use_noshareas := zut_private_command_requires_noshareas cs command
  let env_vec :=
    if use_noshareas then process.environ.filter fun entry => !is_shareas cs entry
    else process.environ
  if !use_noshareas && !process.environ.any (is_shareas cs) then
    env_vec ++ [cs.str "_BPX_SHAREAS=YES"]
  else env_vec

def zut_private_get_shell (process : Process) : Bytes :=
  if process.sh_executable then cs.str "/bin/sh"
  else
    let env_shell := getenv cs process (cs.str "SHELL")
    if env_shell.getD [] ≠ [] then env_shell.getD [] else cs.str "/bin/sh"

/-- The child that is spawned, if one is. -/
def zut_private_run_program (process : Process) (program : Bytes) (args : List Bytes) :
    Option Child :=
  if program = [] then none
  else if !process.pipes_opened then none
  else some ⟨program, program :: args, zut_private_build_env cs process program⟩

def zut_spawn_shell_command (process : Process) (command : Bytes) : Option Child :=
  if command = [] then none
  else
    zut_private_run_program cs process (zut_private_get_shell cs process) [cs.str "-c", command]

/-! What a command asks for. -/

def is_name_start (c : UInt8) : Bool :=
  c ∈ ("ABCDEFGHIJKLMNOPQRSTUVWXYZabcdefghijklmnopqrstuvwxyz_".toList).map cs.code

def is_name_char (c : UInt8) : Bool :=
  is_name_start cs c || decide (c ∈ ("0123456789".toList).map cs.code)

/-- A word that assigns a variable: a name, an equals sign and the value. -/
def is_assignment (word : Bytes) : Bool :=
  let name := word.takeWhile (is_name_char cs)
  name.head?.any (is_name_start cs) && (word.drop name.length).head? = some (cs.code '=')

/-- The command changes the user or group that it runs under. -/
def ChangesIdentity (command : Bytes) : Prop :=
  ∃ word, (tokens cs command).find? (fun word => !is_assignment cs word) = some word ∧
    basename cs word ∈ ZUT_NOSHAREAS_COMMANDS cs

/-- The environment that the child of a command is to have. -/
structure Inherits (command : Bytes) (parent child : List Bytes) : Prop where
  shareas : (∃ entry ∈ child, is_shareas cs entry = true) ↔ ¬ ChangesIdentity cs command
  others : (child.filter fun entry => !is_shareas cs entry) =
    parent.filter fun entry => !is_shareas cs entry

end Zowex.zut

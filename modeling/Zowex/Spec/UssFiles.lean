import Zowex.Lib.PathTexts
import Zowex.Spec.FileModes

/-! The files of z/OS UNIX with their modes, the system calls of `zusf.cpp` on them, and the
creation of files and directories. -/

namespace Zowex.zusf

open Inodes

abbrev FileName (cs : Charset) := PathTexts.FileName (cs.code '/') (cs.code '.')

def file_path (cs : Charset) (text : Bytes) : Path (FileName cs) :=
  PathTexts.path (cs.code '/') (cs.code '.') text

/-- Which of the three permissions of a mode are the process's. -/
inductive PermissionClass
  | owner
  | group
  | other
  deriving DecidableEq

def PermissionClass.shift : PermissionClass → ℕ
  | .owner => 6
  | .group => 3
  | .other => 0

structure FileSystem (cs : Charset) extends Files (FileName cs) where
  mode : ℕ → ℕ
  permission_class : ℕ → PermissionClass
  superuser : Bool
  umask : ℕ
  /-- How many links a path may go through. -/
  symloop_max : ℕ

variable {cs : Charset}

namespace FileSystem

variable (fs : FileSystem cs)

def searchable (i : ℕ) : Bool :=
  fs.superuser || (fs.mode i).testBit ((fs.permission_class i).shift)

def writable (i : ℕ) : Bool :=
  fs.superuser || (fs.mode i).testBit ((fs.permission_class i).shift + 1)

/-- From the root, or from the working directory. -/
def reach (follow absolute : Bool) (parts : List (Component (FileName cs))) : Option Arrival :=
  fs.walk fs.searchable fs.symloop_max follow (if absolute then fs.root else fs.cwd) parts

/-- An empty path leads nowhere. -/
def resolve (follow : Bool) (text : Bytes) : Option ℕ :=
  if text = [] then none
  else (fs.reach follow (file_path cs text).absolute (file_path cs text).parts).map Arrival.object

def stat (text : Bytes) : Option ℕ := fs.resolve true text

def lstat (text : Bytes) : Option ℕ := fs.resolve false text

/-- The directory of a new object and its name there, where slashes may follow. -/
def place (text : Bytes) : Option (ℕ × FileName cs) :=
  let parts := (file_path cs text).parts.rdropWhile (· = .nothing)
  (parts.getLast?.bind Component.name_of).bind fun n =>
    (fs.reach true (file_path cs text).absolute parts.dropLast).map fun arrival =>
      (arrival.object, n)

/-- A new directory of the process's own. -/
def add_directory (d : ℕ) (n : FileName cs) (mode : ℕ) (hd : d < fs.next)
    (hdirectory : fs.kind d = .directory) (hnew : fs.lookup d n = none) : FileSystem cs :=
  { fs with
    toFiles := fs.toFiles.add d n .directory hd hdirectory hnew
    mode := Function.update fs.mode fs.next mode
    permission_class := Function.update fs.permission_class fs.next .owner }

/-- A name can be made in a directory. -/
def CanHold (d : ℕ) (n : FileName cs) : Prop :=
  d < fs.next ∧ fs.kind d = .directory ∧ fs.lookup d n = none ∧ fs.searchable d = true ∧
    fs.writable d = true

instance (d : ℕ) (n : FileName cs) : Decidable (fs.CanHold d n) :=
  inferInstanceAs (Decidable (_ ∧ _ ∧ _ ∧ _ ∧ _))

section

variable {fs} {d : ℕ} {n : FileName cs}

theorem CanHold.lt (h : fs.CanHold d n) : d < fs.next := h.1

theorem CanHold.directory (h : fs.CanHold d n) : fs.kind d = .directory := h.2.1

theorem CanHold.unused (h : fs.CanHold d n) : fs.lookup d n = none := h.2.2.1

end

def mkdir (text : Bytes) (mode : ℕ) : FileSystem cs × ℤ :=
  match fs.place text with
  | none => (fs, -1)
  | some (d, n) =>
    if h : fs.CanHold d n then
      (fs.add_directory d n (Nat.ldiff mode fs.umask) h.1 h.2.1 h.2.2.1, 0)
    else (fs, -1)

/-- The process may change the mode of its own objects. -/
def owns (i : ℕ) : Bool := fs.superuser || fs.permission_class i = .owner

def set_mode (i mode : ℕ) : FileSystem cs := { fs with mode := Function.update fs.mode i mode }

/-- What is left of a call whose return code is not looked at. -/
def chmod (text : Bytes) (mode : ℕ) : FileSystem cs :=
  match fs.stat text with
  | none => fs
  | some i => if fs.owns i then fs.set_mode i mode else fs

/-- What the names after one another lead to, from the root or from the working directory. -/
def reaches (absolute : Bool) (names : List Bytes) : Option ℕ :=
  (fs.reach true absolute (names.map (PathTexts.part (cs.code '/') (cs.code '.')))).map
    Arrival.object

end FileSystem

/-- The path up to the last slash. -/
def parent_path (cs : Charset) (file : Bytes) : Bytes :=
  PathTexts.before_last (cs.code '/') file

theorem parent_path_lt {file : Bytes} (h : cs.code '/' ∈ file) :
    (parent_path cs file).length < file.length := by
  obtain ⟨before, name, rfl, hname⟩ := PathTexts.exists_last_slash h
  rw [parent_path, PathTexts.before_last_append hname]
  simp

/-- `ofstream` creates a file or empties it. None if it cannot be opened. -/
def zusf_create_uss_file_or_dir (ofstream : Bytes → FileSystem cs → Option (FileSystem cs))
    (fs : FileSystem cs) (file : Bytes) (mode : ℕ) (options : uss.CreateOptions) :
    FileSystem cs × ℤ :=
  if (fs.stat file).isSome && !options.overwrite then (fs, zjb.RTNCD_WARNING)
  else if options.create_dir then
    let parent :=
      if cs.code '/' ∈ file then
        if (fs.stat (parent_path cs file)).isSome then (fs, 0)
        else zusf_create_uss_file_or_dir ofstream fs (parent_path cs file) mode ⟨true, false⟩
      else (fs, 0)
    if parent.2 ≠ 0 then parent
    else
      let (fs, rc) := parent.1.mkdir file mode
      (fs.chmod file mode, rc)
  else
    match ofstream file fs with
    | none => (fs, zjb.RTNCD_FAILURE)
    | some fs => (fs.chmod file mode, 0)
termination_by file.length
decreasing_by exact parent_path_lt ‹_›

/-- The directories of the missing names are there, each in the one before it, and nothing else has
changed. -/
structure Made (fs fs' : FileSystem cs) (absolute : Bool) (front missing : List Bytes) (d mode : ℕ) :
    Prop where
  next : fs'.next = fs.next + missing.length
  directories : ∀ j < missing.length,
    fs'.reaches absolute (front ++ missing.take (j + 1)) = some (fs.next + j) ∧
      fs'.kind (fs.next + j) = .directory ∧ fs'.mode (fs.next + j) = mode
  names : ∀ i n c, fs'.lookup i n = some c ↔ fs.lookup i n = some c ∨
    ∃ j, missing[j]? = some n.val ∧ c = fs.next + j ∧
      i = if j = 0 then d else fs.next + (j - 1)
  kept : ∀ i < fs.next, fs'.kind i = fs.kind i ∧ fs'.parent i = fs.parent i ∧
    fs'.mode i = fs.mode i ∧ fs'.permission_class i = fs.permission_class i

/-- From the nearest directory that is there, the first name that leads nowhere and the names
behind it. -/
structure Missing (fs : FileSystem cs) (absolute : Bool) (names front : List Bytes) (first : Bytes)
    (rest : List Bytes) (d : ℕ) : Prop where
  split : names = front ++ first :: rest
  reached : fs.reaches absolute front = some d
  lost : fs.reaches absolute (front ++ [first]) = none

/-- A directory that a process may write to. -/
structure Open (fs : FileSystem cs) (d : ℕ) : Prop where
  directory : fs.kind d = .directory
  searchable : fs.searchable d = true
  writable : fs.writable d = true

/-- The directories that are missing are made where the nearest one may be written to, and when it
fails no mode is another. -/
structure MakesDirectories (fs : FileSystem cs) (absolute : Bool) (names : List Bytes) (mode : ℕ)
    (result : FileSystem cs × ℤ) : Prop where
  made : ∀ front first rest d, Missing fs absolute names front first rest d → Open fs d →
    result.2 = 0 ∧ Made fs result.1 absolute front (first :: rest) d mode
  kept : result.2 ≠ 0 → ∀ i < fs.next, result.1.mode i = fs.mode i

/-- No other object has the first name, all names are names, and the process can go on in a
directory that it has made. Nothing is missing right below the root, as an absolute path has it. -/
structure Makeable (fs : FileSystem cs) (absolute : Bool) (names : List Bytes) (mode : ℕ)
    (overwrite : Bool) : Prop where
  missing : ∀ front first rest d, Missing fs absolute names front first rest d → Open fs d →
    (absolute = true → front ≠ []) ∧
      (∀ n : FileName cs, first = n.val → fs.lookup d n = none) ∧
      (∀ name ∈ rest, PathTexts.Plain (cs.code '/') (cs.code '.') name) ∧
      (rest ≠ [] → fs.superuser = true ∨ (mode.testBit 6 = true ∧ mode.testBit 7 = true))
  existing : overwrite = true → ∀ i, fs.reaches absolute names = some i →
    (absolute = true ∧ names.length ≤ 1) ∨ fs.owns i = false ∨ fs.mode i = mode

end Zowex.zusf

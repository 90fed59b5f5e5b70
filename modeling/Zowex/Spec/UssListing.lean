import Mathlib.Data.List.Lex
import Mathlib.Data.List.Sort
import Zowex.Lib.TreeLists
import Zowex.Spec.UssFiles

/-! Directory listings of `zusf.cpp`: the entries of a directory and of those below it, each looked
up once more by its path. -/

namespace Zowex.zusf

open Inodes

variable {cs : Charset}

structure ListOptions where
  all_files : Bool
  max_depth : ℤ

def PATH_MAX : ℕ := 1024

def zusf_is_valid_path (path : Bytes) : Bool := path ≠ [] && decide (path.length ≤ PATH_MAX)

def zusf_join_path (cs : Charset) (dir_path name : Bytes) : Bytes :=
  if dir_path.getLast? = some (cs.code '/') then dir_path ++ name
  else dir_path ++ [cs.code '/'] ++ name

/-- The order of `strcmp`, which compares unsigned characters. -/
def zut_string_compare_c (a b : Bytes) : Bool := decide (a.map UInt8.toNat < b.map UInt8.toNat)

namespace FileSystem

variable (fs : FileSystem cs)

def readable (i : ℕ) : Bool :=
  fs.superuser || (fs.mode i).testBit ((fs.permission_class i).shift + 2)

/-- `opendir`, and what `readdir` gives until it is at the end. -/
def read_directory (text : Bytes) : Option (List Bytes) :=
  (fs.stat text).bind fun i =>
    if fs.kind i = .directory ∧ fs.readable i = true then
      some ([cs.code '.'] :: [cs.code '.', cs.code '.'] ::
        (fs.entries i).map fun entry => entry.1.val)
    else none

end FileSystem

/-- The names that are shown, sorted. -/
def current_entries (cs : Charset) (options : ListOptions) (d_names : List Bytes) : List Bytes :=
  (d_names.filter fun name =>
    name ≠ [cs.code '.'] && name ≠ [cs.code '.', cs.code '.'] &&
      !(name.head? = some (cs.code '.') && !options.all_files)).insertionSort
    fun a b => zut_string_compare_c b a = false

variable (fs : FileSystem cs) (options : ListOptions)

def zusf_collect_directory_entries_recursive (dir_path : Bytes) (current_depth : ℕ) :
    Option (List Bytes) :=
  (fs.read_directory dir_path).map fun d_names =>
    (current_entries cs options d_names).flatMap fun name =>
      name ::
        if _h : options.max_depth > 1 ∧ current_depth < options.max_depth - 1 then
          let child_path := zusf_join_path cs dir_path name
          if (fs.lstat child_path).any fun i => fs.kind i = .directory then
            match zusf_collect_directory_entries_recursive child_path (current_depth + 1) with
            | none => []
            | some subdir_entries =>
              subdir_entries.map fun subentry => name ++ [cs.code '/'] ++ subentry
          else []
        else []
termination_by (options.max_depth - 1 - current_depth).toNat

/-- The path whose attributes `..` is shown with. -/
def shown_parent (cs : Charset) (file : Bytes) : Bytes :=
  let parent := if cs.code '/' ∈ file then parent_path cs file else file
  if parent = [] then [cs.code '/'] else parent

/-- `file.substr(file.find_last_of("/") + 1)` -/
def last_name (cs : Charset) (file : Bytes) : Bytes := file.rtakeWhile (· ≠ cs.code '/')

/-- The names that are listed, and the object whose attributes each of them is shown with. None if
the listing fails. -/
def zusf_list_uss_file_path (file : Bytes) : Option (List (Bytes × ℕ)) :=
  if zusf_is_valid_path file = false then none
  else
    (fs.stat file).bind fun file_stats =>
      if fs.kind file_stats = .file then some [(last_name cs file, file_stats)]
      else if fs.kind file_stats ≠ .directory then none
      else if options.max_depth = 0 then some [(last_name cs file, file_stats)]
      else
        let dots :=
          if options.all_files then
            ([cs.code '.'], file_stats) ::
              ((fs.stat (shown_parent cs file)).map fun parent_stats =>
                ([cs.code '.', cs.code '.'], parent_stats)).toList
          else []
        (zusf_collect_directory_entries_recursive fs options file 0).bind fun entry_names =>
          (entry_names.mapM fun name =>
            (fs.lstat (zusf_join_path cs file name)).map fun child_stats => (name, child_stats)).map
              fun entries => dots ++ entries

/-! What is to be listed. -/

instance : LinearOrder (FileName cs) :=
  LinearOrder.lift' (fun n : FileName cs => n.val.map UInt8.toNat) fun _ _ h =>
    Subtype.ext (List.map_injective_iff.mpr (fun _ _ => UInt8.toNat_inj.mp) h)

/-- Names with a slash between any two of them. -/
def relative_path (names : List (FileName cs)) : Bytes :=
  [cs.code '/'].intercalate (names.map fun n => n.val)

def visible (options : ListOptions) (n : FileName cs) : Bool :=
  options.all_files || n.val.head? ≠ some (cs.code '.')

/-- What lies so deep at most below a directory, along names that are shown. -/
def Listed (d : ℕ) (names : List (FileName cs)) (c : ℕ) : Prop :=
  fs.Below d names c ∧ names.length ≤ options.max_depth ∧ ∀ n ∈ names, visible options n = true

/-- All that is to be listed, each once, a directory before what is in it and the names of a
directory in their order. The directory itself and its parent come first where hidden files are
wanted. -/
def Lists (d : ℕ) (output : List (Bytes × ℕ)) : Prop :=
  ∃ listed : List (List (FileName cs) × ℕ),
    (∀ names c, (names, c) ∈ listed ↔ Listed fs options d names c) ∧
    (listed.Pairwise fun a b => List.Lex (· < ·) a.1 b.1) ∧
    output = (if options.all_files then
        [([cs.code '.'], d), ([cs.code '.', cs.code '.'], fs.parent d)] else []) ++
      listed.map fun entry => (relative_path entry.1, entry.2)

/-- The names lead to an object, or there are none. -/
def Under (d : ℕ) (names : List (FileName cs)) (e : ℕ) : Prop :=
  (names = [] ∧ e = d) ∨ fs.Below d names e

def Readable (d : ℕ) : Prop :=
  ∀ names e, Under fs d names e → fs.kind e = .directory → fs.readable e = true

/-- The directories that hold something to be listed may be searched. -/
def Searchable (d : ℕ) : Prop :=
  ∀ names e n c, Under fs d names e → Listed fs options d (names ++ [n]) c → fs.searchable e = true

/-- Where the path leads to up to its last slash. -/
def holder (file : Bytes) : Option ℕ :=
  fs.reaches (file_path cs file).absolute ((parent_path cs file).splitOn (cs.code '/'))

/-- The path is written so that it leads to the parent up to its last slash. The root is its own
parent, and behind a name there is a directory of the holder or a link to one that is. -/
structure NamesParent (file : Bytes) (d : ℕ) : Prop where
  bare : cs.code '/' ∉ file → d = fs.root
  same : cs.code '/' ∈ file → last_name cs file = [] ∨ last_name cs file = [cs.code '.'] →
    d = fs.root
  up : cs.code '/' ∈ file → last_name cs file = [cs.code '.', cs.code '.'] →
    holder fs file = some fs.root
  link : cs.code '/' ∈ file → ∀ n e, last_name cs file = n.val → holder fs file = some e →
    (∀ c, fs.lookup e n = some c → fs.kind c ≠ .directory) → fs.parent d = e

end Zowex.zusf

import Zowex.Lib.Unlinks
import Zowex.Spec.UssListing

/-! The removal of files and directories of `zusf.cpp`, a directory with all that is in it. -/

namespace Zowex.zusf

open Inodes

variable {cs : Charset}

namespace FileSystem

variable (fs : FileSystem cs) (refuses : ℕ → Bool)

/-- A directory loses a name. -/
def erase (d : ℕ) (n : FileName cs) : FileSystem cs := { fs with toFiles := fs.toFiles.erase d n }

/-- A name of a directory may be taken away, as far as the modes say. -/
def CanLose (d : ℕ) : Prop := fs.searchable d = true ∧ fs.writable d = true

instance (d : ℕ) : Decidable (fs.CanLose d) := inferInstanceAs (Decidable (_ ∧ _))

/-- The name at the end of a path is taken away if it leads to an object of the right kind. What
`refuses` has cannot be taken away for another reason, as a mount point cannot. -/
def take_away (allowed : ℕ → Bool) (text : Bytes) : FileSystem cs × ℤ :=
  match fs.place text with
  | none => (fs, -1)
  | some (d, n) =>
    match fs.lookup d n with
    | none => (fs, -1)
    | some i =>
      if allowed i = true ∧ fs.CanLose d ∧ refuses i = false then (fs.erase d n, 0) else (fs, -1)

def rmdir (text : Bytes) : FileSystem cs × ℤ :=
  fs.take_away refuses (fun i => fs.kind i = .directory && fs.entries i = []) text

/-- `rmdir` of a directory, `unlink` of anything else. -/
def remove (text : Bytes) : FileSystem cs × ℤ :=
  fs.take_away refuses (fun i => fs.kind i ≠ .directory || fs.entries i = []) text

end FileSystem

/-- The loop over the entries of a directory, where `delete_item` deletes one of them. -/
def delete_entries (delete_item : FileSystem cs → Bytes → Bool → Option (FileSystem cs × ℤ))
    (file : Bytes) : List Bytes → FileSystem cs → Option (FileSystem cs × ℤ)
  | [], fs => some (fs, 0)
  | d_name :: d_names, fs =>
    if d_name = [cs.code '.'] ∨ d_name = [cs.code '.', cs.code '.'] then
      delete_entries delete_item file d_names fs
    else
      match fs.lstat (zusf_join_path cs file d_name) with
      | none => some (fs, zjb.RTNCD_FAILURE)
      | some child_stats =>
        (delete_item fs (zusf_join_path cs file d_name) (fs.kind child_stats = .directory)).bind
          fun result =>
            if result.2 ≠ 0 then some result else delete_entries delete_item file d_names result.1

/-- The end of a deletion: a return code of the system is a failure. -/
def deleted (result : FileSystem cs × ℤ) : FileSystem cs × ℤ :=
  if result.2 ≠ 0 then (result.1, zjb.RTNCD_FAILURE) else (result.1, 0)

/-- None if it has not returned after so many nested calls. -/
def zusf_delete_uss_item (refuses : ℕ → Bool) :
    ℕ → FileSystem cs → Bytes → Bool → Option (FileSystem cs × ℤ)
  | 0, _, _, _ => none
  | steps + 1, fs, file, recursive =>
    match fs.lstat file with
    | none => some (fs, zjb.RTNCD_FAILURE)
    | some file_stats =>
      if fs.kind file_stats = .directory then
        if recursive = false then some (fs, zjb.RTNCD_FAILURE)
        else
          match fs.read_directory file with
          | none => some (fs, zjb.RTNCD_FAILURE)
          | some d_names =>
            (delete_entries (zusf_delete_uss_item refuses steps) file d_names fs).bind
              fun result =>
                if result.2 ≠ 0 then some result
                else some (deleted (result.1.rmdir refuses file))
      else some (deleted (fs.remove refuses file))

/-- Names are taken away, and nothing else is another. -/
structure Lost (fs fs' : FileSystem cs) (gone : ℕ → FileName cs → Prop) : Prop where
  shrinks : fs.Shrinks fs'.toFiles gone
  kept : fs' = { fs with toFiles := fs'.toFiles }

/-- What may be taken away with an item: its own name, and the names in the directories that are in
it. What is behind a link is in no directory. -/
def Removable (fs : FileSystem cs) (file : Bytes) (recursive : Bool) (d : ℕ) (n : FileName cs) :
    Prop :=
  ∃ i, fs.lstat file = some i ∧
    ((fs.place file = some (d, n) ∧ fs.lookup d n = some i) ∨ (recursive = true ∧ fs.Inside i d))

/-- The item is gone, and all directories in it are empty. -/
def Removed (fs fs' : FileSystem cs) (file : Bytes) : Prop :=
  ∃ d n i, fs.lstat file = some i ∧ fs.place file = some (d, n) ∧ fs.lookup d n = some i ∧
    fs'.lookup d n = none ∧ fs.Cleared fs'.toFiles i

/-- A deletion takes nothing away but the item and what is in it, and it succeeds only where all of
that is gone. -/
structure Deletes (fs fs' : FileSystem cs) (file : Bytes) (recursive : Bool) (rc : ℤ) : Prop where
  lost : Lost fs fs' (Removable fs file recursive)
  code : rc = 0 ∨ rc = zjb.RTNCD_FAILURE
  removed : rc = 0 → Removed fs fs' file
  directory : rc = 0 → recursive = false → ∀ i, fs.lstat file = some i → fs.kind i ≠ .directory

/-- A directory can be read, and emptied if there is something in it. -/
structure Clearable (fs : FileSystem cs) (refuses : ℕ → Bool) (d : ℕ) : Prop where
  readable : fs.readable d = true
  lose : fs.entries d ≠ [] → fs.CanLose d
  refused : ∀ n c, (n, c) ∈ fs.entries d → refuses c = false

/-- A path names an item by its own name, also when what is in it is gone, so that the path does
not go through the item. -/
structure Named (fs : FileSystem cs) (file : Bytes) (d : ℕ) (n : FileName cs) (i : ℕ) : Prop where
  found : fs.lstat file = some i
  lookup : fs.lookup d n = some i
  stays : ∀ fs', (Lost fs fs' fun e _ => fs.Inside i e) → fs'.place file = some (d, n)

/-- Nothing keeps an item from being taken away. -/
structure Deletable (fs : FileSystem cs) (refuses : ℕ → Bool) (recursive : Bool) (d i : ℕ) :
    Prop where
  lose : fs.CanLose d
  refused : refuses i = false
  recursive_of_directory : fs.kind i = .directory → recursive = true
  inside : ∀ e, fs.Inside i e → fs.kind e = .directory → Clearable fs refuses e

end Zowex.zusf

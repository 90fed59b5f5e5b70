import Mathlib.Tactic
import Zowex.Spec.CopyDsn

/-! When a copy keeps its source, and when a failed one keeps its target. A data set that is
allocated for the copy is no target that was there, so that only a copy to an existing data set can
lose anything, and it does in the ways that `Loses` lists. -/

namespace Zowex.zds

variable {cs : Charset} {sv : Services} {c : Catalog} {source target : ZDSTypeInfo}
  {options : ZDSCopyOptions} {target_exists : Bool}

/-- The members of a library after IEBCOPY. -/
def merge (statement : ControlStatement) (members target : Bytes → Option Bytes)
    (name : Bytes) : Option Bytes :=
  let put (replace : Bool) (member : Bytes) : Option Bytes :=
    if replace then (members member).or (target name) else (target name).or (members member)
  match statement with
  | .copy replace => put replace name
  | .select_member member replace => if name = member then put replace member else target name
  | .select_renamed member new_name replace =>
    if name = new_name then put replace member else target name

def working : Services where
  opens c dsn := (c dsn).isSome
  opens_member c dsn member := (c.contents dsn member).isSome
  list c dsn := (c dsn).map DataSet.attributes
  remove c dsn := (true, Function.update c dsn none)
  alloc_like c dsn like_dsn :=
    match c dsn, c like_dsn with
    | none, some like => (true, Function.update c dsn (some like.empty))
    | _, _ => (false, c)
  free_dsn _ _ := true
  alloc_dd _ _ := true
  write_sysin _ _ := true
  iebgener c sysut1 sysut2 :=
    match c sysut1, c sysut2 with
    | some source, some target =>
      (true, Function.update c sysut2 (some { target with contents := source.contents }))
    | _, _ => (false, c)
  iebcopy c sysut1 sysut2 statement :=
    match c sysut1, c sysut2 with
    | some ⟨_, .partitioned members⟩, some ⟨attributes, .partitioned target⟩ =>
      (true, Function.update c sysut2
        (some ⟨attributes, .partitioned (merge statement members target)⟩))
    | _, _ => (false, c)
  free_dds _ := true

end Zowex.zds

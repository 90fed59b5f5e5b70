import Mathlib.Logic.Function.Basic
import Zowex.Spec.Charset

/-! `zds_copy_dsn` of `zds.cpp`. The services of the system take the catalog as it is and give a
return code, true where it is zero, and the catalog they leave. -/

namespace Zowex.zds

/-- What is read of a `ZDSEntry`. -/
structure ZDSEntry where
  dsorg : Bytes := []
  recfm : Bytes := []
  lrecl : ℤ := 0
  blksize : ℤ := 0

inductive Contents
  | sequential (data : Bytes)
  | partitioned (members : Bytes → Option Bytes)

structure DataSet where
  attributes : ZDSEntry
  contents : Contents

abbrev Catalog := Bytes → Option DataSet

/-- What a data set holds, or a member where there is a member name. -/
def Catalog.contents (c : Catalog) (base_dsn member_name : Bytes) : Option Contents :=
  if member_name = [] then (c base_dsn).map DataSet.contents
  else
    match (c base_dsn).map DataSet.contents with
    | some (.partitioned members) => (members member_name).map .sequential
    | _ => none

/-- A data set with nothing in it. -/
def DataSet.empty (like : DataSet) : DataSet :=
  { like with
    contents :=
      match like.contents with
      | .sequential _ => .sequential []
      | .partitioned _ => .partitioned fun _ => none }

inductive Dd
  | sysut1
  | sysut2
  | sysin
  | sysprint
  deriving DecidableEq, Repr

/-- The statement that IEBCOPY reads. -/
inductive ControlStatement
  | copy (replace : Bool)
  | select_member (member : Bytes) (replace : Bool)
  | select_renamed (member new_name : Bytes) (replace : Bool)
  deriving DecidableEq, Repr

structure Services where
  /-- `fopen` of a data set, and of a member. -/
  opens : Catalog → Bytes → Bool
  opens_member : Catalog → Bytes → Bytes → Bool
  /-- The one entry that `zds_list_data_sets` gives for a name. -/
  list : Catalog → Bytes → Option ZDSEntry
  remove : Catalog → Bytes → Bool × Catalog
  alloc_like : Catalog → Bytes → Bytes → Bool × Catalog
  free_dsn : Catalog → Bytes → Bool
  alloc_dd : Catalog → Dd → Bool
  write_sysin : Catalog → ControlStatement → Bool
  iebgener : Catalog → Bytes → Bytes → Bool × Catalog
  iebcopy : Catalog → Bytes → Bytes → ControlStatement → Bool × Catalog
  free_dds : Catalog → Bool

/-- What the services are documented to leave as it is. -/
structure Documented (sv : Services) : Prop where
  opens {c dsn} : sv.opens c dsn = true → c dsn ≠ none
  remove (c dsn) : sv.remove c dsn = (true, Function.update c dsn none) ∨
    sv.remove c dsn = (false, c)
  alloc_like (c dsn like_dsn) : sv.alloc_like c dsn like_dsn = (false, c) ∨
    c dsn = none ∧ ∃ like, c like_dsn = some like ∧
      sv.alloc_like c dsn like_dsn = (true, Function.update c dsn (some like.empty))
  iebgener (c sysut1 sysut2 dsn) : dsn ≠ sysut2 → (sv.iebgener c sysut1 sysut2).2 dsn = c dsn
  iebcopy (c sysut1 sysut2 statement dsn) : dsn ≠ sysut2 →
    (sv.iebcopy c sysut1 sysut2 statement).2 dsn = c dsn

inductive ZDSType
  | UNKNOWN
  | PS
  | PDS
  | MEMBER
  | VSAM
  deriving DecidableEq, Repr

structure ZDSTypeInfo where
  type : ZDSType := .UNKNOWN
  base_dsn : Bytes
  member_name : Bytes
  entry : ZDSEntry := {}

def zut_trim (cs : Charset) (s : Bytes) : Bytes :=
  (((s.reverse.dropWhile (· = cs.code ' ')).reverse).dropWhile (· = cs.code ' '))

/-- `std::toupper`: only the letters of the "C" locale change. -/
def toupper (cs : Charset) (c : UInt8) : UInt8 :=
  (((Charset.lower.map cs.code).zip (Charset.upper.map cs.code)).lookup c).getD c

structure ZDSCopyOptions where
  replace : Bool
  overwrite : Bool

/-- The ways in which a copy fails. -/
inductive CopyError
  | source_not_found (dsn : Bytes)
  | source_member_not_found (member : Bytes)
  | pds_to_member
  | member_to_ps
  | ps_to_member
  | pds_to_ps
  | recfm_differs (source target : Bytes)
  | lrecl_differs (source target : ℤ)
  | blksize_differs (source target : ℤ)
  | create_failed
  | types_not_supported
  | cannot_overwrite
  | target_exists
  | overwrite_failed
  | dd_failed (dd : Dd)
  | sysin_failed
  | utility_failed
  | free_failed

/-- What a copy gives back: the return code, what it sets in the options, and the catalog. -/
structure Copied where
  error : Option CopyError
  target_exists : Bool
  member_created : Bool := false
  catalog : Catalog

/-- Whether the whole target is to be overwritten. -/
def overwrites (source target : ZDSTypeInfo) (options : ZDSCopyOptions) : Bool :=
  options.overwrite && source.member_name = [] && target.member_name = []

def target_exists (sv : Services) (c : Catalog) (target : ZDSTypeInfo) : Bool :=
  if target.member_name = [] then sv.opens c target.base_dsn
  else sv.opens_member c target.base_dsn target.member_name

end Zowex.zds

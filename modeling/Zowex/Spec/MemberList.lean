import Zowex.Spec.CopyDsn
import Zowex.Spec.Dscb
import Zowex.Spec.Wildcards

/-! The list of the members of a PDS, `zds_list_members` of `zds.cpp`, what `build_member_object` of
`ds.cpp` reports of a member, and `update_ispf_statistics` of `zam.c`. A read outside of a block has
no result. -/

namespace Zowex.zds

open dscb (padded_digits)

variable (cs : Charset)

inductive ReturnCode
  | RTNCD_SUCCESS
  | RTNCD_WARNING
  | RTNCD_FAILURE
  deriving DecidableEq, Repr

/-! The ISPF statistics. -/

structure DateBytes where
  century : UInt8
  year : UInt8
  day : UInt8 × UInt8
  deriving DecidableEq

structure ISPF_STATS where
  version : UInt8
  level : UInt8
  flags : UInt8
  modified_time_seconds : UInt8
  created_date : DateBytes
  modified_date : DateBytes
  modified_time_hours : UInt8
  modified_time_minutes : UInt8
  current_number_of_lines : UInt16
  initial_number_of_lines : UInt16
  modified_number_of_lines : UInt16
  userid : Bytes
  extended : Bytes

/-- `sizeof(ISPF_STATS)`. -/
def sizeof_stats : ℕ := 30

def halfword_bytes (n : UInt16) : Bytes := [UInt8.ofNat (n.toNat / 256), UInt8.ofNat n.toNat]

def halfword_at (data : Bytes) (i : ℕ) : UInt16 :=
  UInt16.ofNat ((data.getD i 0).toNat * 256 + (data.getD (i + 1) 0).toNat)

def DateBytes.bytes (date : DateBytes) : Bytes :=
  [date.century, date.year, date.day.1, date.day.2]

def date_at (data : Bytes) (i : ℕ) : DateBytes :=
  ⟨data.getD i 0, data.getD (i + 1) 0, data.getD (i + 2) 0, data.getD (i + 3) 0⟩

def ISPF_STATS.bytes (stats : ISPF_STATS) : Bytes :=
  [stats.version, stats.level, stats.flags, stats.modified_time_seconds] ++
    stats.created_date.bytes ++ stats.modified_date.bytes ++
    [stats.modified_time_hours, stats.modified_time_minutes] ++
    halfword_bytes stats.current_number_of_lines ++
    halfword_bytes stats.initial_number_of_lines ++
    halfword_bytes stats.modified_number_of_lines ++ stats.userid ++ stats.extended

def ISPF_STATS.of_bytes (data : Bytes) : ISPF_STATS where
  version := data.getD 0 0
  level := data.getD 1 0
  flags := data.getD 2 0
  modified_time_seconds := data.getD 3 0
  created_date := date_at data 4
  modified_date := date_at data 8
  modified_time_hours := data.getD 12 0
  modified_time_minutes := data.getD 13 0
  current_number_of_lines := halfword_at data 14
  initial_number_of_lines := halfword_at data 16
  modified_number_of_lines := halfword_at data 18
  userid := (data.drop 20).take 8
  extended := (data.drop 28).take 2

def is_valid_ispf_stats (stats : ISPF_STATS) (user_data_len : ℕ) : Bool :=
  let is_extended := stats.flags &&& 0x20 ≠ 0
  let is_valid : Bool :=
    if ¬ is_extended ∧ user_data_len = 30 ∧ stats.extended = cs.str "  " then true
    else if is_extended ∧ user_data_len = 40 then true
    else false
  if stats.created_date.century > 0x01 ∨ stats.modified_date.century > 0x01 then false
  else is_valid

/-! Listing. -/

structure RECORD where
  count : ℕ
  rest : Bytes

def RECLEN : ℕ := 254

structure RECORD_ENTRY where
  name : Bytes
  ttr : Bytes
  info : UInt8

/-- `sizeof(RECORD_ENTRY)`. -/
def sizeof_entry : ℕ := 12

def RECORD_ENTRY.of_bytes (data : Bytes) : RECORD_ENTRY where
  name := data.take 8
  ttr := (data.drop 8).take 3
  info := data.getD 11 0

structure ZDSMem where
  name : Bytes
  vers : ℤ := 0
  mod : ℤ := 0
  c4date : Bytes := []
  m4date : Bytes := []
  mtime : Bytes := []
  cnorc : ℤ := 0
  inorc : ℤ := 0
  mnorc : ℤ := 0
  user : Bytes := []
  sclm : Bool := false
  stats_valid : Bool := false

/-- A `short int`. -/
def short_int (n : UInt16) : ℤ := (n.toNat : ℤ).bmod (2 ^ 16)

def parse_packed_time (hours minutes seconds : UInt8) : Bytes :=
  if hours = 0 ∧ minutes = 0 ∧ seconds = 0 then []
  else
    let unpack (packed : UInt8) := (packed >>> 4).toNat * 10 + (packed &&& 0x0F).toNat
    let hh := unpack hours
    let mm := unpack minutes
    let ss := unpack seconds
    if 23 < hh ∨ 59 < mm ∨ 59 < ss then []
    else
      (padded_digits 2 hh ++ ':' :: (padded_digits 2 mm ++ ':' :: padded_digits 2 ss)).map cs.code

/-- A string that ends before a NUL. -/
def c_str (data : Bytes) : Bytes := data.takeWhile (· ≠ 0)

structure ListOptions where
  pattern : Bytes
  show_attributes : Bool
  max_entries : ℤ
  /-- `ZUTCVTD`, none where it fails. -/
  convert_date : DateBytes → Option Bytes

def ListOptions.upper_pattern (opts : ListOptions) : Bytes := opts.pattern.map (toupper cs)

def ZDS_DEFAULT_MAX_MEMBER_ENTRIES : ℤ := 5000

/-- The limit, the default for 0. -/
def ListOptions.limit (opts : ListOptions) : ℤ :=
  if opts.max_entries = 0 then ZDS_DEFAULT_MAX_MEMBER_ENTRIES else opts.max_entries

/-- `n` bytes of the block from the offset. -/
def read_at (rest : Bytes) (offset n : ℕ) : Option Bytes :=
  if offset + n ≤ rest.length then some ((rest.drop offset).take n) else none

/-- The member of a name with its statistics, none of them where they are not valid. -/
def with_stats (opts : ListOptions) (name : Bytes) (stats : ISPF_STATS) (user_data_len : ℕ) :
    ZDSMem :=
  if is_valid_ispf_stats cs stats user_data_len then
    { name
      vers := stats.version.toNat
      mod := stats.level.toNat
      c4date := (opts.convert_date stats.created_date).getD []
      m4date := (opts.convert_date stats.modified_date).getD []
      mtime := parse_packed_time cs stats.modified_time_hours stats.modified_time_minutes
        stats.modified_time_seconds
      cnorc := short_int stats.current_number_of_lines
      inorc := short_int stats.initial_number_of_lines
      mnorc := short_int stats.modified_number_of_lines
      user := c_str stats.userid
      sclm := stats.flags &&& 0x80 ≠ 0
      stats_valid := true }
  else { name }

def read_member (opts : ListOptions) (rec : RECORD) (i data : ℕ) (name : Bytes)
    (user_data_len : ℕ) : Option ZDSMem :=
  if opts.show_attributes ∧ sizeof_stats ≤ user_data_len ∧
      i + sizeof_entry + user_data_len ≤ rec.count then
    (read_at rec.rest (data + sizeof_entry) sizeof_stats).map fun bytes =>
      with_stats cs opts name (ISPF_STATS.of_bytes bytes) user_data_len
  else some { name }

structure ListState where
  total_entries : ℕ := 0
  members : List ZDSMem := []

/-- A name without its blanks. -/
def without_blanks (name : Bytes) : Bytes :=
  c_str (name.map fun c => if c = cs.code ' ' then 0 else c)

/-- `pattern.empty() || is_match(name, upper_pattern.c_str())`. -/
def name_matches (fuel : ℕ) (opts : ListOptions) (name : Bytes) : Option Bool :=
  if opts.pattern = [] then some true
  else is_match cs fuel name (c_str (opts.upper_pattern cs))

/-- An entry that is not the last; true where the limit is reached. -/
def list_entry (fuel : ℕ) (opts : ListOptions) (rec : RECORD) (i data : ℕ) (entry : RECORD_ENTRY)
    (state : ListState) : Option (Bool × ListState) := do
  let name := without_blanks cs entry.name
  let matched ← name_matches cs fuel opts name
  if matched then
    let state := { state with total_entries := state.total_entries + 1 }
    if state.total_entries > opts.limit then some (true, state)
    else
      let mem ← read_member cs opts rec i data name ((entry.info &&& 0x1F).toNat * 2)
      some (false, { state with members := state.members ++ [mem] })
  else some (false, state)

/-- The loop over the entries of a block; true where the limit is reached. -/
def list_block (fuel : ℕ) (opts : ListOptions) (rec : RECORD) (i data : ℕ) (state : ListState) :
    Option (Bool × ListState) :=
  if i < rec.count then
    if i + sizeof_entry > rec.count then some (false, state)
    else do
      let entry := RECORD_ENTRY.of_bytes (← read_at rec.rest data sizeof_entry)
      if entry.name = List.replicate 8 0xFF then some (false, state)
      else
        let (maxed, state) ← list_entry cs fuel opts rec i data entry state
        let len := sizeof_entry + (entry.info &&& 0x1F).toNat * 2
        let remainder : ℤ := rec.count - (i + len)
        -- the remainder is compared as a size, so one below zero does not end the loop
        if maxed ∨ 0 ≤ remainder ∧ remainder < sizeof_entry then some (maxed, state)
        else list_block fuel opts rec (i + len) (data + len) state
  else some (false, state)
termination_by rec.count - i
decreasing_by
  simp only [sizeof_entry]
  omega

/-- The loop over the blocks. -/
def list_blocks (fuel : ℕ) (opts : ListOptions) :
    List RECORD → Bool → ListState → Option (ReturnCode × List ZDSMem)
  | [], corrupt_directory_block, state =>
    some (if corrupt_directory_block then .RTNCD_WARNING else .RTNCD_SUCCESS, state.members)
  | rec :: records, corrupt_directory_block, state => do
    let corrupt := rec.count > RECLEN
    let block := if corrupt then { rec with count := RECLEN } else rec
    let (maxed, state) ← list_block cs fuel opts block 0 0 state
    if maxed then some (.RTNCD_WARNING, state.members)
    else list_blocks fuel opts records (corrupt_directory_block || corrupt) state

/-- The directory is what can be read of the data set, none where it cannot be opened. -/
def zds_list_members (fuel : ℕ) (opts : ListOptions) (directory : Option (List RECORD)) :
    Option (ReturnCode × List ZDSMem) :=
  match directory with
  | none => some (.RTNCD_FAILURE, [])
  | some records => list_blocks cs fuel opts records false {}

/-- The line counts of `build_member_object`: current, initial and modified, where they are set. -/
def reported_counts (member : ZDSMem) (attributes : Bool) : Option ℤ × Option ℤ × Option ℤ :=
  let unless_absent (n : ℤ) := if n ≠ -1 then some n else none
  if attributes ∧ member.stats_valid then
    (unless_absent member.cnorc, unless_absent member.inorc, unless_absent member.mnorc)
  else (none, none, none)

/-! Updating the statistics. -/

structure STOW_LIST where
  c : UInt8
  user_data : Bytes

def ISPF_STATS_MIN_LEN : UInt8 := 15
def LEN_MASK : UInt8 := 0x1F
def MAX_LEVEL : UInt8 := 0x99
def BLDL_WARNING : ℤ := 4

structure StatisticsServices where
  /-- The return code, and the entry that is found. -/
  bldl : ℤ × STOW_LIST
  /-- `zutm1gur`, none where it fails. -/
  user : Option Bytes
  /-- Hours, minutes, seconds. -/
  time_local : UInt8 × UInt8 × UInt8
  date_local : DateBytes

/-- Store the statistics over the user data. -/
def STOW_LIST.with_stats (stow_list : STOW_LIST) (stats : ISPF_STATS) : STOW_LIST :=
  { stow_list with user_data := stats.bytes ++ stow_list.user_data.drop sizeof_stats }

def STOW_LIST.stats (stow_list : STOW_LIST) : ISPF_STATS :=
  ISPF_STATS.of_bytes (stow_list.user_data.take sizeof_stats)

/-- The statistics of a member that has none. -/
def initial_stats (sv : StatisticsServices) (user : Bytes) (lines_written : ℕ) (stats : ISPF_STATS) :
    ISPF_STATS :=
  { stats with
    extended := cs.str "  "
    userid := user
    version := 0x01
    level := 0x00
    flags := 0x00
    initial_number_of_lines := UInt16.ofNat lines_written
    current_number_of_lines := UInt16.ofNat lines_written
    created_date := sv.date_local
    modified_date := sv.date_local
    modified_time_hours := sv.time_local.1
    modified_time_minutes := sv.time_local.2.1
    modified_time_seconds := sv.time_local.2.2 }

def updated_stats (sv : StatisticsServices) (user : Bytes) (lines_written : ℕ)
    (stats : ISPF_STATS) : ISPF_STATS :=
  { stats with
    userid := user
    level := if stats.level < MAX_LEVEL then stats.level + 1 else stats.level
    modified_number_of_lines := UInt16.ofNat lines_written
    current_number_of_lines := UInt16.ofNat lines_written
    modified_date := sv.date_local
    modified_time_hours := sv.time_local.1
    modified_time_minutes := sv.time_local.2.1
    modified_time_seconds := sv.time_local.2.2 }

/-- The entry to be stored, or the return code of a failure. -/
def update_ispf_statistics (sv : StatisticsServices) (recfm_u dcbofopn : Bool)
    (lines_written : ℕ) (stow_list : STOW_LIST) : Except ℤ STOW_LIST :=
  if recfm_u then .ok stow_list
  else if dcbofopn then
    let (rc, list) := sv.bldl
    if rc ≠ 0 ∧ rc ≠ BLDL_WARNING then .error rc
    else if list.c &&& LEN_MASK = 0 then
      let stow_list := { stow_list with c := ISPF_STATS_MIN_LEN }
      match sv.user with
      | none => .error (-1)
      | some user => .ok (stow_list.with_stats
          (initial_stats cs sv user lines_written stow_list.stats))
    else
      let user_data_len := (list.c &&& LEN_MASK).toNat * 2
      let stow_list : STOW_LIST :=
        { c := list.c
          user_data := list.user_data.take user_data_len ++ stow_list.user_data.drop user_data_len }
      match sv.user with
      | none => .error (-1)
      | some user => .ok (stow_list.with_stats (updated_stats sv user lines_written stow_list.stats))
  else .ok stow_list

end Zowex.zds

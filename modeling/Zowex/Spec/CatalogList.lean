import Zowex.Lib.Cursors
import Zowex.Spec.Dscb
import Zowex.Spec.Jobs
import Zowex.Spec.MemberList
import Zowex.Spec.RingList

/-! The list of the data sets of a catalog search, `zds_list_data_sets` of `zds.cpp`: the records of
the work areas that the service answers with, and what is read of their fields. A read behind the
used part of a work area has no result. -/

namespace Zowex.csi

open zds (ReturnCode)
open zjb (c_string zut_rtrim)
open zkr (int_of)
open Cursors (read)

def MAX_DS_LENGTH : ℕ := 44
def MAX_VOLSER_LENGTH : ℕ := 6
def CSI_FIELD_COUNT : ℕ := 5
def ZDS_DEFAULT_BUFFER_SIZE : ℤ := 8096
def ZDS_DEFAULT_MAX_ENTRIES : ℤ := 1000

/-! The sizes of the packed structures. -/

def sizeof_header : ℕ := 14
def sizeof_field : ℕ := 28
def sizeof_entry : ℕ := 74

/-! Flags and types. -/

def NO_ENTRY : UInt8 := 0x40
def DATA_NOT_COMPLETE : UInt8 := 0x20
def ERROR_CONDITION : UInt8 := 0xF8
def CATALOG_TYPE : UInt8 := 0xF0

def ERROR : UInt8 := 0x40
def NOT_FOUND : UInt8 := 0x00

/-- The types that are not rejected as untested. -/
inductive EntryType
  | NON_VSAM_DATA_SET
  | CLUSTER
  | DATA_COMPONENT
  | INDEX_COMPONENT
  | GENERATION_DATA_GROUP
  | GENERATION_DATA_SET
  | ALIAS
  | PATH
  | ALTERNATE_INDEX
  deriving DecidableEq, Repr

def EntryType.code : EntryType → UInt8
  | NON_VSAM_DATA_SET => ibm1047.code 'A'
  | CLUSTER => ibm1047.code 'C'
  | DATA_COMPONENT => ibm1047.code 'D'
  | INDEX_COMPONENT => ibm1047.code 'I'
  | GENERATION_DATA_GROUP => ibm1047.code 'B'
  | GENERATION_DATA_SET => ibm1047.code 'H'
  | ALIAS => ibm1047.code 'X'
  | PATH => ibm1047.code 'R'
  | ALTERNATE_INDEX => ibm1047.code 'G'

def EntryType.all : List EntryType :=
  [NON_VSAM_DATA_SET, CLUSTER, DATA_COMPONENT, INDEX_COMPONENT, GENERATION_DATA_GROUP,
    GENERATION_DATA_SET, ALIAS, PATH, ALTERNATE_INDEX]

/-- The type of a code, none for one that is rejected. -/
def tested_type (code : UInt8) : Option EntryType :=
  EntryType.all.find? (fun type => type.code = code)

/-- What is known of an entry from its DSCB: nothing where it is not asked for, -1 for the sizes
where there is none. -/
inductive Attributes
  | untouched
  | missing
  | loaded (entry : dscb.ZDSEntry)
  deriving DecidableEq

/-- What `ZDSEntry` holds apart from the organization and the record format. -/
structure ZDSEntry where
  name : Bytes := []
  volser : Bytes := []
  volsers : List Bytes := []
  multivolume : Bool := false
  migrated : Bool := false
  dataclass : Bytes := []
  mgmtclass : Bytes := []
  storclass : Bytes := []
  devtype : ℕ := 0
  attributes : Attributes := .untouched
  deriving DecidableEq

/-- The services that are called for an entry. -/
structure Services where
  /-- The value of `&SYSR1`, none where there is none. -/
  zut_substitute_symbol : Option Bytes
  /-- The DSCB of a data set on a volume, none where it is not found. -/
  ZDSDSCB1 : Bytes → Bytes → Option dscb.DSCBFormat1

/-- A handle, as far as it is read. -/
structure ZDS where
  max_entries : ℤ := 0
  buffer_size : ℤ := 0
  deriving DecidableEq

/-! The attributes. -/

def ZDS_VOLSER_UNKNOWN : Bytes := ibm1047.str "------"
def IPL_VOLUME : Bytes := ibm1047.str "******"
def MIGRAT_VOLUME : Bytes := ibm1047.str "MIGRAT"
def ARCIVE_VOLUME : Bytes := ibm1047.str "ARCIVE"

/-- `******` is the volume that the system is loaded from. -/
def substitute_ipl_volume (sv : Services) (entry : ZDSEntry) : ZDSEntry :=
  if entry.volser = IPL_VOLUME then
    match sv.zut_substitute_symbol with
    | none => entry
    | some value =>
      { entry with
        volser := value
        volsers := entry.volsers.map fun vol => if vol = IPL_VOLUME then value else vol }
  else entry

/-- The volumes of a field of this length; a negative number of them throws. -/
def read_volumes (buf : Bytes) (data field_len : ℤ) : Option (List Bytes) :=
  if field_len.tdiv MAX_VOLSER_LENGTH < 0 then none
  else (List.range (field_len.tdiv MAX_VOLSER_LENGTH).toNat).mapM fun (i : ℕ) =>
    read buf (data + (i * MAX_VOLSER_LENGTH : ℕ)) MAX_VOLSER_LENGTH

def load_volsers_from_catalog (sv : Services) (buf : Bytes) (data field_len : ℤ)
    (entry : ZDSEntry) : Option ZDSEntry :=
  (read_volumes buf data field_len).map fun volumes =>
    let volsers := (volumes.map (zut_rtrim ibm1047)).filter (· ≠ [])
    substitute_ipl_volume sv { entry with
      multivolume := 1 < field_len.tdiv MAX_VOLSER_LENGTH
      volsers
      volser := volsers.headD ZDS_VOLSER_UNKNOWN }

def ucb_to_devtype (ucb_byte : UInt8) : ℕ :=
  if ucb_byte = 0x0E then 0x3380
  else if ucb_byte = 0x0F then 0x3390
  else if ucb_byte = 0x04 then 0x9345
  else 0x0000

/-- The device type of the four bytes of the UCB. -/
def devtype_of (bytes : Bytes) : ℕ :=
  if bytes = [0, 0, 0, 0] then 0x3390 else ucb_to_devtype (bytes.getD 3 0)

def load_devtype_from_catalog (buf : Bytes) (data field_len : ℤ) (attr : ℕ) : Option ℕ :=
  if 4 ≤ field_len then (read buf data 4).map devtype_of else some attr

/-- The value of a field that has its length in the first two bytes. -/
def load_storage_attr_from_catalog (buf : Bytes) (data field_len : ℤ) : Option Bytes :=
  if 2 < field_len then
    (read buf data 2).bind fun length =>
      let actual_len := (length.getD 0 0).toNat * 256 + (length.getD 1 0).toNat
      if 0 < actual_len ∧ actual_len ≤ field_len - 2 then read buf (data + 2) actual_len
      else some []
  else some []

def zds_get_attrs_from_dscb (sv : Services) (entry : ZDSEntry) : Option ZDSEntry :=
  match sv.ZDSDSCB1 entry.name entry.volser with
  | none => some { entry with attributes := .missing }
  | some found =>
    (dscb.attrs_from_dscb ibm1047 found { devtype := entry.devtype }).map fun loaded =>
      { entry with attributes := .loaded loaded }

/-- The volume that is shown for what is not on a volume. -/
def pseudo_volser : EntryType → Option Bytes
  | .GENERATION_DATA_GROUP => some (ibm1047.str "??????")
  | .CLUSTER => some (ibm1047.str "*VSAM*")
  | .ALTERNATE_INDEX => some (ibm1047.str "*AIX *")
  | .PATH => some (ibm1047.str "*PATH*")
  | .ALIAS => some (ibm1047.str "*ALIAS")
  | .NON_VSAM_DATA_SET | .DATA_COMPONENT | .INDEX_COMPONENT | .GENERATION_DATA_SET => none

/-- The switch over the types. -/
def set_pseudo_volser (type : EntryType) (entry : ZDSEntry) : ZDSEntry :=
  let volser := (pseudo_volser type).getD entry.volser
  if entry.volser ≠ volser then { entry with volser, volsers := [volser] } else entry

def read_int (buf : Bytes) (cur : ℤ) : Option ℤ := (read buf cur 4).map int_of

/-- The fields of the entry at the cursor. -/
def load_from_catalog (sv : Services) (buf : Bytes) (cur : ℤ) (entry : ZDSEntry) :
    Option ZDSEntry := do
  let data := cur + sizeof_entry
  let field_len ← read_int buf (cur + 54)
  let entry ← load_volsers_from_catalog sv buf data field_len entry
  let data := data + field_len
  let field_len ← read_int buf (cur + 58)
  let devtype ← load_devtype_from_catalog buf data field_len entry.devtype
  let data := data + field_len
  let field_len ← read_int buf (cur + 62)
  let dataclass ← load_storage_attr_from_catalog buf data field_len
  let data := data + field_len
  let field_len ← read_int buf (cur + 66)
  let mgmtclass ← load_storage_attr_from_catalog buf data field_len
  let data := data + field_len
  let field_len ← read_int buf (cur + 70)
  let storclass ← load_storage_attr_from_catalog buf data field_len
  some { entry with
    migrated := entry.volser = MIGRAT_VOLUME ∨ entry.volser = ARCIVE_VOLUME
    devtype, dataclass, mgmtclass, storclass }

/-- The DSCB of what is migrated is not looked up. -/
def load_from_dscb (sv : Services) (entry : ZDSEntry) : Option ZDSEntry :=
  if entry.migrated then some entry else zds_get_attrs_from_dscb sv entry

/-- The entry at the cursor, with its attributes where they are asked for. -/
def load_attributes (sv : Services) (show_attributes : Bool) (buf : Bytes) (cur : ℤ)
    (type : EntryType) (entry : ZDSEntry) : Option ZDSEntry :=
  if show_attributes then
    ((load_from_catalog sv buf cur entry).bind (load_from_dscb sv)).map (set_pseudo_volser type)
  else some entry

/-! The records of a work area. -/

structure ListState where
  found_in_catalog : Bool := false
  datasets : List ZDSEntry := []
  deriving DecidableEq

/-- What the body of the loop does. -/
inductive Step
  | returns (rc : ReturnCode)
  | next (length : ℤ) (state : ListState)

section

variable (sv : Services) (show_attributes : Bool) (max_entries : ℕ) (buf : Bytes)

/-- The entry is added where there is room for it. -/
def add_entry (cur : ℤ) (entry : ZDSEntry) (state : ListState) : Option Step :=
  if state.datasets.length + 1 > max_entries then some (.returns .RTNCD_WARNING)
  else (read_int buf (cur + 46)).map fun total_len =>
    .next (sizeof_entry - sizeof_field + total_len)
      { state with datasets := state.datasets ++ [entry] }

def list_entry (cur : ℤ) (flag code : UInt8) (state : ListState) : Option Step :=
  if ERROR = flag then some (.returns .RTNCD_FAILURE)
  else if NOT_FOUND = code then some (.returns .RTNCD_FAILURE)
  else
    match tested_type code with
    | none => some (.returns .RTNCD_FAILURE)
    | some type =>
      (read buf (cur + 2) MAX_DS_LENGTH).bind fun name =>
        (load_attributes sv show_attributes buf cur type { name := c_string name }).bind
          fun entry => add_entry max_entries buf cur entry state

/-- How the loop over a work area ends. -/
inductive Walk
  | returns (rc : ReturnCode) (datasets : List ZDSEntry)
  | ends (state : ListState)

/-- A conversion to `int`. -/
def to_int (n : ℤ) : ℤ := (BitVec.ofInt 32 n).toInt

end

/-! The calls of the service. -/

/-- What a call leaves: its return code, the flag to resume, and the work area. -/
structure CsiResponse where
  rc : ℤ
  csiresum : UInt8
  work_area : Bytes
  deriving DecidableEq

def number_of_fields (show_attributes : Bool) : ℕ := if show_attributes then CSI_FIELD_COUNT else 0

/-- The limit as the `size_t` that it is compared as, the default for 0. -/
def ZDS.limit (zds : ZDS) : ℕ :=
  ((if zds.max_entries = 0 then ZDS_DEFAULT_MAX_ENTRIES else zds.max_entries) % 2 ^ 64).toNat

def ZDS.buffer (zds : ZDS) : ℤ :=
  if zds.buffer_size = 0 then ZDS_DEFAULT_BUFFER_SIZE else zds.buffer_size

structure Catalog where
  flag : UInt8
  name : Bytes
  error_info : Bytes
  length_name : name.length = 44
  length_error_info : error_info.length = 4

/-- The fields that are asked for, of any length. -/
structure Fields where
  volser : Bytes
  devtyp : Bytes
  dataclas : Bytes
  mgmtclas : Bytes
  storclas : Bytes
  deriving DecidableEq

def Fields.all (fields : Fields) : List Bytes :=
  [fields.volser, fields.devtyp, fields.dataclas, fields.mgmtclas, fields.storclas]

/-- The lengths come before the data. -/
def Fields.layout (fields : Fields) : Bytes :=
  fields.all.flatMap (fun field => zkr.int_bytes field.length) ++ fields.all.flatten

/-- An entry with data. -/
structure Entry where
  flag : UInt8
  type : EntryType
  name : Bytes
  reserved : Bytes
  fields : Fields
  no_error : flag &&& ERROR = 0
  length_name : name.length = 44
  no_nul : 0 ∉ name
  length_reserved : reserved.length = 4

/-- An entry with an error code instead of data. -/
structure ErrorEntry where
  type : EntryType
  name : Bytes
  error_info : Bytes
  length_name : name.length = 44
  length_error_info : error_info.length = 4

inductive Record
  | catalog (c : Catalog)
  | entry (e : Entry)
  | error (e : ErrorEntry)

def Catalog.layout (catalog : Catalog) : Bytes :=
  catalog.flag :: CATALOG_TYPE :: (catalog.name ++ catalog.error_info)

/-- The fields, where they are asked for. -/
def Entry.data (show_attributes : Bool) (entry : Entry) : Bytes :=
  if show_attributes then entry.fields.layout else []

/-- The total length counts itself, what is reserved and the fields. -/
def Entry.layout (show_attributes : Bool) (entry : Entry) : Bytes :=
  [entry.flag, entry.type.code] ++ (entry.name ++
    (zkr.int_bytes (8 + (entry.data show_attributes).length) ++
      (entry.reserved ++ entry.data show_attributes)))

def ErrorEntry.layout (entry : ErrorEntry) : Bytes :=
  ERROR :: entry.type.code :: (entry.name ++ entry.error_info)

def Record.layout (show_attributes : Bool) : Record → Bytes
  | .catalog c => c.layout
  | .entry e => e.layout show_attributes
  | .error e => e.layout

/-- A work area: its records, the sizes of its header, and what is behind the part that is used. -/
structure WorkArea where
  records : List Record
  total_size : Bytes
  min_size : Bytes
  behind : Bytes
  length_total_size : total_size.length = 4
  length_min_size : min_size.length = 4

def WorkArea.body (show_attributes : Bool) (area : WorkArea) : Bytes :=
  area.records.flatMap (Record.layout show_attributes)

def WorkArea.used (show_attributes : Bool) (area : WorkArea) : ℕ :=
  sizeof_header + (area.body show_attributes).length

def WorkArea.header (show_attributes : Bool) (area : WorkArea) : Bytes :=
  area.total_size ++ (area.min_size ++ (zkr.int_bytes (area.used show_attributes) ++
    [0, UInt8.ofNat (number_of_fields show_attributes + 1)]))

def WorkArea.layout (show_attributes : Bool) (area : WorkArea) : Bytes :=
  area.header show_attributes ++ (area.body show_attributes ++ area.behind)

/-- Responses that are these work areas: the flag says for each one but the last to resume. -/
inductive Answers (show_attributes : Bool) : List WorkArea → List CsiResponse → Prop
  | last (area : WorkArea) (csiresum : UInt8) (hlast : csiresum ≠ ibm1047.code 'Y')
    (hused : area.used show_attributes < 2 ^ 31) :
    Answers show_attributes [area] [⟨0, csiresum, area.layout show_attributes⟩]
  | more (area : WorkArea) {areas : List WorkArea} {responses : List CsiResponse}
    (hused : area.used show_attributes < 2 ^ 31) (hrest : Answers show_attributes areas responses) :
    Answers show_attributes (area :: areas)
      (⟨0, ibm1047.code 'Y', area.layout show_attributes⟩ :: responses)

/-! What is to be listed. -/

/-- A catalog that could not be searched, or an entry with an error. -/
def Record.Refused : Record → Prop
  | .catalog c => c.flag = ERROR_CONDITION ∨ DATA_NOT_COMPLETE &&& c.flag ≠ 0
  | .entry _ => False
  | .error _ => True

instance : DecidablePred Record.Refused
  | .catalog _ => inferInstanceAs (Decidable (_ ∨ _))
  | .entry _ => .isFalse id
  | .error _ => .isTrue trivial

/-- The records before the first that is refused. -/
def accepted (records : List Record) : List Record :=
  records.takeWhile fun record => ¬ record.Refused

def Record.entry? : Record → Option Entry
  | .entry e => some e
  | .catalog _ | .error _ => none

def entries (records : List Record) : List Entry := records.filterMap Record.entry?

/-- A catalog that says that it had an entry. -/
def Record.HadEntry : Record → Prop
  | .catalog c => NO_ENTRY &&& c.flag = 0
  | .entry _ | .error _ => False

/-- The volumes of a field: a serial of six characters each, without its blanks; blank ones do not
count. -/
def serials (field : Bytes) : List Bytes :=
  (((List.range (field.length / 6)).map fun i => (field.drop (i * 6)).take 6).map
    (zut_rtrim ibm1047)).filter (· ≠ [])

/-- The device type of a field of at least one device. -/
def device (field : Bytes) : ℕ := if 4 ≤ field.length then devtype_of (field.take 4) else 0

/-- The name in a field that begins with its length. -/
def class_name : Bytes → Bytes
  | high :: low :: text =>
    if high.toNat * 256 + low.toNat ≤ text.length then text.take (high.toNat * 256 + low.toNat)
    else []
  | _ => []

/-- What is to be listed of these records within a limit: the names up to the first record that is
refused, and all of them where the return code is success. -/
structure Lists (limit : ℕ) (records : List Record) (rc : ReturnCode) (listing : List ZDSEntry) :
    Prop where
  names : listing.map ZDSEntry.name =
    ((entries (accepted records)).map Entry.name).take limit
  success : rc = .RTNCD_SUCCESS ↔ (∀ record ∈ records, ¬ record.Refused) ∧
    (entries records).length ≤ limit ∧ ∃ record ∈ records, record.HadEntry

end Zowex.csi

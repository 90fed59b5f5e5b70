import Zowex.Spec.Charset

/-! What `zds.cpp` reads of a format-1 DSCB: the space attributes of a data set and its dates.
Nothing here depends on the name, the record format and the catalog fields of the entry. -/

namespace Zowex.dscb

/-- `sprintf` of `%0<width>d`. -/
def padded_digits (width n : ℕ) : List Char :=
  List.replicate (width - (Nat.toDigits 10 n).length) '0' ++ Nat.toDigits 10 n

/-! Dates. -/

/-- A date in the `YDD` format. -/
structure DateField where
  year_offset : UInt8
  day_high : UInt8
  day_low : UInt8
  deriving DecidableEq

def days_in_month : List ℕ := [31, 28, 31, 30, 31, 30, 31, 31, 30, 31, 30, 31]

def is_leap (year : ℕ) : Bool :=
  year % 4 == 0 && year % 100 != 0 || year % 400 == 0

/-- The loop over the months, each with its index. -/
def month_day (leap : Bool) : List (ℕ × ℕ) → ℕ → ℕ → ℕ × ℕ
  | [], month, day => (month, day)
  | (days, i) :: rest, month, day =>
    if days < day then
      let days_this_month := if i = 1 ∧ leap then 29 else days
      month_day leap rest (month + 1) (day - days_this_month)
    else (month, day)

def date_chars (year month day : ℕ) : List Char :=
  padded_digits 4 year ++ '/' :: (padded_digits 2 month ++ '/' :: padded_digits 2 day)

def load_date_from_dscb (cs : Charset) (date_in : DateField) (is_expiration_date : Bool) :
    Bytes :=
  if date_in.year_offset = 0 ∧ date_in.day_high = 0 ∧ date_in.day_low = 0 then []
  else
    let year := 1900 + date_in.year_offset.toNat
    let day_of_year := date_in.day_high.toNat <<< 8 ||| date_in.day_low.toNat
    -- the sentinel for "no expiration"
    if is_expiration_date ∧ year = 1999 ∧ day_of_year = 365 then []
    else
      let date := month_day (is_leap year) days_in_month.zipIdx 1 day_of_year
      (date_chars year date.1 date.2).map cs.code

/-! Extents. -/

/-- `ds1exnts`: the type of an extent, its number, and its first and last track. -/
structure ExtentField where
  type : UInt8
  seq : UInt8
  lower : UInt8 × UInt8 × UInt8 × UInt8
  upper : UInt8 × UInt8 × UInt8 × UInt8
  deriving DecidableEq

structure DSCBFormat1 where
  ds1credt : DateField
  ds1expdt : DateField
  ds1refd : DateField
  ds1noepv : UInt8
  ds1flag1 : UInt8
  ds1smsfg : UInt8
  ds1scext : UInt8 × UInt8 × UInt8
  ds1dsorg : UInt16
  ds1blkl : UInt8 × UInt8
  ds1lrecl : UInt8 × UInt8
  ds1scalo : UInt8 × UInt8 × UInt8 × UInt8
  ds1lstar : UInt8 × UInt8 × UInt8
  ds1ttthi : UInt8
  ds1exnts : ExtentField × ExtentField × ExtentField
  deriving DecidableEq

def DSCBFormat1.extents (dscb : DSCBFormat1) : List ExtentField :=
  [dscb.ds1exnts.1, dscb.ds1exnts.2.1, dscb.ds1exnts.2.2]

inductive SpaceUnit
  | CYLINDERS
  | BYTES
  | TRACKS
  | BLOCKS
  | MEGABYTES
  | KILOBYTES
  deriving DecidableEq, Repr

/-- The fields of a `ZDSEntry` that a DSCB sets, and the device type that the catalog sets. -/
structure ZDSEntry where
  alloc : ℤ := 0
  allocx : ℤ := 0
  blksize : ℤ := 0
  cdate : Bytes := []
  devtype : ℕ := 0x3390
  edate : Bytes := []
  lrecl : ℤ := 0
  primary : ℤ := 0
  rdate : Bytes := []
  secondary : ℤ := 0
  spacu : SpaceUnit := .TRACKS
  usedp : ℤ := 0
  usedx : ℤ := 0
  deriving DecidableEq

def DS1DSGDA_MASK : UInt16 := 0x2000
def DS1ACBM_MASK : UInt16 := 0x0008
def DS1PDSE_MASK : UInt8 := 0x10

def TRACKS_PER_CYLINDER : ℕ := 15

def get_bytes_per_track (devtype : ℕ) : ℤ :=
  if devtype = 0x3380 then 47476
  else if devtype = 0x9345 then 46456
  else 56664

def parse_cchh_cylinder (cchh : UInt8 × UInt8 × UInt8 × UInt8) : ℕ :=
  let cyl_low := cchh.1.toNat <<< 8 ||| cchh.2.1.toNat
  let cyl_high := (cchh.2.2.1.toNat <<< 4 ||| cchh.2.2.2.toNat >>> 4) &&& 0x0FFF
  cyl_high <<< 16 ||| cyl_low

def parse_head (cchh : UInt8 × UInt8 × UInt8 × UInt8) : ℕ :=
  cchh.2.2.2.toNat &&& 0x0F

/-- A conversion to `int`. -/
def to_int (n : ℤ) : ℤ := n.bmod (2 ^ 32)

def calculate_extent_tracks (extent : ExtentField) : ℤ :=
  let lower_cyl := parse_cchh_cylinder extent.lower
  let lower_head := parse_head extent.lower
  let upper_cyl := parse_cchh_cylinder extent.upper
  let upper_head := parse_head extent.upper
  if upper_cyl < lower_cyl then 0
  else to_int ((upper_cyl - lower_cyl) * TRACKS_PER_CYLINDER + (upper_head - lower_head) + 1)

/-- The top 2 bits of the space request. -/
def dspac (dscb : DSCBFormat1) : ℕ :=
  (dscb.ds1scalo.1 &&& 0xC0).toNat >>> 6

def load_spacu_from_dscb (dscb : DSCBFormat1) : SpaceUnit :=
  let scal1 := dscb.ds1scalo.1
  if dspac dscb = 0x03 then .CYLINDERS
  else if dspac dscb = 0x02 then if scal1 &&& 0x10 ≠ 0 then .BYTES else .TRACKS
  else if dspac dscb = 0x01 then .BLOCKS
  else if scal1 &&& 0x20 ≠ 0 then
    let scxtf := dscb.ds1scext.1
    if scxtf &&& 0x40 ≠ 0 then .MEGABYTES
    else if scxtf &&& 0x20 ≠ 0 then .KILOBYTES
    else if scxtf &&& 0x10 ≠ 0 then .BYTES
    else .TRACKS
  else .BYTES

def load_primary (dscb : DSCBFormat1) : ℤ :=
  let first_extent := dscb.ds1exnts.1
  if 0 < dscb.ds1noepv then
    if dspac dscb = 0x03 then
      (parse_cchh_cylinder first_extent.upper - parse_cchh_cylinder first_extent.lower + 1 : ℤ)
        % 2 ^ 32
    else calculate_extent_tracks first_extent
  else 0

def load_secondary (dscb : DSCBFormat1) (spacu : SpaceUnit) : ℤ :=
  let scal3 := dscb.ds1scalo.2.1.toNat <<< 16 ||| dscb.ds1scalo.2.2.1.toNat <<< 8 |||
    dscb.ds1scalo.2.2.2.toNat
  let scxtf := dscb.ds1scext.1
  let scxtv := dscb.ds1scext.2.1.toNat <<< 8 ||| dscb.ds1scext.2.2.toNat
  if spacu = .BYTES then
    if scxtf &&& 0x08 ≠ 0 then scxtv * 256
    else if scxtf &&& 0x04 ≠ 0 then scxtv * 65536
    else scxtv
  else scal3

def load_primary_secondary_from_dscb (dscb : DSCBFormat1) (entry : ZDSEntry) : ZDSEntry :=
  { entry with primary := load_primary dscb, secondary := load_secondary dscb entry.spacu }

def halfword (field : UInt8 × UInt8) : ℕ :=
  field.1.toNat <<< 8 ||| field.2.toNat

def load_general_attrs_from_dscb (dscb : DSCBFormat1) (entry : ZDSEntry) : ZDSEntry :=
  let is_vsam := dscb.ds1dsorg &&& DS1ACBM_MASK ≠ 0
  load_primary_secondary_from_dscb dscb
    { entry with
      spacu := load_spacu_from_dscb dscb
      blksize := if is_vsam then -1 else halfword dscb.ds1blkl
      lrecl := if is_vsam then -1 else halfword dscb.ds1lrecl }

/-- The cylinders and the tracks of the extents up to the first that is not there. -/
def total_extents : List ExtentField → ℤ × ℤ → ℤ × ℤ
  | [], totals => totals
  | extent :: extents, (total_cylinders, total_tracks) =>
    if extent.type = 0x00 then (total_cylinders, total_tracks)
    else
      let lower_cyl := parse_cchh_cylinder extent.lower
      let upper_cyl := parse_cchh_cylinder extent.upper
      total_extents extents
        (if lower_cyl ≤ upper_cyl then
          (to_int (total_cylinders + to_int (upper_cyl - lower_cyl + 1)),
            to_int (total_tracks + calculate_extent_tracks extent))
        else (total_cylinders, total_tracks))

def base_bytes_per_track (entry : ZDSEntry) : ℤ :=
  let blocks_per_track := get_bytes_per_track entry.devtype / entry.blksize
  (if blocks_per_track ≤ 0 then 1 else blocks_per_track) * entry.blksize

/-- Convert to bytes. -/
def alloc_in_bytes (entry : ZDSEntry) : ZDSEntry :=
  if entry.spacu = .BYTES ∧ 0 < entry.blksize then
    { entry with
      alloc := if 0 < entry.alloc then entry.alloc * base_bytes_per_track entry else entry.alloc
      primary :=
        if 0 < entry.primary then entry.primary * base_bytes_per_track entry else entry.primary }
  else entry

def load_alloc_attrs_from_dscb (dscb : DSCBFormat1) (entry : ZDSEntry) : ZDSEntry :=
  let totals := total_extents dscb.extents (0, 0)
  alloc_in_bytes { entry with
    allocx := dscb.ds1noepv.toNat
    alloc := if dspac dscb = 0x03 then totals.1 else totals.2 }

def last_used_track (dscb : DSCBFormat1) : ℕ :=
  let last := dscb.ds1lstar.1.toNat <<< 8 ||| dscb.ds1lstar.2.1.toNat
  if dscb.ds1flag1 &&& 0x10 ≠ 0 then last ||| dscb.ds1ttthi.toNat <<< 16 else last

/-- The loop over the extents, each with its index; 0 where it is not left. The comparison is one
of `uint32_t`. -/
def used_extents (last : ℕ) : List (ExtentField × ℕ) → ℤ → ℤ
  | [], _ => 0
  | (extent, i) :: extents, cumulative_tracks =>
    if extent.type = 0x00 then 0
    else
      let cumulative_tracks := to_int (cumulative_tracks + calculate_extent_tracks extent)
      if (last : ℤ) ≤ cumulative_tracks % 2 ^ 32 then i + 1
      else used_extents last extents cumulative_tracks

/-- `(100.0 * used_value) / alloc_value`, rounded down; none where the divisor is zero. -/
def used_percentage (used_value alloc_value : ℤ) : Option ℤ :=
  if alloc_value = 0 then none else some ((100 * used_value).tdiv alloc_value)

/-- The value that the tracks are divided by, none where its computation divides by zero. -/
def alloc_in_tracks (dscb : DSCBFormat1) (entry : ZDSEntry) : Option ℤ :=
  if entry.spacu = .BYTES ∧ 0 < entry.blksize then
    if base_bytes_per_track entry = 0 then none
    else some (entry.alloc.tdiv (base_bytes_per_track entry))
  else if dspac dscb = 0x03 then some (entry.alloc * TRACKS_PER_CYLINDER)
  else some entry.alloc

/-- Calculate the used percentage, none for a division by zero. -/
def load_percentage (dscb : DSCBFormat1) (entry : ZDSEntry) : Option ZDSEntry :=
  if 0 < entry.usedp ∧ 0 < entry.alloc then do
    let alloc_value ← alloc_in_tracks dscb entry
    let percentage ← used_percentage (last_used_track dscb + 1) alloc_value
    some { entry with usedp := if 100 < percentage then 100 else percentage }
  else if entry.usedp = 0 then some { entry with usedp := 0 }
  else some { entry with usedp := -1 }

/-- None for a division by zero. -/
def load_used_attrs_from_dscb (dscb : DSCBFormat1) (entry : ZDSEntry) : Option ZDSEntry :=
  if dscb.ds1dsorg &&& DS1DSGDA_MASK ≠ 0 ∨ dscb.ds1dsorg &&& DS1ACBM_MASK ≠ 0 ∨
      dscb.ds1smsfg &&& DS1PDSE_MASK ≠ 0 then
    some { entry with usedp := -1, usedx := -1 }
  else if last_used_track dscb = 0 ∧ entry.blksize = 0 then
    some { entry with usedp := 0, usedx := 0 }
  else
    let used : ℤ := last_used_track dscb + 1
    load_percentage dscb { entry with
      usedp := used
      usedx := if 0 < used then used_extents (last_used_track dscb) dscb.extents.zipIdx 0
        else entry.usedx }

def load_date_attrs_from_dscb (cs : Charset) (dscb : DSCBFormat1) (entry : ZDSEntry) :
    ZDSEntry :=
  { entry with
    cdate := load_date_from_dscb cs dscb.ds1credt false
    edate := load_date_from_dscb cs dscb.ds1expdt true
    rdate := load_date_from_dscb cs dscb.ds1refd false }

/-- What `zds_get_attrs_from_dscb` makes of an entry whose DSCB is found. -/
def attrs_from_dscb (cs : Charset) (dscb : DSCBFormat1) (entry : ZDSEntry) : Option ZDSEntry :=
  (load_used_attrs_from_dscb dscb
    (load_alloc_attrs_from_dscb dscb (load_general_attrs_from_dscb dscb entry))).map
    (load_date_attrs_from_dscb cs dscb)

end Zowex.dscb

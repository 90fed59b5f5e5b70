import Zowex.Lib.Segments
import Zowex.Proofs.Base64
import Zowex.Spec.Dscb

/-! The space of a DSCB, against the extents it describes: the tracks of the extents are laid end to
end, and the last track that is used is one of them. -/

namespace Zowex.dscb

open zbase64 (shl_or)

/-! The tracks of an extent. -/

/-- A track by its cylinder and its head, as a CCHH holds them. -/
structure Track where
  cylinder : ℕ
  head : ℕ
  cylinder_lt : cylinder < 2 ^ 28
  head_lt : head < 16

def Track.cchh (track : Track) : UInt8 × UInt8 × UInt8 × UInt8 :=
  (UInt8.ofNat (track.cylinder / 2 ^ 8), UInt8.ofNat track.cylinder,
    UInt8.ofNat (track.cylinder / 2 ^ 20),
    UInt8.ofNat (track.cylinder / 2 ^ 16 % 16 * 16 + track.head))

def Track.le (track track' : Track) : Prop :=
  track.cylinder < track'.cylinder ∨
    track.cylinder = track'.cylinder ∧ track.head ≤ track'.head

structure Extent where
  type : UInt8
  seq : UInt8
  lower : Track
  upper : Track
  type_ne : type ≠ 0
  le : lower.le upper

namespace Extent

def field (extent : Extent) : ExtentField :=
  ⟨extent.type, extent.seq, extent.lower.cchh, extent.upper.cchh⟩

def cylinders (extent : Extent) : ℕ :=
  extent.upper.cylinder - extent.lower.cylinder + 1

def tracks (extent : Extent) : ℕ :=
  (extent.upper.cylinder - extent.lower.cylinder) * 15 + extent.upper.head + 1 -
    extent.lower.head

end Extent

theorem toNat_ofNat_byte (n : ℕ) : (UInt8.ofNat n).toNat = n % 256 := by
  rw [UInt8.toNat_ofNat']

theorem parse_cylinder (track : Track) : parse_cchh_cylinder track.cchh = track.cylinder := by
  have hcylinder := track.cylinder_lt
  have hhead := track.head_lt
  simp only [parse_cchh_cylinder, Track.cchh, toNat_ofNat_byte]
  rw [shl_or (show track.cylinder % 256 < 2 ^ 8 by omega), Nat.shiftRight_eq_div_pow,
    shl_or (by omega), show 0x0FFF = 2 ^ 12 - 1 from rfl, Nat.and_two_pow_sub_one_eq_mod,
    shl_or (by omega)]
  omega

theorem parse_head_cchh (track : Track) : parse_head track.cchh = track.head := by
  have hhead := track.head_lt
  simp only [parse_head, Track.cchh, toNat_ofNat_byte]
  rw [show 0x0F = 2 ^ 4 - 1 from rfl, Nat.and_two_pow_sub_one_eq_mod]
  omega

namespace Extent

variable (extent : Extent)

theorem field_type_ne : extent.field.type ≠ 0x00 := extent.type_ne

theorem cylinder_le : extent.lower.cylinder ≤ extent.upper.cylinder := by
  rcases extent.le with hlt | ⟨hsame, -⟩
  · exact hlt.le
  · exact hsame.le

theorem tracks_pos : 0 < extent.tracks := by
  have hhead := extent.lower.head_lt
  rw [tracks]
  rcases extent.le with hlt | ⟨hsame, hle⟩
  · omega
  · omega

theorem tracks_lt : extent.tracks < 2 ^ 32 - 2 ^ 24 := by
  have hcylinder := extent.upper.cylinder_lt
  have hhead := extent.upper.head_lt
  rw [tracks]
  omega

theorem cylinders_le : extent.cylinders ≤ 2 ^ 28 := by
  have hcylinder := extent.upper.cylinder_lt
  rw [cylinders]
  omega

theorem calculate_tracks : calculate_extent_tracks extent.field = to_int extent.tracks := by
  have hle := extent.cylinder_le
  have hpos := extent.tracks_pos
  simp only [calculate_extent_tracks, field, parse_cylinder, parse_head_cchh]
  rw [if_neg (by omega)]
  congr 1
  rw [tracks] at hpos ⊢
  rw [TRACKS_PER_CYLINDER]
  omega

end Extent

theorem to_int_of_lt {n : ℕ} (h : n < 2 ^ 31) : to_int n = n := by
  rw [to_int, Int.bmod_eq_emod_of_lt (by omega)]
  omega

theorem to_int_emod (n : ℤ) : to_int n % 2 ^ 32 = n % 2 ^ 32 :=
  Int.bmod_emod

theorem to_int_add_to_int (m n : ℤ) : to_int (m + to_int n) = to_int (m + n) :=
  Int.add_bmod_bmod

theorem to_int_to_int_add (m n : ℤ) : to_int (to_int m + n) = to_int (m + n) :=
  Int.bmod_add_bmod

/-! Whole lists of extents. -/

/-- The extents are the ones that the fields hold: what comes after them starts with one that is
not there. -/
def Holds (fields : List ExtentField) (extents : List Extent) : Prop :=
  ∃ rest, fields = extents.map Extent.field ++ rest ∧ ∀ first ∈ rest.head?, first.type = 0x00

variable {fields : List ExtentField} {extents : List Extent}

theorem Holds.cons {extent : Extent} (h : Holds fields (extent :: extents)) :
    ∃ rest, fields = extent.field :: rest ∧ Holds rest extents := by
  obtain ⟨rest, rfl, hrest⟩ := h
  exact ⟨_, rfl, rest, rfl, hrest⟩

theorem Holds.length_le (h : Holds fields extents) : extents.length ≤ fields.length := by
  obtain ⟨rest, rfl, -⟩ := h
  simp

theorem total_extents_eq (h : Holds fields extents) (cylinders tracks : ℤ) :
    total_extents fields (to_int cylinders, to_int tracks) =
      (to_int (cylinders + (extents.map Extent.cylinders).sum),
        to_int (tracks + (extents.map Extent.tracks).sum)) := by
  induction extents generalizing fields cylinders tracks with
  | nil =>
    obtain ⟨rest, hfields, hrest⟩ := h
    rw [List.map_nil, List.nil_append] at hfields
    subst hfields
    rcases fields with _ | ⟨first, rest⟩
    · simp [total_extents]
    · have htype := hrest first rfl
      simp [total_extents, htype]
  | cons extent extents ih =>
    obtain ⟨rest, rfl, hrest⟩ := h.cons
    have hle := extent.cylinder_le
    rw [total_extents, if_neg extent.field_type_ne]
    dsimp only
    rw [Extent.calculate_tracks, to_int_add_to_int, to_int_to_int_add]
    simp only [Extent.field, parse_cylinder]
    rw [if_pos hle, to_int_add_to_int, to_int_to_int_add, ih hrest]
    simp only [List.map_cons, List.sum_cons, Prod.mk.injEq]
    constructor
    · congr 1
      rw [Extent.cylinders]
      omega
    · congr 1
      push_cast
      omega

/-- The number of the extent of the last track, unless that is the first of a later extent. -/
theorem used_extents_eq {last passed k i r : ℕ} (h : Holds fields extents) (hlast : last < 2 ^ 24)
    (hle : passed ≤ last) (hat : Segments.At (extents.map Extent.tracks) (last - passed) i r)
    (hfirst : i = 0 ∨ r ≠ 0) :
    used_extents last (fields.zipIdx k) passed = k + i + 1 := by
  induction extents generalizing fields passed k i with
  | nil => exact absurd hat Segments.not_at_nil
  | cons extent extents ih =>
    obtain ⟨rest, rfl, hrest⟩ := h.cons
    have hlt := extent.tracks_lt
    have hcumulative : to_int (passed + calculate_extent_tracks extent.field) =
        to_int ((passed + extent.tracks : ℕ) : ℤ) := by
      rw [extent.calculate_tracks, to_int_add_to_int]
      push_cast
      rfl
    rw [List.zipIdx_cons, used_extents, if_neg extent.field_type_ne, hcumulative]
    dsimp only
    rw [to_int_emod, Int.emod_eq_of_lt (by omega) (by omega)]
    rw [List.map_cons] at hat
    rcases i with _ | i
    · obtain ⟨hr, hhere⟩ := Segments.at_cons_zero.mp hat
      rw [if_pos (by omega)]
      simp
    · obtain ⟨hpast, hlater⟩ := Segments.at_cons_succ.mp hat
      have hr : r ≠ 0 := by simpa using hfirst
      obtain ⟨_, -, -, hsum⟩ := id hlater
      rw [if_neg (by omega), to_int_of_lt (by omega)]
      rw [Nat.sub_sub] at hlater
      rw [ih hrest (by omega) hlater (.inr hr)]
      push_cast
      omega

/-! The attributes of a DSCB. -/

/-- The last used track: the number of two bytes of DS1LSTAR, with the byte of DS1TTTHI above them
for a data set of the large format. -/
def last_track (dscb : DSCBFormat1) : ℕ :=
  (if dscb.ds1flag1 &&& 0x10 ≠ 0 then dscb.ds1ttthi.toNat * 2 ^ 16 else 0) +
    dscb.ds1lstar.1.toNat * 2 ^ 8 + dscb.ds1lstar.2.1.toNat

/-- The organizations for which DS1LSTAR says nothing. -/
def NotMaintained (dscb : DSCBFormat1) : Prop :=
  dscb.ds1dsorg &&& DS1DSGDA_MASK ≠ 0 ∨ dscb.ds1dsorg &&& DS1ACBM_MASK ≠ 0 ∨
    dscb.ds1smsfg &&& DS1PDSE_MASK ≠ 0

/-- A data set without a block size that has nothing in it. -/
def Unused (dscb : DSCBFormat1) : Prop :=
  last_track dscb = 0 ∧ halfword dscb.ds1blkl = 0

/-- The entry as `load_used_attrs_from_dscb` gets it. -/
def allocated (dscb : DSCBFormat1) (entry : ZDSEntry) : ZDSEntry :=
  load_alloc_attrs_from_dscb dscb (load_general_attrs_from_dscb dscb entry)

variable {dscb : DSCBFormat1} {entry : ZDSEntry}

theorem last_used_track_eq : last_used_track dscb = last_track dscb := by
  have hlow := dscb.ds1lstar.2.1.toNat_lt
  have hhigh := dscb.ds1lstar.1.toNat_lt
  rw [last_used_track, last_track, shl_or (by omega)]
  by_cases hlarge : dscb.ds1flag1 &&& 0x10 ≠ 0
  · rw [if_pos hlarge, if_pos hlarge, Nat.or_comm, shl_or (by omega)]
    omega
  · rw [if_neg hlarge, if_neg hlarge]
    omega

theorem last_track_lt : last_track dscb < 2 ^ 24 := by
  have hlow := dscb.ds1lstar.2.1.toNat_lt
  have hhigh := dscb.ds1lstar.1.toNat_lt
  have hhighest := dscb.ds1ttthi.toNat_lt
  rw [last_track]
  by_cases hlarge : dscb.ds1flag1 &&& 0x10 ≠ 0
  · rw [if_pos hlarge]
    omega
  · rw [if_neg hlarge]
    omega

theorem alloc_in_bytes_spacu : (alloc_in_bytes entry).spacu = entry.spacu := by
  rw [alloc_in_bytes]
  split <;> rfl

theorem alloc_in_bytes_blksize : (alloc_in_bytes entry).blksize = entry.blksize := by
  rw [alloc_in_bytes]
  split <;> rfl

theorem alloc_in_bytes_base :
    base_bytes_per_track (alloc_in_bytes entry) = base_bytes_per_track entry := by
  rw [alloc_in_bytes]
  split <;> rfl

theorem base_bytes_pos (h : 0 < entry.blksize) : 0 < base_bytes_per_track entry := by
  rw [base_bytes_per_track]
  by_cases hblocks : get_bytes_per_track entry.devtype / entry.blksize ≤ 0
  · rw [if_pos hblocks]
    omega
  · rw [if_neg hblocks]
    exact Int.mul_pos (by omega) h

/-- The conversion is undone, and is one of a number that is there. -/
theorem alloc_in_tracks_eq (hpos : 0 < entry.alloc) (hcylinders : entry.spacu = .BYTES →
    dspac dscb ≠ 0x03) : 0 < (alloc_in_bytes entry).alloc ∧
    alloc_in_tracks dscb (alloc_in_bytes entry) =
      some (if dspac dscb = 0x03 then entry.alloc * TRACKS_PER_CYLINDER else entry.alloc) := by
  rw [alloc_in_tracks, alloc_in_bytes_spacu, alloc_in_bytes_blksize, alloc_in_bytes_base]
  by_cases hbytes : entry.spacu = .BYTES ∧ 0 < entry.blksize
  · have hbase := base_bytes_pos hbytes.2
    have halloc : (alloc_in_bytes entry).alloc = entry.alloc * base_bytes_per_track entry := by
      rw [alloc_in_bytes, if_pos hbytes]
      exact if_pos hpos
    rw [if_pos hbytes, if_neg hbase.ne', if_neg (hcylinders hbytes.1), halloc]
    exact ⟨Int.mul_pos hpos hbase, congrArg some (Int.mul_tdiv_cancel _ hbase.ne')⟩
  · have halloc : (alloc_in_bytes entry).alloc = entry.alloc := by
      rw [alloc_in_bytes, if_neg hbytes]
    rw [if_neg hbytes, halloc]
    refine ⟨hpos, ?_⟩
    split <;> rfl

theorem alloc_in_bytes_not_pos (h : ¬ 0 < entry.alloc) : ¬ 0 < (alloc_in_bytes entry).alloc := by
  rw [alloc_in_bytes]
  split
  · simp only
    exact h
  · exact h

/-- What the percentage is where it is computed. -/
theorem used_percentage_bounds {used alloc_value : ℤ} (hused : 0 ≤ used) (halloc : 0 < alloc_value) :
    ∃ percentage, used_percentage used alloc_value = some percentage ∧ 0 ≤ percentage := by
  rw [used_percentage, if_neg halloc.ne']
  exact ⟨_, rfl, Int.tdiv_nonneg (by omega) halloc.le⟩

/-- The percentage of an entry: there is no division by zero, and it is from 0 to 100 where
something is allocated. -/
theorem load_percentage_bounds (hcylinders : entry.spacu = .BYTES → dspac dscb ≠ 0x03)
    (usedp usedx : ℤ) (hused : 0 < usedp) : ∃ entry',
      load_percentage dscb { alloc_in_bytes entry with usedp := usedp, usedx := usedx } =
        some entry' ∧ entry'.usedx = usedx ∧
      (0 < entry.alloc → 0 ≤ entry'.usedp) ∧ -1 ≤ entry'.usedp ∧ entry'.usedp ≤ 100 := by
  rw [load_percentage]
  dsimp only
  by_cases hpos : 0 < entry.alloc
  · obtain ⟨halloc, htracks⟩ := alloc_in_tracks_eq hpos hcylinders
    have hsame : alloc_in_tracks dscb { alloc_in_bytes entry with usedp := usedp, usedx := usedx } =
        alloc_in_tracks dscb (alloc_in_bytes entry) := rfl
    have hvalue : 0 < if dspac dscb = 0x03 then entry.alloc * TRACKS_PER_CYLINDER
        else entry.alloc := by
      rw [TRACKS_PER_CYLINDER]
      split <;> omega
    obtain ⟨percentage, hpercentage, hnonneg⟩ :=
      @used_percentage_bounds (last_used_track dscb + 1) _ (by omega) hvalue
    rw [if_pos ⟨hused, halloc⟩, hsame, htracks]
    dsimp only [bind, Option.bind]
    rw [hpercentage]
    refine ⟨_, rfl, rfl, ?_⟩
    dsimp only
    split <;> omega
  · rw [if_neg (fun h => alloc_in_bytes_not_pos hpos h.2), if_neg (by omega)]
    refine ⟨_, rfl, rfl, fun h => absurd h hpos, ?_⟩
    dsimp only
    omega

/-! The used extents. -/

structure Describes (dscb : DSCBFormat1) (extents : List Extent) : Prop where
  holds : Holds dscb.extents extents
  ne_nil : extents ≠ []

/-- The cylinders or the tracks that are allocated, as they are counted. -/
def units (dscb : DSCBFormat1) (extents : List Extent) : ℤ :=
  if dspac dscb = 0x03 then to_int (extents.map Extent.cylinders).sum
  else to_int (extents.map Extent.tracks).sum

theorem allocated_eq (h : Holds dscb.extents extents) : allocated dscb entry =
    alloc_in_bytes { load_general_attrs_from_dscb dscb entry with
      allocx := dscb.ds1noepv.toNat, alloc := units dscb extents } := by
  have htotals := total_extents_eq h 0 0
  simp only [Int.zero_add] at htotals
  rw [show to_int 0 = 0 from rfl] at htotals
  rw [allocated, load_alloc_attrs_from_dscb, htotals, units]

theorem bytes_not_cylinders (h : load_spacu_from_dscb dscb = .BYTES) : dspac dscb ≠ 0x03 := by
  intro hcylinders
  rw [load_spacu_from_dscb] at h
  dsimp only at h
  rw [if_pos hcylinders] at h
  cases h

theorem sum_cylinders_le (extents : List Extent) :
    (extents.map Extent.cylinders).sum ≤ extents.length * 2 ^ 28 := by
  induction extents with
  | nil => simp
  | cons extent extents ih =>
    have hle := extent.cylinders_le
    rw [List.map_cons, List.sum_cons, List.length_cons]
    omega

theorem sum_cylinders_pos (h : extents ≠ []) : 0 < (extents.map Extent.cylinders).sum := by
  rcases extents with _ | ⟨extent, extents⟩
  · exact absurd rfl h
  · rw [List.map_cons, List.sum_cons, Extent.cylinders]
    omega

/-- What is allocated is counted, unless it is too many tracks for an `int`. -/
theorem units_pos (h : Describes dscb extents) (hsum : 0 < (extents.map Extent.tracks).sum)
    (hcount : dspac dscb = 0x03 ∨ (extents.map Extent.tracks).sum < 2 ^ 31) :
    0 < units dscb extents := by
  rw [units]
  by_cases hcylinders : dspac dscb = 0x03
  · have hlength := h.holds.length_le
    rw [show dscb.extents.length = 3 from rfl] at hlength
    have hle := sum_cylinders_le extents
    have hpos := sum_cylinders_pos h.ne_nil
    rw [if_pos hcylinders, to_int_of_lt (by omega)]
    omega
  · have hlt := hcount.resolve_left hcylinders
    rw [if_neg hcylinders, to_int_of_lt hlt]
    omega

theorem allocated_blksize (h : ¬ NotMaintained dscb) :
    (allocated dscb entry).blksize = halfword dscb.ds1blkl := by
  have hvsam : ¬ dscb.ds1dsorg &&& DS1ACBM_MASK ≠ 0 := fun hvsam => h (.inr (.inl hvsam))
  rw [allocated, load_alloc_attrs_from_dscb, alloc_in_bytes_blksize]
  simp only [load_general_attrs_from_dscb, load_primary_secondary_from_dscb]
  exact if_neg hvsam

theorem load_used_not_maintained (h : NotMaintained dscb) :
    load_used_attrs_from_dscb dscb entry = some { entry with usedp := -1, usedx := -1 } := by
  rw [NotMaintained] at h
  rw [load_used_attrs_from_dscb, if_pos h]

theorem load_used_unused (h : ¬ NotMaintained dscb) (hunused : Unused dscb) :
    load_used_attrs_from_dscb dscb (allocated dscb entry) =
      some { allocated dscb entry with usedp := 0, usedx := 0 } := by
  have hblksize : (allocated dscb entry).blksize = 0 := by
    rw [allocated_blksize h, hunused.2]
    rfl
  rw [NotMaintained] at h
  rw [load_used_attrs_from_dscb, if_neg h, if_pos ⟨last_used_track_eq.trans hunused.1, hblksize⟩]

theorem load_used_eq (h : ¬ NotMaintained dscb) (hused : ¬ Unused dscb) :
    load_used_attrs_from_dscb dscb (allocated dscb entry) =
      load_percentage dscb { allocated dscb entry with
        usedp := last_track dscb + 1
        usedx := used_extents (last_track dscb) dscb.extents.zipIdx 0 } := by
  have hsome : ¬ (last_used_track dscb = 0 ∧ (allocated dscb entry).blksize = 0) := by
    rintro ⟨hlast, hblksize⟩
    rw [allocated_blksize h] at hblksize
    exact hused ⟨last_used_track_eq.symm.trans hlast, by omega⟩
  rw [NotMaintained] at h
  rw [load_used_attrs_from_dscb, if_neg h, if_neg hsome]
  dsimp only
  rw [if_pos (by omega), last_used_track_eq]

/-- No DSCB makes the computation divide by zero. -/
theorem attrs_from_dscb_some (cs : Charset) (dscb : DSCBFormat1) (entry : ZDSEntry) :
    ∃ loaded, attrs_from_dscb cs dscb entry = some loaded := by
  have hused : ∃ used, load_used_attrs_from_dscb dscb (allocated dscb entry) = some used := by
    by_cases hmaintained : NotMaintained dscb
    · exact ⟨_, load_used_not_maintained hmaintained⟩
    by_cases hunused : Unused dscb
    · exact ⟨_, load_used_unused hmaintained hunused⟩
    have hspacu : (load_general_attrs_from_dscb dscb entry).spacu = load_spacu_from_dscb dscb := rfl
    obtain ⟨used, heq, -⟩ := @load_percentage_bounds dscb
      { load_general_attrs_from_dscb dscb entry with
        allocx := dscb.ds1noepv.toNat
        alloc := if dspac dscb = 0x03 then (total_extents dscb.extents (0, 0)).1
          else (total_extents dscb.extents (0, 0)).2 }
      (fun hbytes => bytes_not_cylinders (hspacu.symm.trans hbytes)) (last_track dscb + 1)
      (used_extents (last_track dscb) dscb.extents.zipIdx 0) (by omega)
    exact ⟨used, (load_used_eq hmaintained hunused).trans heq⟩
  obtain ⟨used, hused⟩ := hused
  refine ⟨load_date_attrs_from_dscb cs dscb used, ?_⟩
  rw [allocated] at hused
  rw [attrs_from_dscb, hused]
  rfl

/-- What is said of the used space: nothing of the organizations that do not keep it, none of a data
set without blocks, else a percentage, and the extent of the last track unless that is the first
track of a later extent. -/
theorem used_extent_of_last_track (dscb : DSCBFormat1) (entry : ZDSEntry) (extents : List Extent)
    (h : Describes dscb extents)
    (hlast : last_track dscb < (extents.map Extent.tracks).sum) :
    ∃ entry', load_used_attrs_from_dscb dscb (allocated dscb entry) = some entry' ∧
      (NotMaintained dscb → entry'.usedp = -1 ∧ entry'.usedx = -1) ∧
      (¬ NotMaintained dscb → Unused dscb → entry'.usedp = 0 ∧ entry'.usedx = 0) ∧
      (¬ NotMaintained dscb → ¬ Unused dscb →
        (-1 ≤ entry'.usedp ∧ entry'.usedp ≤ 100) ∧
        (dspac dscb = 0x03 ∨ (extents.map Extent.tracks).sum < 2 ^ 31 → 0 ≤ entry'.usedp) ∧
        ∀ i r, Segments.At (extents.map Extent.tracks) (last_track dscb) i r → i = 0 ∨ r ≠ 0 →
          entry'.usedx = i + 1) := by
  by_cases hmaintained : NotMaintained dscb
  · exact ⟨_, load_used_not_maintained hmaintained, fun _ => ⟨rfl, rfl⟩,
      fun hnot => absurd hmaintained hnot, fun hnot => absurd hmaintained hnot⟩
  by_cases hunused : Unused dscb
  · exact ⟨_, load_used_unused hmaintained hunused, fun hnot => absurd hnot hmaintained,
      fun _ _ => ⟨rfl, rfl⟩, fun _ hused => absurd hunused hused⟩
  have hspacu : (load_general_attrs_from_dscb dscb entry).spacu = load_spacu_from_dscb dscb := rfl
  obtain ⟨entry', heq, husedx, hnonneg, hle, hle'⟩ := @load_percentage_bounds dscb
    { load_general_attrs_from_dscb dscb entry with
      allocx := dscb.ds1noepv.toNat, alloc := units dscb extents }
    (fun hbytes => bytes_not_cylinders (hspacu.symm.trans hbytes)) (last_track dscb + 1)
    (used_extents (last_track dscb) dscb.extents.zipIdx 0) (by omega)
  rw [← allocated_eq h.holds] at heq
  refine ⟨entry', (load_used_eq hmaintained hunused).trans heq,
    fun hnot => absurd hnot hmaintained, fun _ hnot => absurd hnot hunused, fun _ _ => ?_⟩
  refine ⟨⟨hle, hle'⟩, fun hcount => hnonneg (units_pos h (by omega) hcount), ?_⟩
  intro i r hat hfirst
  have hextent := @used_extents_eq _ _ _ 0 0 _ _ h.holds last_track_lt (Nat.zero_le _)
    (by simpa using hat) hfirst
  rw [husedx]
  simpa using hextent

/-- A data set with an extent of one cylinder and another. -/
def two_cylinders (ds1dsorg : UInt16) (lstar : UInt8) (blksize : UInt8) : DSCBFormat1 where
  ds1credt := ⟨0, 0, 0⟩
  ds1expdt := ⟨0, 0, 0⟩
  ds1refd := ⟨0, 0, 0⟩
  ds1noepv := 2
  ds1flag1 := 0
  ds1smsfg := 0
  ds1scext := (0, 0, 0)
  ds1dsorg := ds1dsorg
  ds1blkl := (0, blksize)
  ds1lrecl := (0, 80)
  ds1scalo := (0xC0, 0, 0, 1)
  ds1lstar := (0, lstar, 1)
  ds1ttthi := 0
  ds1exnts := (⟨1, 0, (0, 1, 0, 0), (0, 1, 0, 14)⟩, ⟨1, 1, (0, 9, 0, 0), (0, 9, 0, 14)⟩,
    ⟨0, 0, (0, 0, 0, 0), (0, 0, 0, 0)⟩)

def one_cylinder (cylinder : ℕ) (h : cylinder < 2 ^ 28) (seq : UInt8) : Extent where
  type := 1
  seq := seq
  lower := ⟨cylinder, 0, h, by omega⟩
  upper := ⟨cylinder, 14, h, by omega⟩
  type_ne := by decide
  le := .inr ⟨rfl, Nat.zero_le _⟩

theorem two_cylinders_describes (ds1dsorg : UInt16) (lstar blksize : UInt8) :
    Describes (two_cylinders ds1dsorg lstar blksize)
      [one_cylinder 1 (by omega) 0, one_cylinder 9 (by omega) 1] where
  holds := ⟨[⟨0, 0, (0, 0, 0, 0), (0, 0, 0, 0)⟩], rfl, by decide⟩
  ne_nil := by decide

/-- A data set of more tracks than an `int` counts. -/
def whole_volume : DSCBFormat1 :=
  { two_cylinders 0x4000 16 80 with
    ds1scalo := (0x80, 0, 0, 1)
    ds1exnts := (⟨1, 0, (0, 0, 0, 0), (255, 255, 255, 0xFE)⟩, ⟨0, 0, (0, 0, 0, 0), (0, 0, 0, 0)⟩,
      ⟨0, 0, (0, 0, 0, 0), (0, 0, 0, 0)⟩) }

def whole_extent : Extent where
  type := 1
  seq := 0
  lower := ⟨0, 0, by omega, by omega⟩
  upper := ⟨2 ^ 28 - 1, 14, by omega, by omega⟩
  type_ne := by decide
  le := .inl (by decide)

theorem whole_volume_describes : Describes whole_volume [whole_extent] where
  holds := ⟨[⟨0, 0, (0, 0, 0, 0), (0, 0, 0, 0)⟩, ⟨0, 0, (0, 0, 0, 0), (0, 0, 0, 0)⟩], rfl, by decide⟩
  ne_nil := by decide

/-- The percentage and the extent that an entry gets. -/
def used_space (dscb : DSCBFormat1) : Option (ℤ × ℤ) :=
  (load_used_attrs_from_dscb dscb (allocated dscb {})).map fun entry => (entry.usedp, entry.usedx)

/-- The tracks 3 and 15 are in the first and in the second extent; a data set of direct access keeps
nothing, one without blocks has nothing on its track 0, the track 15 is taken for one of the first
extent, and too many tracks have no percentage. -/
theorem used_space_cases :
    Describes (two_cylinders DS1DSGDA_MASK 3 80)
      [one_cylinder 1 (by omega) 0, one_cylinder 9 (by omega) 1] ∧
    Segments.At ([one_cylinder 1 (by omega) 0, one_cylinder 9 (by omega) 1].map Extent.tracks)
      3 0 3 ∧
    Segments.At ([one_cylinder 1 (by omega) 0, one_cylinder 9 (by omega) 1].map Extent.tracks)
      15 1 0 ∧
    used_space (two_cylinders DS1DSGDA_MASK 3 80) = some (-1, -1) ∧
    used_space (two_cylinders 0x4000 0 0) = some (0, 0) ∧
    used_space (two_cylinders 0x4000 15 80) = some (53, 1) ∧
    used_space (two_cylinders 0x4000 16 80) = some (56, 2) ∧
    Describes whole_volume [whole_extent] ∧ used_space whole_volume = some (-1, 1) :=
  ⟨two_cylinders_describes _ _ _, ⟨15, rfl, by omega, rfl⟩, ⟨15, rfl, by omega, rfl⟩,
    by decide +kernel, by decide +kernel, by decide +kernel, by decide +kernel,
    whole_volume_describes, by decide +kernel⟩

/-- The hypotheses hold of the track 16 of the two cylinders. -/
theorem used_extent_of_track_16 : ∃ entry',
    load_used_attrs_from_dscb (two_cylinders 0x4000 16 80)
      (allocated (two_cylinders 0x4000 16 80) {}) = some entry' ∧ entry'.usedx = 2 := by
  obtain ⟨entry', heq, -, -, hused⟩ := used_extent_of_last_track (two_cylinders 0x4000 16 80) {}
    [one_cylinder 1 (by omega) 0, one_cylinder 9 (by omega) 1]
    (two_cylinders_describes _ _ _) (by decide +kernel)
  have hmaintained : ¬ NotMaintained (two_cylinders 0x4000 16 80) := by
    rw [NotMaintained]
    decide +kernel
  have hunused : ¬ Unused (two_cylinders 0x4000 16 80) := by
    rw [Unused]
    decide +kernel
  exact ⟨entry', heq, (hused hmaintained hunused).2.2 1 1
    ⟨15, rfl, by omega, by decide +kernel⟩ (.inr (by omega))⟩

end Zowex.dscb

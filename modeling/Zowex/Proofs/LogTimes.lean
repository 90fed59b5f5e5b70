import Zowex.Proofs.DscbDates
import Zowex.Proofs.JsonNumbers
import Zowex.Spec.Lexer
import Zowex.Spec.Syslog

/-! The instants of the system log. A local time becomes one in UTC by unsigned arithmetic on the time
of day alone, with the date as it is written; the way back is signed and moves the date. -/

namespace Zowex.zjb

open Gregorian dscb lexer

variable {cs : Charset} {date : Date} {width n : ℕ} {x tz : ℤ} {rest : Bytes}

/-! The digits of a date. -/

theorem padded_code_not_space {c : UInt8} (hc : c ∈ (padded_digits width n).map cs.code) :
    cs.isspace c = false := by
  obtain ⟨a, ha, rfl⟩ := List.mem_map.mp hc
  have hdigit := zjson.literal_printable a (List.mem_cons_of_mem _ (mem_padded_digits ha))
  exact cs.isspace_printable a hdigit.1 hdigit.2

theorem padded_code_digit {c : UInt8} (hc : c ∈ (padded_digits width n).map cs.code) :
    zjson.is_dec_digit cs c = true := by
  obtain ⟨a, ha, rfl⟩ := List.mem_map.mp hc
  exact zjson.is_dec_digit_code cs (mem_padded_digits ha)

theorem padded_code_no_sign {c : UInt8} (hc : c ∈ (padded_digits width n).map cs.code) :
    c ≠ cs.code '-' ∧ c ≠ cs.code '+' := by
  obtain ⟨a, ha, rfl⟩ := List.mem_map.mp hc
  have hprintable := digits_printable a (mem_padded_digits ha)
  constructor
  · exact cs.code_ne hprintable (by decide) (by
      rintro rfl
      exact absurd (mem_padded_digits ha) (by decide))
  · exact cs.code_ne hprintable (by decide) (by
      rintro rfl
      exact absurd (mem_padded_digits ha) (by decide))

theorem digits_fold {digits : List Char} (h : ∀ c ∈ digits, c ∈ "0123456789".toList) (start : ℕ) :
    (digits.map cs.code).foldl (fun acc c => acc * 10 + (cs.hex_digit c).getD 0) start =
      digits.foldl (fun value digit => value * 10 + (digit.toNat - 48)) start := by
  induction digits generalizing start with
  | nil => rfl
  | cons c digits ih =>
    rw [List.forall_mem_cons] at h
    rw [List.map_cons, List.foldl_cons, List.foldl_cons, zjson.dec_digit_value cs h.1,
      Option.getD_some, ih h.2]
    rfl

theorem padded_fold (width n : ℕ) : ((padded_digits width n).map cs.code).foldl
    (fun acc c => acc * 10 + (cs.hex_digit c).getD 0) 0 = digits_value (padded_digits width n) :=
  digits_fold (fun _ => mem_padded_digits) 0

/-- A number is read back from as many digits as it has. -/
theorem scan_number_padded (hpos : 0 < width) (hn : n < 10 ^ width) :
    scan_number cs width ((padded_digits width n).map cs.code ++ rest) = some ((n : ℤ), rest) := by
  have hfits := fits_of_lt hpos hn
  have hlength : ((padded_digits width n).map cs.code).length = width := by
    rw [List.length_map, hfits.length]
  obtain ⟨c, digits, hdigits⟩ : ∃ c digits, (padded_digits width n).map cs.code = c :: digits := by
    apply List.exists_cons_of_length_pos
    omega
  have hc : c ∈ (padded_digits width n).map cs.code := hdigits ▸ List.mem_cons_self
  have hblank : ((padded_digits width n).map cs.code ++ rest).dropWhile cs.isspace =
      (padded_digits width n).map cs.code ++ rest := by
    rw [hdigits, List.cons_append, List.dropWhile_cons_of_neg]
    simp [padded_code_not_space hc]
  have hsign : zjson.strtoul_sign cs ((padded_digits width n).map cs.code ++ rest) = (0, false) := by
    obtain ⟨hminus, hplus⟩ := padded_code_no_sign hc
    rw [hdigits, List.cons_append, zjson.strtoul_sign]
    simp [hminus, hplus]
  have htake : (((padded_digits width n).map cs.code ++ rest).take width).takeWhile
      (zjson.is_dec_digit cs) = (padded_digits width n).map cs.code := by
    rw [List.take_left' hlength, List.takeWhile_eq_self_iff]
    exact fun c hc => padded_code_digit hc
  have hne : (padded_digits width n).map cs.code ≠ [] := by
    rw [hdigits]
    exact List.cons_ne_nil _ _
  rw [scan_number, hblank, hsign]
  dsimp only
  rw [List.drop_zero, htake, if_neg hne, if_neg Bool.false_ne_true, padded_fold, hfits.value,
    List.drop_left' (by omega)]

/-! A time is brought into its day. -/

theorem raise_day_eq (h : -CS_PER_DAY ≤ x) (shift : ℤ) : raise_day x shift =
    if x < 0 then (x + CS_PER_DAY, shift - 1) else (x, shift) := by
  rw [raise_day]
  by_cases hx : x < 0
  · rw [if_pos hx, if_pos hx, raise_day, if_neg (by omega)]
  · rw [if_neg hx, if_neg hx]

theorem lower_day_eq (h : x < 2 * CS_PER_DAY) (shift : ℤ) : lower_day x shift =
    if x ≥ CS_PER_DAY then (x - CS_PER_DAY, shift + 1) else (x, shift) := by
  rw [lower_day]
  by_cases hx : x ≥ CS_PER_DAY
  · rw [if_pos hx, if_pos hx, lower_day, if_neg (by omega)]
  · rw [if_neg hx, if_neg hx]

/-- The local day of a time, and the time in it. -/
theorem day_of_time (hlow : -CS_PER_DAY ≤ x) (hhigh : x < 2 * CS_PER_DAY) :
    ∃ time shift, lower_day (raise_day x 0).1 (raise_day x 0).2 = (time, shift) ∧ 0 ≤ time ∧
      time < CS_PER_DAY ∧ x = shift * CS_PER_DAY + time ∧
      (shift = -1 ∨ shift = 0 ∨ shift = 1) := by
  have hday : 0 < CS_PER_DAY := by decide
  rw [raise_day_eq hlow]
  by_cases hneg : x < 0
  · rw [if_pos hneg]
    refine ⟨x + CS_PER_DAY, -1, ?_, by omega, by omega, by omega, .inl rfl⟩
    rw [lower_day_eq (by omega), if_neg (by omega)]
    rfl
  · rw [if_neg hneg, lower_day_eq hhigh]
    by_cases hlater : x ≥ CS_PER_DAY
    · exact ⟨x - CS_PER_DAY, 1, by rw [if_pos hlater]; rfl, by omega, by omega, by omega,
        .inr (.inr rfl)⟩
    · exact ⟨x, 0, by rw [if_neg hlater], by omega, by omega, by omega, .inr (.inl rfl)⟩

/-! The local form. -/

/-- A date whose digits are as many as they should be. -/
structure Printable (date : Date) : Prop where
  exists_date : date.Exists
  year_lt : date.year < 10000

theorem Printable.month_lt (h : Printable date) : date.month < 100 := by
  have hle := h.exists_date.month_le
  omega

theorem Printable.day_lt (h : Printable date) : date.day < 100 := by
  have hle := h.exists_date.on_day.day_le
  omega

theorem length_padded (hpos : 0 < width) (hn : n < 10 ^ width) :
    ((padded_digits width n).map cs.code).length = width := by
  rw [List.length_map, (fits_of_lt hpos hn).length]

theorem compact_date_eq (date : Date) : compact_date cs date =
    (padded_digits 4 date.year).map cs.code ++ ((padded_digits 2 date.month).map cs.code ++
      (padded_digits 2 date.day).map cs.code) := by
  rw [compact_date, List.map_append, List.map_append, List.append_assoc]

theorem length_compact_date (h : Printable date) : (compact_date cs date).length = 8 := by
  rw [compact_date_eq, List.length_append, List.length_append,
    length_padded (by decide) h.year_lt, length_padded (by decide) h.month_lt,
    length_padded (by decide) h.day_lt]

theorem length_date_text (h : Printable date) : (date_text cs date).length = 10 := by
  rw [date_text, List.length_map, List.length_append, List.length_cons, List.length_append,
    List.length_cons, (fits_of_lt (by decide) h.year_lt).length,
    (fits_of_lt (by decide) h.month_lt).length, (fits_of_lt (by decide) h.day_lt).length]

theorem scan_compact_date (h : Printable date) :
    scan_widths cs [4, 2, 2] (compact_date cs date) =
      [(date.year : ℤ), (date.month : ℤ), (date.day : ℤ)] := by
  have hday := @scan_number_padded cs 2 date.day [] (by decide) h.day_lt
  rw [List.append_nil] at hday
  rw [compact_date_eq, scan_widths, scan_number_padded (by decide) h.year_lt]
  dsimp only
  rw [scan_widths, scan_number_padded (by decide) h.month_lt]
  dsimp only
  rw [scan_widths, hday]
  rfl

/-- With hyphens between the year, the month and the day. -/
theorem split_compact_date (h : Printable date) :
    (compact_date cs date).take 4 ++ [cs.code '-'] ++ ((compact_date cs date).drop 4).take 2 ++
      [cs.code '-'] ++ ((compact_date cs date).drop 6).take 2 = date_text cs date := by
  have hyear := @length_padded cs 4 date.year (by decide) h.year_lt
  have hmonth := @length_padded cs 2 date.month (by decide) h.month_lt
  have hday := @length_padded cs 2 date.day (by decide) h.day_lt
  have hdrop : (compact_date cs date).drop 6 = (padded_digits 2 date.day).map cs.code := by
    rw [compact_date_eq, ← List.append_assoc, List.drop_left']
    rw [List.length_append, hyear, hmonth]
  rw [hdrop, compact_date_eq, List.take_left' hyear, List.drop_left' hyear, List.take_left' hmonth,
    List.take_of_length_le hday.le, date_text]
  simp

/-- A day earlier, the same day or a day later. -/
theorem shift_exists {shift : ℤ} (h : date.Exists) (hyear : 0 < date.year)
    (hshift : shift = -1 ∨ shift = 0 ∨ shift = 1) :
    (date.shift shift).Exists ∧ ((date.shift shift).number : ℤ) = date.number + shift ∧
      (date.shift shift).year ≤ date.year + 1 := by
  rcases hshift with rfl | rfl | rfl
  · have hprevious : date.shift (-1) = date.previous := rfl
    have hnumber := Date.number_previous h hyear
    rw [hprevious]
    refine ⟨Date.previous_exists h, by omega, ?_⟩
    rw [Date.previous]
    split_ifs <;> dsimp only <;> omega
  · have hsame : date.shift 0 = date := rfl
    rw [hsame]
    exact ⟨h, by omega, Nat.le_succ _⟩
  · have hnext : date.shift 1 = date.next := rfl
    have hnumber := Date.number_next h
    rw [hnext]
    refine ⟨Date.next_exists h, by omega, ?_⟩
    rw [Date.next]
    split_ifs <;> dsimp only <;> omega

theorem local_form_shows {stamp : Stamp} (h : stamp.Denotes cs date) (hyear : 1900 ≤ date.year)
    (hlast : date.year < 9999) (htz : |tz| ≤ 14 * 360000) :
    Shows cs (local_form cs tz stamp).1 (local_form cs tz stamp).2
      (instant date stamp.ts_binary + tz) := by
  have hprintable : Printable date := ⟨h.exists_date, by omega⟩
  obtain ⟨hlow, hhigh⟩ := abs_le.mp htz
  have hnonneg := h.nonneg
  have hwithin := h.within
  have hday : CS_PER_DAY = 8640000 := rfl
  obtain ⟨time, shift, hlocal, htime, htime_lt, hsum, hshift⟩ :=
    @day_of_time (stamp.ts_binary + tz) (by omega) (by omega)
  obtain ⟨hexists, hnumber, hle⟩ := shift_exists h.exists_date (by omega) hshift
  have hform : local_form cs tz stamp = (date_text cs (date.shift shift),
      time_text cs (time / 360000).toNat (time / 6000 % 60).toNat (time / 100 % 60).toNat) := by
    rw [local_form]
    dsimp only
    rw [hlocal]
    dsimp only
    congr 1
    split_ifs with hmoved
    · have hshifted : shifted_date cs stamp.ebcdic_date shift = date.shift shift := by
        rw [shifted_date, h.ebcdic_date, scan_compact_date hprintable]
        rfl
      rw [hshifted, List.take_of_length_le (length_date_text ⟨hexists, by omega⟩).le]
    · obtain rfl : shift = 0 := not_not.mp hmoved
      rw [h.ebcdic_date]
      exact split_compact_date hprintable
  rw [hform]
  refine ⟨date.shift shift, _, _, _, hexists, ?_, ?_, ?_, rfl, rfl, ?_, ?_⟩
  · omega
  · omega
  · omega
  · rw [instant, instant, hnumber, hday] at *
    push_cast
    omega
  · rw [instant, instant, hnumber, hday] at *
    push_cast
    omega

/-! The way there. -/

section

variable {rt : Runtime} {sys : Syslog} {opts : ZJBSyslogOptions}

theorem local_cs_within {time : Bytes} (h : accepts_time cs time = true) :
    0 ≤ local_cs cs time ∧ local_cs cs time < CS_PER_DAY := by
  have hday : CS_PER_DAY = 8640000 := rfl
  rw [accepts_time, Bool.and_eq_true] at h
  obtain ⟨-, h⟩ := h
  rw [local_cs]
  split at h
  · rename_i hh mm ss hscan
    rw [hscan]
    have hfields := of_decide_eq_true h
    simp only [List.getD_cons_zero, List.getD_cons_succ, List.getD_nil]
    omega
  · cases h

theorem given_year {date : Bytes} (h : accepts_date cs date = true) :
    1900 ≤ (given_date cs date).year ∧ (given_date cs date).year ≤ 2185 := by
  rw [accepts_date] at h
  rw [given_date]
  split at h
  · rename_i yyyy mm dd hscan
    rw [hscan]
    have hfields := of_decide_eq_true h
    simp only [List.getD_cons_zero]
    omega
  · cases h

theorem nul_notMem_compact_date (date : Date) : (0 : UInt8) ∉ compact_date rt.toCharset date := by
  intro hmem
  obtain ⟨c, hc, hcode⟩ := List.mem_map.mp hmem
  have hdigit : c ∈ "0123456789".toList := by
    rw [List.mem_append, List.mem_append] at hc
    exact hc.elim (fun hc => hc.elim mem_padded_digits mem_padded_digits) mem_padded_digits
  have hprintable := rt.iscntrl_printable c (digits_printable c hdigit)
  rw [hcode, rt.iscntrl_nul] at hprintable
  cases hprintable

/-- What is read behind the end of a date is no digit. -/
theorem take_compact_iff {compact behind : Bytes} (hlength : (compact_date rt.toCharset date).length = 8) :
    (compact ++ 0 :: behind).take 8 = compact_date rt.toCharset date ↔
      compact.take 8 = compact_date rt.toCharset date := by
  by_cases hlong : 8 ≤ compact.length
  · rw [List.take_append_of_le_length hlong]
  · apply iff_of_false
    · intro hsame
      apply @nul_notMem_compact_date rt date
      rw [← hsame, List.take_append, List.mem_append]
      right
      obtain ⟨k, hk⟩ : ∃ k, 8 - compact.length = k + 1 := ⟨7 - compact.length, by omega⟩
      rw [hk, List.take_succ_cons]
      exact List.mem_cons_self
    · intro hsame
      have hshort := congrArg List.length hsame
      rw [hlength, List.length_take] at hshort
      omega

/-- Unsigned arithmetic gives a time of the day only where nothing is borrowed. -/
theorem ts_binary_within {time : ℤ} (hnonneg : 0 ≤ time) (hwithin : time < CS_PER_DAY)
    (htz : |tz| ≤ 14 * 360000) (hts : (time - tz) % 2 ^ 32 < CS_PER_DAY) :
    (time - tz) % 2 ^ 32 = time - tz ∧ 0 ≤ time - tz := by
  have hday : CS_PER_DAY = 8640000 := rfl
  obtain ⟨hlow, hhigh⟩ := abs_le.mp htz
  omega

theorem denotes_given (hdate : accepts_date rt.toCharset opts.date = true)
    (behind : Bytes) (h : SameDay rt.toCharset tz opts) :
    (utc_stamp rt.toCharset tz behind opts).Denotes rt.toCharset
        (given_date rt.toCharset opts.date) ∧
      (utc_stamp rt.toCharset tz behind opts).ts_binary = local_cs rt.toCharset opts.time - tz := by
  obtain ⟨-, hyear⟩ := given_year hdate
  have hday : CS_PER_DAY = 8640000 := rfl
  have hlength := @length_compact_date rt.toCharset _ ⟨h.exists_date, by omega⟩
  have hbefore := h.not_before
  have hafter := h.not_after
  have hts : (local_cs rt.toCharset opts.time - tz) % 2 ^ 32 =
      local_cs rt.toCharset opts.time - tz := by omega
  refine ⟨⟨h.exists_date, ?_, ?_, ?_⟩, hts⟩
  · exact (take_compact_iff hlength).mpr h.written
  · exact hts.ge.trans' hbefore
  · exact hts.trans_lt hafter

theorem start_iff (hdate : accepts_date rt.toCharset opts.date = true)
    (htime : accepts_time rt.toCharset opts.time = true) (htz : |tz| ≤ 14 * 360000)
    (behind : Bytes) :
    (∃ date, (utc_stamp rt.toCharset tz behind opts).Denotes rt.toCharset date ∧
        (given_date rt.toCharset opts.date).Exists ∧
        instant date (utc_stamp rt.toCharset tz behind opts).ts_binary + tz =
          instant (given_date rt.toCharset opts.date) (local_cs rt.toCharset opts.time)) ↔
      SameDay rt.toCharset tz opts := by
  obtain ⟨hnonneg, hwithin⟩ := local_cs_within htime
  obtain ⟨-, hyear⟩ := given_year hdate
  have hday : CS_PER_DAY = 8640000 := rfl
  constructor
  · rintro ⟨date, hdenotes, hexists, hinstant⟩
    obtain ⟨hts, hsame⟩ := ts_binary_within hnonneg hwithin htz hdenotes.within
    have hlt := hdenotes.within
    rw [utc_stamp] at hinstant hlt
    dsimp only at hinstant hlt
    rw [hts] at hinstant hlt
    have hnumber : date.number = (given_date rt.toCharset opts.date).number := by
      rw [instant, instant, hday] at hinstant
      omega
    have heq := hdenotes.exists_date.eq_of_number hexists hnumber
    have hlength := @length_compact_date rt.toCharset _ ⟨hexists, by omega⟩
    have hwritten := hdenotes.ebcdic_date
    rw [heq] at hwritten
    exact ⟨hexists, (take_compact_iff hlength).mp hwritten, hsame, hlt⟩
  · intro h
    obtain ⟨hdenotes, hts⟩ := denotes_given hdate behind h
    refine ⟨_, hdenotes, h.exists_date, ?_⟩
    rw [hts, instant, instant]
    omega

/-- A run that ends well shows the local form of the last point. -/
theorem end_eq (hrc : (zjb_read_syslog cs sys opts).rc = 0)
    (hdata : (zjb_read_syslog cs sys opts).response.data ≠ []) :
    sys.zjb_read_job_dynamic_allocation = 0 ∧
      (zjb_read_syslog cs sys opts).response.end_date =
        (local_form cs sys.tz_offset_cs (sys.last (zjb_read_syslog cs sys opts).start)).1 ∧
      (zjb_read_syslog cs sys opts).response.end_time =
        (local_form cs sys.tz_offset_cs (sys.last (zjb_read_syslog cs sys opts).start)).2 := by
  rw [zjb_read_syslog] at hrc hdata ⊢
  by_cases halloc : sys.zjb_read_job_dynamic_allocation ≠ 0
  · rw [if_pos halloc] at hdata
    exact absurd rfl hdata
  · rw [if_neg halloc] at hrc hdata ⊢
    dsimp only at hrc hdata ⊢
    generalize zds.zds_read_vsam cs (sys.log (utc_stamp cs sys.tz_offset_cs sys.behind opts))
      opts.max_lines = read at *
    have hread : read.rc = 0 := by
      by_contra hne
      rw [if_neg fun h => hne h.2] at hrc
      exact hne hrc
    by_cases hresponse : read.response = []
    · rw [if_neg fun h => h.2 hresponse] at hdata
      exact absurd hresponse hdata
    · rw [if_pos ⟨hread, hresponse⟩]
      exact ⟨not_not.mp halloc, rfl, rfl⟩

/-- The instants are right if the date is a date with all its digits and the local time is in the
same day in UTC. -/
theorem right_instants_iff (hdate : accepts_date rt.toCharset opts.date = true)
    (htime : accepts_time rt.toCharset opts.time = true)
    (htz : |sys.tz_offset_cs| ≤ 14 * 360000) :
    RightInstants rt.toCharset sys opts (zjb_read_syslog rt.toCharset sys opts) ↔
      (sys.zjb_read_job_dynamic_allocation = 0 →
        SameDay rt.toCharset sys.tz_offset_cs opts) := by
  have hstart : (zjb_read_syslog rt.toCharset sys opts).start =
      utc_stamp rt.toCharset sys.tz_offset_cs sys.behind opts := by
    rw [zjb_read_syslog]
    split_ifs <;> rfl
  have hiff := start_iff hdate htime htz sys.behind
  rw [← hstart] at hiff
  constructor
  · exact fun h halloc => hiff.mp (h.start halloc)
  · intro h
    have hending : ∀ date : Date, 1900 ≤ date.year → date.year < 9999 →
        (sys.last (zjb_read_syslog rt.toCharset sys opts).start).Denotes rt.toCharset date →
        (zjb_read_syslog rt.toCharset sys opts).rc = 0 →
        (zjb_read_syslog rt.toCharset sys opts).response.data ≠ [] →
        Shows rt.toCharset (zjb_read_syslog rt.toCharset sys opts).response.end_date
          (zjb_read_syslog rt.toCharset sys opts).response.end_time
          (instant date (sys.last (zjb_read_syslog rt.toCharset sys opts).start).ts_binary +
            sys.tz_offset_cs) := by
      intro date hyear hlast hdenotes hrc hdata
      obtain ⟨-, hend_date, hend_time⟩ := end_eq hrc hdata
      rw [hend_date, hend_time]
      exact local_form_shows hdenotes hyear hlast htz
    refine ⟨fun halloc => hiff.mpr (h halloc), fun hrc hdata date hyear hlast hdenotes =>
      hending date hyear hlast hdenotes hrc hdata, fun hrc hdata hsame => ?_⟩
    obtain ⟨halloc, -, -⟩ := end_eq hrc hdata
    obtain ⟨hdenotes, hts⟩ := denotes_given hdate sys.behind (h halloc)
    obtain ⟨hfirst, hyear⟩ := given_year hdate
    rw [← hstart] at hdenotes hts
    have hshows := hending _ hfirst (by omega) (hsame.symm ▸ hdenotes) hrc hdata
    have hinstant : instant (given_date rt.toCharset opts.date)
        (sys.last (zjb_read_syslog rt.toCharset sys opts).start).ts_binary + sys.tz_offset_cs =
        instant (given_date rt.toCharset opts.date) (local_cs rt.toCharset opts.time) := by
      rw [hsame, hts, instant, instant]
      omega
    rwa [hinstant] at hshows

end

/-- A system five hours behind UTC, with nothing in its log. -/
def eastern : Syslog where
  zjb_read_job_dynamic_allocation := 0
  zjb_free_job_dynamic_allocation := 0
  log _ := ⟨0, 0, [], RTNCD_WARNING, 0, zds.warning_ne_success⟩
  last start := start
  tz_offset_cs := -5 * 360000
  behind := []

def view_from (time : String) : ZJBSyslogOptions :=
  ⟨ascii.str "2026-03-13", ascii.str time, 100⟩

theorem right_instants_noon :
    RightInstants ascii eastern (view_from "12:01:30")
        (zjb_read_syslog ascii eastern (view_from "12:01:30")) ↔
      (eastern.zjb_read_job_dynamic_allocation = 0 →
        SameDay ascii eastern.tz_offset_cs (view_from "12:01:30")) :=
  @right_instants_iff ascii_runtime eastern (view_from "12:01:30") (by decide +kernel)
    (by decide +kernel) (by decide)

/-- `--date 2026-03-13 --time 22:00:00`, which is three o'clock of the next day in UTC. -/
theorem evening_not_in_day :
    ¬ RightInstants ascii eastern (view_from "22:00:00")
      (zjb_read_syslog ascii eastern (view_from "22:00:00")) := by
  intro h
  obtain ⟨date, hdenotes, -, -⟩ := h.start rfl
  have hstart : (zjb_read_syslog ascii eastern (view_from "22:00:00")).start.ts_binary =
      27 * 360000 := by decide +kernel
  have hwithin := hdenotes.within
  rw [hstart] at hwithin
  exact absurd hwithin (by decide)

end Zowex.zjb

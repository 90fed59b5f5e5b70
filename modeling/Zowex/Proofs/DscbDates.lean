import Zowex.Lib.Gregorian
import Zowex.Spec.Dscb

/-! The dates of a DSCB, against the calendar. The loop over the months asks whether the day is past
the length of a month in a common year, and takes off the length in the year at hand; the two differ
in the February of a leap year, whose last day the loop takes for the day 0 of March. -/

namespace Zowex.dscb

open Gregorian

variable {cs : Charset} {year month day n i r : ℕ}

theorem is_leap_iff : is_leap year ↔ Leap year := by
  simp only [is_leap, Leap, Bool.or_eq_true, Bool.and_eq_true, beq_iff_eq, bne_iff_ne,
    Nat.dvd_iff_mod_eq_zero]
  omega

/-! The loop over the months. -/

/-- What is taken off for a month. -/
def days_this_month (leap : Bool) (entry : ℕ × ℕ) : ℕ :=
  if entry.2 = 1 ∧ leap then 29 else entry.1

theorem month_day_later {leap : Bool} {entry : ℕ × ℕ} {rest : List (ℕ × ℕ)} (h : entry.1 < day) :
    month_day leap (entry :: rest) month day =
      month_day leap rest (month + 1) (day - days_this_month leap entry) := by
  rw [month_day, if_pos h]
  rfl

theorem month_day_here {leap : Bool} {entry : ℕ × ℕ} {rest : List (ℕ × ℕ)} (h : day ≤ entry.1) :
    month_day leap (entry :: rest) month day = (month, day) := by
  rw [month_day, if_neg (Nat.not_lt.mpr h)]

/-- The loop finds the month of a day that is within what its month is tested for. -/
theorem month_day_at {leap : Bool} {table : List (ℕ × ℕ)} {entry : ℕ × ℕ}
    (htable : ∀ entry ∈ table, entry.1 ≤ days_this_month leap entry) (hpos : 0 < day)
    (hat : Segments.At (table.map (days_this_month leap)) (day - 1) i r)
    (hentry : table[i]? = some entry) (hr : r < entry.1) :
    month_day leap table month day = (month + i, r + 1) := by
  induction table generalizing month day i with
  | nil => exact absurd hat Segments.not_at_nil
  | cons first rest ih =>
    rw [List.map_cons] at hat
    rcases i with _ | i
    · obtain ⟨hday, -⟩ := Segments.at_cons_zero.mp hat
      have hfirst : first = entry := by simpa using hentry
      subst hfirst
      rw [month_day_here (by omega)]
      simp only [Nat.add_zero, Prod.mk.injEq, true_and]
      omega
    · obtain ⟨hle, hrest⟩ := Segments.at_cons_succ.mp hat
      have htest := htable first List.mem_cons_self
      rw [month_day_later (by omega)]
      have hsub : day - 1 - days_this_month leap first = day - days_this_month leap first - 1 := by
        omega
      rw [hsub] at hrest
      have hlater := @ih (month + 1) _ _
        (fun entry hmem => htable entry (List.mem_cons_of_mem _ hmem)) (by omega) hrest
        (by simpa using hentry)
      rw [hlater]
      simp only [Prod.mk.injEq, and_true]
      omega

theorem days_this_month_table (year : ℕ) :
    days_in_month.zipIdx.map (days_this_month (is_leap year)) = month_lengths year := by
  by_cases hleap : Leap year
  · simp [days_in_month, month_lengths, days_this_month, hleap, is_leap_iff.mpr hleap]
  · have hcommon : is_leap year = false := by
      rw [Bool.eq_false_iff]
      exact fun h => hleap (is_leap_iff.mp h)
    simp [days_in_month, month_lengths, days_this_month, hleap, hcommon]

theorem table_le (leap : Bool) :
    ∀ entry ∈ days_in_month.zipIdx, entry.1 ≤ days_this_month leap entry := by
  cases leap <;> decide

/-- The last day of the February of a leap year. -/
def LeapDay (year n : ℕ) : Prop :=
  Leap year ∧ n = 60

instance : Decidable (LeapDay year n) :=
  inferInstanceAs (Decidable (_ ∧ _))

/-- On each other day the test of the loop is the one of the month. -/
theorem lt_tested {entry : ℕ × ℕ} (h : OnDay year n month day) (hday : ¬ LeapDay year n)
    (hentry : days_in_month.zipIdx[month - 1]? = some entry) : day - 1 < entry.1 := by
  obtain ⟨length, hlength, hlt, hsum⟩ := h.at_month
  have hsame : days_this_month (is_leap year) entry = length := by
    rw [← days_this_month_table, List.getElem?_map, hentry] at hlength
    simpa using hlength
  have hindex : entry.2 = month - 1 := by
    simp only [List.getElem?_zipIdx, Option.map_eq_some_iff] at hentry
    obtain ⟨_, -, rfl⟩ := hentry
    simp
  by_cases hfebruary : entry.2 = 1 ∧ is_leap year
  · have hmonth : month - 1 = 1 := by omega
    rw [hmonth] at hentry hsum
    have hentry : entry.1 = 28 := by simp [days_in_month] at hentry; simp [← hentry]
    rw [days_this_month, if_pos hfebruary] at hsame
    have hjanuary : ((month_lengths year).take 1).sum = 31 := rfl
    have hn : n ≠ 60 := fun hn => hday ⟨is_leap_iff.mp hfebruary.2, hn⟩
    have hpos := h.n_pos
    omega
  · rw [days_this_month, if_neg hfebruary] at hsame
    omega

theorem month_day_on_day (h : OnDay year n month day) (hday : ¬ LeapDay year n) :
    month_day (is_leap year) days_in_month.zipIdx 1 n = (month, day) := by
  have hmonth := h.month_le
  obtain ⟨entry, hentry⟩ : ∃ entry, days_in_month.zipIdx[month - 1]? = some entry :=
    ⟨_, List.getElem?_eq_getElem (show month - 1 < 12 by have := h.month_pos; omega)⟩
  have hat := h.at_month
  rw [← days_this_month_table] at hat
  rw [month_day_at (table_le _) h.n_pos hat hentry (lt_tested h hday hentry)]
  have hmonth := h.month_pos
  have hday := h.day_pos
  simp only [Prod.mk.injEq]
  omega

theorem month_day_leap_day (h : LeapDay year n) :
    month_day (is_leap year) days_in_month.zipIdx 1 n = (3, 0) := by
  obtain ⟨hleap, rfl⟩ := h
  rw [is_leap_iff.mpr hleap]
  rfl

/-! The text of a date. -/

theorem map_code_inj {text text' : List Char} (h : ∀ c ∈ text, c ∈ printable)
    (h' : ∀ c ∈ text', c ∈ printable) (hsame : text.map cs.code = text'.map cs.code) :
    text = text' := by
  induction text generalizing text' with
  | nil => exact (List.map_eq_nil_iff.mp hsame.symm).symm
  | cons c text ih =>
    rcases text' with _ | ⟨c', text'⟩
    · exact List.map_eq_nil_iff.mp hsame
    · obtain ⟨hcode, hrest⟩ := List.cons.inj hsame
      have hc := List.mem_append_left escapes (h c List.mem_cons_self)
      have hc' := List.mem_append_left escapes (h' c' List.mem_cons_self)
      rw [(cs.code_eq_iff hc hc').mp hcode, ih (fun c hmem => h c (List.mem_cons_of_mem _ hmem))
        (fun c hmem => h' c (List.mem_cons_of_mem _ hmem)) hrest]

/-- The number that digits denote. -/
def digits_value (digits : List Char) : ℕ :=
  digits.foldl (fun value digit => value * 10 + (digit.toNat - 48)) 0

/-- The digits of a number that fits: as many as the width says, and it is their value. -/
structure Fits (width n : ℕ) : Prop where
  length : (padded_digits width n).length = width
  value : digits_value (padded_digits width n) = n
  printable : ∀ c ∈ padded_digits width n, c ∈ printable

theorem mem_padded_digits {width n : ℕ} {c : Char} (hc : c ∈ padded_digits width n) :
    c ∈ "0123456789".toList := by
  rcases List.mem_append.mp hc with hc | hc
  · rw [List.eq_of_mem_replicate hc]
    decide
  · have hdigit := Nat.isDigit_of_mem_toDigits (by decide) (by decide) hc
    have hrange : 48 ≤ c.toNat ∧ c.toNat ≤ 57 := by
      simpa [Char.isDigit, Char.le_def, UInt32.le_iff_toNat_le] using hdigit
    obtain ⟨hlow, hhigh⟩ := hrange
    rw [← Char.ofNat_toNat c]
    interval_cases c.toNat <;> decide

theorem digits_printable : ∀ c ∈ "0123456789".toList, c ∈ printable := by decide

theorem digits_value_eq (digits : List Char) : digits_value digits = Nat.ofDigitChars 10 digits 0 := by
  rw [digits_value, Nat.ofDigitChars]
  congr 1
  funext value digit
  rw [Nat.mul_comm]
  rfl

theorem fits_of_lt {width n : ℕ} (hpos : 0 < width) (h : n < 10 ^ width) : Fits width n where
  length := by
    have hle := (Nat.length_toDigits_le_iff (b := 10) (by decide) hpos).mpr h
    rw [padded_digits, List.length_append, List.length_replicate]
    omega
  value := by
    rw [digits_value_eq, padded_digits, Nat.ofDigitChars_append, Nat.ofDigitChars_replicate_zero,
      Nat.mul_zero, Nat.ofDigitChars_ten_toDigits]
  printable c hc := digits_printable c (mem_padded_digits hc)

theorem fits_two : ∀ n < 100, Fits 2 n := fun _ hn => fits_of_lt (by decide) hn

theorem fits_year : ∀ offset < 256, Fits 4 (1900 + offset) := fun _ hoffset =>
  fits_of_lt (by decide) (by omega)

theorem Fits.inj {width n n' : ℕ} (h : Fits width n) (h' : Fits width n') {rest rest' : List Char}
    (hsame : padded_digits width n ++ rest = padded_digits width n' ++ rest') :
    n = n' ∧ rest = rest' := by
  obtain ⟨hdigits, hrest⟩ := List.append_inj hsame (h.length.trans h'.length.symm)
  exact ⟨by rw [← h.value, hdigits, h'.value], hrest⟩

theorem date_chars_printable (hyear : Fits 4 year) (hmonth : Fits 2 month) (hday : Fits 2 day) :
    ∀ c ∈ date_chars year month day, c ∈ printable := by
  have hslash : '/' ∈ printable := by decide
  intro c hc
  simp only [date_chars, List.mem_append, List.mem_cons] at hc
  rcases hc with hc | rfl | hc | rfl | hc
  · exact hyear.printable c hc
  · exact hslash
  · exact hmonth.printable c hc
  · exact hslash
  · exact hday.printable c hc

theorem date_chars_inj {year' month' day' : ℕ} (hyear : Fits 4 year) (hmonth : Fits 2 month)
    (hday : Fits 2 day) (hyear' : Fits 4 year') (hmonth' : Fits 2 month') (hday' : Fits 2 day')
    (hsame : date_chars year month day = date_chars year' month' day') :
    year = year' ∧ month = month' ∧ day = day' := by
  obtain ⟨hyears, hrest⟩ := hyear.inj hyear' hsame
  obtain ⟨hmonths, hrest⟩ := hmonth.inj hmonth' (List.cons.inj hrest).2
  have hdays := @Fits.inj 2 day day' hday hday' [] [] (by
    simpa using (List.cons.inj hrest).2)
  exact ⟨hyears, hmonths, hdays.1⟩

/-! The dates of the days of a year. -/

/-- The field that holds a day. -/
def day_field (year_offset : UInt8) (n : ℕ) : DateField :=
  ⟨year_offset, UInt8.ofNat (n / 256), UInt8.ofNat n⟩

def InYear (year_offset : UInt8) (n : ℕ) : Prop :=
  0 < n ∧ n ≤ year_length (1900 + year_offset.toNat)

theorem InYear.lt {year_offset : UInt8} (h : InYear year_offset n) : n < 367 := by
  have hle := h.2
  rw [year_length] at hle
  by_cases hleap : Leap (1900 + year_offset.toNat)
  · rw [if_pos hleap] at hle
    omega
  · rw [if_neg hleap] at hle
    omega

/-- The last of December 1999 where it is the date of expiration. -/
def Sentinel (is_expiration_date : Bool) (year_offset : UInt8) (n : ℕ) : Prop :=
  is_expiration_date ∧ year_offset = 99 ∧ n = 365

/-- The calendar date of the day is what is read. -/
def ReadsDate (cs : Charset) (is_expiration_date : Bool) (year_offset : UInt8) (n : ℕ) : Prop :=
  ∀ month day, OnDay (1900 + year_offset.toNat) n month day →
    load_date_from_dscb cs (day_field year_offset n) is_expiration_date =
      (date_chars (1900 + year_offset.toNat) month day).map cs.code

variable {year_offset : UInt8} {is_expiration_date : Bool}

theorem day_of_year_eq (hn : n < 65536) :
    (day_field year_offset n).day_high.toNat <<< 8 ||| (day_field year_offset n).day_low.toNat =
      n := by
  have hhigh : (UInt8.ofNat (n / 256)).toNat = n / 256 := by
    rw [UInt8.toNat_ofNat']
    omega
  have hlow : (UInt8.ofNat n).toNat = n % 256 := by
    rw [UInt8.toNat_ofNat']
  simp only [day_field, hhigh, hlow]
  rw [← Nat.shiftLeft_add_eq_or_of_lt (show n % 256 < 2 ^ 8 by omega), Nat.shiftLeft_eq]
  omega

theorem day_field_ne_zero (h : InYear year_offset n) :
    ¬ ((day_field year_offset n).year_offset = 0 ∧ (day_field year_offset n).day_high = 0 ∧
      (day_field year_offset n).day_low = 0) := by
  rintro ⟨-, hhigh, hlow⟩
  have hn := @day_of_year_eq n year_offset (by have := h.lt; omega)
  rw [hhigh, hlow] at hn
  have hpos := h.1
  simp at hn
  omega

theorem load_date_sentinel (h : InYear year_offset n)
    (hsentinel : Sentinel is_expiration_date year_offset n) :
    load_date_from_dscb cs (day_field year_offset n) is_expiration_date = [] := by
  obtain ⟨hflag, rfl, rfl⟩ := hsentinel
  rw [load_date_from_dscb, if_neg (day_field_ne_zero h)]
  dsimp only
  rw [if_pos ⟨hflag, rfl, rfl⟩]

/-- Any other day is read by the loop over the months. -/
theorem load_date_eq (h : InYear year_offset n)
    (hsentinel : ¬ Sentinel is_expiration_date year_offset n) :
    load_date_from_dscb cs (day_field year_offset n) is_expiration_date =
      (date_chars (1900 + year_offset.toNat)
        (month_day (is_leap (1900 + year_offset.toNat)) days_in_month.zipIdx 1 n).1
        (month_day (is_leap (1900 + year_offset.toNat)) days_in_month.zipIdx 1 n).2).map
        cs.code := by
  have hn := @day_of_year_eq n year_offset (by have := h.lt; omega)
  rw [load_date_from_dscb, if_neg (day_field_ne_zero h)]
  dsimp only
  rw [hn, if_neg]
  · rfl
  · rintro ⟨hflag, hyear, hday⟩
    refine hsentinel ⟨hflag, ?_, hday⟩
    apply UInt8.toNat_inj.mp
    have hoffset : (day_field year_offset n).year_offset = year_offset := rfl
    rw [hoffset] at hyear
    rw [show (99 : UInt8).toNat = 99 from rfl]
    omega

theorem fits_on_day (h : OnDay (1900 + year_offset.toNat) n month day) :
    Fits 4 (1900 + year_offset.toNat) ∧ Fits 2 month ∧ Fits 2 day := by
  have hmonth := h.month_le
  have hday := h.day_le
  exact ⟨fits_year _ year_offset.toNat_lt, fits_two month (by omega), fits_two day (by omega)⟩

theorem reads_date_iff (h : InYear year_offset n) :
    ReadsDate cs is_expiration_date year_offset n ↔
      ¬ LeapDay (1900 + year_offset.toNat) n ∧ ¬ Sentinel is_expiration_date year_offset n := by
  obtain ⟨month, day, hdate⟩ := exists_on_day h.1 h.2
  have hfits := fits_on_day hdate
  constructor
  · intro hreads
    have htext := hreads month day hdate
    by_cases hsentinel : Sentinel is_expiration_date year_offset n
    · rw [load_date_sentinel h hsentinel] at htext
      have hlength := congrArg List.length htext
      simp [date_chars] at hlength
    · refine ⟨fun hleap => ?_, hsentinel⟩
      rw [load_date_eq h hsentinel, month_day_leap_day hleap] at htext
      have hzero := fits_two 0 (by omega)
      have hthree := fits_two 3 (by omega)
      have hsame := date_chars_inj hfits.1 hthree hzero hfits.1 hfits.2.1 hfits.2.2
        (map_code_inj (date_chars_printable hfits.1 hthree hzero)
          (date_chars_printable hfits.1 hfits.2.1 hfits.2.2) htext)
      have hpos := hdate.day_pos
      omega
  · rintro ⟨hleap, hsentinel⟩ month day hdate
    rw [load_date_eq h hsentinel, month_day_on_day hdate hleap]

theorem dates_before {year_offset' : UInt8} {n' month' day' : ℕ}
    (hdate : OnDay (1900 + year_offset.toNat) n month day)
    (hdate' : OnDay (1900 + year_offset'.toNat) n' month' day')
    (hlt : year_offset < year_offset' ∨ year_offset = year_offset' ∧ n < n') :
    Before (1900 + year_offset.toNat, month, day) (1900 + year_offset'.toNat, month', day') := by
  rcases hlt with hyear | ⟨rfl, hday⟩
  · have hyears := UInt8.lt_iff_toNat_lt.mp hyear
    exact .inl (by dsimp only; omega)
  · exact .inr ⟨rfl, hdate.lex hdate' hday⟩

/-- Each day of each year is read as its date, the last day of February of a leap year and the
sentinel apart; and of two days read so the later one is read as the later date, and as another
text. -/
theorem calendar_dates_iff (cs : Charset) :
    (∀ is_expiration_date year_offset n, InYear year_offset n →
      (ReadsDate cs is_expiration_date year_offset n ↔
        ¬ LeapDay (1900 + year_offset.toNat) n ∧
          ¬ Sentinel is_expiration_date year_offset n)) ∧
    ∀ is_expiration_date year_offset n year_offset' n', InYear year_offset n →
      InYear year_offset' n' → ReadsDate cs is_expiration_date year_offset n →
      ReadsDate cs is_expiration_date year_offset' n' →
      year_offset < year_offset' ∨ year_offset = year_offset' ∧ n < n' →
      load_date_from_dscb cs (day_field year_offset n) is_expiration_date ≠
        load_date_from_dscb cs (day_field year_offset' n') is_expiration_date ∧
      ∀ month day month' day', OnDay (1900 + year_offset.toNat) n month day →
        OnDay (1900 + year_offset'.toNat) n' month' day' →
        Before (1900 + year_offset.toNat, month, day)
          (1900 + year_offset'.toNat, month', day') := by
  refine ⟨fun _ _ _ h => reads_date_iff h, ?_⟩
  intro is_expiration_date year_offset n year_offset' n' h h' hreads hreads' hlt
  refine ⟨fun hsame => ?_, fun _ _ _ _ hdate hdate' => dates_before hdate hdate' hlt⟩
  obtain ⟨month, day, hdate⟩ := exists_on_day h.1 h.2
  obtain ⟨month', day', hdate'⟩ := exists_on_day h'.1 h'.2
  have hbefore := dates_before hdate hdate' hlt
  have hfits := fits_on_day hdate
  have hfits' := fits_on_day hdate'
  rw [hreads month day hdate, hreads' month' day' hdate'] at hsame
  have hequal := date_chars_inj hfits.1 hfits.2.1 hfits.2.2 hfits'.1 hfits'.2.1 hfits'.2.2
    (map_code_inj (date_chars_printable hfits.1 hfits.2.1 hfits.2.2)
      (date_chars_printable hfits'.1 hfits'.2.1 hfits'.2.2) hsame)
  simp only [Before] at hbefore
  omega

/-- The last day of the February of 2024. -/
theorem leap_day_in_march :
    load_date_from_dscb ascii (day_field 124 60) false = ascii.str "2024/03/00" ∧
      InYear 124 60 ∧ ¬ ReadsDate ascii false 124 60 := by
  have htext : load_date_from_dscb ascii (day_field 124 60) false = ascii.str "2024/03/00" := by
    decide +kernel
  refine ⟨htext, ⟨by omega, by decide⟩, fun hreads => ?_⟩
  have hdate : OnDay 2024 60 2 29 := ⟨by omega, by omega, by omega, 29, rfl, by omega, rfl⟩
  have hsame := hreads 2 29 hdate
  rw [htext] at hsame
  revert hsame
  decide +kernel

end Zowex.dscb

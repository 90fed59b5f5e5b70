import Zowex.Lib.Segments

/-! The Gregorian calendar: the months of a year laid end to end, and the date of the day of a given
number, the first of January being the day 1. -/

namespace Gregorian

def Leap (year : ℕ) : Prop :=
  4 ∣ year ∧ (100 ∣ year → 400 ∣ year)

instance (year : ℕ) : Decidable (Leap year) :=
  inferInstanceAs (Decidable (_ ∧ (_ → _)))

def month_lengths (year : ℕ) : List ℕ :=
  [31, if Leap year then 29 else 28, 31, 30, 31, 30, 31, 31, 30, 31, 30, 31]

def year_length (year : ℕ) : ℕ :=
  if Leap year then 366 else 365

/-- The day of the number `n` of the year is the day `day` of the month `month`. -/
structure OnDay (year n month day : ℕ) : Prop where
  n_pos : 0 < n
  month_pos : 0 < month
  day_pos : 0 < day
  at_month : Segments.At (month_lengths year) (n - 1) (month - 1) (day - 1)

/-- Earlier in the calendar. -/
def Before (date date' : ℕ × ℕ × ℕ) : Prop :=
  date.1 < date'.1 ∨ date.1 = date'.1 ∧
    (date.2.1 < date'.2.1 ∨ date.2.1 = date'.2.1 ∧ date.2.2 < date'.2.2)

variable {year n n' month month' day day' : ℕ}

theorem sum_month_lengths (year : ℕ) : (month_lengths year).sum = year_length year := by
  by_cases hleap : Leap year <;> simp [month_lengths, year_length, hleap]

theorem length_month_lengths (year : ℕ) : (month_lengths year).length = 12 := rfl

theorem month_length_le {length : ℕ} (h : length ∈ month_lengths year) : length ≤ 31 := by
  by_cases hleap : Leap year <;> simp [month_lengths, hleap] at h <;> omega

theorem exists_on_day (hpos : 0 < n) (hle : n ≤ year_length year) :
    ∃ month day, OnDay year n month day := by
  have hlt : n - 1 < (month_lengths year).sum := by
    rw [sum_month_lengths]
    omega
  obtain ⟨month, day, hat⟩ := Segments.exists_at hlt
  exact ⟨month + 1, day + 1, hpos, Nat.succ_pos _, Nat.succ_pos _, hat⟩

theorem OnDay.unique (h : OnDay year n month day) (h' : OnDay year n month' day') :
    month = month' ∧ day = day' := by
  have hsame := h.at_month.unique h'.at_month
  have hmonth := h.month_pos
  have hmonth' := h'.month_pos
  have hday := h.day_pos
  have hday' := h'.day_pos
  omega

theorem OnDay.lex (h : OnDay year n month day) (h' : OnDay year n' month' day') (hlt : n < n') :
    month < month' ∨ month = month' ∧ day < day' := by
  have hpos := h.n_pos
  have hlater := h.at_month.lex h'.at_month (by omega)
  have hmonth := h.month_pos
  have hmonth' := h'.month_pos
  have hday := h.day_pos
  have hday' := h'.day_pos
  omega

theorem OnDay.month_le (h : OnDay year n month day) : month ≤ 12 := by
  obtain ⟨_, hlength, -, -⟩ := h.at_month
  have hlt := (List.getElem?_eq_some_iff.mp hlength).1
  rw [length_month_lengths] at hlt
  omega

theorem OnDay.day_le (h : OnDay year n month day) : day ≤ 31 := by
  obtain ⟨_, hlength, hlt, -⟩ := h.at_month
  have hle := month_length_le (List.mem_of_getElem? hlength)
  omega

/-! Dates, numbered through all years. -/

structure Date where
  year : ℕ
  month : ℕ
  day : ℕ
  deriving DecidableEq

def month_length (year month : ℕ) : ℕ := (month_lengths year).getD (month - 1) 0

/-- The date is one of the calendar. -/
structure Date.Exists (date : Date) : Prop where
  month_pos : 0 < date.month
  month_le : date.month ≤ 12
  day_pos : 0 < date.day
  day_le : date.day ≤ month_length date.year date.month

theorem Date.exists_iff (date : Date) : date.Exists ↔ 0 < date.month ∧ date.month ≤ 12 ∧
    0 < date.day ∧ date.day ≤ month_length date.year date.month :=
  ⟨fun h => ⟨h.month_pos, h.month_le, h.day_pos, h.day_le⟩, fun h => ⟨h.1, h.2.1, h.2.2.1, h.2.2.2⟩⟩

instance (date : Date) : Decidable date.Exists := decidable_of_iff' _ date.exists_iff

def days_before : ℕ → ℕ
  | 0 => 0
  | year + 1 => days_before year + year_length year

def Date.day_of_year (date : Date) : ℕ :=
  ((month_lengths date.year).take (date.month - 1)).sum + date.day

def Date.number (date : Date) : ℕ := days_before date.year + date.day_of_year

def Date.next (date : Date) : Date :=
  if date.day < month_length date.year date.month then ⟨date.year, date.month, date.day + 1⟩
  else if date.month < 12 then ⟨date.year, date.month + 1, 1⟩
  else ⟨date.year + 1, 1, 1⟩

def Date.previous (date : Date) : Date :=
  if 1 < date.day then ⟨date.year, date.month, date.day - 1⟩
  else if 1 < date.month then
    ⟨date.year, date.month - 1, month_length date.year (date.month - 1)⟩
  else ⟨date.year - 1, 12, 31⟩

/-- So many days later, or earlier. -/
def Date.shift (date : Date) : ℤ → Date
  | .ofNat n => Date.next^[n] date
  | .negSucc n => Date.previous^[n + 1] date

variable {date date' : Date}

theorem getElem?_month_length (hpos : 0 < month) (hle : month ≤ 12) :
    (month_lengths year)[month - 1]? = some (month_length year month) := by
  have hlt : month - 1 < (month_lengths year).length := by
    rw [length_month_lengths]
    omega
  rw [month_length, List.getD_eq_getElem?_getD, List.getElem?_eq_getElem hlt, Option.getD_some]

theorem month_length_pos (hpos : 0 < month) (hle : month ≤ 12) : 0 < month_length year month := by
  have hall : ∀ length ∈ month_lengths year, 0 < length := by
    by_cases hleap : Leap year <;> simp [month_lengths, hleap]
  exact hall _ (List.mem_of_getElem? (getElem?_month_length hpos hle))

theorem one_le_month : 1 ≤ 12 := by decide

theorem month_length_december : month_length year 12 = 31 := rfl

theorem Date.Exists.on_day (h : date.Exists) :
    OnDay date.year date.day_of_year date.month date.day where
  n_pos := by
    have hday := h.day_pos
    rw [Date.day_of_year]
    omega
  month_pos := h.month_pos
  day_pos := h.day_pos
  at_month := by
    have hday := h.day_pos
    have hle := h.day_le
    refine ⟨_, getElem?_month_length h.month_pos h.month_le, by omega, ?_⟩
    rw [Date.day_of_year]
    omega

theorem Date.Exists.day_of_year_le (h : date.Exists) : date.day_of_year ≤ year_length date.year := by
  have hlt := h.on_day.at_month.lt_sum
  rw [sum_month_lengths] at hlt
  omega

theorem days_before_mono {year' : ℕ} (h : year ≤ year') : days_before year ≤ days_before year' := by
  induction h with
  | refl => exact le_rfl
  | step _ ih => exact ih.trans (Nat.le_add_right _ _)

theorem year_le_of_number_le (h : date.Exists) (h' : date'.Exists)
    (hnumber : date.number ≤ date'.number) : date.year ≤ date'.year := by
  by_contra hlater
  have hmono := days_before_mono (show date'.year + 1 ≤ date.year by omega)
  have hle := h'.day_of_year_le
  have hpos := h.on_day.n_pos
  rw [days_before] at hmono
  rw [Date.number, Date.number] at hnumber
  omega

/-- No two dates have one number. -/
theorem Date.Exists.eq_of_number (h : date.Exists) (h' : date'.Exists)
    (hnumber : date.number = date'.number) : date = date' := by
  have hyear : date.year = date'.year :=
    le_antisymm (year_le_of_number_le h h' hnumber.le) (year_le_of_number_le h' h hnumber.ge)
  have hday : date.day_of_year = date'.day_of_year := by
    rw [Date.number, Date.number, hyear] at hnumber
    omega
  have hon := h.on_day
  rw [hyear, hday] at hon
  obtain ⟨hmonth, hday⟩ := hon.unique h'.on_day
  cases date
  cases date'
  simp_all

theorem sum_take_month (hpos : 0 < month) (hle : month ≤ 12) :
    ((month_lengths year).take month).sum =
      ((month_lengths year).take (month - 1)).sum + month_length year month := by
  obtain ⟨i, rfl⟩ : ∃ i, month = i + 1 := ⟨month - 1, by omega⟩
  have hlength : (month_lengths year)[i]? = some (month_length year (i + 1)) :=
    getElem?_month_length hpos hle
  rw [List.take_add_one, hlength, List.sum_append]
  simp

theorem Date.next_exists (h : date.Exists) : date.next.Exists := by
  have hmonth := h.month_pos
  rw [Date.next]
  split_ifs with hday hlast
  · exact ⟨h.month_pos, h.month_le, Nat.succ_pos _, hday⟩
  · exact ⟨Nat.succ_pos _, hlast, Nat.one_pos, month_length_pos (Nat.succ_pos _) hlast⟩
  · exact ⟨Nat.one_pos, one_le_month, Nat.one_pos, month_length_pos Nat.one_pos one_le_month⟩

theorem Date.number_next (h : date.Exists) : date.next.number = date.number + 1 := by
  have hday := h.day_le
  have htake := @sum_take_month date.year date.month h.month_pos h.month_le
  rw [Date.next]
  split_ifs with hlater hlast
  · rfl
  · simp only [Date.number, Date.day_of_year, Nat.add_sub_cancel]
    omega
  · obtain hmonth : date.month = 12 := le_antisymm h.month_le (not_lt.mp hlast)
    rw [hmonth] at htake hlater hday
    have hyear : ((month_lengths date.year).take 12).sum = year_length date.year :=
      sum_month_lengths date.year
    simp only [Date.number, Date.day_of_year, days_before, hmonth] at htake ⊢
    simp only [Nat.reduceSub, List.take_zero, List.sum_nil] at htake ⊢
    omega

theorem Date.previous_exists (h : date.Exists) : date.previous.Exists := by
  have hmonth := h.month_le
  rw [Date.previous]
  split_ifs with hday hfirst
  · refine ⟨h.month_pos, h.month_le, ?_, ?_⟩
    · dsimp only
      omega
    · exact (Nat.sub_le _ _).trans h.day_le
  · have hpos : 0 < date.month - 1 := by omega
    have hle : date.month - 1 ≤ 12 := by omega
    exact ⟨hpos, hle, month_length_pos hpos hle, le_rfl⟩
  · exact ⟨Nat.succ_pos 11, le_rfl, Nat.succ_pos 30, month_length_december.ge⟩

theorem Date.number_previous (h : date.Exists) (hyear : 0 < date.year) :
    date.previous.number + 1 = date.number := by
  have hday := h.day_pos
  rw [Date.previous]
  split_ifs with hlater hfirst
  · simp only [Date.number, Date.day_of_year]
    omega
  · have htake := @sum_take_month date.year (date.month - 1) (by omega)
      ((Nat.sub_le _ _).trans h.month_le)
    simp only [Date.number, Date.day_of_year]
    omega
  · have hmonth : date.month = 1 := by
      have hpos := h.month_pos
      omega
    obtain ⟨year, hprevious⟩ : ∃ year, date.year = year + 1 := ⟨date.year - 1, by omega⟩
    have htake := @sum_take_month year 12 (by decide) (by decide)
    have hsum : ((month_lengths year).take 12).sum = year_length year := sum_month_lengths year
    rw [month_length_december] at htake
    simp only [Date.number, Date.day_of_year, hprevious, hmonth, days_before]
    simp only [Nat.reduceSub, List.take_zero, List.sum_nil, Nat.add_sub_cancel] at htake ⊢
    omega

end Gregorian

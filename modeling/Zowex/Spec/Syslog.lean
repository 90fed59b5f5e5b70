import Zowex.Lib.Gregorian
import Zowex.Spec.Dscb
import Zowex.Spec.FromStr
import Zowex.Spec.Jobs

/-! The system log: the records that `zds_read_vsam` reads from a point in time on, and the point as
`zjb_read_syslog` gives it, in UTC for a date and a time that are local. -/

namespace Zowex.zds

open zjb

/-- The calls that touch the data set. -/
inductive VsamCall
  | ZDSOIVSM
  | ZDSPIVSM
  | ZDSRIVSM
  | ZDSCIVSM
  deriving DecidableEq

theorem warning_ne_success : RTNCD_WARNING ≠ RTNCD_SUCCESS := by decide

/-- The data set of a log. Each record is as much of the buffer as `acblrecl` says. -/
structure Log where
  ZDSOIVSM : ℤ
  ZDSPIVSM : ℤ
  /-- The records from the start point on. -/
  records : List Bytes
  /-- What a read gives behind the last of them: `RTNCD_WARNING` where the data end there. -/
  ending : ℤ
  ZDSCIVSM : ℤ
  ending_ne : ending ≠ RTNCD_SUCCESS

/-- What is left in `ZDS` and in the response. -/
structure VsamRead where
  rc : ℤ
  response : Bytes
  returned_lines : ℤ
  has_more : Bool
  calls : List VsamCall

structure ReadLoop where
  response : Bytes := []
  lines_read : ℤ := 0
  has_more : Bool := false
  /-- The return code of a read that failed. -/
  failed : Option ℤ := none
  calls : List VsamCall := []

variable (cs : Charset)

/-- The `while` loop, before which `state` was read. -/
def read_loop (max_lines ending : ℤ) : List Bytes → ReadLoop → ReadLoop
  | [], state =>
    let state := { state with calls := state.calls ++ [.ZDSRIVSM] }
    if ending = RTNCD_WARNING then state else { state with failed := some ending }
  | record :: records, state =>
    let state := { state with
      response := state.response ++ record ++ [cs.code '\n']
      lines_read := state.lines_read + 1
      calls := state.calls ++ [.ZDSRIVSM] }
    if state.lines_read ≥ max_lines then { state with has_more := true }
    else read_loop max_lines ending records state

def zds_read_vsam (log : Log) (max_lines : ℤ) : VsamRead :=
  if log.ZDSOIVSM ≠ RTNCD_SUCCESS then ⟨log.ZDSOIVSM, [], 0, false, [.ZDSOIVSM]⟩
  else if log.ZDSPIVSM ≠ RTNCD_SUCCESS then
    ⟨log.ZDSPIVSM, [], 0, false, [.ZDSOIVSM, .ZDSPIVSM, .ZDSCIVSM]⟩
  else
    let state := read_loop cs max_lines log.ending log.records
      { calls := [.ZDSOIVSM, .ZDSPIVSM] }
    match state.failed with
    | none => ⟨log.ZDSCIVSM, state.response, state.lines_read, state.has_more,
        state.calls ++ [.ZDSCIVSM]⟩
    | some rc => ⟨rc, state.response, 0, state.has_more, state.calls ++ [.ZDSCIVSM]⟩

/-! What is to be read. -/

/-- Records, one on each line. -/
def lines (records : List Bytes) : Bytes := records.flatMap fun record => record ++ [cs.code '\n']

/-- The first records up to the limit, their number, and whether there are more; and a data set
that was opened has been closed once. -/
structure PagesExactly (log : Log) (max_lines : ℕ) (read : VsamRead) : Prop where
  closed : log.ZDSOIVSM = RTNCD_SUCCESS → read.calls.count .ZDSCIVSM = 1
  page : log.ZDSOIVSM = RTNCD_SUCCESS → log.ZDSPIVSM = RTNCD_SUCCESS →
    log.ending = RTNCD_WARNING →
    read.response = lines cs (log.records.take max_lines) ∧
      read.returned_lines = (min max_lines log.records.length : ℕ) ∧
      (read.has_more = true ↔ max_lines < log.records.length)

end Zowex.zds

namespace Zowex.zjb

open Gregorian zds dscb

variable (cs : Charset)

/-! `sscanf`. -/

/-- A number of at most so many characters, and the text behind it. -/
def scan_number (width : ℕ) (text : Bytes) : Option (ℤ × Bytes) :=
  let text := text.dropWhile cs.isspace
  let (sign, negative) := zjson.strtoul_sign cs text
  let digits := ((text.take width).drop sign).takeWhile (zjson.is_dec_digit cs)
  let magnitude : ℕ := digits.foldl (fun acc c => acc * 10 + (cs.hex_digit c).getD 0) 0
  if digits = [] then none
  else some (if negative then -magnitude else magnitude, text.drop (sign + digits.length))

/-- Numbers with a character between any two of them, as far as they are there. -/
def scan_separated : List Char → Bytes → List ℤ
  | [], text => ((scan_number cs text.length text).map Prod.fst).toList
  | separator :: separators, text =>
    match scan_number cs text.length text with
    | none => []
    | some (n, rest) =>
      n :: if rest.head? = some (cs.code separator) then scan_separated separators rest.tail else []

/-- Numbers of so many characters each. -/
def scan_widths : List ℕ → Bytes → List ℤ
  | [], _ => []
  | width :: widths, text =>
    match scan_number cs width text with
    | none => []
    | some (n, rest) => n :: scan_widths widths rest

def scan_time (time : Bytes) : List ℤ := scan_separated cs [':', ':', '.'] time

def scan_date (date : Bytes) : List ℤ := scan_separated cs ['-', '-'] date

/-! What the command lets through. -/

def accepts_time (time : Bytes) : Bool :=
  time.count (cs.code ':') = 2 && decide (time.count (cs.code '.') ≤ 1) &&
    match scan_time cs time with
    | [hh, mm, ss] => decide (0 ≤ hh ∧ hh ≤ 23 ∧ 0 ≤ mm ∧ mm ≤ 59 ∧ 0 ≤ ss ∧ ss ≤ 59)
    | _ => false

def accepts_date (date : Bytes) : Bool :=
  match scan_date cs date with
  | [yyyy, mm, dd] =>
    decide (1900 ≤ yyyy ∧ yyyy ≤ 2185 ∧ 1 ≤ mm ∧ mm ≤ 12 ∧ 1 ≤ dd ∧ dd ≤ 31)
  | _ => false

/-! A time of day is in hundredths of a second. -/

def CS_PER_DAY : ℤ := 24 * 360000

/-- The fields of `ZDS` that a point in the log is in. -/
structure Stamp where
  ebcdic_date : Bytes
  ts_binary : ℤ
  deriving DecidableEq

structure ZJBSyslogOptions where
  date : Bytes
  time : Bytes
  max_lines : ℤ

def local_cs (time : Bytes) : ℤ :=
  let fields := scan_time cs time
  fields.getD 0 0 * 360000 + fields.getD 1 0 * 6000 + fields.getD 2 0 * 100 + fields.getD 3 0

/-- The point in UTC. What lies behind the compact date in storage is not known. -/
def utc_stamp (tz_offset_cs : ℤ) (behind : Bytes) (opts : ZJBSyslogOptions) : Stamp where
  ebcdic_date := (opts.date.filter (· ≠ cs.code '-') ++ 0 :: behind).take 8
  ts_binary := (local_cs cs opts.time - tz_offset_cs) % 2 ^ 32

/-- The first of the two loops that bring a time into its day. -/
def raise_day (local_cs day_shift : ℤ) : ℤ × ℤ :=
  if local_cs < 0 then raise_day (local_cs + CS_PER_DAY) (day_shift - 1) else (local_cs, day_shift)
termination_by (-local_cs).toNat
decreasing_by
  rw [CS_PER_DAY]
  omega

def lower_day (local_cs day_shift : ℤ) : ℤ × ℤ :=
  if local_cs ≥ CS_PER_DAY then lower_day (local_cs - CS_PER_DAY) (day_shift + 1)
  else (local_cs, day_shift)
termination_by local_cs.toNat
decreasing_by
  simp only [CS_PER_DAY] at *
  omega

def date_text (date : Date) : Bytes :=
  (padded_digits 4 date.year ++ '-' :: (padded_digits 2 date.month ++
    '-' :: padded_digits 2 date.day)).map cs.code

def time_text (hh mm ss : ℕ) : Bytes :=
  (padded_digits 2 hh ++ ':' :: (padded_digits 2 mm ++ ':' :: padded_digits 2 ss)).map cs.code

/-- `mktime` goes on to other months and years with the day. -/
def shifted_date (ebcdic_date : Bytes) (day_shift : ℤ) : Date :=
  let fields := scan_widths cs [4, 2, 2] ebcdic_date
  (⟨(fields.getD 0 0).toNat, (fields.getD 1 0).toNat, (fields.getD 2 0).toNat⟩ : Date).shift
    day_shift

/-- The local form of a point in UTC. -/
def local_form (tz_offset_cs : ℤ) (stamp : Stamp) : Bytes × Bytes :=
  let (local_cs, day_shift) := raise_day (stamp.ts_binary + tz_offset_cs) 0
  let (local_cs, day_shift) := lower_day local_cs day_shift
  let end_date :=
    if day_shift ≠ 0 then (date_text cs (shifted_date cs stamp.ebcdic_date day_shift)).take 10
    else stamp.ebcdic_date.take 4 ++ [cs.code '-'] ++ (stamp.ebcdic_date.drop 4).take 2 ++
      [cs.code '-'] ++ (stamp.ebcdic_date.drop 6).take 2
  (end_date, time_text cs (local_cs / 360000).toNat (local_cs / 6000 % 60).toNat
    (local_cs / 100 % 60).toNat)

/-- The services below the reading of the log. -/
structure Syslog where
  zjb_read_job_dynamic_allocation : ℤ
  zjb_free_job_dynamic_allocation : ℤ
  /-- The log from a point on. -/
  log : Stamp → Log
  /-- The point of the last record that was read. -/
  last : Stamp → Stamp
  /-- `cvttz`, in hundredths of a second. -/
  tz_offset_cs : ℤ
  behind : Bytes

structure ZJBSyslogResponse where
  data : Bytes := []
  end_date : Bytes := []
  end_time : Bytes := []
  returned_lines : ℤ := 0
  has_more : Bool := false

structure SyslogRun where
  rc : ℤ
  /-- The point that `zds_read_vsam` is called with. -/
  start : Stamp
  response : ZJBSyslogResponse

def zjb_read_syslog (sys : Syslog) (opts : ZJBSyslogOptions) : SyslogRun :=
  let start := utc_stamp cs sys.tz_offset_cs sys.behind opts
  if sys.zjb_read_job_dynamic_allocation ≠ 0 then ⟨sys.zjb_read_job_dynamic_allocation, start, {}⟩
  else
    let read := zds_read_vsam cs (sys.log start) opts.max_lines
    let response : ZJBSyslogResponse :=
      { data := read.response, returned_lines := read.returned_lines, has_more := read.has_more }
    let response :=
      if read.rc = 0 ∧ read.response ≠ [] then
        let (end_date, end_time) := local_form cs sys.tz_offset_cs (sys.last start)
        { response with end_date := end_date, end_time := end_time }
      else response
    let newrc := sys.zjb_free_job_dynamic_allocation
    ⟨if newrc ≠ 0 ∧ read.rc = 0 then newrc else read.rc, start, response⟩

/-! Instants. -/

/-- A point in time as its day and its time of day. -/
def instant (date : Date) (time : ℤ) : ℤ := date.number * CS_PER_DAY + time

/-- The eight digits of a date. -/
def compact_date (date : Date) : Bytes :=
  (padded_digits 4 date.year ++ padded_digits 2 date.month ++ padded_digits 2 date.day).map cs.code

/-- A date of the calendar and a time within its day. -/
structure Stamp.Denotes (stamp : Stamp) (date : Date) : Prop where
  exists_date : date.Exists
  ebcdic_date : stamp.ebcdic_date = compact_date cs date
  nonneg : 0 ≤ stamp.ts_binary
  within : stamp.ts_binary < CS_PER_DAY

/-- The texts are those of the second that an instant is in. -/
def Shows (end_date end_time : Bytes) (at_cs : ℤ) : Prop :=
  ∃ (date : Date) (hh mm ss : ℕ), date.Exists ∧ hh < 24 ∧ mm < 60 ∧ ss < 60 ∧
    end_date = date_text cs date ∧ end_time = time_text cs hh mm ss ∧
    instant date ((hh * 3600 + mm * 60 + ss : ℕ) * 100) ≤ at_cs ∧
    at_cs < instant date ((hh * 3600 + mm * 60 + ss : ℕ) * 100) + 100

/-- The date that a text denotes. -/
def given_date (date : Bytes) : Date :=
  let fields := scan_date cs date
  ⟨(fields.getD 0 0).toNat, (fields.getD 1 0).toNat, (fields.getD 2 0).toNat⟩

/-- The log is read from the instant that was given, and the end is told in local time. -/
structure RightInstants (sys : Syslog) (opts : ZJBSyslogOptions) (run : SyslogRun) : Prop where
  start : sys.zjb_read_job_dynamic_allocation = 0 → ∃ date, run.start.Denotes cs date ∧
    (given_date cs opts.date).Exists ∧ instant date run.start.ts_binary + sys.tz_offset_cs =
      instant (given_date cs opts.date) (local_cs cs opts.time)
  ending : run.rc = 0 → run.response.data ≠ [] → ∀ date : Date, 1900 ≤ date.year →
    date.year < 9999 → (sys.last run.start).Denotes cs date →
    Shows cs run.response.end_date run.response.end_time
      (instant date (sys.last run.start).ts_binary + sys.tz_offset_cs)
  back : run.rc = 0 → run.response.data ≠ [] → sys.last run.start = run.start →
    Shows cs run.response.end_date run.response.end_time
      (instant (given_date cs opts.date) (local_cs cs opts.time))

/-- The date is one of the calendar, written with all its digits, and its day is the same in UTC. -/
structure SameDay (tz_offset_cs : ℤ) (opts : ZJBSyslogOptions) : Prop where
  exists_date : (given_date cs opts.date).Exists
  written : (opts.date.filter (· ≠ cs.code '-')).take 8 = compact_date cs (given_date cs opts.date)
  not_before : 0 ≤ local_cs cs opts.time - tz_offset_cs
  not_after : local_cs cs opts.time - tz_offset_cs < CS_PER_DAY

end Zowex.zjb

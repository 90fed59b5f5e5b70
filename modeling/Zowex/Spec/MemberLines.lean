import Zowex.Lib.Lines
import Zowex.Spec.Base64

/-! The two ways in which a member is written, `zds_write_member_bpam` and
`zds_write_member_bpam_streamed` of `zds.cpp`, from the open to the close: what they hand to
`zds_write_output_bpam`, and how they end. -/

namespace Zowex.zds

def CR_CHAR : UInt8 := 0x0d
def FF_CHAR : UInt8 := 0x0c

structure TruncationTracker where
  count : ℕ := 0
  range : Option (ℕ × ℕ) := none
  lines_str : String := ""
  deriving DecidableEq

namespace TruncationTracker

def flush_range (t : TruncationTracker) : TruncationTracker :=
  match t.range with
  | none => t
  | some (range_start, range_end) =>
    let lines_str := if t.lines_str = "" then "" else t.lines_str ++ ", "
    let text := if range_start = range_end then toString range_start
      else toString range_start ++ "-" ++ toString range_end
    { t with range := none, lines_str := lines_str ++ text }

def add_line (t : TruncationTracker) (line_num : ℕ) : TruncationTracker :=
  let t := { t with count := t.count + 1 }
  match t.range with
  | none => { t with range := some (line_num, line_num) }
  | some (range_start, range_end) =>
    if line_num = range_end + 1 then { t with range := some (range_start, line_num) }
    else { t.flush_range with range := some (line_num, line_num) }

end TruncationTracker

structure AsaStreamState where
  blank_count : ℕ := 0
  deriving DecidableEq

/-- `PrepareResult`, none for a control character `'\0'`. -/
structure PrepareResult where
  skip_line : Bool := false
  overflow_records : ℕ := 0
  asa_char : Option UInt8 := none

namespace AsaStreamState

/-- `while (has_overflow_blanks())`: the rounds of the loop, and the blanks that are left. -/
def overflow_blanks : ℕ → ℕ × ℕ
  | blank_count + 3 =>
    let (rounds, left) := overflow_blanks blank_count
    (rounds + 1, left)
  | blank_count => (0, blank_count)

def get_asa_char (cs : Charset) (blank_count : ℕ) (has_formfeed : Bool) : UInt8 :=
  if has_formfeed then cs.code '1'
  else if blank_count = 1 then cs.code '0'
  else if blank_count = 2 then cs.code '-'
  else cs.code ' '

/-- The result, the state after it, and the line without its form feed. -/
def prepare_line (cs : Charset) (st : AsaStreamState) (line : Bytes) :
    PrepareResult × AsaStreamState × Bytes :=
  let has_formfeed := line.head? = some FF_CHAR
  let line := if has_formfeed then line.tail else line
  if line = [] ∧ ¬ has_formfeed then
    ({ skip_line := true }, { st with blank_count := st.blank_count + 1 }, line)
  else
    let (overflow_records, blank_count) := overflow_blanks st.blank_count
    ({ overflow_records, asa_char := some (get_asa_char cs blank_count has_formfeed) },
      { st with blank_count := 0 }, line)

end AsaStreamState

/-- What the lines of a write depend on. `encode` is `encode_line_if_needed`, none for its
failure. -/
structure LineSetup where
  newline_char : UInt8
  is_asa : Bool
  max_len : ℤ
  encode : Bytes → Option Bytes

/-- What both functions keep from line to line. -/
structure LineState where
  asa_state : AsaStreamState := {}
  line_num : ℕ := 0
  truncation : TruncationTracker := {}

/-- A record to be: what the line was encoded to, and its control character. -/
abbrev Line := Bytes × Option UInt8

def Line.record (line : Line) : Bytes := line.2.toList ++ line.1

inductive Exit
  | finished (truncation : TruncationTracker)
  | write_failed
  | encode_failed
  | threw (e : zbase64.DecodeError)
  deriving DecidableEq

/-- The records handed to `zds_write_output_bpam`, and how the lines came to an end. -/
structure Written where
  handed : List Bytes
  exit : Exit
  deriving DecidableEq

variable (cs : Charset) (s : LineSetup) (write : List Bytes → Bool)

def strip_cr (line : Bytes) : Bytes :=
  if line.getLast? = some CR_CHAR then line.dropLast else line

/-- The line is checked for truncation after it was counted. -/
def track (st : LineState) (asa_state : AsaStreamState) (line : Line) : LineState :=
  let line_num := st.line_num + 1
  let truncation := if (line.record.length : ℤ) > s.max_len then st.truncation.add_line line_num
    else st.truncation
  { asa_state, line_num, truncation }

/-- A line up to its encoding. -/
def prepare (asa_state : AsaStreamState) (line : Bytes) : PrepareResult × AsaStreamState × Bytes :=
  if s.is_asa then asa_state.prepare_line cs line else ({}, asa_state, line)

/-- `zds_write_output_bpam`: `write` tells whether the last of the records goes out. -/
def zds_write_output_bpam (line : Line) (handed : List Bytes) : Except Written (List Bytes) :=
  let handed := handed ++ [line.record]
  if write handed then .ok handed else .error ⟨handed, .write_failed⟩

structure ProcessedLine where
  line : Bytes := []
  asa_char : Option UInt8 := none
  skip_line : Bool := false
  overflow_records : ℕ := 0

def process_bpam_trailing_line (st : LineState) (line_content : Bytes) :
    Option (ProcessedLine × LineState) :=
  let line_content := strip_cr line_content
  if line_content = [] then some ({ skip_line := true }, st)
  else
    let (prepared, asa_state, line_content) := prepare cs s st.asa_state line_content
    if prepared.skip_line then some ({ skip_line := true }, { st with asa_state })
    else
      match s.encode line_content with
      | none => none
      | some line =>
        let (overflow_records, asa_char) := (prepared.overflow_records, prepared.asa_char)
        some ({ line, asa_char, overflow_records }, track s st asa_state (line, asa_char))

/-! `zds_write_member_bpam` collects all lines before the first goes out. -/

def overflow_line : Line := ([], some (cs.code '-'))

def collect_line (collected : LineState × List Line) (line : Bytes) :
    Option (LineState × List Line) :=
  let (st, lines_to_write) := collected
  let (prepared, asa_state, line) := prepare cs s st.asa_state (strip_cr line)
  if prepared.skip_line then some ({ st with asa_state }, lines_to_write)
  else
    match s.encode line with
    | none => none
    | some line =>
      some (track s st asa_state (line, prepared.asa_char), lines_to_write ++
        List.replicate prepared.overflow_records (overflow_line cs) ++ [(line, prepared.asa_char)])

def collect_trailing_line (collected : LineState × List Line) (line : Bytes) :
    Option (LineState × List Line) :=
  let (st, lines_to_write) := collected
  if line = [] then some collected
  else
    match process_bpam_trailing_line cs s st line with
    | none => none
    | some (result, st) =>
      if result.skip_line then some (st, lines_to_write)
      else some (st, lines_to_write ++ List.replicate result.overflow_records (overflow_line cs) ++
        [(result.line, result.asa_char)])

def collect_lines (data : Bytes) : Option (LineState × List Line) := do
  let collected ← (Lines.complete s.newline_char data).foldlM (collect_line cs s) ({}, [])
  collect_trailing_line cs s collected (Lines.unfinished s.newline_char data)

def write_lines : List Line → List Bytes → Except Written (List Bytes)
  | [], handed => .ok handed
  | line :: lines, handed => do
    let handed ← zds_write_output_bpam write line handed
    write_lines lines handed

def write_member_lines (data : Bytes) : Written :=
  match collect_lines cs s data with
  | none => ⟨[], .encode_failed⟩
  | some (st, lines_to_write) =>
    match write_lines write lines_to_write [] with
    | .error written => written
    | .ok handed => ⟨handed, .finished st.truncation.flush_range⟩

/-! `zds_write_member_bpam_streamed` holds a line back until the next one is encoded. -/

structure StreamState where
  state : LineState := {}
  prev_line : Option Line := none
  handed : List Bytes := []
  line_buffer : Bytes := []

/-- The data of an overflow record has its control character in it. -/
def write_asa_overflow_records (overflow_count : ℕ) (handed : List Bytes) :
    Except Written (List Bytes) :=
  write_lines write (List.replicate overflow_count ([cs.code '-'], none)) handed

def write_prev_line (prev_line : Option Line) (handed : List Bytes) :
    Except Written (List Bytes) :=
  write_lines write prev_line.toList handed

def stream_line (st : StreamState) (line : Bytes) : Except Written StreamState :=
  let (prepared, asa_state, line) := prepare cs s st.state.asa_state (strip_cr line)
  if prepared.skip_line then .ok { st with state := { st.state with asa_state } }
  else do
    let handed ← write_asa_overflow_records cs write prepared.overflow_records st.handed
    match s.encode line with
    | none => .error ⟨handed, .encode_failed⟩
    | some line =>
      let state := track s st.state asa_state (line, prepared.asa_char)
      let handed ← write_prev_line write st.prev_line handed
      .ok { st with state, handed, prev_line := some (line, prepared.asa_char) }

def stream_trailing_line (st : StreamState) : Except Written StreamState :=
  if st.line_buffer = [] then .ok st
  else
    match process_bpam_trailing_line cs s st.state st.line_buffer with
    | none => .error ⟨st.handed, .encode_failed⟩
    | some (result, state) =>
      if result.skip_line then .ok { st with state }
      else do
        let handed ← write_asa_overflow_records cs write result.overflow_records st.handed
        let handed ← write_prev_line write st.prev_line handed
        .ok { st with state, handed, prev_line := some (result.line, result.asa_char) }

def stream_chunks : List Bytes → Option Bytes → StreamState → Except Written StreamState
  | [], _, st => .ok st
  | chunk :: chunks, left_over, st =>
    match zbase64.decode_stream chunk left_over with
    | (.error e, _) => .error ⟨st.handed, .threw e⟩
    | (.ok decoded, left_over) => do
      let line_buffer := st.line_buffer ++ decoded
      let st ← (Lines.complete s.newline_char line_buffer).foldlM (stream_line cs s write) st
      let line_buffer := Lines.unfinished s.newline_char line_buffer
      stream_chunks chunks left_over { st with line_buffer }

def write_member_lines_streamed (chunks : List Bytes) : Written :=
  let end_of_lines : Except Written (List Bytes × TruncationTracker) := do
    let st ← stream_chunks cs s write chunks (some []) {}
    let st ← stream_trailing_line cs s write st
    let handed ← write_prev_line write st.prev_line st.handed
    .ok (handed, st.state.truncation.flush_range)
  match end_of_lines with
  | .error written => written
  | .ok (handed, truncation) => ⟨handed, .finished truncation⟩

/-- What the chunks of a pipe are decoded to before the first exception, and that one. -/
def decoded_data : List Bytes → Option Bytes → Bytes × Option zbase64.DecodeError
  | [], _ => ([], none)
  | chunk :: chunks, left_over =>
    match zbase64.decode_stream chunk left_over with
    | (.error e, _) => ([], some e)
    | (.ok decoded, left_over) =>
      let (rest, e) := decoded_data chunks left_over
      (decoded ++ rest, e)

/-! What both go through: the lines that are not skipped, up to their encoding. -/

structure PreparedLine where
  overflow_records : ℕ
  asa_char : Option UInt8
  line : Bytes

def keep_line (asa_state : AsaStreamState) (line : Bytes) : Option PreparedLine × AsaStreamState :=
  let (prepared, asa_state, line) := prepare cs s asa_state (strip_cr line)
  (if prepared.skip_line then none
    else some ⟨prepared.overflow_records, prepared.asa_char, line⟩, asa_state)

def keep_lines (asa_state : AsaStreamState) : List Bytes → List PreparedLine × AsaStreamState
  | [] => ([], asa_state)
  | line :: lines =>
    let (kept, asa_state) := keep_line cs s asa_state line
    let (rest, asa_state) := keep_lines asa_state lines
    (kept.toList ++ rest, asa_state)

/-- The lines that a newline ends, and the one after them. -/
def kept_lines (data : Bytes) : List PreparedLine :=
  (keep_lines cs s {} (Lines.complete s.newline_char data)).1

def kept_last (data : Bytes) : Option PreparedLine :=
  let line := Lines.unfinished s.newline_char data
  if strip_cr line = [] then none
  else (keep_line cs s (keep_lines cs s {} (Lines.complete s.newline_char data)).2 line).1

/-- No record goes out in another place, or before a line that cannot be encoded, when a line is
held back. -/
structure KeepsOrder (lines : List PreparedLine) (last : Option PreparedLine) : Prop where
  /-- Every overflow record comes right after a record that is the same. -/
  blanks : (∀ line ∈ lines ++ last.toList, s.encode line.line ≠ none) →
    (lines ++ last.toList).IsChain fun before after =>
      after.overflow_records = 0 ∨
        ∃ line, s.encode before.line = some line ∧
          Line.record (line, before.asa_char) = [cs.code '-']
  /-- Where a line cannot be encoded, at most one is written before it, without overflow. -/
  fails (before after : List PreparedLine) (line : PreparedLine) :
    lines = before ++ line :: after → (∀ line ∈ before, s.encode line.line ≠ none) →
    s.encode line.line = none →
    before.length ≤ 1 ∧ line.overflow_records = 0 ∧ ∀ line ∈ before, line.overflow_records = 0
  last_fails (line : PreparedLine) : last = some line →
    (∀ line ∈ lines, s.encode line.line ≠ none) → s.encode line.line = none →
    lines.length ≤ 1 ∧ ∀ line ∈ lines, line.overflow_records = 0

end Zowex.zds

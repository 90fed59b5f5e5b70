import Zowex.Spec.JsonString
import Zowex.Spec.MemberWrite

/-! The reads and writes of `zds.cpp`. What a data set holds is of any type; what the C library
makes of it when it is opened in one mode or another, and what a call of the library gives, are
parameters. -/

namespace Zowex.zds

structure DscbAttributes where
  recfm : Bytes := []
  lrecl : ℤ := 0
  blksize : ℤ := 0

/-- What the C library reads and writes. A write is of the bytes since the open, which empties. -/
structure Library (Contents : Type) where
  read_text : Contents → Bytes
  read_binary : Contents → Bytes
  /-- With `type=record`, what the calls of `fread` for so many bytes give. -/
  read_records : ℕ → Contents → List Bytes
  write_text : DscbAttributes → Bytes → Contents
  write_binary : Bytes → Contents
  /-- A member of these records. -/
  stow : List Bytes → Contents

/-- What the calls of the library give in one run. `fwrite` is told the bytes that went before. -/
structure FileServices where
  fopen_write : Bool
  fopen_read : Bool
  open_pipe : Bool
  fdopen : Bool
  fwrite : Bytes → Bytes → ℕ
  fwrite_le (stored bytes : Bytes) : fwrite stored bytes ≤ bytes.length
  fflush : Bool

structure DataSetServices where
  exists_dsn : Bool
  attrs : DscbAttributes
  file : FileServices
  bpam : BpamServices

structure ZDS where
  encoding_opts : ZEncode := {}
  etag : Bytes := []
  e_msg : Bool := false

section

variable {Shift Contents : Type} (cs : Charset) (iconv_open : IconvOpen Shift)
  (lib : Library Contents)

def DscbAttributes.is_asa (attrs : DscbAttributes) : Bool := attrs.recfm.contains (cs.code 'A')

def DscbAttributes.effective_lrecl (attrs : DscbAttributes) : ℤ :=
  attrs.lrecl - (if attrs.recfm.contains (cs.code 'V') then 4 else 0) -
    (if attrs.is_asa cs then 1 else 0)

/-! `Adler32State`. -/

structure Adler32State where
  a : ℕ := 1
  b : ℕ := 0
  deriving DecidableEq

def MOD_ADLER : ℕ := 65521

namespace Adler32State

def add (state : Adler32State) (data : Bytes) : Adler32State :=
  data.foldl (fun st c => ⟨st.a + c.toNat, st.b + (st.a + c.toNat)⟩) state

def reduce (state : Adler32State) : Adler32State := ⟨state.a % MOD_ADLER, state.b % MOD_ADLER⟩

/-- Blocks of 16 bytes, then the rest. -/
def update (state : Adler32State) (data : Bytes) : Adler32State :=
  if 16 ≤ data.length then ((state.add (data.take 16)).reduce).update (data.drop 16)
  else (state.add data).reduce
termination_by data.length
decreasing_by
  rw [List.length_drop]
  omega

def finalize (state : Adler32State) : ℕ := state.b <<< 16 ||| state.a

end Adler32State

def zut_calc_adler32_checksum (input : Bytes) : ℕ := (({} : Adler32State).update input).finalize

/-- `std::hex` of a stream. -/
def hex_text (n : ℕ) : Bytes := (Nat.toDigits 16 n).map cs.code

/-! Reads. -/

inductive ReadError
  | not_opened
  | no_pipe
  | no_converter
  | not_converted
  | not_flushed
  deriving DecidableEq

/-- The trailing blanks of a record are cut off. -/
def trim_record (record : Bytes) : Bytes :=
  (record.reverse.dropWhile (· = cs.code ' ')).reverse

def record_length (attrs : DscbAttributes) : ℕ :=
  if attrs.lrecl > 0 then attrs.lrecl.toNat else 32760

/-- The records as lines: before each but the first a newline is added, and one at the end. -/
def record_pieces : List Bytes → List Bytes
  | [] => []
  | first :: records =>
    trim_record cs first :: records.map (fun record => cs.code '\n' :: trim_record cs record) ++
      [[cs.code '\n']]

/-- Whether the data set is read by records. -/
def reads_records (attrs : DscbAttributes) (opts : ZEncode) : Bool :=
  attrs.is_asa cs && opts.data_type ≠ .eDataTypeBinary

/-- The bytes of the file, in the mode it is opened in. -/
def file_bytes (opts : ZEncode) (contents : Contents) : Bytes :=
  if opts.data_type = .eDataTypeBinary then lib.read_binary contents else lib.read_text contents

/-- What is read before it is converted. -/
def read_bytes (attrs : DscbAttributes) (opts : ZEncode) (contents : Contents) : Bytes :=
  if reads_records cs attrs opts then
    (record_pieces cs (lib.read_records (record_length attrs) contents)).flatten
  else file_bytes lib opts contents

def zds_read (fopen_read : Bool) (attrs : DscbAttributes) (opts : ZEncode) (contents : Contents) :
    Except ReadError Bytes :=
  if !fopen_read then .error .not_opened
  else
    let response := read_bytes cs lib attrs opts contents
    if response ≠ [] ∧ zds_use_codepage opts then
      match (zut_encode iconv_open response opts.codepage (source_encoding cs opts)).output with
      | none => .error .not_converted
      | some temp => .ok (if temp ≠ [] then temp else response)
    else .ok response

/-- What `fread` gives in a loop, for so many bytes at a time. -/
def read_chunks (chunk_size : ℕ) (bytes : Bytes) : List Bytes :=
  if 0 < chunk_size ∧ bytes ≠ [] then
    bytes.take chunk_size :: read_chunks chunk_size (bytes.drop chunk_size)
  else []
termination_by bytes.length
decreasing_by
  rename_i h
  rw [List.length_drop]
  have := List.length_pos_iff.mpr h.2
  omega

def FIFO_CHUNK_SIZE : ℕ := 32768

def read_pieces (attrs : DscbAttributes) (opts : ZEncode) (contents : Contents) : List Bytes :=
  if reads_records cs attrs opts then
    record_pieces cs (lib.read_records (record_length attrs) contents)
  else read_chunks (FIFO_CHUNK_SIZE * 3 / 4) (file_bytes lib opts contents)

/-- What was put into the pipe, and told of it. -/
structure StreamedRead where
  pipe : Bytes := []
  content_len : ℕ := 0
  adler_state : Adler32State := {}

/-- The data is encoded to base64 in groups of three. -/
def StreamedRead.put (read : StreamedRead) (left_over : Bytes) (chunk : Bytes) :
    StreamedRead × Bytes :=
  let (text, left_over) := zbase64.encode_stream chunk (some left_over)
  ({ pipe := read.pipe ++ text
     content_len := read.content_len + chunk.length
     adler_state := read.adler_state.update chunk }, left_over.getD [])

/-- The loop over the pieces. -/
def stream_pieces : List Bytes → Conversion Shift → StreamedRead → Bytes →
    Option (Conversion Shift × StreamedRead × Bytes)
  | [], conversion, read, left_over => some (conversion, read, left_over)
  | piece :: pieces, conversion, read, left_over => do
    let (chunk, conversion) ← encode_chunk_if_needed conversion piece
    let (read, left_over) := read.put left_over chunk
    stream_pieces pieces conversion read left_over

/-- The descriptor of a read goes the other way. -/
def read_guard (opts : ZEncode) : Option (Iconv Shift) :=
  if zds_use_codepage opts then iconv_open (source_encoding cs opts) opts.codepage else none

def zds_read_streamed (sv : FileServices) (attrs : DscbAttributes) (zds : ZDS)
    (contents : Contents) : Except ReadError StreamedRead :=
  let guard := read_guard cs iconv_open zds.encoding_opts
  if !sv.fopen_read then .error .not_opened
  else if !sv.open_pipe || !sv.fdopen then .error .no_pipe
  else if zds_use_codepage zds.encoding_opts && guard.isNone then .error .no_converter
  else
    match stream_pieces (read_pieces cs lib attrs zds.encoding_opts contents) (.start guard) {} []
      with
    | none => .error .not_converted
    | some (conversion, read, left_over) =>
      match flush_encoding_state conversion zds.e_msg with
      | none => .error .not_flushed
      | some flush_buffer =>
        let (read, left_over) := if flush_buffer ≠ [] then read.put left_over flush_buffer
          else (read, left_over)
        .ok { read with
          pipe := read.pipe ++ if left_over ≠ [] then zbase64.encode left_over else [] }

/-! Writes. -/

inductive WriteError
  | no_target
  | not_accessible
  | unsupported_recfm
  | etag_unreadable (e : ReadError)
  | etag_mismatch (given actual : ℕ)
  | not_opened
  | no_pipe
  | no_converter
  | not_converted
  | not_flushed
  | not_written
  /-- An exception. -/
  | threw (e : zbase64.DecodeError)
  | member (e : MemberError)
  | read_back (e : ReadError)
  deriving DecidableEq

/-- What was written since the open, none where there was none. -/
structure FileRun where
  stored : Option Bytes
  result : Except WriteError TruncationTracker

/-- A line is measured without the carriage return before its newline. -/
def measure_line (max_len : ℤ) (tracked : ℕ × TruncationTracker) (line : Bytes) :
    ℕ × TruncationTracker :=
  let line_num := tracked.1 + 1
  (line_num, if ((strip_cr line).length : ℤ) > max_len then tracked.2.add_line line_num
    else tracked.2)

def measure_rest (max_len : ℤ) (tracked : ℕ × TruncationTracker) (line : Bytes) :
    ℕ × TruncationTracker :=
  if line = [] then tracked else measure_line max_len tracked line

def scan_for_truncated_lines (data : Bytes) (max_len : ℤ) (newline_char : UInt8) :
    TruncationTracker :=
  let tracked := (Lines.complete newline_char data).foldl (measure_line max_len) (0, {})
  (measure_rest max_len tracked (Lines.unfinished newline_char data)).2.flush_range

/-- Whether lines are tracked at all. -/
def tracks_lines (attrs : DscbAttributes) (opts : ZEncode) : Bool :=
  opts.data_type ≠ .eDataTypeBinary && attrs.lrecl > 0

def zds_write_sequential (sv : FileServices) (attrs : DscbAttributes) (opts : ZEncode)
    (data : Bytes) : FileRun :=
  let (setup, _) := setup_encoding cs iconv_open opts
  if !sv.fopen_write then ⟨none, .error .not_opened⟩
  else if data = [] then ⟨some [], .ok {}⟩
  else
    match if setup.has_encoding then
        (zut_encode iconv_open data setup.source_encoding setup.codepage).output
      else some data with
    | none => ⟨some [], .error .not_converted⟩
    | some temp =>
      let truncation := if tracks_lines attrs opts ∧ temp ≠ [] then
          scan_for_truncated_lines temp (attrs.effective_lrecl cs) setup.newline_char
        else {}
      let bytes_written := sv.fwrite [] temp
      if bytes_written ≠ temp.length then ⟨some (temp.take bytes_written), .error .not_written⟩
      else ⟨some temp, .ok truncation⟩

structure WriteState (Shift : Type) where
  conversion : Conversion Shift
  left_over : Option Bytes := some []
  tracked : ℕ × TruncationTracker := (0, {})
  line_buffer : Bytes := []
  stored : Bytes := []
  write_failed : Bool := false

/-- What `fwrite` takes of the bytes, and whether it takes all. -/
def WriteState.write (st : WriteState Shift) (sv : FileServices) (bytes : Bytes) :
    WriteState Shift :=
  let bytes_written := sv.fwrite st.stored bytes
  { st with
    stored := st.stored ++ bytes.take bytes_written
    write_failed := st.write_failed || decide (bytes_written ≠ bytes.length) }

/-- The loop over the chunks of the pipe; a short write ends it. -/
def write_chunks (sv : FileServices) (tracks : Bool) (max_len : ℤ) (newline_char : UInt8) :
    List Bytes → WriteState Shift → Except FileRun (WriteState Shift)
  | [], st => .ok st
  | chunk :: chunks, st =>
    match zbase64.decode_stream chunk st.left_over with
    | (.error e, _) => .error ⟨some st.stored, .error (.threw e)⟩
    | (.ok decoded, left_over) =>
      match encode_chunk_if_needed st.conversion decoded with
      | none => .error ⟨some st.stored, .error .not_converted⟩
      | some (chunk, conversion) =>
        let line_buffer := st.line_buffer ++ chunk
        let st := { st with conversion, left_over }
        let st := if tracks then
            { st with
              tracked := (Lines.complete newline_char line_buffer).foldl (measure_line max_len)
                st.tracked
              line_buffer := Lines.unfinished newline_char line_buffer }
          else st
        let st := st.write sv chunk
        if st.write_failed then .ok st
        else write_chunks sv tracks max_len newline_char chunks st

/-- After the loop: the flush of the shift state, and of the file. -/
def finish_write (sv : FileServices) (max_len : ℤ) (e_msg : Bool) (st : WriteState Shift) :
    FileRun :=
  let truncation := (measure_rest max_len st.tracked st.line_buffer).2.flush_range
  match flush_encoding_state st.conversion e_msg with
  | none => ⟨some st.stored, .error .not_flushed⟩
  | some flush_buffer =>
    let st := if flush_buffer ≠ [] then st.write sv flush_buffer else st
    if st.write_failed || !sv.fflush then ⟨some st.stored, .error .not_written⟩
    else ⟨some st.stored, .ok truncation⟩

def zds_write_sequential_streamed (sv : FileServices) (attrs : DscbAttributes) (zds : ZDS)
    (chunks : List Bytes) : FileRun :=
  let (setup, e_msg) := setup_encoding cs iconv_open zds.encoding_opts
  let iconv_guard := setup.iconv_guard iconv_open
  let max_len := attrs.effective_lrecl cs
  if !sv.fopen_write then ⟨none, .error .not_opened⟩
  else if !sv.open_pipe || !sv.fdopen then ⟨some [], .error .no_pipe⟩
  else if !validate_iconv_setup setup iconv_guard then ⟨some [], .error .no_converter⟩
  else
    match write_chunks sv (tracks_lines attrs zds.encoding_opts) max_len setup.newline_char chunks
        { conversion := .start iconv_guard } with
    | .error run => run
    | .ok st => finish_write sv max_len (zds.e_msg || e_msg) st

/-! E-tags, and the functions that are called. -/

def zds_validate_etag (fopen_read : Bool) (attrs : DscbAttributes) (zds : ZDS)
    (has_encoding : Bool) (contents : Contents) : Option WriteError :=
  let read_opts := if has_encoding then zds.encoding_opts else {}
  match zds_read cs iconv_open lib fopen_read attrs read_opts contents with
  | .error e => some (.etag_unreadable e)
  | .ok current_contents =>
    let given_etag := (zjson.strtoul16 cs zds.etag).1
    let new_etag := zut_calc_adler32_checksum current_contents
    if given_etag ≠ new_etag then some (.etag_mismatch given_etag new_etag) else none

def validate_etag_if_present (fopen_read : Bool) (attrs : DscbAttributes) (zds : ZDS)
    (contents : Contents) : Option WriteError :=
  if zds.etag ≠ [] then
    zds_validate_etag cs iconv_open lib fopen_read attrs zds (zds_use_codepage zds.encoding_opts)
      contents
  else none

def zds_write_recfm_unsupported (recfm : Bytes) (include_standard : Bool) : Bool :=
  recfm = cs.str "U" || include_standard && recfm.contains (cs.code 'S')

/-- `find` of both parentheses, the second behind the first. -/
def zds_has_member (dsn : Bytes) : Bool :=
  let open_paren := dsn.idxOf (cs.code '(')
  let close_paren := dsn.idxOf (cs.code ')')
  open_paren < close_paren && close_paren < dsn.length

set_option linter.dupNamespace false in
structure ZDSWriteOpts where
  zds : ZDS
  ddname : Bytes := []
  dsname : Bytes := []

/-- What a write gives: the contents after it, what it did with resources, the result, and the
e-tag, as it is afterwards. -/
structure WriteRun (Contents : Type) where
  contents : Contents
  log : List Event := []
  result : Except WriteError TruncationTracker
  etag : Bytes

/-- The data that a write is given: at once, or in the chunks of a pipe. -/
inductive Source
  | buffered (data : Bytes)
  | streamed (chunks : List Bytes)

def write_file (sv : FileServices) (attrs : DscbAttributes) (zds : ZDS) : Source → FileRun
  | .buffered data => zds_write_sequential cs iconv_open sv attrs zds.encoding_opts data
  | .streamed chunks => zds_write_sequential_streamed cs iconv_open sv attrs zds chunks

def write_member (sv : BpamServices) (zds : ZDS) : Source → MemberRun
  | .buffered data => zds_write_member_bpam sv cs iconv_open zds.encoding_opts data
  | .streamed chunks => zds_write_member_bpam_streamed sv cs iconv_open zds.encoding_opts chunks

/-- What the data set holds after a write to it as a file. -/
def FileRun.contents (run : FileRun) (attrs : DscbAttributes) (opts : ZEncode)
    (before : Contents) : Contents :=
  match run.stored with
  | none => before
  | some bytes =>
    if opts.data_type = .eDataTypeBinary then lib.write_binary bytes
    else lib.write_text attrs bytes

def MemberRun.contents (run : MemberRun) (before : Contents) : Contents :=
  match run.stored with
  | none => before
  | some records => lib.stow records

/-- The write to the data set or the member, before the e-tag is read. -/
def write_contents (sv : DataSetServices) (opts : ZDSWriteOpts) (source : Source)
    (before : Contents) : WriteRun Contents :=
  if zds_has_member cs opts.dsname then
    let run := write_member cs iconv_open sv.bpam opts.zds source
    { contents := run.contents lib before
      log := run.log
      result := run.result.mapError WriteError.member
      etag := opts.zds.etag }
  else
    let run := write_file cs iconv_open sv.file sv.attrs opts.zds source
    { contents := run.contents lib sv.attrs opts.zds.encoding_opts before
      result := run.result
      etag := opts.zds.etag }

/-- Whether the return code of a write is `RTNCD_FAILURE`. Another one is kept while the e-tag is
read. -/
def is_failure (sv : DataSetServices) : Except WriteError TruncationTracker → Bool
  | .ok _ => false
  | .error (.member .close_failed) => sv.bpam.failure_rc
  | .error _ => true

/-- The data set is read again for the e-tag. -/
def read_back (sv : DataSetServices) (opts : ZDSWriteOpts) (run : WriteRun Contents) :
    WriteRun Contents :=
  match zds_read cs iconv_open lib sv.file.fopen_read sv.attrs opts.zds.encoding_opts run.contents
    with
  | .error e => { run with result := .error (.read_back e) }
  | .ok saved_contents =>
    { run with etag := hex_text cs (zut_calc_adler32_checksum saved_contents) }

/-- The checks of a write to a data set. -/
def write_refused (sv : DataSetServices) (opts : ZDSWriteOpts) (before : Contents) :
    Option WriteError :=
  if !sv.exists_dsn then some .not_accessible
  else if zds_write_recfm_unsupported cs sv.attrs.recfm (!zds_has_member cs opts.dsname) then
    some .unsupported_recfm
  else
    validate_etag_if_present cs iconv_open lib sv.file.fopen_read sv.attrs opts.zds before

/-- `zds_write` for a source that is given at once, `zds_write_streamed` for one in chunks. -/
def zds_write (sv : DataSetServices) (opts : ZDSWriteOpts) (source : Source) (before : Contents) :
    WriteRun Contents :=
  if opts.dsname = [] ∧ opts.ddname = [] then
    { contents := before, result := .error .no_target, etag := opts.zds.etag }
  else if opts.ddname ≠ [] then
    let run := write_file cs iconv_open sv.file {} opts.zds source
    { contents := run.contents lib {} opts.zds.encoding_opts before
      result := run.result
      etag := opts.zds.etag }
  else
    match write_refused cs iconv_open lib sv opts before with
    | some e => { contents := before, result := .error e, etag := opts.zds.etag }
    | none =>
      let run := write_contents cs iconv_open lib sv opts source before
      if is_failure sv run.result then run else read_back cs iconv_open lib sv opts run

end

/-- What the data of a source is, up to an exception. -/
def Source.decoded : Source → Bytes × Option zbase64.DecodeError
  | .buffered data => (data, none)
  | .streamed chunks => decoded_data chunks (some [])

end Zowex.zds

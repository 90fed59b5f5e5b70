import Zowex.Spec.DataSets

/-! The reads and writes of a file in `zusf.cpp`. The file holds bytes, in text mode too. -/

namespace Zowex.zusf

open zds

inductive StatResult
  | found (mtime byte_size : ℕ)
  /-- `ENOENT`. -/
  | missing
  | failed

structure UssServices where
  file : FileServices
  stat : StatResult
  /-- `zusf_get_file_ccsid`, negative where it fails. -/
  ccsid : ℤ
  /-- The file time and size after a write, none where `stat` fails. -/
  stat_after : Option (ℕ × ℕ)

structure ZUSF where
  encoding_opts : ZEncode := {}
  etag : Bytes := []
  e_msg : Bool := false

variable {Shift : Type} (cs : Charset) (iconv_open : IconvOpen Shift)

/-- The codepage of the file: the one that is given, or the one of the tag, if it is neither that
of UTF-8 nor of binary data. -/
def encoding_to_use (opts : ZEncode) (ccsid : ℤ) : Option Bytes :=
  if opts.data_type ≠ .eDataTypeText then none
  else if opts.codepage ≠ [] then some opts.codepage
  else if ccsid > 0 ∧ ccsid ≠ 1208 ∧ ccsid ≠ 65535 then some (cs.str (toString ccsid))
  else none

def zusf_read_from_uss_file (sv : UssServices) (opts : ZEncode) (contents : Bytes) :
    Except ReadError Bytes :=
  if !sv.file.fopen_read then .error .not_opened
  else
    match encoding_to_use cs opts sv.ccsid with
    | none => .ok contents
    | some from_encoding =>
      if contents = [] then .ok contents
      else
        match (zut_encode iconv_open contents from_encoding (source_encoding cs opts)).output with
        | none => .error .not_converted
        | some temp => .ok (if temp ≠ [] then temp else contents)

def zut_build_etag (mtime byte_size : ℕ) : Bytes :=
  hex_text cs mtime ++ [cs.code '-'] ++ hex_text cs byte_size

inductive UssError
  | etag_mismatch
  | not_accessible
  | no_stat
  | write (e : WriteError)
  deriving DecidableEq

/-- What was written since the open, none where there was none, and the new e-tag. -/
structure UssRun where
  stored : Option Bytes
  result : Except UssError Bytes

/-- The checks before a write. -/
def write_refused (sv : UssServices) (zusf : ZUSF) : Option UssError :=
  match sv.stat with
  | .found mtime byte_size =>
    if zusf.etag ≠ [] ∧ zut_build_etag cs mtime byte_size ≠ zusf.etag then some .etag_mismatch
    else none
  | .missing => none
  | .failed => some .not_accessible

/-- The end of a write that succeeded so far. -/
def new_etag (sv : UssServices) (stored : Bytes) : UssRun :=
  match sv.stat_after with
  | none => ⟨some stored, .error .no_stat⟩
  | some (mtime, byte_size) => ⟨some stored, .ok (zut_build_etag cs mtime byte_size)⟩

def zusf_write_to_uss_file (sv : UssServices) (zusf : ZUSF) (data : Bytes) : UssRun :=
  match write_refused cs sv zusf with
  | some e => ⟨none, .error e⟩
  | none =>
    match match encoding_to_use cs zusf.encoding_opts sv.ccsid with
      | none => some data
      | some encoding =>
        (zut_encode iconv_open data (source_encoding cs zusf.encoding_opts) encoding).output with
    | none => ⟨none, .error (.write .not_converted)⟩
    | some temp =>
      if !sv.file.fopen_write then ⟨none, .error (.write .not_opened)⟩
      else
        let bytes_written := sv.file.fwrite [] temp
        if temp ≠ [] ∧ bytes_written ≠ temp.length then
          ⟨some (temp.take bytes_written), .error (.write .not_written)⟩
        else new_etag cs sv temp

/-- The descriptor, none as well where there is no encoding. -/
def write_guard (opts : ZEncode) (ccsid : ℤ) : Option (Iconv Shift) :=
  (encoding_to_use cs opts ccsid).bind fun encoding =>
    iconv_open encoding (source_encoding cs opts)

/-- The loop is the one of a data set, without a look at the lines. -/
def zusf_write_to_uss_file_streamed (sv : UssServices) (zusf : ZUSF) (chunks : List Bytes) :
    UssRun :=
  match write_refused cs sv zusf with
  | some e => ⟨none, .error e⟩
  | none =>
    let guard := write_guard cs iconv_open zusf.encoding_opts sv.ccsid
    if !sv.file.fopen_write then ⟨none, .error (.write .not_opened)⟩
    else if !sv.file.open_pipe || !sv.file.fdopen then ⟨some [], .error (.write .no_pipe)⟩
    else if (encoding_to_use cs zusf.encoding_opts sv.ccsid).isSome && guard.isNone then
      ⟨some [], .error (.write .no_converter)⟩
    else
      let run :=
        match write_chunks sv.file false 0 0 chunks { conversion := .start guard } with
        | .error run => run
        | .ok st => finish_write sv.file 0 zusf.e_msg st
      match run.result with
      | .error e => ⟨run.stored, .error (.write e)⟩
      | .ok _ => new_etag cs sv (run.stored.getD [])

/-- What the file holds after a write. -/
def UssRun.contents (run : UssRun) (before : Bytes) : Bytes := run.stored.getD before

end Zowex.zusf

namespace Zowex

open zds zusf

/-! Conversions that fail without notice. -/

/-- A read or a write of text: of a data set, of a member, or of a file with a tag. The bytes of a
read are those of the data set or the file. -/
inductive Access
  | read (bytes : Bytes)
  | write (data : Bytes)
  | write_member (data : Bytes)
  | read_file (ccsid : ℤ) (bytes : Bytes)
  | write_file (ccsid : ℤ) (data : Bytes)

section

variable {Shift : Type} (cs : Charset) (iconv_open : IconvOpen Shift) (opts : ZEncode)

/-- The records of a member: those of its lines, each converted by itself. -/
def converted_records (s : LineSetup) (data : Bytes) : Option (List Bytes) := do
  let records ← (kept_lines cs s data ++ (kept_last cs s data).toList).mapM fun line => do
    let output ← conversion iconv_open line.line (source_encoding cs opts) opts.codepage
    some (List.replicate line.overflow_records [cs.code '-'] ++
      [Line.record (output, line.asa_char)])
  some records.flatten

/-- Where it succeeds, what is delivered or stored is the conversion, whatever the services do. -/
def Exact : Access → Prop
  | .read bytes => zds_use_codepage opts = true →
    ∀ (Contents : Type) (lib : Library Contents) (attrs : DscbAttributes) (contents : Contents)
      (fopen_read : Bool) (response : Bytes),
    read_bytes cs lib attrs opts contents = bytes →
    zds_read cs iconv_open lib fopen_read attrs opts contents = .ok response →
    conversion iconv_open bytes opts.codepage (source_encoding cs opts) = some response
  | .write data => zds_use_codepage opts = true →
    ∀ (Contents : Type) (lib : Library Contents) (sv : DataSetServices)
      (write_opts : ZDSWriteOpts) (before : Contents) (t : TruncationTracker),
    write_opts.zds.encoding_opts = opts →
    (write_opts.ddname = [] → zds_has_member cs write_opts.dsname = false) →
    (zds_write cs iconv_open lib sv write_opts (.buffered data) before).result = .ok t →
    ∃ output, conversion iconv_open data (source_encoding cs opts) opts.codepage = some output ∧
      (zds_write cs iconv_open lib sv write_opts (.buffered data) before).contents =
        lib.write_text (if write_opts.ddname = [] then sv.attrs else {}) output
  | .write_member data => zds_use_codepage opts = true →
    ∀ (Contents : Type) (lib : Library Contents) (sv : DataSetServices)
      (write_opts : ZDSWriteOpts) (before : Contents) (t : TruncationTracker),
    write_opts.zds.encoding_opts = opts →
    write_opts.ddname = [] → zds_has_member cs write_opts.dsname = true →
    (zds_write cs iconv_open lib sv write_opts (.buffered data) before).result = .ok t →
    ∃ records,
      converted_records cs iconv_open opts (line_setup sv.bpam cs iconv_open opts) data =
        some records ∧
      (zds_write cs iconv_open lib sv write_opts (.buffered data) before).contents =
        lib.stow records
  | .read_file ccsid bytes => ∀ encoding, encoding_to_use cs opts ccsid = some encoding →
    ∀ (sv : UssServices) response, sv.ccsid = ccsid →
    zusf_read_from_uss_file cs iconv_open sv opts bytes = .ok response →
    conversion iconv_open bytes encoding (source_encoding cs opts) = some response
  | .write_file ccsid data => ∀ encoding, encoding_to_use cs opts ccsid = some encoding →
    ∀ (sv : UssServices) (zusf : ZUSF) etag, sv.ccsid = ccsid → zusf.encoding_opts = opts →
    (zusf_write_to_uss_file cs iconv_open sv zusf data).result = .ok etag →
    ∃ output, conversion iconv_open data (source_encoding cs opts) encoding = some output ∧
      (zusf_write_to_uss_file cs iconv_open sv zusf data).stored = some output

/-- What is read is converted: there is a converter, and it gives something. Without a call of it
the data is its own conversion. -/
def ReadConverts (bytes from_encoding to_encoding : Bytes) : Prop :=
  if bytes = [] ∨ from_encoding = to_encoding then
    conversion iconv_open bytes from_encoding to_encoding = some bytes
  else
    (iconv_open to_encoding from_encoding).isSome ∧
      conversion iconv_open bytes from_encoding to_encoding ≠ some []

/-- What is written is converted. -/
def WriteConverts (called : Bool) (data from_encoding to_encoding : Bytes) : Prop :=
  if called = false ∨ from_encoding = to_encoding then
    conversion iconv_open data from_encoding to_encoding = some data
  else (iconv_open to_encoding from_encoding).isSome

def Noticed : Access → Prop
  | .read bytes => zds_use_codepage opts = true →
    ReadConverts iconv_open bytes opts.codepage (source_encoding cs opts)
  | .write data => zds_use_codepage opts = true →
    WriteConverts iconv_open (data ≠ []) data (source_encoding cs opts) opts.codepage
  | .write_member _ => True
  | .read_file ccsid bytes => ∀ encoding, encoding_to_use cs opts ccsid = some encoding →
    ReadConverts iconv_open bytes encoding (source_encoding cs opts)
  | .write_file ccsid data => ∀ encoding, encoding_to_use cs opts ccsid = some encoding →
    WriteConverts iconv_open true data (source_encoding cs opts) encoding

end

end Zowex

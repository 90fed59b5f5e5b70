import Zowex.Lib.Transducer
import Zowex.Spec.FailedWrites

/-! Streamed reads and writes: what a stream of base64 text comes to when every call of the library
does its work, what is asked of a write that reports success, and of a stream beside the operation
on the whole data. -/

namespace Zowex

open zds zusf

variable {Shift : Type}

namespace zds

/-- What the loop over the chunks of a pipe adds to `content_len`. -/
def content_len : List Bytes → Option Bytes → ℕ
  | [], _ => 0
  | chunk :: chunks, left_over =>
    match zbase64.decode_stream chunk left_over with
    | (.error _, _) => 0
    | (.ok decoded, left_over) => decoded.length + content_len chunks left_over

/-- Pieces that are converted one after the other, with the sequence that leaves the shift state. -/
def encode_pieces (e_msg : Bool) : Conversion Shift → List Bytes → Option Bytes
  | conversion, [] => flush_encoding_state conversion e_msg
  | conversion, piece :: pieces => do
    let (output, conversion) ← encode_chunk_if_needed conversion piece
    let rest ← encode_pieces e_msg conversion pieces
    some (output ++ rest)

/-- The pipe opens, and what is written to a file is written. -/
structure FileServices.Work (sv : FileServices) : Prop where
  open_pipe : sv.open_pipe = true
  fdopen : sv.fdopen = true
  fwrite (stored bytes : Bytes) : sv.fwrite stored bytes = bytes.length
  fflush : sv.fflush = true

end zds

/-! Success is only for a complete stream. -/

section

variable (cs : Charset) (iconv_open : IconvOpen Shift) (opts : ZEncode) (e_msg : Bool)

/-- The data in the encoding of a data set or a member. -/
def converted (data : Bytes) : Option Bytes :=
  if zds_use_codepage opts then
    conversion iconv_open data (source_encoding cs opts) opts.codepage
  else some data

/-- The data in the encoding of a file. -/
def uss_converted (ccsid : ℤ) (data : Bytes) : Option Bytes :=
  match encoding_to_use cs opts ccsid with
  | none => some data
  | some encoding => conversion iconv_open data (source_encoding cs opts) encoding

/-- The records of a member: those of its lines, each converted by itself. -/
def text_records (s : LineSetup) (data : Bytes) : Option (List Bytes) := do
  let records ← (kept_lines cs s data ++ (kept_last cs s data).toList).mapM fun line => do
    let output ← converted cs iconv_open opts line.line
    some (List.replicate line.overflow_records [cs.code '-'] ++
      [Line.record (output, line.asa_char)])
  some records.flatten

/-- Where a streamed write reports success, its text is base64, all of it was decoded, and what is
stored is the data in its encoding, whatever the services do. -/
def Complete (chunks : List Bytes) : Target → Prop
  | .sequential =>
    ∀ (Contents : Type) (lib : Library Contents) (sv : DataSetServices)
      (write_opts : ZDSWriteOpts) (before : Contents) (t : TruncationTracker),
    write_opts.zds.encoding_opts = opts → write_opts.zds.e_msg = e_msg →
    (write_opts.ddname = [] → zds_has_member cs write_opts.dsname = false) →
    (zds_write cs iconv_open lib sv write_opts (.streamed chunks) before).result = .ok t →
    ∃ data output, zbase64.decode chunks.flatten = .ok data ∧
      content_len chunks (some []) = data.length ∧
      converted cs iconv_open opts data = some output ∧
      (zds_write cs iconv_open lib sv write_opts (.streamed chunks) before).contents =
        FileRun.contents lib ⟨some output, .ok t⟩
          (if write_opts.ddname = [] then sv.attrs else {}) opts before
  | .member =>
    ∀ (Contents : Type) (lib : Library Contents) (sv : DataSetServices)
      (write_opts : ZDSWriteOpts) (before : Contents) (t : TruncationTracker),
    write_opts.zds.encoding_opts = opts → write_opts.zds.e_msg = e_msg →
    write_opts.ddname = [] → zds_has_member cs write_opts.dsname = true →
    (zds_write cs iconv_open lib sv write_opts (.streamed chunks) before).result = .ok t →
    ∃ data records, zbase64.decode chunks.flatten = .ok data ∧
      content_len chunks (some []) = data.length ∧
      text_records cs iconv_open opts (line_setup sv.bpam cs iconv_open opts) data =
        some records ∧
      (zds_write cs iconv_open lib sv write_opts (.streamed chunks) before).contents =
        lib.stow records
  | .file ccsid =>
    ∀ (sv : UssServices) (zusf : ZUSF) (etag : Bytes),
    sv.ccsid = ccsid → zusf.encoding_opts = opts → zusf.e_msg = e_msg →
    (write_uss cs iconv_open sv zusf (.streamed chunks)).result = .ok etag →
    ∃ data output, zbase64.decode chunks.flatten = .ok data ∧
      content_len chunks (some []) = data.length ∧
      uss_converted cs iconv_open opts ccsid data = some output ∧
      (write_uss cs iconv_open sv zusf (.streamed chunks)).stored = some output

end

end Zowex

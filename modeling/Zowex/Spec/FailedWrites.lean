import Zowex.Spec.Uss

/-! Writes that fail because their data cannot be converted or decoded: what is asked of them, and
what their data must be for it. -/

namespace Zowex

open zds zusf

/-- Whether the data is what a write fails for. An error of the read for the e-tag is none of
these: the data was written. -/
def zds.WriteError.is_conversion : WriteError → Bool
  | .no_converter | .not_converted | .not_flushed | .threw _ => true
  | .member .no_converter | .member .encode_failed | .member (.threw _) => true
  | _ => false

inductive Target
  /-- A data set, or a DD. -/
  | sequential
  | member
  | file (ccsid : ℤ)

section

variable {Shift : Type} (cs : Charset) (iconv_open : IconvOpen Shift) (opts : ZEncode)
  (e_msg : Bool)

/-- `zusf_write_to_uss_file` for a source that is given at once. -/
def write_uss (sv : UssServices) (zusf : ZUSF) : Source → UssRun
  | .buffered data => zusf_write_to_uss_file cs iconv_open sv zusf data
  | .streamed chunks => zusf_write_to_uss_file_streamed cs iconv_open sv zusf chunks

/-- A write that fails for its data leaves what was there before, whatever the services do. -/
def ChangesNothing (source : Source) : Target → Prop
  | .sequential =>
    ∀ (Contents : Type) (lib : Library Contents) (sv : DataSetServices)
      (write_opts : ZDSWriteOpts) (before : Contents) (e : WriteError),
    write_opts.zds.encoding_opts = opts → write_opts.zds.e_msg = e_msg →
    (write_opts.ddname = [] → zds_has_member cs write_opts.dsname = false) →
    (zds_write cs iconv_open lib sv write_opts source before).result = .error e →
    e.is_conversion = true →
    (zds_write cs iconv_open lib sv write_opts source before).contents = before
  | .member =>
    ∀ (Contents : Type) (lib : Library Contents) (sv : DataSetServices)
      (write_opts : ZDSWriteOpts) (before : Contents) (e : WriteError),
    write_opts.zds.encoding_opts = opts → write_opts.zds.e_msg = e_msg →
    write_opts.ddname = [] → zds_has_member cs write_opts.dsname = true →
    (zds_write cs iconv_open lib sv write_opts source before).result = .error e →
    e.is_conversion = true →
    (zds_write cs iconv_open lib sv write_opts source before).contents = before
  | .file ccsid =>
    ∀ (sv : UssServices) (zusf : ZUSF) (before : Bytes) (e : WriteError),
    sv.ccsid = ccsid → zusf.encoding_opts = opts → zusf.e_msg = e_msg →
    (write_uss cs iconv_open sv zusf source).result = .error (.write e) →
    e.is_conversion = true →
    (write_uss cs iconv_open sv zusf source).contents before = before

/-! When no conversion of the data fails. -/

/-- Every chunk is decoded and converted, and the shift state can be left after each that gives
something, for a write that is short there, and after the last. -/
def StreamConverts (conversion : Conversion Shift) (left_over : Option Bytes) :
    List Bytes → Prop
  | [] => flush_encoding_state conversion e_msg ≠ none
  | chunk :: chunks =>
    match zbase64.decode_stream chunk left_over with
    | (.error _, _) => False
    | (.ok decoded, left_over) =>
      match encode_chunk_if_needed conversion decoded with
      | none => False
      | some (chunk, conversion) =>
        (chunk ≠ [] → flush_encoding_state conversion e_msg ≠ none) ∧
          StreamConverts conversion left_over chunks

/-- The lines of a member, in a data set with control characters or without. -/
def member_lines (is_asa : Bool) : LineSetup :=
  let (setup, _) := setup_encoding cs iconv_open opts
  { newline_char := setup.newline_char
    is_asa
    max_len := 0
    encode := encode_line_if_needed (setup.iconv_guard iconv_open) }

/-- Every line that a newline ends is encoded, and the one after them where the data is complete. -/
def LinesEncode (s : LineSetup) (data : Bytes) (complete : Bool) : Prop :=
  ∀ line ∈ kept_lines cs s data ++ if complete then (kept_last cs s data).toList else [],
    s.encode line.line ≠ none

def MemberEncodes (data : Bytes) (complete : Bool) : Prop :=
  iconv_valid cs iconv_open opts = true ∧
    ∀ is_asa, LinesEncode cs (member_lines cs iconv_open opts is_asa) data complete

/-- What a write must meet to leave a target as it is when it fails for its data: that it does not
fail so. Only a file that is written at once, and a member whose data is not decoded, are left. -/
def ConversionSafe : Source → Target → Prop
  | .buffered data, .sequential =>
    zds_use_codepage opts = true → data ≠ [] →
      (zut_encode iconv_open data (source_encoding cs opts) opts.codepage).output ≠ none
  | .streamed chunks, .sequential =>
    let (setup, newline_msg) := setup_encoding cs iconv_open opts
    iconv_valid cs iconv_open opts = true ∧
      StreamConverts (e_msg || newline_msg) (.start (setup.iconv_guard iconv_open)) (some [])
        chunks
  | source, .member => MemberEncodes cs iconv_open opts source.decoded.1 source.decoded.2.isNone
  | .buffered _, .file _ => True
  | .streamed chunks, .file ccsid =>
    let guard := write_guard cs iconv_open opts ccsid
    ((encoding_to_use cs opts ccsid).isSome = true → guard.isSome = true) ∧
      StreamConverts e_msg (.start guard) (some []) chunks

end

end Zowex

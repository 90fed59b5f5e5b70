import Zowex.Spec.Streams

/-! A streamed operation beside the buffered one. The converter is called for each piece of the
data, and by the buffered operation once for all of it. -/

namespace Zowex

open zds

variable {Shift : Type}

/-- No state is kept from one character to the next. -/
structure Iconv.Stateless (cd : Iconv Shift) : Prop where
  convert : Transducer.Stateless cd.convert
  flush (shift : Shift) : cd.flush shift = some []

section

variable (cs : Charset) (iconv_open : IconvOpen Shift)

/-- `zds_read_streamed` where the calls of `fread` give these pieces. -/
def zds.read_streamed_pieces (sv : FileServices) (zds : ZDS) (pieces : List Bytes) :
    Except ReadError StreamedRead :=
  let guard := read_guard cs iconv_open zds.encoding_opts
  if !sv.fopen_read then .error .not_opened
  else if !sv.open_pipe || !sv.fdopen then .error .no_pipe
  else if zds_use_codepage zds.encoding_opts && guard.isNone then .error .no_converter
  else
    match stream_pieces pieces (.start guard) {} [] with
    | none => .error .not_converted
    | some (conversion, read, left_over) =>
      match flush_encoding_state conversion zds.e_msg with
      | none => .error .not_flushed
      | some flush_buffer =>
        let (read, left_over) := if flush_buffer ≠ [] then read.put left_over flush_buffer
          else (read, left_over)
        .ok { read with
          pipe := read.pipe ++ if left_over ≠ [] then zbase64.encode left_over else [] }

/-- What is stored where the write succeeds. -/
def zds.FileRun.written (run : FileRun) : Option Bytes :=
  match run.result with
  | .ok _ => run.stored
  | .error _ => none

/-- A streamed read delivers what the buffered read does, in base64, and fails where that fails. -/
def SameRead {Contents : Type} (lib : Library Contents) (sv : FileServices)
    (attrs : DscbAttributes) (zds : ZDS) (contents : Contents) (pieces : List Bytes) : Prop :=
  (read_streamed_pieces cs iconv_open sv zds pieces).toOption.map StreamedRead.pipe =
    (zds_read cs iconv_open lib sv.fopen_read attrs zds.encoding_opts contents).toOption.map
      zbase64.encode

/-- A streamed write stores what the buffered write does, and fails where that fails. -/
def SameWrite (sv : FileServices) (attrs : DscbAttributes) (zds : ZDS) (data : Bytes)
    (chunks : List Bytes) : Prop :=
  (zds_write_sequential_streamed cs iconv_open sv attrs zds chunks).written =
    (zds_write_sequential cs iconv_open sv attrs zds.encoding_opts data).written

/-- A piece of whole characters, which fits the buffer for its conversion. -/
def PieceConverts (cd : Iconv Shift) (piece : Bytes) : Prop :=
  ∃ output shift, cd.convert cd.initial piece = some (output, shift) ∧
    output.length ≤ piece.length * 4 + 16

/-- There is a converter, and no message that would be taken for a failure; and each piece can be
converted by itself. -/
def PiecesConvert (e_msg : Bool) (pieces : List Bytes) (from_encoding to_encoding : Bytes) :
    Prop :=
  ∃ cd, iconv_open to_encoding from_encoding = some cd ∧ e_msg = false ∧
    ∀ piece ∈ pieces, PieceConverts cd piece

/-- Where nothing is to be converted the conversion of the pieces changes nothing; elsewhere the
pieces convert just when the whole data does and fits the buffer for its conversion. -/
def CutHarmless (e_msg : Bool) (pieces : List Bytes) (from_encoding to_encoding : Bytes) : Prop :=
  let data := pieces.flatten
  if data = [] ∨ from_encoding = to_encoding then
    PiecesConvert iconv_open e_msg pieces from_encoding to_encoding ∧
      conversion iconv_open data from_encoding to_encoding = some data
  else
    (iconv_open to_encoding from_encoding).isSome ∧
      (PiecesConvert iconv_open e_msg pieces from_encoding to_encoding ↔
        ∃ output, conversion iconv_open data from_encoding to_encoding = some output ∧
          output.length ≤ data.length * 4)

/-- A read takes an empty conversion for none. -/
def ReadsAlike (sv : FileServices) (zds : ZDS) (pieces : List Bytes) : Prop :=
  let opts := zds.encoding_opts
  sv.fopen_read = true → zds_use_codepage opts = true →
  CutHarmless iconv_open zds.e_msg pieces opts.codepage (source_encoding cs opts) ∧
    (pieces.flatten ≠ [] →
      conversion iconv_open pieces.flatten opts.codepage (source_encoding cs opts) ≠ some [])

/-- The pieces of a write are what the chunks of the pipe are decoded to. A message may be left by
the conversion of a newline. -/
def WritesAlike (sv : FileServices) (zds : ZDS) (chunks : List Bytes) : Prop :=
  let opts := zds.encoding_opts
  let (_, newline_msg) := setup_encoding cs iconv_open opts
  sv.fopen_write = true → zds_use_codepage opts = true →
  ∀ pieces left_over, zbase64.decode_run chunks (some []) = (.ok pieces, left_over) →
  CutHarmless iconv_open (zds.e_msg || newline_msg) pieces (source_encoding cs opts) opts.codepage

end

end Zowex

import Zowex.Lib.CardImages
import Zowex.Spec.DsCommands
import Zowex.Spec.Jobs

/-! `handle_job_submit_jcl` up to the internal reader: the conversion of the text, its records of 80
bytes, and what is written. -/

namespace Zowex.job

open ds zds zjb

variable {Shift : Type}

/-- The input and two of the arguments. -/
structure SubmitArgs where
  data : Bytes
  encoding : Option Bytes
  local_encoding : Option Bytes

/-- What the services of `zjb_submit` return, for the bytes that are written. -/
structure Jes where
  dyninit : ℤ
  dynalloc : ℤ
  zds_write : Bytes → ℤ
  SYS_LASTJOBID : Bytes → ℤ × Bytes
  SYS_CORR_LASTJOB : ℤ
  dynfree : ℤ

/-- A return code, the job id, and the bytes that were given to the internal reader. -/
structure Submitted where
  rc : ℤ
  jobid : Bytes := []
  given : Option Bytes := none

def zjb_submit (jes : Jes) (contents : Bytes) : Submitted :=
  if jes.dyninit ≠ 0 then { rc := RTNCD_FAILURE }
  else if jes.dynalloc ≠ 0 then { rc := RTNCD_FAILURE }
  else
    let given := some contents
    if jes.zds_write contents ≠ 0 then { rc := jes.zds_write contents, given }
    else
      let symbol := jes.SYS_LASTJOBID contents
      if symbol.1 ≠ 0 then { rc := symbol.1, given }
      else if symbol.2 = [] then { rc := RTNCD_FAILURE, given }
      else if jes.SYS_CORR_LASTJOB ≠ 0 then
        { rc := jes.SYS_CORR_LASTJOB, jobid := symbol.2, given }
      else if jes.dynfree ≠ 0 then { rc := RTNCD_FAILURE, jobid := symbol.2, given }
      else { rc := RTNCD_SUCCESS, jobid := symbol.2, given }

section

variable (cs : Charset)

/-- With `strip_crlf`. -/
def job_submit_common (jes : Jes) (jcl : Bytes) : Submitted :=
  zjb_submit jes ((CardImages.pieces (cs.code '\n') jcl).map fun line =>
    CardImages.record 80 (cs.code ' ') (strip_cr line)).flatten

variable (iconv_open : IconvOpen Shift) (args : SubmitArgs)

def encoding_prepared : Bool :=
  match args.encoding with
  | none => false
  | some encoding => encoding ≠ [] ∧ encoding.length < codepage_size

def encoding_opts : ZEncode :=
  let opts := zut_prepare_encoding cs (args.encoding.getD []) {}
  let source_encoding := args.local_encoding.getD []
  if source_encoding ≠ [] ∧ source_encoding.length < codepage_size then
    { opts with source_codepage := source_encoding }
  else opts

/-- The text after the conversion, none for an exception. -/
def converted_data : Option Bytes :=
  let opts := encoding_opts cs args
  if encoding_prepared args ∧ opts.data_type ≠ .eDataTypeBinary then
    let source_encoding :=
      if c_string opts.source_codepage ≠ [] then c_string opts.source_codepage
      else cs.str "UTF-8"
    (zut_encode iconv_open args.data source_encoding (c_string opts.codepage)).output
  else some args.data

def handle_job_submit_jcl (jes : Jes) : Option Submitted :=
  (converted_data cs iconv_open args).map (job_submit_common cs jes)

end

/-! What is to be submitted. -/

/-- The bytes of a text in each code page, none where it has no code there. -/
abbrev Pages := Bytes → List Char → Option Bytes

/-- The code pages that are asked for, from and to. With no encoding, or with `binary`, the text is
that of the system. -/
def asked (cs : Charset) (encoding local_encoding : Option Bytes) : Bytes × Bytes :=
  let to_encoding := encoding.getD []
  let from_encoding := local_encoding.getD []
  if to_encoding = [] ∨ to_encoding = cs.str "binary" then (cs.str "IBM-1047", cs.str "IBM-1047")
  else (if from_encoding = [] then cs.str "UTF-8" else from_encoding, to_encoding)

/-- A text with its bytes in the code page that it comes in. -/
structure Jcl (cs : Charset) (pages : Pages) where
  text : List Char
  data : Bytes
  encoding : Option Bytes
  local_encoding : Option Bytes
  coded : pages (asked cs encoding local_encoding).1 text = some data

/-- The lines of a text, without a carriage return before their end. -/
def lines (text : List Char) : List (List Char) :=
  (CardImages.pieces '\n' text).map (CardImages.without '\r')

section

variable {cs : Charset} {pages : Pages} (jcl : Jcl cs pages)

def Jcl.args : SubmitArgs := ⟨jcl.data, jcl.encoding, jcl.local_encoding⟩

/-- The lines in the code page that they are to be submitted in. -/
def Jcl.coded_lines : Option (List Bytes) :=
  (lines jcl.text).mapM (pages (asked cs jcl.encoding jcl.local_encoding).2)

/-- Whatever the services return: a job that is submitted has a record for each line, and each line
has its place there. -/
def Complete (iconv_open : IconvOpen Shift) : Prop :=
  ∀ jes submitted, handle_job_submit_jcl cs iconv_open jcl.args jes = some submitted →
    submitted.rc = RTNCD_SUCCESS →
    ∃ coded, jcl.coded_lines = some coded ∧ (∀ line ∈ coded, line.length ≤ 80) ∧
      submitted.given = some (coded.map (CardImages.record 80 (cs.code ' '))).flatten

/-- The bytes, cut at the native line ends, show the lines, and each line fits. -/
def KeepsLines (bytes : Bytes) : Prop :=
  ∃ coded, jcl.coded_lines = some coded ∧ (∀ line ∈ coded, line.length ≤ 80) ∧
    List.Forall₂ (CardImages.Shows 80 (cs.code ' '))
      ((CardImages.pieces (cs.code '\n') bytes).map strip_cr) coded

end

end Zowex.job

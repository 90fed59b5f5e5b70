import Zowex.Spec.Streams
import Zowex.Spec.Parser
import Zowex.Spec.Tools

/-! The commands of `ds.cpp` that view a data set and write to it. A system is what its data sets
hold, by their volumes and names, and a catalog, which a name without a volume goes through. -/

namespace Zowex.ds

open zds plugin

variable (cs : Charset)

/-- `get<std::string>` with an empty default. -/
def get_string (args : ArgumentMap) (key : String) : Bytes :=
  (args[cs.str key]?.bind Argument.get_string).getD []

/-- `sizeof` of a codepage. -/
def codepage_size : ℕ := 16

def zut_prepare_encoding (encoding_value : Bytes) (opts : ZEncode) : ZEncode :=
  if encoding_value = [] then opts
  else if encoding_value.length < codepage_size then
    { opts with
      codepage := encoding_value
      data_type := if encoding_value = cs.str "binary" then .eDataTypeBinary else .eDataTypeText }
  else opts

/-- What both commands make of `encoding` and `local-encoding`. -/
def encoding_opts (args : ArgumentMap) : ZEncode :=
  let opts := zut_prepare_encoding cs (get_string cs args "encoding") {}
  let source_encoding := get_string cs args "local-encoding"
  if source_encoding ≠ [] ∧ source_encoding.length < codepage_size then
    { opts with source_codepage := source_encoding }
  else opts

/-- The characters of an e-tag and its NUL. -/
def etag_size : ℕ := 9

def etag_value (args : ArgumentMap) : Bytes :=
  let etag_value := get_string cs args "etag"
  if etag_value = [] then
    match args[cs.str "etag"]?.bind Argument.get_int with
    | some etag_int => (toString etag_int).toList.map cs.code
    | none => []
  else etag_value

/-- A data set by the volume and the name, that of a member with its data set before it. -/
structure System (Contents : Type) where
  catalog : Bytes → Option Bytes
  contents : Bytes → Bytes → Contents

namespace System

variable {Contents : Type} (s : System Contents)

/-- The volume of the data set, or of that of the member. -/
def volume (dsn : Bytes) : Option Bytes := s.catalog (dsn.takeWhile (· ≠ cs.code '('))

def store (volume name : Bytes) (contents : Contents) : System Contents :=
  { s with
    contents := fun volume' name' =>
      if volume' = volume ∧ name' = name then contents else s.contents volume' name' }

end System

structure Services where
  data_sets : DataSetServices
  /-- For `bpxwdyn`. -/
  tool : tool.Services

inductive CommandError
  | etag_too_long
  | not_allocated
  | write (e : WriteError)
  | not_freed

/-- What a command has left, with what was written to where that was tried. -/
structure Written (Contents : Type) where
  system : System Contents
  stored : Option Contents := none
  result : Except CommandError TruncationTracker

variable {Shift Contents : Type} (iconv_open : IconvOpen Shift) (lib : Library Contents)
  (sv : Services)

/-- A write by name. What is not in the catalog cannot be accessed. -/
def write_cataloged (opts : ZDSWriteOpts) (source : Source) (s : System Contents) :
    System Contents × Option Contents × Except WriteError TruncationTracker :=
  match s.volume cs opts.dsname with
  | none => (s, none, .error (if opts.dsname = [] then .no_target else .not_accessible))
  | some volume =>
    let run := zds_write cs iconv_open lib sv.data_sets opts source (s.contents volume opts.dsname)
    (s.store volume opts.dsname run.contents, some run.contents, run.result)

def alloc_command (dd dsn volser : Bytes) : Bytes :=
  cs.str "alloc dd(" ++ dd ++ cs.str ") da('" ++ dsn ++ cs.str "') shr vol(" ++ volser ++ cs.str ")"

/-- The name of the DD that is allocated is put into the `ZDS`. The options of the write have the
name of the data set only. -/
def handle_data_set_write (args : ArgumentMap) (input : Bytes) (pipe : Bytes → List Bytes)
    (s : System Contents) : Written Contents :=
  let dsn := get_string cs args "dsn"
  let etag := etag_value cs args
  if etag.length ≥ etag_size then ⟨s, none, .error .etag_too_long⟩
  else
    let volser := get_string cs args "volser"
    let dds := if volser ≠ [] then [alloc_command cs (cs.str "output") dsn volser] else []
    let (rc, log) := tool.zut_loop_dynalloc sv.tool 0 dds
    if rc ≠ 0 then ⟨s, none, .error .not_allocated⟩
    else
      let pipe_path := get_string cs args "pipe-path"
      let source := if pipe_path ≠ [] then .streamed (pipe pipe_path) else .buffered input
      let opts : ZDSWriteOpts :=
        { zds := { encoding_opts := encoding_opts cs args, etag }, dsname := dsn }
      let (s, stored, result) := write_cataloged cs iconv_open lib sv opts source s
      if dds ≠ [] ∧ (tool.zut_free_dynalloc_dds cs sv.tool log.length dds).1 ≠ 0 then
        ⟨s, stored, .error .not_freed⟩
      else ⟨s, stored, result.mapError .write⟩

/-- What is read for a view, in base64 where it goes through a pipe. -/
def view_contents (args : ArgumentMap) (contents : Contents) : Except ReadError Bytes :=
  let opts := encoding_opts cs args
  if get_string cs args "pipe-path" ≠ [] then
    (zds_read_streamed cs iconv_open lib sv.data_sets.file sv.data_sets.attrs { encoding_opts := opts }
      contents).map StreamedRead.pipe
  else zds_read cs iconv_open lib sv.data_sets.file.fopen_read sv.data_sets.attrs opts contents

/-- What a view reads, none where it does not come to that. With a volume it reads from the DD. -/
def handle_data_set_view (args : ArgumentMap) (s : System Contents) :
    Option (Except ReadError Bytes) :=
  let dsn := get_string cs args "dsn"
  let volser := get_string cs args "volser"
  if volser ≠ [] then
    let dds := [alloc_command cs (cs.str "input") dsn volser]
    if (tool.zut_loop_dynalloc sv.tool 0 dds).1 ≠ 0 then none
    else some (view_contents cs iconv_open lib sv args (s.contents volser dsn))
  else (s.volume cs dsn).map fun volume =>
    view_contents cs iconv_open lib sv args (s.contents volume dsn)

/-! What is asked of the commands. -/

/-- A write with a volume that succeeds changes only the data set on that volume, and a view with
the same arguments reads what was written. -/
def VolumeSelects (catalog : Bytes → Option Bytes) (args : ArgumentMap) : Prop :=
  ∀ (Shift Contents : Type) (iconv_open : IconvOpen Shift) (lib : Library Contents)
    (sv view_sv : Services) (contents : Bytes → Bytes → Contents) (input : Bytes)
    (pipe : Bytes → List Bytes) (view_args : ArgumentMap),
  let dsn := get_string cs args "dsn"
  let volser := get_string cs args "volser"
  let written := handle_data_set_write cs iconv_open lib sv args input pipe ⟨catalog, contents⟩
  (∀ key ∈ ["dsn", "volser", "encoding", "local-encoding"],
    view_args[cs.str key]? = args[cs.str key]?) →
  written.result.isOk = true →
  (written.system.catalog = catalog ∧
    ∀ volume name, volume ≠ volser ∨ name ≠ dsn →
      written.system.contents volume name = contents volume name) ∧
  ∃ stored, written.stored = some stored ∧
    ∀ read, handle_data_set_view cs iconv_open lib view_sv view_args written.system = some read →
      read = view_contents cs iconv_open lib view_sv view_args stored

/-- A write changes a data set only where the checksum of what it holds is the one given. -/
def Locked (args : ArgumentMap) (checksum : ℕ) : Prop :=
  ∀ (Shift Contents : Type) (iconv_open : IconvOpen Shift) (lib : Library Contents)
    (sv : Services) (input : Bytes) (pipe : Bytes → List Bytes) (s : System Contents),
  let dsn := get_string cs args "dsn"
  let opts := encoding_opts cs args
  let read_opts := if zds_use_codepage opts then opts else {}
  (handle_data_set_write cs iconv_open lib sv args input pipe s).system.contents ≠ s.contents →
  ∃ volume current_contents, s.volume cs dsn = some volume ∧
    zds_read cs iconv_open lib sv.data_sets.file.fopen_read sv.data_sets.attrs read_opts
      (s.contents volume dsn) = .ok current_contents ∧
    zut_calc_adler32_checksum current_contents = checksum

/-! E-tags that keep a write from what has changed in between: an e-tag is the text of a checksum in
base 16, and comes as a word of a command line or as a parameter of a request. -/

section

open lexer parser

/-- What the parser makes of a word that is the value of `--etag`. -/
def etag_argument (rt : Runtime) (word : Bytes) : Argument :=
  parse_token_value rt (classify_argument rt word) .Single false

/-- Digits, an `e` and digits, which the library reads as a number that is in range. -/
structure ReadAsFloat (rt : Runtime) (text : Bytes) : Prop where
  shape : ∃ integer exponent, text = integer ++ rt.code 'e' :: exponent ∧ integer ≠ [] ∧
    exponent ≠ [] ∧ ∀ c ∈ integer ++ exponent, is_ascii_dec_digit rt c = true
  in_range : (rt.strtod text).erange = false
  whole : (rt.strtod text).read = text.length

/-- Every write command with this e-tag is locked. -/
def Locks (cs : Charset) (checksum : ℕ) (etag : Argument) : Prop :=
  ∀ args : ArgumentMap, args[cs.str "etag"]? = some etag → Locked cs args checksum

end

end Zowex.ds

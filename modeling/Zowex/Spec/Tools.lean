import Zowex.Spec.Jobs

/-! The commands of `tool.cpp`, and the compression of `ds.cpp`, as the sequence of their calls of
`bpxwdyn`: what they allocate, and what they free on each of their ways out. -/

namespace Zowex.tool

open zjb

def ZUT_RTNCD_SEARCH_SUCCESS : ℤ := 1
def ZUT_RTNCD_SEARCH_WARNING : ℤ := 6

/-- A command that was passed to `bpxwdyn`, and its return code. -/
abbrev Call := Bytes × ℤ

/-- What the services give in one run. The calls of `bpxwdyn` are numbered. -/
structure Services where
  bpxwdyn : ℕ → Bytes → ℤ
  is_pds : Bool
  zut_convert_dsect : ℤ
  zut_search : Bytes → ℤ
  /-- For the program and its parameters. -/
  zut_run : Bytes → Bytes → ℤ
  /-- For the name of the DD, and what is written to it. -/
  zds_write : Bytes → Bytes → ℤ
  /-- The return code, and what is read from the DD. -/
  zds_read : Bytes → ℤ × Bytes
  /-- Whether the stream on a DD can be opened. -/
  ofstream : Bytes → Bool
  ifstream : Bytes → Bool
  /-- The job of the process, and the jobs of the system. -/
  jobid : Bytes
  ssi : Ssi
  zjb_read_job_content_by_dsn : Bytes → ℤ × Bytes

variable (cs : Charset) (sv : Services)

/-- `std::string::find`. -/
def find (text : Bytes) : Bytes → Option ℕ
  | [] => if text = [] then some 0 else none
  | c :: rest => if text.isPrefixOf (c :: rest) then some 0 else (find text rest).map (· + 1)

/-- The commands one after the other up to the first that fails, from the call of this number on. -/
def zut_loop_dynalloc (calls : ℕ) : List Bytes → ℤ × List Call
  | [] => (0, [])
  | alloc :: list =>
    let rc := sv.bpxwdyn calls alloc
    if rc ≠ 0 then (RTNCD_FAILURE, [(alloc, rc)])
    else
      let (rc', log) := zut_loop_dynalloc (calls + 1) list
      (rc', (alloc, rc) :: log)

/-- The name is what is between the first `dd(` and the parenthesis after it. -/
def free_command (entry : Bytes) : Option Bytes :=
  match find (cs.str "dd(") entry with
  | none => none
  | some dd_start =>
    let rest := entry.drop (dd_start + 3)
    if cs.code ')' ∈ rest then
      some (cs.str "free dd(" ++ rest.takeWhile (· ≠ cs.code ')') ++ cs.str ")")
    else none

def zut_free_dynalloc_dds (calls : ℕ) (list : List Bytes) : ℤ × List Call :=
  match list.mapM (free_command cs) with
  | none => (RTNCD_FAILURE, [])
  | some free_dds => zut_loop_dynalloc sv calls free_dds

structure Run where
  rc : ℤ
  log : List Call

/-- A way out that frees the DDs first. -/
def freed (dds : List Bytes) (log : List Call) (rc : ℤ) : Run :=
  ⟨rc, log ++ (zut_free_dynalloc_dds cs sv log.length dds).2⟩

/-- The strings of a request to convert a DSECT. -/
structure ConvertArgs where
  adata_dsn : Bytes
  chdr_dsn : Bytes
  sysprint : Bytes
  sysout : Bytes
  /-- `getlogin`. -/
  user : Bytes

/-- `tolower`. -/
def tolower (c : UInt8) : UInt8 :=
  (((Charset.upper.map cs.code).zip (Charset.lower.map cs.code)).lookup c).getD c

def output_path (args : ConvertArgs) (path : Bytes) (name : String) : Bytes :=
  if path = [] then
    cs.str "/tmp/" ++ args.user.map (tolower cs) ++ cs.str ("_" ++ name ++ ".txt")
  else path

def convert_dds (args : ConvertArgs) : List Bytes :=
  let options := cs.str
    "') pathopts(owronly,ocreat,otrunc) pathmode(sirusr,siwusr,sirgrp) filedata(text) msg(2)"
  [cs.str "alloc fi(sysprint) path('" ++ output_path cs args args.sysprint "sysprint" ++ options,
    cs.str "alloc fi(sysout) path('" ++ output_path cs args args.sysout "sysout" ++ options,
    cs.str "alloc fi(sysadata) da('" ++ args.adata_dsn ++ cs.str "') shr msg(2)",
    cs.str "alloc fi(edcdsect) da('" ++ args.chdr_dsn ++ cs.str "') shr msg(2)"]

def handle_tool_convert_dsect (args : ConvertArgs) : Run :=
  let dds := convert_dds cs args
  let (rc, log) := zut_loop_dynalloc sv 0 dds
  if rc ≠ 0 then ⟨RTNCD_FAILURE, log⟩
  else if sv.zut_convert_dsect ≠ 0 then freed cs sv dds log RTNCD_FAILURE
  else freed cs sv dds log sv.zut_convert_dsect

structure SearchArgs where
  string : Bytes
  parms : Bytes
  dsn : Bytes
  /-- `space(50,100)` where it is not given. -/
  outdd_attributes : Bytes

def search_dds (args : SearchArgs) : List Bytes :=
  [cs.str "alloc dd(newdd) da('" ++ args.dsn ++ cs.str "') shr",
    cs.str "alloc dd(outdd) " ++ args.outdd_attributes,
    cs.str "alloc dd(sysin)"]

/-- What becomes of the control statements is not looked at: the return code is still that of the
allocations. -/
def handle_tool_search (args : SearchArgs) : Run :=
  let dds := search_dds cs args
  let (rc, log) := zut_loop_dynalloc sv 0 dds
  if rc ≠ 0 then ⟨RTNCD_FAILURE, log⟩
  else
    let rc := sv.zut_search (args.parms.map (zds.toupper cs))
    if RTNCD_SUCCESS ≠ rc ∧ RTNCD_WARNING ≠ rc ∧ ZUT_RTNCD_SEARCH_SUCCESS ≠ rc ∧
        ZUT_RTNCD_SEARCH_WARNING ≠ rc then freed cs sv dds log RTNCD_FAILURE
    else if (sv.zds_read (cs.str "OUTDD")).1 ≠ 0 then freed cs sv dds log RTNCD_FAILURE
    else freed cs sv dds log RTNCD_SUCCESS

structure AmblistArgs where
  dsn : Bytes
  control_statements : Bytes

def amblist_dds (args : AmblistArgs) : List Bytes :=
  [cs.str "alloc dd(syslib) da('" ++ args.dsn ++ cs.str "') shr",
    cs.str "alloc dd(sysprint) lrecl(80) recfm(f,b) blksize(80)",
    cs.str "alloc dd(sysin) lrecl(80) recfm(f,b) blksize(80)"]

/-- As in a search, the write is not looked at. -/
def handle_tool_amblist (args : AmblistArgs) : Run :=
  let dds := amblist_dds cs args
  let (rc, log) := zut_loop_dynalloc sv 0 dds
  if rc ≠ 0 then ⟨RTNCD_FAILURE, log⟩
  else if sv.zut_run (cs.str "AMBLIST") [] ≠ RTNCD_SUCCESS then freed cs sv dds log RTNCD_FAILURE
  else if (sv.zds_read (cs.str "SYSPRINT")).1 ≠ 0 then freed cs sv dds log RTNCD_FAILURE
  else freed cs sv dds log RTNCD_SUCCESS

def parse_escape_chars : Bytes → Bytes
  | [] => []
  | [c] => [c]
  | c :: next :: rest =>
    if c = cs.code '\\' then
      if next = cs.code 'n' then cs.code '\n' :: parse_escape_chars rest
      else if next = cs.code 't' then cs.code '\t' :: parse_escape_chars rest
      else if next = cs.code '\\' then cs.code '\\' :: parse_escape_chars rest
      else if next = cs.code '"' then cs.code '"' :: parse_escape_chars rest
      else c :: next :: parse_escape_chars rest
    else c :: parse_escape_chars (next :: rest)

structure RunArgs where
  program : Bytes
  parms : Bytes
  in_dd : Bytes
  out_dd : Bytes
  /-- The dynamic keywords with their values, in the order of their map. -/
  dynamic : List (Bytes × Bytes)

def run_dds (args : RunArgs) : List Bytes :=
  args.dynamic.map fun (key, dd_spec) => cs.str "alloc dd(" ++ key ++ cs.str ") " ++ dd_spec

def dd_is_sysout (dd_spec : Bytes) : Bool :=
  (find (cs.str "sysout") (dd_spec.map (tolower cs))).isSome

/-- Whether the output is a DD of the spool. -/
def out_is_sysout (args : RunArgs) : Bool :=
  ((args.dynamic.lookup args.out_dd).map (dd_is_sysout cs)).getD false

def trimmed_upper (name : Bytes) : Bytes := zds.zut_trim cs (name.map (zds.toupper cs))

/-- The data set of the output among those of the job. -/
def find_output (out_dd : Bytes) (job_dds : List ZJobDD) : Bytes :=
  ((job_dds.find? fun dd => trimmed_upper cs dd.ddn = trimmed_upper cs out_dd).map
    ZJobDD.dsn).getD []

def handle_tool_run (args : RunArgs) : Run :=
  let dds := run_dds cs args
  let (rc, log) := zut_loop_dynalloc sv 0 dds
  if rc ≠ 0 then ⟨RTNCD_FAILURE, log⟩
  else if args.in_dd ≠ [] ∧ !sv.ofstream args.in_dd then freed cs sv dds log RTNCD_FAILURE
  else
    let rc := sv.zut_run (args.program.map (zds.toupper cs)) (parse_escape_chars cs args.parms)
    if args.out_dd = [] then freed cs sv dds log rc
    else if out_is_sysout cs args then
      let list := zjb_list_dds cs sv.ssi {} sv.jobid
      if list.rc ≠ 0 then ⟨list.rc, log⟩
      else
        let rc := (sv.zjb_read_job_content_by_dsn (find_output cs args.out_dd list.result)).1
        if rc ≠ 0 then freed cs sv dds log RTNCD_FAILURE else freed cs sv dds log rc
    else if !sv.ifstream args.out_dd then freed cs sv dds log RTNCD_FAILURE
    else freed cs sv dds log rc

def compress_dds (dsn : Bytes) : List Bytes :=
  let dsn := dsn.map (zds.toupper cs)
  [cs.str "alloc dd(a) da('" ++ dsn ++ cs.str "') shr",
    cs.str "alloc dd(b) da('" ++ dsn ++ cs.str "') shr",
    cs.str "alloc dd(sysprint) lrecl(80) recfm(f,b) blksize(80)",
    cs.str "alloc dd(sysin) lrecl(80) recfm(f,b) blksize(80)"]

def handle_data_set_compress (dsn : Bytes) : Run :=
  if !sv.is_pds then ⟨RTNCD_FAILURE, []⟩
  else
    let dds := compress_dds cs dsn
    let (rc, log) := zut_loop_dynalloc sv 0 dds
    if rc ≠ 0 then ⟨RTNCD_FAILURE, log⟩
    else if sv.zds_write (cs.str "sysin") (cs.str "        COPY OUTDD=B,INDD=A") ≠ 0 then
      freed cs sv dds log RTNCD_FAILURE
    else if sv.zut_run (cs.str "IEBCOPY") [] ≠ RTNCD_SUCCESS then
      freed cs sv dds log RTNCD_FAILURE
    else if (sv.zds_read (cs.str "SYSPRINT")).1 ≠ 0 then freed cs sv dds log RTNCD_FAILURE
    else
      let (rc, log') := zut_free_dynalloc_dds cs sv log.length dds
      ⟨if rc ≠ 0 then RTNCD_FAILURE else RTNCD_SUCCESS, log ++ log'⟩

/-! A command leaves no DD behind. -/

inductive Command
  | convert_dsect (args : ConvertArgs)
  | search (args : SearchArgs)
  | amblist (args : AmblistArgs)
  | run (args : RunArgs)
  | compress (dsn : Bytes)

def Command.handle : Command → Run
  | convert_dsect args => handle_tool_convert_dsect cs sv args
  | search args => handle_tool_search cs sv args
  | amblist args => handle_tool_amblist cs sv args
  | run args => handle_tool_run cs sv args
  | compress dsn => handle_data_set_compress cs sv dsn

/-- The DD of an allocation. -/
def allocated_name (command : Bytes) : Option Bytes :=
  if (cs.str "alloc dd(").isPrefixOf command ∨ (cs.str "alloc fi(").isPrefixOf command then
    some ((command.drop 9).takeWhile (· ≠ cs.code ')'))
  else none

def freed_name (command : Bytes) : Option Bytes :=
  if (cs.str "free dd(").isPrefixOf command then
    some ((command.drop 8).takeWhile (· ≠ cs.code ')'))
  else none

/-- Each DD that was allocated is freed later, unless this fails. -/
def LeavesNone (log : List Call) : Prop :=
  ∀ before command after name, log = before ++ (command, 0) :: after →
    allocated_name cs command = some name → ∃ call ∈ after, freed_name cs call.1 = some name

def Command.dds : Command → List Bytes
  | convert_dsect args => convert_dds cs args
  | search args => search_dds cs args
  | amblist args => amblist_dds cs args
  | run args => run_dds cs args
  | compress dsn => compress_dds cs dsn

/-- The commands succeed, from the call of this number on. -/
def Succeed (calls : ℕ) (commands : List Bytes) : Prop :=
  ∀ i command, commands[i]? = some command → sv.bpxwdyn (calls + i) command = 0

/-- The first command fails, or there is none. -/
def FirstFails (commands : List Bytes) : Prop :=
  ∀ command, commands.head? = some command → sv.bpxwdyn 0 command ≠ 0

/-- Each of the DDs has its name after the first `dd(` of its allocation, and nothing that is freed
before it fails to be. -/
def EachFreed (dds : List Bytes) : Prop :=
  ∃ free_dds, dds.mapM (free_command cs) = some free_dds ∧
    ∀ dd ∈ dds, ∃ before command after, free_dds = before ++ command :: after ∧
      freed_name cs command = allocated_name cs dd ∧ Succeed sv dds.length before

/-- The way out that frees nothing: the output is on the spool, and the data sets of the job cannot
be listed. -/
def NotListed : Command → Prop
  | .run args => (args.in_dd ≠ [] → sv.ofstream args.in_dd = true) ∧ args.out_dd ≠ [] ∧
      out_is_sysout cs args = true ∧ (zjb_list_dds cs sv.ssi {} sv.jobid).rc ≠ 0
  | _ => False

/-- A data set that is not a PDS is not compressed. -/
def NotCompressed : Command → Prop
  | .compress _ => sv.is_pds = false
  | _ => False

/-- Nothing is allocated, or all DDs are, and each of them is freed. -/
def AllOrNothing (command : Command) : Prop :=
  NotCompressed sv command ∨ FirstFails sv (command.dds cs) ∨
    Succeed sv 0 (command.dds cs) ∧ ¬ NotListed cs sv command ∧ EachFreed cs sv (command.dds cs)

/-! A command reports the step that fails. -/

/-- What becomes of the data of the stream on a DD. -/
structure Streams where
  /-- All that is put into it gets to the DD. -/
  written : Bytes → Bool
  /-- The lines of it are read up to the end. -/
  read : Bytes → Bool

variable (streams : Streams)

def search_statements (args : SearchArgs) : Bytes :=
  cs.str " SRCHFOR '" ++ args.string ++ cs.str "'\n"

def amblist_statements (args : AmblistArgs) : Bytes :=
  (cs.str " " ++ args.control_statements).map (zds.toupper cs)

/-- The return codes of a search that is not taken for a failure. -/
def SearchSucceeded (rc : ℤ) : Prop :=
  RTNCD_SUCCESS = rc ∨ RTNCD_WARNING = rc ∨ ZUT_RTNCD_SEARCH_SUCCESS = rc ∨
    ZUT_RTNCD_SEARCH_WARNING = rc

def program_rc (args : RunArgs) : ℤ :=
  sv.zut_run (args.program.map (zds.toupper cs)) (parse_escape_chars cs args.parms)

/-- A run comes to its program. -/
def Started (args : RunArgs) : Prop :=
  Succeed sv 0 (run_dds cs args) ∧ (args.in_dd ≠ [] → sv.ofstream args.in_dd = true)

/-- The return code of reading the output of a run from the spool. -/
def spool_rc (args : RunArgs) : ℤ :=
  let list := zjb_list_dds cs sv.ssi {} sv.jobid
  if list.rc ≠ 0 then list.rc
  else if (sv.zjb_read_job_content_by_dsn (find_output cs args.out_dd list.result)).1 ≠ 0 then
    RTNCD_FAILURE
  else 0

/-- Each step of the command succeeds. -/
def Command.Completed : Command → Prop
  | convert_dsect args => Succeed sv 0 (convert_dds cs args) ∧ sv.zut_convert_dsect = 0
  | search args => Succeed sv 0 (search_dds cs args) ∧
      sv.zds_write (cs.str "sysin") (search_statements cs args) = 0 ∧
      SearchSucceeded (sv.zut_search (args.parms.map (zds.toupper cs))) ∧
      (sv.zds_read (cs.str "OUTDD")).1 = 0
  | amblist args => Succeed sv 0 (amblist_dds cs args) ∧
      sv.zds_write (cs.str "sysin") (amblist_statements cs args) = 0 ∧
      sv.zut_run (cs.str "AMBLIST") [] = 0 ∧ (sv.zds_read (cs.str "SYSPRINT")).1 = 0
  | run args => Started cs sv args ∧ (args.in_dd ≠ [] → streams.written args.in_dd = true) ∧
      program_rc cs sv args = 0 ∧
      (args.out_dd ≠ [] → out_is_sysout cs args = true → spool_rc cs sv args = 0) ∧
      (args.out_dd ≠ [] → out_is_sysout cs args = false →
        sv.ifstream args.out_dd = true ∧ streams.read args.out_dd = true)
  | compress dsn => sv.is_pds = true ∧ Succeed sv 0 (compress_dds cs dsn) ∧
      sv.zds_write (cs.str "sysin") (cs.str "        COPY OUTDD=B,INDD=A") = 0 ∧
      sv.zut_run (cs.str "IEBCOPY") [] = 0 ∧ (sv.zds_read (cs.str "SYSPRINT")).1 = 0

/-- A command succeeds only where each of its steps does, and a run has the return code of its
program where that is not zero. -/
def HidesNone (command : Command) : Prop :=
  ((command.handle cs sv).rc = RTNCD_SUCCESS → command.Completed cs sv streams) ∧
    ∀ args, command = .run args → Started cs sv args → program_rc cs sv args ≠ 0 →
      (command.handle cs sv).rc = program_rc cs sv args

/-- The write of the control statements does not fail alone. -/
def WriteNoted (dds : List Bytes) (rc : ℤ) (program output : Prop) : Prop :=
  rc = 0 ∨ ¬ Succeed sv 0 dds ∨ ¬ program ∨ ¬ output

/-- Nothing is lost in a stream, once the program has succeeded and the output can be read. -/
def StreamsNoted (args : RunArgs) : Prop :=
  (args.out_dd = [] ∨ (out_is_sysout cs args = true ∧ spool_rc cs sv args = 0) ∨
    out_is_sysout cs args = false ∧ sv.ifstream args.out_dd = true) →
  (args.in_dd ≠ [] → streams.written args.in_dd = true) ∧
    (args.out_dd ≠ [] → out_is_sysout cs args = false → streams.read args.out_dd = true)

/-- The output is not from the spool and can be opened, or reading it happens to have the return
code of the program. -/
def OwnCode (args : RunArgs) : Prop :=
  args.out_dd = [] ∨
    (out_is_sysout cs args = true ∧ spool_rc cs sv args = program_rc cs sv args) ∨
    out_is_sysout cs args = false ∧
      (sv.ifstream args.out_dd = true ∨ program_rc cs sv args = RTNCD_FAILURE)

def Command.Noted : Command → Prop
  | convert_dsect _ => True
  | search args =>
    WriteNoted sv (search_dds cs args) (sv.zds_write (cs.str "sysin") (search_statements cs args))
      (SearchSucceeded (sv.zut_search (args.parms.map (zds.toupper cs))))
      ((sv.zds_read (cs.str "OUTDD")).1 = 0)
  | amblist args =>
    WriteNoted sv (amblist_dds cs args) (sv.zds_write (cs.str "sysin") (amblist_statements cs args))
      (sv.zut_run (cs.str "AMBLIST") [] = 0) ((sv.zds_read (cs.str "SYSPRINT")).1 = 0)
  | run args => Started cs sv args →
      (program_rc cs sv args = 0 → StreamsNoted cs sv streams args) ∧
      (program_rc cs sv args ≠ 0 → OwnCode cs sv args)
  | compress _ => True

end Zowex.tool

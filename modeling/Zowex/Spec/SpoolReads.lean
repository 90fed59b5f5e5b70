import Zowex.Spec.FromStr
import Zowex.Spec.Jobs

/-! Reading a spool data set: the calls of `zjb.cpp` that look for it by its key or its name, and
those of a job's statements. -/

namespace Zowex.zjs

open zjb zds

def ZJB_RTNCD_JOB_DSN_KEY_NOT_FOUND : ℤ := -9
def ZJB_RTNCD_PARSE_ERROR_SIZE : ℤ := -11
def ZJB_RTNCD_PARSE_ERROR_MALFORMED : ℤ := -12
def ZJB_RTNCD_PARSE_ERROR_NUMBER_LEN : ℤ := -13
def ZJB_RTNCD_PARSE_ERROR_NUMBER_CHAR : ℤ := -14

/-- What a read gives: a return code, the diagnostics' reason and the content. -/
structure SpoolContent where
  rc : ℤ
  detail_rc : ℤ
  response : Bytes

/-- Dynamic allocation, for a name and a browse token where there is one, and what is done with the
DD name that it gives. -/
structure Spool where
  svc99 : Option Bytes → Bytes → ℤ × Bytes
  zds_read : Bytes → Bytes → Bool → SpoolContent
  dynfree : Bytes → ℤ

/-- The subsystem and the spool while a call goes on. -/
structure System where
  ssi : Ssi
  spool : Spool

/-- What is opened to be read. -/
structure Opened where
  token : Option Bytes
  dsn : Bytes
  is_asa : Bool
  deriving DecidableEq

structure ReadRun where
  rc : ℤ
  handle : ZJB
  opened : Option Opened := none
  response : Bytes := []

def zeros : Bytes := List.replicate 80 0

/-- `memcpy` of a token into the handle. -/
def set_token (zjb : ZJB) (token : Bytes) : ZJB :=
  { zjb with token := ⟨(token ++ zeros).take 80, by simp [zeros]⟩ }

/-- The token that is passed on, if it has one bit at least. -/
def token_passed (token : Bytes) : Option Bytes := if token = zeros then none else some token

variable (cs : Charset)

/-- The fourth part of a name: a `D` and the key. -/
def parse_ddskey (ddskey : Bytes) : Except ℤ ℤ :=
  match ddskey with
  | [] => .error ZJB_RTNCD_PARSE_ERROR_MALFORMED
  | first :: key_str =>
    if first ≠ cs.code 'D' then .error ZJB_RTNCD_PARSE_ERROR_MALFORMED
    else if key_str = [] ∨ key_str.length > 7 then .error ZJB_RTNCD_PARSE_ERROR_NUMBER_LEN
    else if ¬ key_str.all (zjson.is_dec_digit cs) then .error ZJB_RTNCD_PARSE_ERROR_NUMBER_CHAR
    else .ok (zjson.strtoll cs key_str).1

/-- The third part of a name and the key in the fourth one. -/
def zjb_parse_dsn_for_key (dsn_str : Bytes) : Except ℤ (Bytes × ℤ) :=
  match dsn_str.splitOn (cs.code '.') with
  | _ :: _ :: jobid :: ddskey :: _ => (parse_ddskey cs ddskey).map fun key => (jobid, key)
  | _ => .error ZJB_RTNCD_PARSE_ERROR_SIZE

variable (sys : System)

/-- The part of `zjb_read_job_content_by_dsn` behind the lookup of the token. -/
def read_allocated (zjb : ZJB) (dsn : Bytes) (is_asa : Bool) : ReadRun :=
  let token := token_passed zjb.token.bytes
  let (rc, ddname) := sys.spool.svc99 token dsn
  if rc ≠ 0 then ⟨rc, { zjb with detail_rc := ZJB_RTNCD_SERVICE_FAILURE }, none, []⟩
  else
    let read := sys.spool.zds_read ddname dsn is_asa
    let newrc := sys.spool.dynfree ddname
    let zjb := { zjb with detail_rc := read.detail_rc }
    let opened := some { token, dsn, is_asa }
    if newrc ≠ 0 ∧ read.rc = 0 then ⟨newrc, zjb, opened, read.response⟩
    else ⟨read.rc, zjb, opened, read.response⟩

def same_name (dsn dsn' : Bytes) : Bool := zut_trim cs dsn = zut_trim cs dsn'

def zjb_read_job_content_by_dsn (zjb : ZJB) (dsn : Bytes) : ReadRun :=
  let zjb := set_token zjb zeros
  match zjb_parse_dsn_for_key cs dsn with
  | .error _ => read_allocated sys zjb dsn false
  | .ok (parsed_jobid, _) =>
    let list := zjb_list_dds cs sys.ssi zjb parsed_jobid
    if list.rc ≠ 0 then { rc := list.rc, handle := list.handle }
    else
      match list.result.find? fun dd => same_name cs dd.dsn dsn with
      | none => { rc := RTNCD_FAILURE, handle := list.handle }
      | some dd => read_allocated sys (set_token list.handle dd.token) dsn dd.is_asa

/-- The return code, the handle and the name of the data set with that key. -/
def zjb_get_job_dsn_by_key (zjb : ZJB) (jobid : Bytes) (key : ℤ) : ℤ × ZJB × Bytes :=
  let list := zjb_list_dds cs sys.ssi zjb jobid
  if list.rc ≠ 0 then (list.rc, list.handle, [])
  else
    match list.result.find? fun dd => key = dd.key with
    | none =>
      (RTNCD_WARNING, { list.handle with detail_rc := ZJB_RTNCD_JOB_DSN_KEY_NOT_FOUND }, [])
    | some dd => (RTNCD_SUCCESS, set_token list.handle dd.token, dd.dsn)

def zjb_read_job_content_by_key (zjb : ZJB) (jobid : Bytes) (key : ℤ) : ReadRun :=
  let (rc, zjb, job_dsn) := zjb_get_job_dsn_by_key cs sys zjb jobid key
  if rc ≠ 0 then { rc, handle := zjb } else zjb_read_job_content_by_dsn cs sys zjb job_dsn

/-- What `std::getline` gives up to a delimiter: nothing behind the last one. -/
def getline_parts (dsn : Bytes) : List Bytes :=
  let parts := dsn.splitOn (cs.code '.')
  if parts.getLast? = some [] then parts.dropLast else parts

/-- None where the first element of an empty list is referred to. -/
def zjb_read_job_jcl (zjb : ZJB) (jobid : Bytes) : Option ReadRun :=
  let list := zjb_list_dds cs sys.ssi zjb jobid
  if list.rc ≠ 0 then some { rc := list.rc, handle := list.handle }
  else
    match list.result with
    | [] => none
    | first :: _ =>
      match getline_parts cs first.dsn with
      | hlq :: next :: last :: _ =>
        let dot := [cs.code '.']
        some (zjb_read_job_content_by_dsn cs sys list.handle
          (hlq ++ dot ++ next ++ dot ++ last ++ cs.str ".JCL"))
      | _ =>
        some
          { rc := RTNCD_FAILURE
            handle := { list.handle with detail_rc := ZJB_RTNCD_UNEXPECTED_ERROR } }

/-! The uses of a handle. -/

inductive Use
  | call (operation : Operation) (jobid : Bytes)
  | list_by_owner (current_user owner_name prefix_name status_name : Bytes)
  | read_by_key (jobid : Bytes) (key : ℤ)
  | read_by_dsn (dsn : Bytes)
  | read_jcl (jobid : Bytes)

def Use.after (zjb : ZJB) : Use → ZJB
  | call operation jobid => (operation.call cs sys.ssi zjb jobid).1
  | list_by_owner current_user owner_name prefix_name status_name =>
    (zjb_list_by_owner cs sys.ssi current_user zjb owner_name prefix_name status_name).handle
  | read_by_key jobid key => (zjb_read_job_content_by_key cs sys zjb jobid key).handle
  | read_by_dsn dsn => (zjb_read_job_content_by_dsn cs sys zjb dsn).handle
  | read_jcl jobid => ((zjb_read_job_jcl cs sys zjb jobid).map ReadRun.handle).getD zjb

/-- The handle after some uses of it, with a system for each. -/
def used (uses : List (Use × System)) : ZJB :=
  uses.foldl (fun zjb use => Use.after cs use.2 zjb use.1) {}

/-! A job and its data sets. -/

/-- The third part of a name is the job's id. -/
def OfJob (jobid dsn : Bytes) : Prop := (dsn.splitOn (cs.code '.'))[2]? = some jobid

instance (jobid dsn : Bytes) : Decidable (OfJob cs jobid dsn) :=
  inferInstanceAs (Decidable (_ = _))

def Parses (dsn : Bytes) : Prop := ∃ parsed, zjb_parse_dsn_for_key cs dsn = .ok parsed

/-- A job with the data sets that the subsystem lists of it, and whether it waits for input: then
there are two that are not listed. -/
structure SpoolJob where
  info : JobInfo
  dds : List Statsevb
  waits : Bool
  jobid_fits : Fits cs info.sttrjid
  jobid_short : info.sttrjid.length ≤ 8
  qualifiers : ∀ text ∈ [info.sttrouid, info.sttrname, info.sttrjid], cs.code '.' ∉ text
  names : ∀ dd ∈ dds, OfJob cs info.sttrjid dd.stvsdsn
  tokens : ∀ dd ∈ dds, dd.stvsctkn.length = 80
  keys_nodup : (dds.map Statsevb.stvsdsky).Nodup
  names_nodup : (dds.map fun dd => zut_trim cs dd.stvsdsn).Nodup

variable {cs}

def SpoolJob.data_sets (job : SpoolJob cs) : List ZJobDD :=
  if job.dds = [] then if job.waits then input_dds cs (job_response job.info) else []
  else job.dds.map (dd_response job.info.sttrjid)

/-- The subsystem knows the job by its id and by an identifier, and the spool has its data sets:
each is allocated under its name with its token and read with its record format, and no other name
of the job is allocated. -/
structure Serves (job : SpoolJob cs) (jobid : Bytes) (sys : System) : Prop where
  init : sys.ssi.init_ssib = 0
  status : ∀ selection, named cs job.info.sttrjid = some selection ∨
    named cs jobid = some selection → sys.ssi.status selection = .gives [job.info]
  verbose : ∃ chains, sys.ssi.verbose job.info = .gives chains ∧ chains.flatten = job.dds
  lookup : ∀ info, (sys.ssi.iaztlkup info).1 = 0
  free : sys.ssi.free = some 0
  read : ∀ dd ∈ job.data_sets, ∀ dsn, same_name cs dd.dsn dsn → ∃ ddname,
    sys.spool.svc99 (token_passed dd.token) dsn = (0, ddname) ∧
      (sys.spool.zds_read ddname dsn dd.is_asa).rc = 0 ∧ sys.spool.dynfree ddname = 0
  absent : ∀ dsn token, OfJob cs job.info.sttrjid dsn →
    (∀ dd ∈ job.data_sets, ¬ same_name cs dd.dsn dsn) → (sys.spool.svc99 token dsn).1 ≠ 0

def Spool.content (spool : Spool) (opened : Opened) : Bytes :=
  (spool.zds_read (spool.svc99 opened.token opened.dsn).2 opened.dsn opened.is_asa).response

/-- A data set is read under its name and with its own token and record format. -/
def IsRead (cs : Charset) (sys : System) (dd : ZJobDD) (run : ReadRun) : Prop :=
  run.rc = RTNCD_SUCCESS ∧ ∃ opened, run.opened = some opened ∧ same_name cs dd.dsn opened.dsn ∧
    opened.token = token_passed dd.token ∧ opened.is_asa = dd.is_asa ∧
    run.response = sys.spool.content opened

/-- What is read is the data set that is wanted; it is an error if there is none. -/
structure Reads (job : SpoolJob cs) (sys : System) (wanted : ZJobDD → Prop) (run : ReadRun) :
    Prop where
  found : ∀ dd ∈ job.data_sets, wanted dd → IsRead cs sys dd run
  missing : (∀ dd ∈ job.data_sets, ¬ wanted dd) → run.rc ≠ RTNCD_SUCCESS

/-- Whatever serves the job. -/
structure Delivers (zjb : ZJB) (job : SpoolJob cs) (jobid : Bytes) (key : ℤ) (dsn : Bytes) :
    Prop where
  by_key : ∀ sys, Serves job jobid sys → Reads job sys (fun dd => dd.key = key)
    (zjb_read_job_content_by_key cs sys zjb jobid key)
  by_dsn : OfJob cs job.info.sttrjid dsn → ∀ sys, Serves job jobid sys →
    Reads job sys (fun dd => same_name cs dd.dsn dsn) (zjb_read_job_content_by_dsn cs sys zjb dsn)
  jcl : ∀ sys, zjb_read_job_jcl cs sys zjb jobid ≠ none

/-! When that is so. -/

/-- A data set that is not read as it should be without a look at the list. -/
def NeedsList (dd : ZJobDD) : Prop := dd.token ≠ zeros ∨ dd.is_asa = true

structure InReach (zjb : ZJB) (job : SpoolJob cs) (jobid : Bytes) (key : ℤ) (dsn : Bytes) :
    Prop where
  own_job : 8 < jobid.length → zjb.jobid.bytes.headD 0 ≠ 0 →
    named cs job.info.sttrjid = some (.jobid zjb.jobid.bytes zjb.jobid.bytes)
  by_key : ∀ dd ∈ job.data_sets, dd.key = key →
    (job.dds.length : ℤ) ≤ ZJB_DEFAULT_MAX_DDS ∧ (NeedsList dd → Parses cs dd.dsn)
  by_dsn : OfJob cs job.info.sttrjid dsn → ∀ dd ∈ job.data_sets, same_name cs dd.dsn dsn →
    (Parses cs dsn → (job.dds.length : ℤ) ≤ ZJB_DEFAULT_MAX_DDS) ∧ (NeedsList dd → Parses cs dsn)

end Zowex.zjs

import Zowex.Spec.CopyDsn

/-! Jobs: the calls of `zjb.cpp` on one handle, and what those of `zjbm.c` pass to the subsystem
interface and copy of what it gives. -/

namespace Zowex.zjb

def RTNCD_SUCCESS : ℤ := 0
def RTNCD_WARNING : ℤ := 1
def RTNCD_FAILURE : ℤ := -1

/-! Values of `detail_rc`. -/

def ZJB_RSNCD_MAX_JOBS_REACHED : ℤ := -1
def ZJB_RTNCD_SERVICE_FAILURE : ℤ := -2
def ZJB_RTNCD_INSUFFICIENT_BUFFER : ℤ := -4
def ZJB_RTNCD_JOB_NOT_FOUND : ℤ := -5
def ZJB_RTNCD_UNEXPECTED_ERROR : ℤ := -6
def ZJB_RTNCD_JES3_NOT_SUPPORTED : ℤ := -7
def ZJB_RTNCD_VERBOSE_INFO_NOT_FOUND : ℤ := -8
def ZJB_RTNCD_CORRELATOR_NOT_FOUND : ℤ := -10

/-- A `char` array. -/
structure Field (len : ℕ) where
  bytes : Bytes
  length_eq : bytes.length = len
  deriving DecidableEq

def Field.filled (len : ℕ) (c : UInt8) : Field len := ⟨List.replicate len c, List.length_replicate⟩

/-- `strncpy`: what is copied up to the null character, and null characters to the length. -/
def strncpy (source : Bytes) (length : ℕ) : Bytes :=
  let text := (source.takeWhile (· ≠ 0)).take length
  text ++ List.replicate (length - text.length) 0

theorem length_strncpy (source : Bytes) (length : ℕ) : (strncpy source length).length = length := by
  simp only [strncpy, List.length_append, List.length_replicate, List.length_take]
  omega

def zut_uppercase_pad_truncate (cs : Charset) (source : Bytes) (len : ℕ) : Field len :=
  let source := source.map (zds.toupper cs)
  let length := min source.length len
  ⟨strncpy source length ++ List.replicate (len - length) (cs.code ' '), by
    rw [List.length_append, length_strncpy, List.length_replicate]
    omega⟩

structure ZJB where
  jobs_max : ℤ := 0
  dds_max : ℤ := 0
  buffer_size : ℤ := 0
  buffer_size_needed : ℤ := 0
  correlator : Field 64 := .filled 64 0
  jobid : Field 8 := .filled 8 0
  owner_name : Field 8 := .filled 8 0
  prefix_name : Field 8 := .filled 8 0
  status_name : Field 8 := .filled 8 0
  token : Field 80 := .filled 80 0
  detail_rc : ℤ := 0

def ZJB_DEFAULT_BUFFER_SIZE : ℤ := 128000
def ZJB_DEFAULT_MAX_JOBS : ℤ := 1000
def ZJB_DEFAULT_MAX_DDS : ℤ := 100

/-- `sizeof(ZJB_JOB_INFO)` and `sizeof(STATSEVB)`, both packed. -/
def sizeof_job_info : ℤ := 0xEC + 65 + 5
def sizeof_statsevb : ℤ := 0xF1

/-- What a request asks the subsystem for: a range of job ids, or a correlator. -/
inductive Selection
  | jobid (low high : Bytes)
  | correlator (correlator : Bytes)
  deriving DecidableEq

/-- The filters of a list of jobs. -/
structure JobFilter where
  owner : Bytes
  jobname : Option Bytes
  active : Bool

inductive ModifyType
  | ssjmprg
  | ssjmcanc
  | ssjmhold
  | ssjmrls
  deriving DecidableEq

/-- Of a job's terse section, with what the text lookup adds. -/
structure JobInfo where
  sttrname : Bytes
  sttrjid : Bytes
  sttrouid : Bytes
  deriving DecidableEq

/-- The verbose section of a spool data set. -/
structure Statsevb where
  stvsddnd : Bytes
  stvsstpd : Bytes
  stvsprcd : Bytes
  stvsdsn : Bytes
  stvsdsky : ℤ
  stvsctkn : Bytes
  dcbrecca : Bool
  deriving DecidableEq

/-- What a request comes to. -/
inductive Answer (α : Type)
  | gives (answer : α)
  | refuses
  | abends

/-- What the subsystem interface does in one call. -/
structure Ssi where
  /-- The return code of `init_ssib`. -/
  init_ssib : ℤ
  /-- The number of jobs that were modified. -/
  modify : ModifyType → Bool → Selection → Answer ℕ
  status : Selection → Answer (List JobInfo)
  list : JobFilter → Answer (List JobInfo)
  /-- The data sets of each element of the answer to `statoutv`, for the job that was found. -/
  verbose : JobInfo → Answer (List (List Statsevb))
  /-- The return code of the text lookup, and its reason code. -/
  iaztlkup : JobInfo → ℤ × ℤ
  /-- The return code of the request to free the storage, none for an abend. -/
  free : Option ℤ

/-! `zjbm.c`. -/

def ZJB.selection (zjb : ZJB) : Selection :=
  if zjb.jobid.bytes.headD 0 ≠ 0 then .jobid zjb.jobid.bytes zjb.jobid.bytes
  else .correlator zjb.correlator.bytes

def ZJB.not_found (zjb : ZJB) : ZJB :=
  { zjb with
    detail_rc := if zjb.jobid.bytes.headD 0 ≠ 0 then ZJB_RTNCD_JOB_NOT_FOUND
      else ZJB_RTNCD_CORRELATOR_NOT_FOUND }

/-- A return code, the handle after it, and the selections that were passed. -/
structure Run (α : Type) where
  rc : ℤ
  handle : ZJB
  passed : List Selection := []
  result : α

def ZJBMMOD (ssi : Ssi) (zjb : ZJB) (type : ModifyType) (flags : Bool) : Run Unit :=
  if ssi.init_ssib ≠ 0 then
    ⟨RTNCD_FAILURE, { zjb with detail_rc := ssi.init_ssib }, [], ()⟩
  else
    let passed := [zjb.selection]
    match ssi.modify type flags zjb.selection with
    | .abends =>
      ⟨RTNCD_FAILURE, { zjb with detail_rc := ZJB_RTNCD_UNEXPECTED_ERROR }, passed, ()⟩
    | .refuses => ⟨RTNCD_FAILURE, zjb, passed, ()⟩
    | .gives ssjmnsjf =>
      if ssjmnsjf = 0 then ⟨RTNCD_FAILURE, zjb.not_found, passed, ()⟩
      else ⟨RTNCD_SUCCESS, zjb, passed, ()⟩

def ZJBMPRG (ssi : Ssi) (zjb : ZJB) : Run Unit := ZJBMMOD ssi zjb .ssjmprg true
def ZJBMCNL (ssi : Ssi) (zjb : ZJB) : Run Unit := ZJBMMOD ssi zjb .ssjmcanc true
def ZJBMHLD (ssi : Ssi) (zjb : ZJB) : Run Unit := ZJBMMOD ssi zjb .ssjmhold false
def ZJBMRLS (ssi : Ssi) (zjb : ZJB) : Run Unit := ZJBMMOD ssi zjb .ssjmrls false

/-- The state of a loop that copies. -/
structure Copied (α : Type) where
  loop_control : ℤ := 0
  total_size : ℤ := 0
  entries : List α := []
  detail_rc : ℤ

/-- Why a loop is left before its end. -/
inductive Stop
  | limit
  | lookup_failed
  deriving DecidableEq

variable {α : Type}

/-- The loop over a chain of elements, with the limit, and the bytes of an entry and of the buffer.
The lookup gives a return code, and a reason code that is kept. -/
def copy_entries (limit size buffer_size : ℤ) (lookup : α → ℤ → ℤ × ℤ) :
    List α → Copied α → Except (Stop × Copied α) (Copied α)
  | [], copied => .ok copied
  | entry :: chain, copied =>
    if copied.loop_control ≥ limit then .error (.limit, copied)
    else
      let total_size := copied.total_size + size
      let loop_control := copied.loop_control + 1
      if total_size ≤ buffer_size then
        let (rc, detail_rc) := lookup entry copied.detail_rc
        let entries := copied.entries ++ [entry]
        if rc ≠ 0 then .error (.lookup_failed, { loop_control, total_size, entries, detail_rc })
        else
          copy_entries limit size buffer_size lookup chain
            { loop_control, total_size, entries, detail_rc }
      else
        copy_entries limit size buffer_size lookup chain
          { copied with loop_control, total_size, detail_rc := ZJB_RTNCD_INSUFFICIENT_BUFFER }

/-- The return code where the limit is reached, and the one at the end. -/
def Ssi.free_at_limit (ssi : Ssi) : ℤ :=
  if ssi.free = none ∨ ssi.free = some RTNCD_FAILURE then RTNCD_FAILURE else RTNCD_WARNING

def Ssi.free_at_end (ssi : Ssi) : ℤ := ssi.free.getD RTNCD_FAILURE

def Ssi.free_detail (ssi : Ssi) (detail_rc : ℤ) : ℤ :=
  if ssi.free = none then ZJB_RTNCD_UNEXPECTED_ERROR else detail_rc

/-- After `init_ssib`, for what the subsystem makes of the request. -/
def ZJBMTCOM (ssi : Ssi) (zjb : ZJB) (answer : Answer (List JobInfo)) : Run (List JobInfo) :=
  match answer with
  | .gives chain =>
    match copy_entries zjb.jobs_max sizeof_job_info zjb.buffer_size (fun job _ => ssi.iaztlkup job)
      chain { detail_rc := zjb.detail_rc } with
    | .error (.limit, copied) =>
      ⟨ssi.free_at_limit,
        { zjb with detail_rc := ssi.free_detail ZJB_RSNCD_MAX_JOBS_REACHED }, [], copied.entries⟩
    | .error (.lookup_failed, copied) =>
      ⟨RTNCD_FAILURE, { zjb with detail_rc := ZJB_RTNCD_SERVICE_FAILURE }, [], copied.entries⟩
    | .ok copied =>
      ⟨ssi.free_at_end,
        { zjb with
          detail_rc := ssi.free_detail copied.detail_rc
          buffer_size_needed := copied.total_size },
        [], copied.entries⟩
  | _ => ⟨RTNCD_FAILURE, { zjb with detail_rc := ZJB_RTNCD_SERVICE_FAILURE }, [], []⟩

def ZJBMVIEW (ssi : Ssi) (zjb : ZJB) : Run (List JobInfo) :=
  if ssi.init_ssib ≠ 0 then
    ⟨RTNCD_FAILURE, { zjb with detail_rc := ZJB_RTNCD_SERVICE_FAILURE }, [], []⟩
  else { ZJBMTCOM ssi zjb (ssi.status zjb.selection) with passed := [zjb.selection] }

/-- What `strcmp` compares: it reads on into the next field where one is not terminated. -/
def c_string (bytes : Bytes) : Bytes := bytes.takeWhile (· ≠ 0)

def job_filter (cs : Charset) (zjb : ZJB) : JobFilter :=
  { owner := zjb.owner_name.bytes
    jobname :=
      if c_string (zjb.prefix_name.bytes ++ zjb.status_name.bytes ++ zjb.token.bytes) =
          cs.str "        " then none
      else some zjb.prefix_name.bytes
    active := c_string (zjb.status_name.bytes ++ zjb.token.bytes) = cs.str "ACTIVE  " }

def ZJBMLIST (cs : Charset) (ssi : Ssi) (zjb : ZJB) : Run (List JobInfo) :=
  if ssi.init_ssib ≠ 0 then
    ⟨RTNCD_FAILURE, { zjb with detail_rc := ZJB_RTNCD_SERVICE_FAILURE }, [], []⟩
  else ZJBMTCOM ssi zjb (ssi.list (job_filter cs zjb))

/-- The chain of each job that the subsystem gives, one after the other. -/
def copy_chains (limit size buffer_size : ℤ) :
    List (List α) → Copied α → Except (Stop × Copied α) (Copied α)
  | [], copied => .ok copied
  | chain :: chains, copied => do
    let copied ← copy_entries limit size buffer_size (fun _ detail_rc => (0, detail_rc)) chain copied
    copy_chains limit size buffer_size chains copied

/-- The second request of `ZJBMLSDS`, for the job that was found. -/
def list_job_dds (ssi : Ssi) (zjb : ZJB) (job : JobInfo) : Run (List Statsevb) :=
  match ssi.verbose job with
  | .abends => ⟨RTNCD_FAILURE, { zjb with detail_rc := ZJB_RTNCD_UNEXPECTED_ERROR }, [], []⟩
  | .refuses => ⟨RTNCD_FAILURE, zjb, [], []⟩
  | .gives chains =>
    match copy_chains zjb.dds_max sizeof_statsevb zjb.buffer_size chains
      { detail_rc := zjb.detail_rc } with
    | .error (_, copied) =>
      ⟨ssi.free_at_limit, { zjb with detail_rc := ZJB_RSNCD_MAX_JOBS_REACHED }, [],
        copied.entries⟩
    | .ok copied =>
      ⟨ssi.free_at_end,
        { zjb with
          detail_rc := ssi.free_detail copied.detail_rc
          buffer_size_needed := copied.total_size },
        [], copied.entries⟩

def ZJBMLSDS (ssi : Ssi) (zjb : ZJB) : Run (List Statsevb) :=
  if ssi.init_ssib ≠ 0 then
    ⟨RTNCD_FAILURE, { zjb with detail_rc := ZJB_RTNCD_SERVICE_FAILURE }, [], []⟩
  else
    let passed := [zjb.selection]
    match ssi.status zjb.selection with
    | .gives [] =>
      ⟨RTNCD_FAILURE,
        { zjb with detail_rc := ssi.free_detail zjb.not_found.detail_rc }, passed, []⟩
    | .gives (job :: _) => { list_job_dds ssi zjb job with passed }
    | _ => ⟨RTNCD_FAILURE, { zjb with detail_rc := ZJB_RTNCD_SERVICE_FAILURE }, passed, []⟩

/-! `zjb.cpp`. -/

/-- Of a `ZJob`, what is taken from the terse section. -/
structure ZJob where
  jobname : Bytes
  jobid : Bytes
  owner : Bytes
  deriving DecidableEq

structure ZJobDD where
  jobid : Bytes
  ddn : Bytes
  dsn : Bytes
  stepname : Bytes := []
  procstep : Bytes := []
  token : Bytes := List.replicate 80 0
  key : ℤ
  is_asa : Bool := false
  deriving DecidableEq

def job_response (job : JobInfo) : ZJob :=
  { jobname := job.sttrname
    jobid := job.sttrjid
    owner := if job.sttrouid.head? = some 0 then [] else job.sttrouid }

def zjb_build_job_response (entries : List JobInfo) : List ZJob := entries.map job_response

variable (cs : Charset) (ssi : Ssi)

/-- One of the two fields is set, the other one is left as it is. -/
def set_jobid (zjb : ZJB) (jobid : Bytes) : ZJB :=
  if jobid.length > 8 then { zjb with correlator := zut_uppercase_pad_truncate cs jobid 64 }
  else { zjb with jobid := zut_uppercase_pad_truncate cs jobid 8 }

def zjb_delete (zjb : ZJB) (jobid : Bytes) : Run Unit := ZJBMPRG ssi (set_jobid cs zjb jobid)
def zjb_cancel (zjb : ZJB) (jobid : Bytes) : Run Unit := ZJBMCNL ssi (set_jobid cs zjb jobid)
def zjb_hold (zjb : ZJB) (jobid : Bytes) : Run Unit := ZJBMHLD ssi (set_jobid cs zjb jobid)
def zjb_release (zjb : ZJB) (jobid : Bytes) : Run Unit := ZJBMRLS ssi (set_jobid cs zjb jobid)

def default_limits (zjb : ZJB) : ZJB :=
  { zjb with
    buffer_size := if zjb.buffer_size = 0 then ZJB_DEFAULT_BUFFER_SIZE else zjb.buffer_size
    jobs_max := if zjb.jobs_max = 0 then ZJB_DEFAULT_MAX_JOBS else zjb.jobs_max }

def zjb_view (zjb : ZJB) (jobid : Bytes) : Run (Option ZJob) :=
  let run := ZJBMVIEW ssi (set_jobid cs (default_limits zjb) jobid)
  if run.rc ≠ 0 then ⟨run.rc, run.handle, run.passed, none⟩
  else
    match zjb_build_job_response run.result with
    | [] =>
      ⟨RTNCD_FAILURE, { run.handle with detail_rc := ZJB_RTNCD_JOB_NOT_FOUND }, run.passed, none⟩
    | job :: _ => ⟨RTNCD_SUCCESS, run.handle, run.passed, some job⟩

def dds_limits (zjb : ZJB) : ZJB :=
  { zjb with
    buffer_size := if zjb.buffer_size = 0 then ZJB_DEFAULT_BUFFER_SIZE else zjb.buffer_size
    dds_max := if zjb.dds_max = 0 then ZJB_DEFAULT_MAX_DDS else zjb.dds_max }

def zut_rtrim (s : Bytes) : Bytes := (s.reverse.dropWhile (· = cs.code ' ')).reverse

def dd_response (jobid : Bytes) (dd : Statsevb) : ZJobDD :=
  { jobid
    ddn := dd.stvsddnd
    dsn := dd.stvsdsn
    stepname := dd.stvsstpd
    procstep := dd.stvsprcd
    token := dd.stvsctkn
    key := dd.stvsdsky
    is_asa := dd.dcbrecca }

/-- Two data sets of a job that the subsystem does not list while the job waits for input. -/
def input_dds (job : ZJob) : List ZJobDD :=
  let dsn (ddn : Bytes) := zut_rtrim cs job.owner ++ [cs.code '.'] ++ zut_rtrim cs job.jobname ++
    [cs.code '.'] ++ job.jobid ++ [cs.code '.'] ++ ddn
  [{ jobid := job.jobid, ddn := cs.str "JESMSGLG", dsn := dsn (cs.str "JESMSGLG"), key := 2 },
    { jobid := job.jobid, ddn := cs.str "JESJCL", dsn := dsn (cs.str "JESJCL"), key := 3 }]

def zjb_list_dds (zjb : ZJB) (jobid : Bytes) : Run (List ZJobDD) :=
  let run := ZJBMLSDS ssi (set_jobid cs (dds_limits zjb) jobid)
  if run.rc ≠ RTNCD_SUCCESS ∧ run.rc ≠ RTNCD_WARNING then ⟨run.rc, run.handle, run.passed, []⟩
  else if run.result = [] then
    let view := zjb_view cs ssi run.handle jobid
    let passed := run.passed ++ view.passed
    match view.result with
    | some job => ⟨run.rc, view.handle, passed, input_dds cs job⟩
    | none =>
      ⟨RTNCD_WARNING, { view.handle with detail_rc := ZJB_RTNCD_VERBOSE_INFO_NOT_FOUND }, passed, []⟩
  else ⟨run.rc, run.handle, run.passed, run.result.map (dd_response jobid)⟩

/-- The handle with the filters, for a name of the user that `zut_get_current_user` finds. -/
def owner_handle (current_user : Bytes) (zjb : ZJB) (owner_name prefix_name status_name : Bytes) :
    ZJB :=
  let resolved_owner := if owner_name = [] then current_user else owner_name
  { default_limits zjb with
    owner_name := zut_uppercase_pad_truncate cs resolved_owner 8
    prefix_name := zut_uppercase_pad_truncate cs prefix_name 8
    status_name := zut_uppercase_pad_truncate cs status_name 8 }

def zjb_list_by_owner (current_user : Bytes) (zjb : ZJB)
    (owner_name prefix_name status_name : Bytes) : Run (List ZJob) :=
  let zjb := owner_handle cs current_user zjb owner_name prefix_name status_name
  let run := ZJBMLIST cs ssi zjb
  if run.rc ≠ RTNCD_SUCCESS ∧ run.rc ≠ RTNCD_WARNING then ⟨run.rc, run.handle, run.passed, []⟩
  else ⟨run.rc, run.handle, run.passed, zjb_build_job_response run.result⟩

/-! A call acts on the job that it names. -/

/-- What an identifier selects. -/
def named (jobid : Bytes) : Option Selection :=
  let upper := jobid.map (zds.toupper cs)
  let padded (len : ℕ) := upper ++ List.replicate (len - upper.length) (cs.code ' ')
  if jobid = [] then none
  else if jobid.length ≤ 8 then some (.jobid (padded 8) (padded 8))
  else if jobid.length ≤ 64 then some (.correlator (padded 64))
  else none

inductive Operation
  | view
  | list_dds
  | delete
  | cancel
  | hold
  | release
  deriving DecidableEq

/-- The handle after the call, and the selections that were passed. -/
def Operation.call (operation : Operation) (zjb : ZJB) (jobid : Bytes) : ZJB × List Selection :=
  match operation with
  | view => let run := zjb_view cs ssi zjb jobid; (run.handle, run.passed)
  | list_dds => let run := zjb_list_dds cs ssi zjb jobid; (run.handle, run.passed)
  | delete => let run := zjb_delete cs ssi zjb jobid; (run.handle, run.passed)
  | cancel => let run := zjb_cancel cs ssi zjb jobid; (run.handle, run.passed)
  | hold => let run := zjb_hold cs ssi zjb jobid; (run.handle, run.passed)
  | release => let run := zjb_release cs ssi zjb jobid; (run.handle, run.passed)

/-- What the calls on one handle pass, each with its identifier. -/
def selections : ZJB → List ((Operation × Bytes) × Ssi) → List (Bytes × List Selection)
  | _, [] => []
  | zjb, ((operation, jobid), ssi) :: calls =>
    let (zjb, passed) := operation.call cs ssi zjb jobid
    (jobid, passed) :: selections zjb calls

/-- Whatever the subsystem does, each call passes what its identifier selects and nothing else. -/
def ActsOnNamed (zjb : ZJB) (calls : List (Operation × Bytes)) : Prop :=
  ∀ served : List ((Operation × Bytes) × Ssi), served.map Prod.fst = calls →
    ∀ p ∈ selections cs zjb served, ∀ selection ∈ p.2, named cs p.1 = some selection

/-- An identifier of 1 to 64 characters with nothing after a null character. That of a job does not
begin with one. -/
structure Fits (jobid : Bytes) : Prop where
  nonempty : jobid ≠ []
  short : jobid.length ≤ 64
  terminated (before after : Bytes) : jobid.map (zds.toupper cs) = before ++ 0 :: after →
    ∀ c ∈ after, c = 0
  begins : jobid.length ≤ 8 → (jobid.map (zds.toupper cs)).head? ≠ some 0

/-- Every identifier fits, and no correlator comes after a job id. -/
def NamesKept (calls : List (Operation × Bytes)) : Prop :=
  (∀ call ∈ calls, Fits cs call.2) ∧
    calls.Pairwise fun earlier later => 8 < later.2.length → 8 < earlier.2.length

/-! A list that is not complete is announced. -/

/-- The entries are the first ones, and all of them where the call succeeds. -/
structure Announced {β : Type} (all : List α) (response : α → β) (run : Run (List β)) : Prop where
  first : ∃ n, run.result = (all.take n).map response
  complete : run.rc = RTNCD_SUCCESS → run.result = all.map response

/-- For the jobs that match, whatever else the subsystem does. -/
def JobsAnnounced (current_user : Bytes) (zjb : ZJB) (owner_name prefix_name status_name : Bytes)
    (all : List JobInfo) : Prop :=
  ∀ ssi : Ssi, ssi.list (job_filter cs
      (owner_handle cs current_user zjb owner_name prefix_name status_name)) = .gives all →
    Announced all job_response
      (zjb_list_by_owner cs ssi current_user zjb owner_name prefix_name status_name)

/-- For the spool data sets of a job. Where there are none, those of a job that waits for input take
their place. -/
def DdsAnnounced (zjb : ZJB) (jobid : Bytes) (all : List Statsevb) : Prop :=
  all ≠ [] → ∀ (ssi : Ssi) (job : JobInfo) (jobs : List JobInfo) (chains : List (List Statsevb)),
    ssi.status (set_jobid cs zjb jobid).selection = .gives (job :: jobs) →
    ssi.verbose job = .gives chains → chains.flatten = all →
    Announced all (dd_response jobid) (zjb_list_dds cs ssi zjb jobid)

/-- The buffer has room for all jobs, or the limit is reached before. -/
def JobsFit (zjb : ZJB) (jobs : ℕ) : Prop :=
  let zjb := default_limits zjb
  0 < jobs → (jobs : ℤ) ≤ zjb.jobs_max → jobs * sizeof_job_info ≤ zjb.buffer_size

/-- The buffer has room for all data sets, or for none, or the limit is reached before. With a
limit below zero the job is not found for the data sets that would take their place. -/
def DdsFit (zjb : ZJB) (dds : ℕ) : Prop :=
  let zjb := dds_limits zjb
  0 < dds → sizeof_statsevb ≤ zjb.buffer_size →
    ((dds : ℤ) ≤ zjb.dds_max → dds * sizeof_statsevb ≤ zjb.buffer_size) ∧
      (zjb.dds_max < 0 → zjb.jobs_max < 0 ∨ zjb.buffer_size < sizeof_job_info)

end Zowex.zjb

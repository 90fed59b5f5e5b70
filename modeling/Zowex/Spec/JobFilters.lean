import Zowex.Lib.Globs
import Zowex.Spec.Jobs

/-! The filters of a list of jobs: what the subsystem interface selects by the fields of a request,
and what was asked for. -/

namespace Zowex.zjb

section

variable (cs : Charset)

/-- A character of a field for an owner or a job name. -/
def symbol (c : UInt8) : Globs.Symbol UInt8 :=
  if c = cs.code '*' then .star else if c = cs.code '?' then .any else .char c

/-- A pattern of blanks, which leave nothing of it, matches no name. -/
def Matches (pattern name : Bytes) : Prop :=
  pattern ≠ [] ∧ Globs.Matches name (pattern.map (symbol cs))

/-- A job, with the status that `zjb_build_job_response` gives it. -/
structure Job where
  info : JobInfo
  status : Bytes

def Job.owner (job : Job) : Bytes :=
  if job.info.sttrouid.head? = some 0 then [] else zut_rtrim cs job.info.sttrouid

def Job.name (job : Job) : Bytes := zut_rtrim cs job.info.sttrname

def IsName (name : Bytes) : Prop := name.length ≤ 8 ∧ ∀ c ∈ name, c ≠ 0 ∧ c ≠ cs.code ' '

def Job.Valid (job : Job) : Prop := IsName cs (job.owner cs) ∧ IsName cs (job.name cs)

/-- What the interface selects: by the job name and by the phase only where their bits are set. -/
structure Selected (filter : JobFilter) (job : Job) : Prop where
  owner : Matches cs (zut_rtrim cs filter.owner) (job.owner cs)
  name : ∀ field, filter.jobname = some field → Matches cs (zut_rtrim cs field) (job.name cs)
  phase : filter.active = true → job.status = cs.str "ACTIVE"

open Classical in
noncomputable def only (p : Job → Prop) (jobs : List Job) : List Job := jobs.filter fun job => p job

/-- The interface serves every request, and each job is looked up. -/
structure Serves (ssi : Ssi) (all : List Job) : Prop where
  init : ssi.init_ssib = 0
  list : ∀ filter, ssi.list filter = .gives ((only (Selected cs filter) all).map Job.info)
  lookup : ∀ info, (ssi.iaztlkup info).1 = 0
  free : ssi.free = some 0

/-- An argument as it is used: upper-cased, and no longer than its field. -/
def argument (text : Bytes) : Bytes := zut_rtrim cs ((text.map (zds.toupper cs)).take 8)

structure Wanted (current_user owner_name prefix_name status_name : Bytes) (job : Job) : Prop where
  owner : Matches cs (argument cs (if owner_name = [] then current_user else owner_name))
    (job.owner cs)
  name : prefix_name = [] ∨ Matches cs (argument cs prefix_name) (job.name cs)
  status : status_name = [] ∨ status_name = cs.str "*" ∨ job.status = argument cs status_name

/-- There is room for all jobs. -/
def Below (zjb : ZJB) (jobs : ℕ) : Prop :=
  (jobs : ℤ) ≤ (default_limits zjb).jobs_max ∧
    jobs * sizeof_job_info ≤ (default_limits zjb).buffer_size

/-- What is listed is what was asked for, whatever jobs there are. -/
def FiltersTakeEffect (current_user owner_name prefix_name status_name : Bytes) : Prop :=
  ∀ (jobs_max buffer_size : ℤ) (all : List Job) (ssi : Ssi),
    (∀ job ∈ all, job.Valid cs) → Serves cs ssi all → Below { jobs_max, buffer_size } all.length →
    (zjb_list_by_owner cs ssi current_user { jobs_max, buffer_size } owner_name prefix_name
        status_name).rc = RTNCD_SUCCESS ∧
      (zjb_list_by_owner cs ssi current_user { jobs_max, buffer_size } owner_name prefix_name
        status_name).result =
      (only (Wanted cs current_user owner_name prefix_name status_name) all).map
        fun job => job_response job.info

/-! When they do. -/

def MatchesNone (argument : Bytes) : Prop := ∀ name, IsName cs name → ¬ Matches cs argument name

/-- Either no status, or the one that is selected by. -/
def StatusServed (status_name : Bytes) : Prop :=
  status_name = [] ∨ status_name = cs.str "*" ∨ argument cs status_name = cs.str "ACTIVE"

/-- A blank prefix in front of a null character. -/
def PrefixEnds (prefix_name status_name : Bytes) : Prop :=
  argument cs prefix_name = [] ∧ (argument cs status_name).head? = some 0

end

end Zowex.zjb

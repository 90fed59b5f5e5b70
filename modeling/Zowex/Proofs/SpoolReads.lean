import Zowex.Proofs.DscbDates
import Zowex.Proofs.JobFilters
import Zowex.Proofs.ResultTable
import Zowex.Spec.Lexer
import Zowex.Spec.SpoolReads

/-! When a spool data set is found by its key or its name. A list over the limit is a warning, which
the reads take for an error; a name whose key is not parsed is read without its token; and a
correlator finds the job whose id an earlier call has left in the handle. -/

namespace Zowex.zjs

open zjb zds

variable {cs : Charset} {ssi : Ssi} {sys : System} {zjb : ZJB} {jobid : Bytes}

/-! The limits of the handle. -/

def SameLimits (after zjb : ZJB) : Prop :=
  after.dds_max = zjb.dds_max ∧ after.jobs_max = zjb.jobs_max ∧ after.buffer_size = zjb.buffer_size

/-- Each limit is its default or not set. -/
structure DefaultLimits (zjb : ZJB) : Prop where
  dds : zjb.dds_max = 0 ∨ zjb.dds_max = ZJB_DEFAULT_MAX_DDS
  jobs : zjb.jobs_max = 0 ∨ zjb.jobs_max = ZJB_DEFAULT_MAX_JOBS
  buffer : zjb.buffer_size = 0 ∨ zjb.buffer_size = ZJB_DEFAULT_BUFFER_SIZE

theorem SameLimits.default {after : ZJB} (h : SameLimits after zjb) (hzjb : DefaultLimits zjb) :
    DefaultLimits after := by
  obtain ⟨hdds, hjobs, hbuffer⟩ := h
  exact ⟨hdds ▸ hzjb.dds, hjobs ▸ hzjb.jobs, hbuffer ▸ hzjb.buffer⟩

theorem SameLimits.trans {a b c : ZJB} (h : SameLimits a b) (h' : SameLimits b c) :
    SameLimits a c :=
  ⟨h.1.trans h'.1, h.2.1.trans h'.2.1, h.2.2.trans h'.2.2⟩

theorem same_limits_set_jobid (zjb : ZJB) (jobid : Bytes) :
    SameLimits (set_jobid cs zjb jobid) zjb := by
  obtain ⟨hjobs, hdds, hbuffer⟩ := @set_jobid_limits cs zjb jobid
  exact ⟨hdds, hjobs, hbuffer⟩

theorem same_limits_modify (zjb : ZJB) (type : ModifyType) (flags : Bool) :
    SameLimits (ZJBMMOD ssi zjb type flags).handle zjb := by
  rw [ZJBMMOD]
  by_cases hinit : ssi.init_ssib ≠ 0
  · rw [if_pos hinit]
    exact ⟨rfl, rfl, rfl⟩
  · rw [if_neg hinit]
    dsimp only
    rcases ssi.modify type flags zjb.selection with ssjmnsjf | _ | _
    · dsimp only
      by_cases hnone : ssjmnsjf = 0
      · rw [if_pos hnone]
        exact ⟨rfl, rfl, rfl⟩
      · rw [if_neg hnone]
        exact ⟨rfl, rfl, rfl⟩
    · exact ⟨rfl, rfl, rfl⟩
    · exact ⟨rfl, rfl, rfl⟩

theorem same_limits_jobs (zjb : ZJB) (answer : Answer (List JobInfo)) :
    SameLimits (ZJBMTCOM ssi zjb answer).handle zjb := by
  rcases answer with chain | _ | _
  · rw [ZJBMTCOM]
    rcases copy_entries zjb.jobs_max sizeof_job_info zjb.buffer_size
      (fun job _ => ssi.iaztlkup job) chain { detail_rc := zjb.detail_rc } with
      ⟨_ | _, copied⟩ | copied
    · exact ⟨rfl, rfl, rfl⟩
    · exact ⟨rfl, rfl, rfl⟩
    · exact ⟨rfl, rfl, rfl⟩
  · exact ⟨rfl, rfl, rfl⟩
  · exact ⟨rfl, rfl, rfl⟩

theorem same_limits_dds (zjb : ZJB) (job : JobInfo) :
    SameLimits (list_job_dds ssi zjb job).handle zjb := by
  rw [list_job_dds]
  rcases ssi.verbose job with chains | _ | _
  · dsimp only
    rcases copy_chains zjb.dds_max sizeof_statsevb zjb.buffer_size chains
      { detail_rc := zjb.detail_rc } with ⟨_, copied⟩ | copied
    · exact ⟨rfl, rfl, rfl⟩
    · exact ⟨rfl, rfl, rfl⟩
  · exact ⟨rfl, rfl, rfl⟩
  · exact ⟨rfl, rfl, rfl⟩

theorem same_limits_list (zjb : ZJB) : SameLimits (ZJBMLSDS ssi zjb).handle zjb := by
  rw [ZJBMLSDS]
  by_cases hinit : ssi.init_ssib ≠ 0
  · rw [if_pos hinit]
    exact ⟨rfl, rfl, rfl⟩
  · rw [if_neg hinit]
    dsimp only
    rcases ssi.status zjb.selection with (_ | ⟨job, jobs⟩) | _ | _
    · exact ⟨rfl, rfl, rfl⟩
    · exact same_limits_dds zjb job
    · exact ⟨rfl, rfl, rfl⟩
    · exact ⟨rfl, rfl, rfl⟩

/-- A limit that is not set is set to its default. -/
theorem limit_set {limit default : ℤ} (h : limit = 0 ∨ limit = default) :
    (if limit = 0 then default else limit) = default := by
  rcases h with h | h
  · rw [if_pos h]
  · by_cases hzero : limit = 0
    · rw [if_pos hzero]
    · rw [if_neg hzero, h]

theorem DefaultLimits.for_jobs (h : DefaultLimits zjb) :
    DefaultLimits (default_limits zjb) ∧
      (default_limits zjb).jobs_max = ZJB_DEFAULT_MAX_JOBS ∧
      (default_limits zjb).buffer_size = ZJB_DEFAULT_BUFFER_SIZE := by
  have hjobs : (default_limits zjb).jobs_max = ZJB_DEFAULT_MAX_JOBS := limit_set h.jobs
  have hbuffer : (default_limits zjb).buffer_size = ZJB_DEFAULT_BUFFER_SIZE := limit_set h.buffer
  exact ⟨⟨h.dds, .inr hjobs, .inr hbuffer⟩, hjobs, hbuffer⟩

theorem DefaultLimits.for_dds (h : DefaultLimits zjb) :
    DefaultLimits (dds_limits zjb) ∧
      (dds_limits zjb).dds_max = ZJB_DEFAULT_MAX_DDS ∧
      (dds_limits zjb).buffer_size = ZJB_DEFAULT_BUFFER_SIZE := by
  have hdds : (dds_limits zjb).dds_max = ZJB_DEFAULT_MAX_DDS := limit_set h.dds
  have hbuffer : (dds_limits zjb).buffer_size = ZJB_DEFAULT_BUFFER_SIZE := limit_set h.buffer
  exact ⟨⟨.inr hdds, h.jobs, .inr hbuffer⟩, hdds, hbuffer⟩

/-! Every use of a handle keeps the defaults. -/

theorem DefaultLimits.view (h : DefaultLimits zjb) (ssi : Ssi) (jobid : Bytes) :
    DefaultLimits (zjb_view cs ssi zjb jobid).handle := by
  have hset : DefaultLimits (set_jobid cs (default_limits zjb) jobid) :=
    (same_limits_set_jobid _ jobid).default h.for_jobs.1
  have hrun : DefaultLimits (ZJBMVIEW ssi (set_jobid cs (default_limits zjb) jobid)).handle := by
    rw [ZJBMVIEW]
    by_cases hinit : ssi.init_ssib ≠ 0
    · rw [if_pos hinit]
      exact ⟨hset.dds, hset.jobs, hset.buffer⟩
    · rw [if_neg hinit]
      exact (same_limits_jobs _ _).default hset
  rw [zjb_view]
  generalize ZJBMVIEW ssi (set_jobid cs (default_limits zjb) jobid) = run at hrun ⊢
  dsimp only
  by_cases hrc : run.rc ≠ 0
  · rw [if_pos hrc]
    exact hrun
  · rw [if_neg hrc]
    rcases zjb_build_job_response run.result with _ | ⟨job, jobs⟩
    · exact ⟨hrun.dds, hrun.jobs, hrun.buffer⟩
    · exact hrun

theorem DefaultLimits.list_dds (h : DefaultLimits zjb) (ssi : Ssi) (jobid : Bytes) :
    DefaultLimits (zjb_list_dds cs ssi zjb jobid).handle := by
  have hset : DefaultLimits (set_jobid cs (dds_limits zjb) jobid) :=
    (same_limits_set_jobid _ jobid).default h.for_dds.1
  have hrun : DefaultLimits (ZJBMLSDS ssi (set_jobid cs (dds_limits zjb) jobid)).handle :=
    (same_limits_list _).default hset
  rw [zjb_list_dds]
  generalize ZJBMLSDS ssi (set_jobid cs (dds_limits zjb) jobid) = run at hrun ⊢
  dsimp only
  by_cases hrc : run.rc ≠ RTNCD_SUCCESS ∧ run.rc ≠ RTNCD_WARNING
  · rw [if_pos hrc]
    exact hrun
  rw [if_neg hrc]
  by_cases hnone : run.result = []
  · rw [if_pos hnone]
    have hview : DefaultLimits (zjb_view cs ssi run.handle jobid).handle := hrun.view ssi jobid
    rcases (zjb_view cs ssi run.handle jobid).result with _ | job
    · exact ⟨hview.dds, hview.jobs, hview.buffer⟩
    · exact hview
  · rw [if_neg hnone]
    exact hrun

theorem DefaultLimits.call (h : DefaultLimits zjb) (ssi : Ssi) (operation : Operation)
    (jobid : Bytes) : DefaultLimits (operation.call cs ssi zjb jobid).1 := by
  have hset : DefaultLimits (set_jobid cs zjb jobid) := (same_limits_set_jobid zjb jobid).default h
  cases operation with
  | view => exact h.view ssi jobid
  | list_dds => exact h.list_dds ssi jobid
  | delete => exact (same_limits_modify _ .ssjmprg true).default hset
  | cancel => exact (same_limits_modify _ .ssjmcanc true).default hset
  | hold => exact (same_limits_modify _ .ssjmhold false).default hset
  | release => exact (same_limits_modify _ .ssjmrls false).default hset

theorem DefaultLimits.list_by_owner (h : DefaultLimits zjb) (ssi : Ssi)
    (current_user owner_name prefix_name status_name : Bytes) :
    DefaultLimits
      (zjb_list_by_owner cs ssi current_user zjb owner_name prefix_name status_name).handle := by
  have hjobs := h.for_jobs.1
  have howner : DefaultLimits
      (owner_handle cs current_user zjb owner_name prefix_name status_name) :=
    ⟨hjobs.dds, hjobs.jobs, hjobs.buffer⟩
  rw [zjb_list_by_owner]
  generalize owner_handle cs current_user zjb owner_name prefix_name status_name = zjb at howner ⊢
  have hrun : DefaultLimits (ZJBMLIST cs ssi zjb).handle := by
    rw [ZJBMLIST]
    by_cases hinit : ssi.init_ssib ≠ 0
    · rw [if_pos hinit]
      exact ⟨howner.dds, howner.jobs, howner.buffer⟩
    · rw [if_neg hinit]
      exact (same_limits_jobs _ _).default howner
  generalize ZJBMLIST cs ssi zjb = run at hrun ⊢
  by_cases hrc : run.rc ≠ RTNCD_SUCCESS ∧ run.rc ≠ RTNCD_WARNING
  · rw [if_pos hrc]
    exact hrun
  · rw [if_neg hrc]
    exact hrun

theorem DefaultLimits.set_token (h : DefaultLimits zjb) (token : Bytes) :
    DefaultLimits (zjs.set_token zjb token) := ⟨h.dds, h.jobs, h.buffer⟩

theorem DefaultLimits.read_allocated (h : DefaultLimits zjb) (sys : System) (dsn : Bytes)
    (is_asa : Bool) : DefaultLimits (zjs.read_allocated sys zjb dsn is_asa).handle := by
  rw [zjs.read_allocated]
  dsimp only
  by_cases hrc : (sys.spool.svc99 (token_passed zjb.token.bytes) dsn).1 ≠ 0
  · rw [if_pos hrc]
    exact ⟨h.dds, h.jobs, h.buffer⟩
  rw [if_neg hrc]
  split_ifs
  · exact ⟨h.dds, h.jobs, h.buffer⟩
  · exact ⟨h.dds, h.jobs, h.buffer⟩

theorem DefaultLimits.read_by_dsn (h : DefaultLimits zjb) (sys : System) (dsn : Bytes) :
    DefaultLimits (zjb_read_job_content_by_dsn cs sys zjb dsn).handle := by
  have htoken := h.set_token zeros
  rw [zjb_read_job_content_by_dsn]
  rcases zjb_parse_dsn_for_key cs dsn with _ | ⟨parsed_jobid, _⟩
  · exact htoken.read_allocated sys dsn false
  have hlist : DefaultLimits
      (zjb_list_dds cs sys.ssi (zjs.set_token zjb zeros) parsed_jobid).handle :=
    htoken.list_dds sys.ssi parsed_jobid
  dsimp only
  generalize zjb_list_dds cs sys.ssi (zjs.set_token zjb zeros) parsed_jobid = list at hlist ⊢
  by_cases hrc : list.rc ≠ 0
  · rw [if_pos hrc]
    exact hlist
  rw [if_neg hrc]
  rcases hfind : list.result.find? fun dd => same_name cs dd.dsn dsn with _ | dd
  · rw [hfind]
    exact hlist
  · rw [hfind]
    exact (hlist.set_token dd.token).read_allocated sys dsn dd.is_asa

theorem DefaultLimits.get_dsn (h : DefaultLimits zjb) (sys : System) (jobid : Bytes) (key : ℤ) :
    DefaultLimits (zjb_get_job_dsn_by_key cs sys zjb jobid key).2.1 := by
  have hlist : DefaultLimits (zjb_list_dds cs sys.ssi zjb jobid).handle := h.list_dds sys.ssi jobid
  rw [zjb_get_job_dsn_by_key]
  dsimp only
  generalize zjb_list_dds cs sys.ssi zjb jobid = list at hlist ⊢
  by_cases hrc : list.rc ≠ 0
  · rw [if_pos hrc]
    exact hlist
  rw [if_neg hrc]
  rcases hfind : list.result.find? fun dd => decide (key = dd.key) with _ | dd
  · rw [hfind]
    exact ⟨hlist.dds, hlist.jobs, hlist.buffer⟩
  · rw [hfind]
    exact hlist.set_token dd.token

theorem DefaultLimits.read_by_key (h : DefaultLimits zjb) (sys : System) (jobid : Bytes)
    (key : ℤ) : DefaultLimits (zjb_read_job_content_by_key cs sys zjb jobid key).handle := by
  have hdsn : DefaultLimits (zjb_get_job_dsn_by_key cs sys zjb jobid key).2.1 :=
    h.get_dsn sys jobid key
  rw [zjb_read_job_content_by_key]
  generalize zjb_get_job_dsn_by_key cs sys zjb jobid key = got at hdsn ⊢
  obtain ⟨rc, zjb, job_dsn⟩ := got
  dsimp only
  by_cases hrc : rc ≠ 0
  · rw [if_pos hrc]
    exact hdsn
  · rw [if_neg hrc]
    exact hdsn.read_by_dsn sys job_dsn

theorem DefaultLimits.read_jcl (h : DefaultLimits zjb) (sys : System) (jobid : Bytes) :
    ∀ run ∈ zjb_read_job_jcl cs sys zjb jobid, DefaultLimits run.handle := by
  have hlist : DefaultLimits (zjb_list_dds cs sys.ssi zjb jobid).handle := h.list_dds sys.ssi jobid
  rw [zjb_read_job_jcl]
  generalize zjb_list_dds cs sys.ssi zjb jobid = list at hlist ⊢
  dsimp only
  by_cases hrc : list.rc ≠ 0
  · rw [if_pos hrc]
    rintro _ ⟨⟩
    exact hlist
  rw [if_neg hrc]
  rcases list.result with _ | ⟨first, _⟩
  · rintro _ ⟨⟩
  dsimp only
  rcases getline_parts cs first.dsn with _ | ⟨hlq, _ | ⟨next, _ | ⟨last, _⟩⟩⟩
  · rintro _ ⟨⟩
    exact ⟨hlist.dds, hlist.jobs, hlist.buffer⟩
  · rintro _ ⟨⟩
    exact ⟨hlist.dds, hlist.jobs, hlist.buffer⟩
  · rintro _ ⟨⟩
    exact ⟨hlist.dds, hlist.jobs, hlist.buffer⟩
  · rintro _ ⟨⟩
    exact hlist.read_by_dsn sys _

theorem DefaultLimits.after (h : DefaultLimits zjb) (sys : System) (use : Use) :
    DefaultLimits (use.after cs sys zjb) := by
  cases use with
  | call operation jobid => exact h.call sys.ssi operation jobid
  | list_by_owner current_user owner_name prefix_name status_name =>
    exact h.list_by_owner sys.ssi current_user owner_name prefix_name status_name
  | read_by_key jobid key => exact h.read_by_key sys jobid key
  | read_by_dsn dsn => exact h.read_by_dsn sys dsn
  | read_jcl jobid =>
    have hjcl : ∀ run ∈ zjb_read_job_jcl cs sys zjb jobid, DefaultLimits run.handle :=
      h.read_jcl sys jobid
    rw [Use.after]
    rcases hrun : zjb_read_job_jcl cs sys zjb jobid with _ | run
    · exact h
    · exact hjcl run hrun

/-- The limits of a handle are the defaults whatever it was used for. -/
theorem default_limits_used (uses : List (Use × System)) : DefaultLimits (used cs uses) := by
  have hstart : DefaultLimits {} := ⟨.inl rfl, .inl rfl, .inl rfl⟩
  rw [used]
  generalize ({} : ZJB) = zjb at hstart
  induction uses generalizing zjb with
  | nil => exact hstart
  | cons use uses ih => exact ih _ (hstart.after use.2 use.1)

/-! The list. -/

/-- What is listed of a job: its data sets, or those of one that waits for input. -/
def listed (cs : Charset) (info : JobInfo) (jobid : Bytes) (dds : List Statsevb) : List ZJobDD :=
  if dds = [] then input_dds cs (job_response info) else dds.map (dd_response jobid)

/-- Requests for the selection are granted for a job with these data sets. -/
structure Lists (ssi : Ssi) (selection : Selection) (info : JobInfo) (dds : List Statsevb) :
    Prop where
  init : ssi.init_ssib = 0
  status : ssi.status selection = .gives [info]
  verbose : ∃ chains, ssi.verbose info = .gives chains ∧ chains.flatten = dds
  lookup : ∀ info, (ssi.iaztlkup info).1 = 0
  free : ssi.free = some 0

variable {info : JobInfo} {dds : List Statsevb}

theorem list_within_limit (hlimits : DefaultLimits zjb)
    (h : Lists ssi (set_jobid cs zjb jobid).selection info dds)
    (hlength : (dds.length : ℤ) ≤ ZJB_DEFAULT_MAX_DDS) :
    (zjb_list_dds cs ssi zjb jobid).rc = RTNCD_SUCCESS ∧
      (zjb_list_dds cs ssi zjb jobid).result = listed cs info jobid dds := by
  obtain ⟨chains, hverbose, rfl⟩ := h.verbose
  obtain ⟨hset_jobs, hset_limit, hset_buffer⟩ := @set_jobid_limits cs (dds_limits zjb) jobid
  obtain ⟨-, hmax, hbuffer⟩ := hlimits.for_dds
  obtain ⟨copied, hinv, hrc, hresult⟩ := dds_served (set_jobid cs (dds_limits zjb) jobid) hverbose
    h.free fun _ => by rw [hset_limit, hmax]; exact hlength
  have hroom : (chains.flatten.length : ℤ) * sizeof_statsevb ≤
      (set_jobid cs (dds_limits zjb) jobid).buffer_size := by
    rw [hset_buffer, hbuffer]
    rw [ZJB_DEFAULT_MAX_DDS] at hlength
    rw [sizeof_statsevb, ZJB_DEFAULT_BUFFER_SIZE]
    omega
  rw [hinv.complete hroom] at hresult
  have hcases := list_dds_cases h.init h.status rfl rfl
  rw [listed]
  rcases hcases with ⟨hfailed, -, -⟩ | ⟨-, hsome, hlist, hdds⟩ | ⟨hnone, hview, -, -⟩ |
    ⟨-, hnone, found, hview, hlist, hdds⟩
  · exact absurd hrc hfailed.1
  · rw [hresult] at hsome hdds
    rw [if_neg hsome]
    exact ⟨hlist.trans hrc, hdds⟩
  all_goals
    -- The job is viewed with the same identifier, and found.
    have hafter : DefaultLimits
        (list_job_dds ssi (set_jobid cs (dds_limits zjb) jobid) info).handle :=
      (same_limits_dds _ info).default ((same_limits_set_jobid _ jobid).default hlimits.for_dds.1)
    obtain ⟨-, hjobs, hview_buffer⟩ := hafter.for_jobs
    have hids : SameIds (default_limits
        (list_job_dds ssi (set_jobid cs (dds_limits zjb) jobid) info).handle)
        (set_jobid cs zjb jobid) := by
      have hdds := @ids_of_dds ssi (set_jobid cs (dds_limits zjb) jobid) info
      have hset := @same_ids_set cs (dds_limits zjb) zjb ⟨rfl, rfl⟩ jobid
      exact ⟨hdds.1.trans hset.1, hdds.2.trans hset.2⟩
    have hselected := h.status
    rw [← (set_jobid_again hids).selection] at hselected
    have hserved := view_served h.init hselected h.lookup h.free
      (by rw [hjobs]; decide) (by rw [hview_buffer]; decide)
  · rw [hview] at hserved
    cases hserved
  · rw [hresult] at hnone
    rw [if_pos hnone]
    rw [hview] at hserved
    rw [Option.some.inj hserved] at hdds
    exact ⟨hlist.trans hrc, hdds⟩

/-- More data sets than the limit are an error or a warning. -/
theorem list_over_limit (hlimits : DefaultLimits zjb)
    (h : Lists ssi (set_jobid cs zjb jobid).selection info dds)
    (hlength : ZJB_DEFAULT_MAX_DDS < dds.length) :
    (zjb_list_dds cs ssi zjb jobid).rc ≠ RTNCD_SUCCESS := by
  obtain ⟨chains, hverbose, rfl⟩ := h.verbose
  obtain ⟨-, hset_limit, -⟩ := @set_jobid_limits cs (dds_limits zjb) jobid
  obtain ⟨-, hmax, -⟩ := hlimits.for_dds
  have hrc : (list_job_dds ssi (set_jobid cs (dds_limits zjb) jobid) info).rc ≠ RTNCD_SUCCESS := by
    rcases dds_listed ssi (set_jobid cs (dds_limits zjb) jobid) hverbose with
      ⟨copied, -, -, hlimit, -⟩ | ⟨copied, done, -, -, -, -, -, hstopped⟩ | hfailed
    · rw [hset_limit, hmax] at hlimit
      have hne : chains.flatten ≠ [] := by
        intro hnil
        rw [hnil] at hlength
        exact absurd hlength (by decide)
      exact absurd (hlimit hne) (not_le.mpr hlength)
    · rw [hstopped]
      exact free_at_limit_ne ssi
    · rw [hfailed]
      exact failure_fails.1
  have hcases := list_dds_cases h.init h.status rfl rfl
  rcases hcases with ⟨-, hlist, -⟩ | ⟨-, -, hlist, -⟩ | ⟨-, -, hlist, -⟩ | ⟨-, -, _, -, hlist, -⟩
  · rw [hlist]
    exact hrc
  · rw [hlist]
    exact hrc
  · rw [hlist]
    decide
  · rw [hlist]
    exact hrc

/-! A job that is served. -/

variable {job : SpoolJob cs} {key : ℤ} {dsn : Bytes}

theorem Serves.lists (h : Serves job jobid sys) {selection : Selection}
    (hselection : named cs job.info.sttrjid = some selection ∨ named cs jobid = some selection) :
    Lists sys.ssi selection job.info job.dds :=
  ⟨h.init, h.status selection hselection, h.verbose, h.lookup, h.free⟩

/-- A list for the job's id is one of its data sets. -/
theorem Serves.lists_own (h : Serves job jobid sys) (zjb : ZJB) :
    Lists sys.ssi (set_jobid cs zjb job.info.sttrjid).selection job.info job.dds := by
  apply h.lists
  left
  exact (named_iff zjb _).mpr ⟨job.jobid_fits, fun hlong => absurd job.jobid_short (by omega)⟩

/-- What is listed has the data sets of the job, and where there are none others without a token. -/
theorem data_sets_of_listed {dd : ZJobDD} (h : dd ∈ listed cs job.info jobid job.dds) :
    (∃ own ∈ job.data_sets, own.dsn = dd.dsn ∧ own.key = dd.key ∧ own.token = dd.token ∧
        own.is_asa = dd.is_asa) ∨
      job.data_sets = [] ∧ dd ∈ input_dds cs (job_response job.info) := by
  rw [listed] at h
  rw [SpoolJob.data_sets]
  by_cases hnone : job.dds = []
  · rw [if_pos hnone] at h ⊢
    by_cases hwaits : job.waits = true
    · rw [if_pos hwaits]
      exact .inl ⟨dd, h, rfl, rfl, rfl, rfl⟩
    · rw [if_neg hwaits]
      exact .inr ⟨rfl, h⟩
  · rw [if_neg hnone] at h ⊢
    obtain ⟨statsevb, hmem, rfl⟩ := List.mem_map.mp h
    exact .inl ⟨_, List.mem_map_of_mem hmem, rfl, rfl, rfl, rfl⟩

theorem listed_of_data_sets {own : ZJobDD} (h : own ∈ job.data_sets) (jobid : Bytes) :
    ∃ dd ∈ listed cs job.info jobid job.dds, own.dsn = dd.dsn ∧ own.key = dd.key ∧
      own.token = dd.token ∧ own.is_asa = dd.is_asa := by
  rw [SpoolJob.data_sets] at h
  rw [listed]
  by_cases hnone : job.dds = []
  · rw [if_pos hnone] at h ⊢
    by_cases hwaits : job.waits = true
    · rw [if_pos hwaits] at h
      exact ⟨own, h, rfl, rfl, rfl, rfl⟩
    · rw [if_neg hwaits] at h
      exact absurd h List.not_mem_nil
  · rw [if_neg hnone] at h ⊢
    obtain ⟨statsevb, hmem, rfl⟩ := List.mem_map.mp h
    exact ⟨_, List.mem_map_of_mem hmem, rfl, rfl, rfl, rfl⟩

theorem input_dds_plain {info : ZJob} {dd : ZJobDD} (h : dd ∈ input_dds cs info) :
    dd.token = zeros ∧ dd.is_asa = false := by
  rw [input_dds, List.mem_cons, List.mem_singleton] at h
  rcases h with rfl | rfl
  · exact ⟨rfl, rfl⟩
  · exact ⟨rfl, rfl⟩

/-- Two data sets of one name are read alike. -/
theorem data_sets_alike {dd own : ZJobDD} (hdd : dd ∈ job.data_sets) (hown : own ∈ job.data_sets)
    (hsame : same_name cs dd.dsn own.dsn) : dd.token = own.token ∧ dd.is_asa = own.is_asa := by
  rw [SpoolJob.data_sets] at hdd hown
  by_cases hnone : job.dds = []
  · rw [if_pos hnone] at hdd hown
    by_cases hwaits : job.waits = true
    · rw [if_pos hwaits] at hdd hown
      obtain ⟨htoken, hasa⟩ := input_dds_plain hdd
      obtain ⟨htoken', hasa'⟩ := input_dds_plain hown
      exact ⟨htoken.trans htoken'.symm, hasa.trans hasa'.symm⟩
    · rw [if_neg hwaits] at hdd
      exact absurd hdd List.not_mem_nil
  · rw [if_neg hnone] at hdd hown
    obtain ⟨first, hfirst, rfl⟩ := List.mem_map.mp hdd
    obtain ⟨second, hsecond, rfl⟩ := List.mem_map.mp hown
    have hnames : zut_trim cs first.stvsdsn = zut_trim cs second.stvsdsn :=
      of_decide_eq_true hsame
    rw [List.inj_on_of_nodup_map job.names_nodup hfirst hsecond hnames]
    exact ⟨rfl, rfl⟩

theorem token_length {own : ZJobDD} (h : own ∈ job.data_sets) : own.token.length = 80 := by
  rw [SpoolJob.data_sets] at h
  by_cases hnone : job.dds = []
  · rw [if_pos hnone] at h
    by_cases hwaits : job.waits = true
    · rw [if_pos hwaits] at h
      rw [(input_dds_plain h).1]
      rfl
    · rw [if_neg hwaits] at h
      exact absurd h List.not_mem_nil
  · rw [if_neg hnone] at h
    obtain ⟨statsevb, hmem, rfl⟩ := List.mem_map.mp h
    exact job.tokens statsevb hmem

/-! Reading what is allocated. -/

theorem set_token_bytes {token : Bytes} (h : token.length = 80) :
    (set_token zjb token).token.bytes = token := by
  rw [set_token]
  exact List.take_left' h

theorem token_passed_zeros {token : Bytes} : token_passed token = none ↔ token = zeros := by
  rw [token_passed]
  split_ifs with h
  · exact ⟨fun _ => h, fun _ => rfl⟩
  · exact ⟨fun hnone => (by cases hnone), fun hzeros => absurd hzeros h⟩

/-- A data set whose token is in the handle. -/
theorem Serves.is_read (h : Serves job jobid sys) {dd : ZJobDD} (hdd : dd ∈ job.data_sets)
    (hname : same_name cs dd.dsn dsn)
    (htoken : token_passed zjb.token.bytes = token_passed dd.token) :
    IsRead cs sys dd (read_allocated sys zjb dsn dd.is_asa) := by
  obtain ⟨ddname, hallocated, hread, hfree⟩ := h.read dd hdd dsn hname
  rw [read_allocated, htoken, hallocated]
  dsimp only
  rw [if_neg (not_not.mpr rfl), if_neg (fun hne => hne.1 hfree)]
  refine ⟨hread, _, rfl, hname, rfl, rfl, ?_⟩
  rw [Spool.content, hallocated]

theorem Serves.not_read (h : Serves job jobid sys) {is_asa : Bool}
    (hof : OfJob cs job.info.sttrjid dsn)
    (hmissing : ∀ dd ∈ job.data_sets, ¬ same_name cs dd.dsn dsn) :
    (read_allocated sys zjb dsn is_asa).rc ≠ RTNCD_SUCCESS := by
  have habsent := h.absent dsn (token_passed zjb.token.bytes) hof hmissing
  rw [read_allocated]
  dsimp only
  rw [if_pos habsent]
  exact habsent

theorem opened_of_read {is_asa : Bool} :
    ∀ opened ∈ (read_allocated sys zjb dsn is_asa).opened,
      opened.token = token_passed zjb.token.bytes ∧ opened.is_asa = is_asa := by
  rw [read_allocated]
  dsimp only
  split_ifs
  · rintro _ ⟨⟩
  · rintro _ ⟨⟩
    exact ⟨rfl, rfl⟩
  · rintro _ ⟨⟩
    exact ⟨rfl, rfl⟩

/-! By the name. -/

/-- The job id that is parsed is the third part of the name. -/
theorem parsed_jobid {parsed : Bytes × ℤ} (h : zjb_parse_dsn_for_key cs dsn = .ok parsed) :
    OfJob cs parsed.1 dsn := by
  rw [zjb_parse_dsn_for_key] at h
  rw [OfJob]
  rcases hparts : dsn.splitOn (cs.code '.') with
    _ | ⟨userid, _ | ⟨jobname, _ | ⟨id, _ | ⟨ddskey, rest⟩⟩⟩⟩
  case cons.cons.cons.cons =>
    rw [hparts] at h
    dsimp only at h
    rcases hkey : parse_ddskey cs ddskey with e | key
    · rw [hkey] at h
      cases h
    · rw [hkey] at h
      cases h
      rfl
  all_goals
    rw [hparts] at h
    cases h

theorem by_dsn_of_error {e : ℤ} (h : zjb_parse_dsn_for_key cs dsn = .error e) :
    zjb_read_job_content_by_dsn cs sys zjb dsn =
      read_allocated sys (set_token zjb zeros) dsn false := by
  rw [zjb_read_job_content_by_dsn, h]

theorem by_dsn_over_limit (hlimits : DefaultLimits zjb) (h : Serves job jobid sys)
    (hof : OfJob cs job.info.sttrjid dsn) (hparses : Parses cs dsn)
    (hlength : ZJB_DEFAULT_MAX_DDS < job.dds.length) :
    (zjb_read_job_content_by_dsn cs sys zjb dsn).rc ≠ RTNCD_SUCCESS := by
  obtain ⟨⟨id, key⟩, hparsed⟩ := hparses
  obtain rfl : job.info.sttrjid = id := Option.some.inj (hof.symm.trans (parsed_jobid hparsed))
  have hrc : (zjb_list_dds cs sys.ssi (set_token zjb zeros) job.info.sttrjid).rc ≠ 0 :=
    list_over_limit (hlimits.set_token zeros) (h.lists_own _) hlength
  rw [zjb_read_job_content_by_dsn, hparsed]
  dsimp only
  rw [if_pos hrc]
  exact hrc

theorem by_dsn_within_limit (hlimits : DefaultLimits zjb) (h : Serves job jobid sys)
    (hof : OfJob cs job.info.sttrjid dsn) (hparses : Parses cs dsn)
    (hlength : (job.dds.length : ℤ) ≤ ZJB_DEFAULT_MAX_DDS) :
    Reads job sys (fun dd => same_name cs dd.dsn dsn)
      (zjb_read_job_content_by_dsn cs sys zjb dsn) := by
  obtain ⟨⟨id, key⟩, hparsed⟩ := hparses
  obtain rfl : job.info.sttrjid = id := Option.some.inj (hof.symm.trans (parsed_jobid hparsed))
  obtain ⟨hrc, hresult⟩ := list_within_limit (hlimits.set_token zeros) (h.lists_own _) hlength
  have hzero : ¬ (zjb_list_dds cs sys.ssi (set_token zjb zeros) job.info.sttrjid).rc ≠ 0 :=
    not_not.mpr hrc
  rw [zjb_read_job_content_by_dsn, hparsed]
  dsimp only
  rw [if_neg hzero, hresult]
  rcases hfind : (listed cs job.info job.info.sttrjid job.dds).find?
    fun dd => same_name cs dd.dsn dsn with _ | dd
  · rw [hfind]
    have hnone := List.find?_eq_none.mp hfind
    refine ⟨fun own hown hname => ?_, fun _ => failure_fails.1⟩
    obtain ⟨dd, hdd, hdsn, -⟩ := listed_of_data_sets hown job.info.sttrjid
    exact absurd (hdsn ▸ hname) (hnone dd hdd)
  · rw [hfind]
    dsimp only
    have hname := List.find?_some hfind
    rcases data_sets_of_listed (List.mem_of_find?_eq_some hfind) with
      ⟨own, hown, hdsn, -, htoken, hasa⟩ | ⟨hempty, -⟩
    · refine ⟨fun wanted hwanted hsame => ?_, fun hmissing => ?_⟩
      · have hboth : same_name cs wanted.dsn own.dsn := by
          rw [hdsn]
          exact decide_eq_true ((of_decide_eq_true hsame).trans (of_decide_eq_true hname).symm)
        obtain ⟨hsame_token, hsame_asa⟩ := data_sets_alike hwanted hown hboth
        rw [← htoken, ← hasa, ← hsame_token, ← hsame_asa]
        exact h.is_read hwanted hsame (by rw [set_token_bytes (token_length hwanted)])
      · exact absurd (hdsn ▸ hname) (hmissing own hown)
    · refine ⟨fun wanted hwanted _ => ?_, fun hmissing => h.not_read hof hmissing⟩
      rw [hempty] at hwanted
      exact absurd hwanted List.not_mem_nil

/-- A name is found in the list, or needs no list. -/
theorem by_dsn_reads_iff (hlimits : DefaultLimits zjb) (h : Serves job jobid sys)
    (hof : OfJob cs job.info.sttrjid dsn) :
    Reads job sys (fun dd => same_name cs dd.dsn dsn)
        (zjb_read_job_content_by_dsn cs sys zjb dsn) ↔
      ∀ dd ∈ job.data_sets, same_name cs dd.dsn dsn →
        (Parses cs dsn → (job.dds.length : ℤ) ≤ ZJB_DEFAULT_MAX_DDS) ∧
          (NeedsList dd → Parses cs dsn) := by
  by_cases hparses : Parses cs dsn
  · by_cases hlength : (job.dds.length : ℤ) ≤ ZJB_DEFAULT_MAX_DDS
    · exact ⟨fun _ _ _ _ => ⟨fun _ => hlength, fun _ => hparses⟩,
        fun _ => by_dsn_within_limit hlimits h hof hparses hlength⟩
    · have hrc := by_dsn_over_limit hlimits h hof hparses (not_le.mp hlength)
      refine ⟨fun hreads dd hdd hname => absurd (hreads.found dd hdd hname).1 hrc,
        fun hreach => ⟨fun dd hdd hname => ?_, fun _ => hrc⟩⟩
      exact absurd ((hreach dd hdd hname).1 hparses) hlength
  · obtain ⟨e, herror⟩ : ∃ e, zjb_parse_dsn_for_key cs dsn = .error e := by
      rcases hparsed : zjb_parse_dsn_for_key cs dsn with e | parsed
      · exact ⟨e, rfl⟩
      · exact absurd ⟨parsed, hparsed⟩ hparses
    have htoken : token_passed (set_token zjb zeros).token.bytes = none :=
      token_passed_zeros.mpr (set_token_bytes rfl)
    rw [by_dsn_of_error herror]
    constructor
    · intro hreads dd hdd hname
      obtain ⟨-, opened, hopened, -, hown, hasa, -⟩ := hreads.found dd hdd hname
      obtain ⟨hpassed, hplain⟩ := opened_of_read opened hopened
      refine ⟨fun hyes => absurd hyes hparses, fun hneeds => ?_⟩
      rcases hneeds with hne | hyes
      · exact absurd (token_passed_zeros.mp (hown.symm.trans (hpassed.trans htoken))) hne
      · rw [← hasa, hplain] at hyes
        cases hyes
    · refine fun hreach => ⟨fun dd hdd hname => ?_, fun hmissing => h.not_read hof hmissing⟩
      have hplain : ¬ NeedsList dd := fun hneeds => hparses ((hreach dd hdd hname).2 hneeds)
      rw [NeedsList, not_or, not_not, Bool.not_eq_true] at hplain
      rw [← hplain.2]
      exact h.is_read hdd hname (htoken.trans (token_passed_zeros.mpr hplain.1).symm)

/-! By the key. -/

theorem same_name_self (dsn : Bytes) : same_name cs dsn dsn := decide_eq_true rfl

/-- The names of a job that waits for input are put together of its own. -/
theorem of_job_input {dd : ZJobDD} (h : dd ∈ input_dds cs (job_response job.info)) :
    OfJob cs job.info.sttrjid dd.dsn := by
  have howner : cs.code '.' ∉ zut_rtrim cs (job_response job.info).owner := by
    intro hmem
    have hmem := (rtrim_front _).subset hmem
    rw [job_response] at hmem
    split_ifs at hmem
    · exact absurd hmem List.not_mem_nil
    · exact job.qualifiers _ (by simp) hmem
  have hname : cs.code '.' ∉ zut_rtrim cs (job_response job.info).jobname :=
    fun hmem => job.qualifiers job.info.sttrname (by simp) ((rtrim_front _).subset hmem)
  have hjobid : cs.code '.' ∉ job.info.sttrjid := job.qualifiers _ (by simp)
  have hddn : ∀ ddn ∈ ["JESMSGLG", "JESJCL"], cs.code '.' ∉ cs.str ddn := by
    have hchars : ∀ ddn ∈ ["JESMSGLG", "JESJCL"], ∀ c ∈ ddn.toList, c ∈ printable ∧ c ≠ '.' := by
      decide +kernel
    intro ddn hddn hmem
    obtain ⟨c, hc, hcode⟩ := List.mem_map.mp hmem
    obtain ⟨hprintable, hne⟩ := hchars ddn hddn c hc
    exact cs.code_ne hprintable (by decide) hne hcode
  have hsplit (ddn : String) (hmem : ddn ∈ ["JESMSGLG", "JESJCL"]) :
      OfJob cs job.info.sttrjid (zut_rtrim cs (job_response job.info).owner ++ [cs.code '.'] ++
        zut_rtrim cs (job_response job.info).jobname ++ [cs.code '.'] ++
        (job_response job.info).jobid ++ [cs.code '.'] ++ cs.str ddn) := by
    have hparts : ([cs.code '.'].intercalate [zut_rtrim cs (job_response job.info).owner,
        zut_rtrim cs (job_response job.info).jobname, job.info.sttrjid, cs.str ddn]).splitOn
          (cs.code '.') = [zut_rtrim cs (job_response job.info).owner,
        zut_rtrim cs (job_response job.info).jobname, job.info.sttrjid, cs.str ddn] := by
      apply List.splitOn_intercalate _ _ (List.cons_ne_nil _ _)
      simpa using ⟨howner, hname, hjobid, hddn ddn hmem⟩
    rw [OfJob]
    simp only [List.intercalate_cons_cons, List.intercalate_singleton, List.append_assoc] at hparts
    simp only [List.append_assoc]
    rw [show (job_response job.info).jobid = job.info.sttrjid from rfl, hparts]
    rfl
  rw [input_dds, List.mem_cons, List.mem_singleton] at h
  rcases h with rfl | rfl
  · exact hsplit "JESMSGLG" (by simp)
  · exact hsplit "JESJCL" (by simp)

theorem of_job_listed {dd : ZJobDD} (h : dd ∈ listed cs job.info jobid job.dds) :
    OfJob cs job.info.sttrjid dd.dsn := by
  rw [listed] at h
  split_ifs at h with hnone
  · exact of_job_input h
  · obtain ⟨statsevb, hmem, rfl⟩ := List.mem_map.mp h
    exact job.names statsevb hmem

theorem listed_key_inj {first second : ZJobDD} (h : first ∈ listed cs job.info jobid job.dds)
    (h' : second ∈ listed cs job.info jobid job.dds) (hsame : first.key = second.key) :
    first = second := by
  rw [listed] at h h'
  split_ifs at h h' with hnone
  · rw [input_dds, List.mem_cons, List.mem_singleton] at h h'
    rcases h with rfl | rfl <;> rcases h' with rfl | rfl
    · rfl
    · exact absurd (show (2 : ℤ) = 3 from hsame) (by decide)
    · exact absurd (show (3 : ℤ) = 2 from hsame) (by decide)
    · rfl
  · obtain ⟨a, ha, rfl⟩ := List.mem_map.mp h
    obtain ⟨b, hb, rfl⟩ := List.mem_map.mp h'
    rw [List.inj_on_of_nodup_map job.keys_nodup ha hb hsame]

theorem by_key_over_limit (hlimits : DefaultLimits zjb)
    (h : Lists sys.ssi (set_jobid cs zjb jobid).selection job.info job.dds)
    (hlength : ZJB_DEFAULT_MAX_DDS < job.dds.length) :
    (zjb_read_job_content_by_key cs sys zjb jobid key).rc ≠ RTNCD_SUCCESS := by
  have hrc : (zjb_list_dds cs sys.ssi zjb jobid).rc ≠ 0 := list_over_limit hlimits h hlength
  rw [zjb_read_job_content_by_key, zjb_get_job_dsn_by_key]
  dsimp only
  rw [if_pos hrc]
  dsimp only
  rw [if_pos hrc]
  exact hrc

/-- Within the limit a key comes to a warning, or to the read of the name it is found with. -/
theorem by_key_within_limit {info : JobInfo} {dds : List Statsevb} (hlimits : DefaultLimits zjb)
    (h : Lists sys.ssi (set_jobid cs zjb jobid).selection info dds)
    (hlength : (dds.length : ℤ) ≤ ZJB_DEFAULT_MAX_DDS) (key : ℤ) :
    ((∀ dd ∈ listed cs info jobid dds, dd.key ≠ key) ∧
        (zjb_read_job_content_by_key cs sys zjb jobid key).rc = RTNCD_WARNING) ∨
      ∃ dd ∈ listed cs info jobid dds, dd.key = key ∧ ∃ after : ZJB, DefaultLimits after ∧
        zjb_read_job_content_by_key cs sys zjb jobid key =
          zjb_read_job_content_by_dsn cs sys after dd.dsn := by
  obtain ⟨hrc, hresult⟩ := list_within_limit hlimits h hlength
  have hafter : DefaultLimits (zjb_list_dds cs sys.ssi zjb jobid).handle :=
    hlimits.list_dds sys.ssi jobid
  have hzero : ¬ (zjb_list_dds cs sys.ssi zjb jobid).rc ≠ 0 := not_not.mpr hrc
  rw [zjb_read_job_content_by_key, zjb_get_job_dsn_by_key]
  dsimp only
  rw [if_neg hzero, hresult]
  rcases hfind : (listed cs info jobid dds).find? fun dd => decide (key = dd.key) with _ | dd
  · rw [hfind]
    refine .inl ⟨fun dd hdd hkey => ?_, rfl⟩
    exact List.find?_eq_none.mp hfind dd hdd (decide_eq_true hkey.symm)
  · rw [hfind]
    have hkey : key = dd.key := by simpa using List.find?_some hfind
    exact .inr ⟨dd, List.mem_of_find?_eq_some hfind, hkey.symm, _, hafter.set_token dd.token, rfl⟩

/-- Data sets that are read alike are read together. -/
theorem IsRead.congr {run : ReadRun} {dd own : ZJobDD} (h : IsRead cs sys own run)
    (hname : same_name cs dd.dsn own.dsn) (htoken : dd.token = own.token)
    (hasa : dd.is_asa = own.is_asa) : IsRead cs sys dd run := by
  obtain ⟨hrc, opened, hopened, hsame, hpassed, hformat, hresponse⟩ := h
  refine ⟨hrc, opened, hopened, ?_, htoken ▸ hpassed, hasa ▸ hformat, hresponse⟩
  exact decide_eq_true ((of_decide_eq_true hname).trans (of_decide_eq_true hsame))

theorem by_key_reads_iff (hlimits : DefaultLimits zjb) (h : Serves job jobid sys)
    (hlists : Lists sys.ssi (set_jobid cs zjb jobid).selection job.info job.dds) (key : ℤ) :
    Reads job sys (fun dd => dd.key = key) (zjb_read_job_content_by_key cs sys zjb jobid key) ↔
      ∀ dd ∈ job.data_sets, dd.key = key →
        (job.dds.length : ℤ) ≤ ZJB_DEFAULT_MAX_DDS ∧ (NeedsList dd → Parses cs dd.dsn) := by
  by_cases hlength : (job.dds.length : ℤ) ≤ ZJB_DEFAULT_MAX_DDS
  · rcases by_key_within_limit hlimits hlists hlength key with ⟨hnone, hrc⟩ |
      ⟨dd, hdd, hkey, after, hafter, hrun⟩
    · have hmissing : ∀ own ∈ job.data_sets, own.key ≠ key := by
        intro own hown hkey
        obtain ⟨dd, hdd, -, hsame, -⟩ := listed_of_data_sets hown jobid
        exact hnone dd hdd (hsame.symm.trans hkey)
      refine ⟨fun _ own hown hkey => absurd hkey (hmissing own hown),
        fun _ => ⟨fun own hown hkey => absurd hkey (hmissing own hown), fun _ => ?_⟩⟩
      rw [hrc]
      decide
    -- Every data set with the key has the name that is read.
    have hwanted : ∀ wanted ∈ job.data_sets, wanted.key = key → wanted.dsn = dd.dsn := by
      intro wanted hmem hwant
      obtain ⟨dd', hdd', hdsn, hsame, -⟩ := listed_of_data_sets hmem jobid
      rw [hdsn, listed_key_inj hdd' hdd (hsame.symm.trans (hwant.trans hkey.symm))]
    have hreads := by_dsn_reads_iff hafter h (of_job_listed hdd)
    rw [hrun]
    rcases data_sets_of_listed hdd with ⟨own, hown, hdsn, hsame, -⟩ | ⟨hempty, -⟩
    · have hown_key : own.key = key := hsame.trans hkey
      constructor
      · intro hby_key wanted hmem hwant
        refine ⟨hlength, fun hneeds => ?_⟩
        have hby_dsn : Reads job sys (fun x => same_name cs x.dsn dd.dsn)
            (zjb_read_job_content_by_dsn cs sys after dd.dsn) := by
          refine ⟨fun x hx hname => ?_, fun hmissing => ?_⟩
          · rw [← hdsn] at hname
            obtain ⟨htoken, hasa⟩ := data_sets_alike hx hown hname
            exact (hby_key.found own hown hown_key).congr hname htoken hasa
          · exact absurd (hdsn ▸ same_name_self _) (hmissing own hown)
        have hname : same_name cs wanted.dsn dd.dsn := hwanted wanted hmem hwant ▸ same_name_self _
        rw [hwanted wanted hmem hwant]
        exact (hreads.mp hby_dsn wanted hmem hname).2 hneeds
      · intro hreach
        have hby_dsn := hreads.mpr fun x hx hname => ⟨fun _ => hlength, fun hneeds => by
          rw [← hdsn] at hname
          obtain ⟨htoken, hasa⟩ := data_sets_alike hx hown hname
          rw [NeedsList, htoken, hasa] at hneeds
          exact hdsn ▸ (hreach own hown hown_key).2 hneeds⟩
        refine ⟨fun wanted hmem hwant => hby_dsn.found wanted hmem ?_, fun hmissing => ?_⟩
        · exact hwanted wanted hmem hwant ▸ same_name_self _
        · exact absurd hown_key (hmissing own hown)
    · have hno : ∀ x ∈ job.data_sets, False := fun x hx => by
        rw [hempty] at hx
        exact absurd hx List.not_mem_nil
      have hby_dsn := hreads.mpr fun x hx => (hno x hx).elim
      have hrc := hby_dsn.missing fun x hx => (hno x hx).elim
      exact ⟨fun _ x hx => (hno x hx).elim, fun _ => ⟨fun x hx => (hno x hx).elim, fun _ => hrc⟩⟩
  · have hrc := @by_key_over_limit _ _ _ _ _ key hlimits hlists (not_le.mp hlength)
    refine ⟨fun hreads dd hdd hkey => absurd (hreads.found dd hdd hkey).1 hrc,
      fun hreach => ⟨fun dd hdd hkey => ?_, fun _ => hrc⟩⟩
    exact absurd (hreach dd hdd hkey).1 hlength

/-! The job that is listed. -/

/-- What is selected is the job unless another id is in the handle. -/
theorem own_selection_iff (hfits : Fits cs jobid) :
    (8 < jobid.length → zjb.jobid.bytes.headD 0 ≠ 0 →
        named cs job.info.sttrjid = some (.jobid zjb.jobid.bytes zjb.jobid.bytes)) ↔
      named cs job.info.sttrjid = some (set_jobid cs zjb jobid).selection ∨
        named cs jobid = some (set_jobid cs zjb jobid).selection := by
  by_cases hown : 8 < jobid.length → zjb.jobid.bytes.headD 0 = 0
  · exact ⟨fun _ => .inr ((named_iff zjb jobid).mpr ⟨hfits, hown⟩),
      fun _ hlong hset => absurd (hown hlong) hset⟩
  · have hlong : 8 < jobid.length := by
      by_contra hshort
      exact hown fun hlong => absurd hlong hshort
    have hset : zjb.jobid.bytes.headD 0 ≠ 0 := fun hzero => hown fun _ => hzero
    have hselection : (set_jobid cs zjb jobid).selection =
        .jobid zjb.jobid.bytes zjb.jobid.bytes := by
      rw [set_jobid, if_pos hlong, ZJB.selection, if_pos hset]
    have hnot : named cs jobid ≠ some (set_jobid cs zjb jobid).selection :=
      fun hnamed => hown ((named_iff zjb jobid).mp hnamed).2
    rw [hselection] at hnot ⊢
    exact ⟨fun h => .inl (h hlong hset), fun h _ _ => h.resolve_right hnot⟩

/-- Another job than this one. -/
def other_job (job : SpoolJob cs) : JobInfo :=
  { job.info with sttrname := 0 :: job.info.sttrname }

theorem other_job_ne (job : SpoolJob cs) : other_job job ≠ job.info := by
  intro h
  have hname := congrArg (fun info => info.sttrname.length) h
  simp [other_job] at hname

/-- A system that serves the job, and has another one with one data set for all else. -/
def rival (job : SpoolJob cs) (jobid : Bytes) (dd : Statsevb) : System where
  ssi :=
    { init_ssib := 0
      modify := fun _ _ _ => .refuses
      status := fun selection =>
        if named cs job.info.sttrjid = some selection ∨ named cs jobid = some selection then
          .gives [job.info]
        else .gives [other_job job]
      list := fun _ => .refuses
      verbose := fun info => if info = job.info then .gives [job.dds] else .gives [[dd]]
      iaztlkup := fun _ => (0, 0)
      free := some 0 }
  spool :=
    { svc99 := fun _ dsn =>
        if (dsn.splitOn (cs.code '.'))[2]? = some job.info.sttrjid ∧
            ∀ dd ∈ job.data_sets, ¬ same_name cs dd.dsn dsn then (1, [])
        else (0, [])
      zds_read := fun _ _ _ => ⟨0, 0, []⟩
      dynfree := fun _ => 0 }

theorem serves_rival (job : SpoolJob cs) (jobid : Bytes) (dd : Statsevb) :
    Serves job jobid (rival job jobid dd) where
  init := rfl
  status _ hselection := if_pos hselection
  verbose := ⟨[job.dds], if_pos rfl, List.flatten_singleton⟩
  lookup _ := rfl
  free := rfl
  read own hown dsn hname := by
    refine ⟨[], if_neg fun habsent => ?_, rfl, rfl⟩
    exact habsent.2 own hown hname
  absent dsn token hof hmissing := by
    have habsent : (rival job jobid dd).spool.svc99 token dsn = (1, []) := if_pos ⟨hof, hmissing⟩
    rw [habsent]
    decide

theorem rival_lists {selection : Selection} (dd : Statsevb)
    (h : ¬ (named cs job.info.sttrjid = some selection ∨ named cs jobid = some selection)) :
    Lists (rival job jobid dd).ssi selection (other_job job) [dd] where
  init := rfl
  status := if_neg h
  verbose := ⟨[[dd]], if_neg (other_job_ne job), List.flatten_singleton⟩
  lookup _ := rfl
  free := rfl

/-- A data set without a name that is any job's. -/
def nameless (key : ℤ) : Statsevb := ⟨[], [], [], [], key, zeros, false⟩

/-- Where another job is listed, its data set is read for a key that the job itself has not, and
for one that it has there may be none. -/
theorem own_job_of_by_key (hlimits : DefaultLimits zjb) (key : ℤ)
    (h : ∀ sys, Serves job jobid sys → Reads job sys (fun dd => dd.key = key)
      (zjb_read_job_content_by_key cs sys zjb jobid key)) :
    named cs job.info.sttrjid = some (set_jobid cs zjb jobid).selection ∨
      named cs jobid = some (set_jobid cs zjb jobid).selection := by
  by_contra hother
  have hlength (dd : Statsevb) : (([dd].length : ℕ) : ℤ) ≤ ZJB_DEFAULT_MAX_DDS := by
    rw [List.length_singleton]
    decide
  by_cases hsome : ∃ dd ∈ job.data_sets, dd.key = key
  · obtain ⟨dd, hdd, hkey⟩ := hsome
    have hrc := ((h _ (serves_rival job jobid (nameless (key + 1)))).found dd hdd hkey).1
    rcases by_key_within_limit hlimits (rival_lists (nameless (key + 1)) hother) (hlength _) key with
      ⟨-, hwarning⟩ | ⟨found, hfound, hfound_key, -⟩
    · rw [hwarning] at hrc
      exact absurd hrc (by decide)
    · rw [listed, if_neg (List.cons_ne_nil _ _), List.map_singleton, List.mem_singleton] at hfound
      rw [hfound] at hfound_key
      exact absurd (show key + 1 = key from hfound_key) (by omega)
  · have hmissing : ∀ dd ∈ job.data_sets, ¬ dd.key = key :=
      fun dd hdd hkey => hsome ⟨dd, hdd, hkey⟩
    have hrc := (h _ (serves_rival job jobid (nameless key))).missing hmissing
    rcases by_key_within_limit hlimits (rival_lists (nameless key) hother) (hlength _) key with
      ⟨hnone, -⟩ | ⟨found, hfound, -, after, -, hrun⟩
    · refine absurd rfl (hnone (dd_response jobid (nameless key)) ?_)
      rw [listed, if_neg (List.cons_ne_nil _ _)]
      exact List.mem_cons_self
    · rw [listed, if_neg (List.cons_ne_nil _ _), List.map_singleton, List.mem_singleton] at hfound
      apply hrc
      rw [hrun, hfound]
      rfl

/-! The first of a job's data sets. -/

theorem warning_ne : RTNCD_WARNING ≠ RTNCD_SUCCESS := by decide

/-- A list that is given with success is not empty. -/
theorem list_ne_nil (ssi : Ssi) (zjb : ZJB) (jobid : Bytes)
    (h : (zjb_list_dds cs ssi zjb jobid).rc = RTNCD_SUCCESS) :
    (zjb_list_dds cs ssi zjb jobid).result ≠ [] := by
  revert h
  rw [zjb_list_dds]
  generalize ZJBMLSDS ssi (set_jobid cs (dds_limits zjb) jobid) = run
  dsimp only
  by_cases hrc : run.rc ≠ RTNCD_SUCCESS ∧ run.rc ≠ RTNCD_WARNING
  · rw [if_pos hrc]
    exact fun h => absurd h hrc.1
  rw [if_neg hrc]
  by_cases hnone : run.result = []
  · rw [if_pos hnone]
    rcases (zjb_view cs ssi run.handle jobid).result with _ | job
    · exact fun h => absurd h warning_ne
    · exact fun _ => List.cons_ne_nil _ _
  · rw [if_neg hnone]
    exact fun _ hmap => hnone (List.map_eq_nil_iff.mp hmap)

theorem jcl_has_first (sys : System) (zjb : ZJB) (jobid : Bytes) :
    zjb_read_job_jcl cs sys zjb jobid ≠ none := by
  have hne := @list_ne_nil cs sys.ssi zjb jobid
  rw [zjb_read_job_jcl]
  generalize zjb_list_dds cs sys.ssi zjb jobid = list at hne ⊢
  dsimp only
  by_cases hrc : list.rc ≠ 0
  · rw [if_pos hrc]
    exact Option.some_ne_none _
  rw [if_neg hrc]
  rcases hresult : list.result with _ | ⟨first, rest⟩
  · exact absurd hresult (hne (not_not.mp hrc))
  dsimp only
  rcases getline_parts cs first.dsn with _ | ⟨hlq, _ | ⟨next, _ | ⟨last, _⟩⟩⟩
  · exact Option.some_ne_none _
  · exact Option.some_ne_none _
  · exact Option.some_ne_none _
  · exact Option.some_ne_none _

/-- After any uses of the handle a data set is delivered just when it is in reach. -/
theorem delivers_iff (uses : List (Use × System)) (job : SpoolJob cs)
    (jobid : { jobid : Bytes // Fits cs jobid }) (key : ℤ) (dsn : Bytes) :
    Delivers (used cs uses) job jobid.val key dsn ↔
      InReach (used cs uses) job jobid.val key dsn := by
  have hlimits := @default_limits_used cs uses
  generalize used cs uses = zjb at hlimits
  obtain ⟨jobid, hfits⟩ := jobid
  constructor
  · intro h
    have hown := own_job_of_by_key hlimits key h.by_key
    have hserves := serves_rival job jobid (nameless 0)
    exact ⟨(own_selection_iff hfits).mpr hown,
      (by_key_reads_iff hlimits hserves (hserves.lists hown) key).mp (h.by_key _ hserves),
      fun hof => (by_dsn_reads_iff hlimits hserves hof).mp (h.by_dsn hof _ hserves)⟩
  · intro h
    have hown := (own_selection_iff hfits).mp h.own_job
    exact ⟨fun sys hserves =>
        (by_key_reads_iff hlimits hserves (hserves.lists hown) key).mpr h.by_key,
      fun hof sys hserves => (by_dsn_reads_iff hlimits hserves hof).mpr (h.by_dsn hof),
      fun sys => jcl_has_first sys zjb jobid⟩

/-! A job with more data sets than the limit. -/

def key_digits (i : ℕ) : List Char := Nat.toDigits 10 (1000000 + i)

/-- The parts of a name. -/
def written_parts (i : ℕ) : List Bytes :=
  [ibm1047.str "IBMUSER1", ibm1047.str "JOBABCDE", ibm1047.str "JOB00001",
    ibm1047.code 'D' :: (key_digits i).map ibm1047.code, ibm1047.str "SYSUT001"]

def written_dsn (i : ℕ) : Bytes := [ibm1047.code '.'].intercalate (written_parts i)

theorem key_digits_printable (i : ℕ) : ∀ c ∈ key_digits i, c ∈ printable ∧ c ≠ '.' := by
  have hdigits : ∀ c ∈ lexer.dec_digits, c ∈ printable ∧ c ≠ '.' := by decide +kernel
  intro c hc
  exact hdigits c (lexer.mem_toDigits_dec hc)

theorem written_parts_plain (i : ℕ) : ∀ part ∈ written_parts i, ibm1047.code '.' ∉ part := by
  have hdigits : ibm1047.code '.' ∉ (key_digits i).map ibm1047.code := by
    intro hmem
    obtain ⟨c, hc, hcode⟩ := List.mem_map.mp hmem
    obtain ⟨hprintable, hne⟩ := key_digits_printable i c hc
    exact ibm1047.code_ne hprintable (by decide) hne hcode
  have hfixed : ibm1047.code '.' ≠ ibm1047.code 'D' ∧
      ibm1047.code '.' ∉ ibm1047.str "IBMUSER1" ∧ ibm1047.code '.' ∉ ibm1047.str "JOBABCDE" ∧
      ibm1047.code '.' ∉ ibm1047.str "JOB00001" ∧ ibm1047.code '.' ∉ ibm1047.str "SYSUT001" := by
    decide +kernel
  obtain ⟨hfirst, howner, hname, hjobid, hdsname⟩ := hfixed
  intro part hpart
  simp only [written_parts, List.mem_cons, List.not_mem_nil, or_false] at hpart
  rcases hpart with rfl | rfl | rfl | rfl | rfl
  · exact howner
  · exact hname
  · exact hjobid
  · exact List.not_mem_cons_of_ne_of_not_mem hfirst hdigits
  · exact hdsname

theorem splitOn_written (i : ℕ) : (written_dsn i).splitOn (ibm1047.code '.') = written_parts i :=
  List.splitOn_intercalate _ (written_parts_plain i) (List.cons_ne_nil _ _)

theorem written_dsn_inj {i j : ℕ} (h : written_dsn i = written_dsn j) : i = j := by
  have hparts : written_parts i = written_parts j := by
    rw [← splitOn_written, ← splitOn_written, h]
  have hcodes : (key_digits i).map ibm1047.code = (key_digits j).map ibm1047.code := by
    simpa [written_parts] using hparts
  have hdigits : key_digits i = key_digits j :=
    dscb.map_code_inj (fun c hc => (key_digits_printable i c hc).1)
      (fun c hc => (key_digits_printable j c hc).1) hcodes
  have hvalue := congrArg (fun digits => Nat.ofDigitChars 10 digits 0) hdigits
  simp only [key_digits, Nat.ofDigitChars_ten_toDigits] at hvalue
  omega

theorem zut_trim_written (i : ℕ) : zut_trim ibm1047 (written_dsn i) = written_dsn i := by
  apply format.zut_trim_of_trimmed
  rw [written_dsn, written_parts]
  simp only [List.intercalate_cons_cons, List.intercalate_singleton]
  constructor
  · rw [List.append_assoc, List.head?_append,
      show (ibm1047.str "IBMUSER1").head? = some 0xC9 by decide +kernel, Option.some_or]
    decide +kernel
  · rw [List.getLast?_append, List.getLast?_append, List.getLast?_append, List.getLast?_append,
      show (ibm1047.str "SYSUT001").getLast? = some 0xF1 by decide +kernel, Option.some_or,
      Option.some_or, Option.some_or, Option.some_or]
    decide +kernel

theorem of_job_written (i : ℕ) : OfJob ibm1047 (ibm1047.str "JOB00001") (written_dsn i) := by
  rw [OfJob, splitOn_written]
  rfl

/-- The data sets that a job writes one after the other. -/
def written_dd (i : ℕ) : Statsevb where
  stvsddnd := ibm1047.str "SYSUT001"
  stvsstpd := ibm1047.str "STEP1   "
  stvsprcd := ibm1047.str "        "
  stvsdsn := written_dsn i
  stvsdsky := 1000000 + i
  stvsctkn := List.replicate 80 1
  dcbrecca := false

def long_job : SpoolJob ibm1047 where
  info := ⟨ibm1047.str "JOBABCDE", ibm1047.str "JOB00001", ibm1047.str "IBMUSER1"⟩
  dds := (List.range 101).map written_dd
  waits := false
  jobid_fits := by
    refine ⟨by decide +kernel, by decide +kernel, fun before after hsplit => ?_, fun _ => ?_⟩
    · have hzero : (0 : UInt8) ∉ (ibm1047.str "JOB00001").map (toupper ibm1047) := by
        decide +kernel
      exact absurd (hsplit ▸ List.mem_append_right _ List.mem_cons_self) hzero
    · decide +kernel
  jobid_short := by decide +kernel
  qualifiers := by decide +kernel
  names dd hdd := by
    obtain ⟨i, -, rfl⟩ := List.mem_map.mp hdd
    exact of_job_written i
  tokens dd hdd := by
    obtain ⟨i, -, rfl⟩ := List.mem_map.mp hdd
    exact List.length_replicate
  keys_nodup := by
    rw [List.map_map]
    refine List.Nodup.map (fun i j h => ?_) List.nodup_range
    simpa [written_dd] using h
  names_nodup := by
    rw [List.map_map]
    refine List.Nodup.map (fun i j h => written_dsn_inj ?_) List.nodup_range
    rw [← zut_trim_written i, ← zut_trim_written j]
    exact h

/-- The first of 101 data sets is not delivered, by a handle that was not used before. -/
theorem first_not_delivered :
    ¬ Delivers {} long_job (ibm1047.str "JOB00001") 1000000 [] := by
  intro h
  have hserves := serves_rival long_job (ibm1047.str "JOB00001") (nameless 0)
  have hfirst : dd_response long_job.info.sttrjid (written_dd 0) ∈ long_job.data_sets :=
    List.mem_map_of_mem (List.mem_map_of_mem (List.mem_range.mpr (by decide)))
  have hlimits : DefaultLimits {} := ⟨.inl rfl, .inl rfl, .inl rfl⟩
  have hlength : ZJB_DEFAULT_MAX_DDS < (long_job.dds.length : ℤ) := by
    rw [long_job, List.length_map, List.length_range]
    decide
  exact by_key_over_limit hlimits (hserves.lists_own {}) hlength
    ((h.by_key _ hserves).found _ hfirst rfl).1

end Zowex.zjs

import Zowex.Proofs.Selections

/-! Which lists are announced as incomplete: those that reach the limit are, those that the buffer
has no room for are not, since the return code is that of the request to free the storage. -/

namespace Zowex.zjb

variable {cs : Charset} {ssi : Ssi} {α : Type}

/-! The loop. -/

/-- What the loop has copied of the elements that it is done with. -/
structure CopyInv (size buffer_size : ℤ) (done : List α) (copied : Copied α) : Prop where
  loop_control : copied.loop_control = done.length
  total_size : copied.total_size = done.length * size
  first : copied.entries <+: done
  fits : copied.entries ≠ [] → copied.entries.length * size ≤ buffer_size
  some : done ≠ [] → size ≤ buffer_size → copied.entries ≠ []
  complete : done.length * size ≤ buffer_size → copied.entries = done

theorem CopyInv.start (size buffer_size detail_rc : ℤ) :
    CopyInv size buffer_size ([] : List α) { detail_rc } :=
  ⟨rfl, (zero_mul size).symm, List.prefix_rfl, fun h => absurd rfl h, fun h => absurd rfl h,
    fun _ => rfl⟩

/-- An element that there is room for. -/
theorem CopyInv.copied {size buffer_size : ℤ} (hsize : 0 < size) {done : List α} {copied : Copied α}
    (h : CopyInv size buffer_size done copied) {entry : α}
    (hroom : copied.total_size + size ≤ buffer_size) (detail_rc : ℤ) :
    CopyInv size buffer_size (done ++ [entry])
      ⟨copied.loop_control + 1, copied.total_size + size, copied.entries ++ [entry], detail_rc⟩ := by
  have htotal : ((done ++ [entry]).length : ℤ) * size = copied.total_size + size := by
    rw [h.total_size, List.length_append, List.length_singleton]
    push_cast
    ring
  have hall : copied.entries = done := h.complete (by rw [← h.total_size]; omega)
  refine ⟨?_, htotal.symm, ?_, fun _ => ?_, fun _ _ => List.concat_ne_nil _ _, fun _ => ?_⟩
  · rw [h.loop_control, List.length_append]
    rfl
  · rw [hall]
  · rw [hall, htotal]
    exact hroom
  · rw [hall]

theorem CopyInv.left_out {size buffer_size : ℤ} {done : List α} {copied : Copied α}
    (h : CopyInv size buffer_size done copied) {entry : α}
    (hroom : ¬ copied.total_size + size ≤ buffer_size) (detail_rc : ℤ) :
    CopyInv size buffer_size (done ++ [entry])
      ⟨copied.loop_control + 1, copied.total_size + size, copied.entries, detail_rc⟩ := by
  have htotal : ((done ++ [entry]).length : ℤ) * size = copied.total_size + size := by
    rw [h.total_size, List.length_append, List.length_singleton]
    push_cast
    ring
  refine ⟨?_, htotal.symm, h.first.trans (List.prefix_append done [entry]), h.fits,
    fun _ hone => ?_, fun hall => ?_⟩
  · rw [h.loop_control, List.length_append]
    rfl
  · by_cases hdone : done = []
    · rw [h.total_size, hdone] at hroom
      simp only [List.length_nil, Nat.cast_zero, zero_mul, zero_add] at hroom
      exact absurd hone hroom
    · exact h.some hdone hone
  · rw [htotal] at hall
    exact absurd hall hroom

/-- The loop goes to the end, or it stops at the limit, or for a lookup that fails. -/
theorem copy_entries_cases (limit : ℤ) {size buffer_size : ℤ} (hsize : 0 < size)
    (lookup : α → ℤ → ℤ × ℤ) (chain : List α) {done : List α} {copied : Copied α}
    (h : CopyInv size buffer_size done copied) :
    (∃ copied', copy_entries limit size buffer_size lookup chain copied = .ok copied' ∧
      CopyInv size buffer_size (done ++ chain) copied' ∧
      (chain ≠ [] → ((done ++ chain).length : ℤ) ≤ limit)) ∨
    (∃ copied' done', copy_entries limit size buffer_size lookup chain copied =
        .error (.limit, copied') ∧
      CopyInv size buffer_size done' copied' ∧ done' <+: done ++ chain ∧ done <+: done' ∧
      limit ≤ done'.length ∧ done'.length < (done ++ chain).length) ∨
    (∃ copied' entry detail_rc, copy_entries limit size buffer_size lookup chain copied =
        .error (.lookup_failed, copied') ∧ (lookup entry detail_rc).1 ≠ 0) := by
  induction chain generalizing done copied with
  | nil =>
    refine .inl ⟨copied, rfl, ?_, fun hne => absurd rfl hne⟩
    rw [List.append_nil]
    exact h
  | cons entry chain ih =>
    rw [copy_entries]
    by_cases hlimit : copied.loop_control ≥ limit
    · rw [if_pos hlimit]
      rw [h.loop_control] at hlimit
      refine .inr (.inl ⟨copied, done, rfl, h, List.prefix_append _ _, List.prefix_rfl, hlimit, ?_⟩)
      rw [List.length_append, List.length_cons]
      omega
    rw [if_neg hlimit]
    dsimp only
    have hnext (copied' : Copied α) (hinv : CopyInv size buffer_size (done ++ [entry]) copied') :
        (∃ copied'', copy_entries limit size buffer_size lookup chain copied' = .ok copied'' ∧
          CopyInv size buffer_size (done ++ entry :: chain) copied'' ∧
          (entry :: chain ≠ [] → ((done ++ entry :: chain).length : ℤ) ≤ limit)) ∨
        (∃ copied'' done', copy_entries limit size buffer_size lookup chain copied' =
            .error (.limit, copied'') ∧
          CopyInv size buffer_size done' copied'' ∧ done' <+: done ++ entry :: chain ∧
          done <+: done' ∧ limit ≤ done'.length ∧
          done'.length < (done ++ entry :: chain).length) ∨
        (∃ copied'' entry detail_rc, copy_entries limit size buffer_size lookup chain copied' =
            .error (.lookup_failed, copied'') ∧ (lookup entry detail_rc).1 ≠ 0) := by
      rcases ih hinv with ⟨copied'', hrun, hinv', hle⟩ | ⟨copied'', done', hrun, hinv', hrest⟩ |
        hfailed
      · rw [List.append_assoc, List.singleton_append] at hinv' hle
        refine .inl ⟨copied'', hrun, hinv', fun _ => ?_⟩
        by_cases hchain : chain = []
        · rw [h.loop_control] at hlimit
          rw [hchain, List.length_append, List.length_singleton]
          push_cast
          omega
        · exact hle hchain
      · rw [List.append_assoc, List.singleton_append] at hrest
        exact .inr (.inl ⟨copied'', done', hrun, hinv', hrest.1,
          (List.prefix_append done [entry]).trans hrest.2.1, hrest.2.2⟩)
      · exact .inr (.inr hfailed)
    by_cases hroom : copied.total_size + size ≤ buffer_size
    · rw [if_pos hroom]
      by_cases hrc : (lookup entry copied.detail_rc).1 ≠ 0
      · rw [if_pos hrc]
        exact .inr (.inr ⟨_, _, _, rfl, hrc⟩)
      · rw [if_neg hrc]
        exact hnext _ (h.copied hsize hroom _)
    · rw [if_neg hroom]
      exact hnext _ (h.left_out hroom _)

theorem copy_entries_append (limit size buffer_size : ℤ) (lookup : α → ℤ → ℤ × ℤ)
    (chain more : List α) (copied : Copied α) :
    copy_entries limit size buffer_size lookup (chain ++ more) copied =
      (do
        let copied ← copy_entries limit size buffer_size lookup chain copied
        copy_entries limit size buffer_size lookup more copied) := by
  induction chain generalizing copied with
  | nil => rfl
  | cons entry chain ih =>
    rw [List.cons_append, copy_entries, copy_entries]
    by_cases hlimit : copied.loop_control ≥ limit
    · rw [if_pos hlimit, if_pos hlimit]
      rfl
    rw [if_neg hlimit, if_neg hlimit]
    dsimp only
    by_cases hroom : copied.total_size + size ≤ buffer_size
    · rw [if_pos hroom, if_pos hroom]
      by_cases hrc : (lookup entry copied.detail_rc).1 ≠ 0
      · rw [if_pos hrc, if_pos hrc]
        rfl
      · rw [if_neg hrc, if_neg hrc]
        exact ih _
    · rw [if_neg hroom, if_neg hroom]
      exact ih _

/-- The chains are one. -/
theorem copy_chains_eq (limit size buffer_size : ℤ) (chains : List (List α)) (copied : Copied α) :
    copy_chains limit size buffer_size chains copied =
      copy_entries limit size buffer_size (fun _ detail_rc => (0, detail_rc)) chains.flatten
        copied := by
  induction chains generalizing copied with
  | nil => rfl
  | cons chain chains ih =>
    rw [List.flatten_cons, copy_entries_append, copy_chains]
    congr 1
    funext copied
    exact ih copied

/-! The return codes. -/

theorem failure_fails : RTNCD_FAILURE ≠ RTNCD_SUCCESS ∧ RTNCD_FAILURE ≠ RTNCD_WARNING := by
  decide

theorem free_at_limit_eq (ssi : Ssi) :
    ssi.free_at_limit = RTNCD_FAILURE ∨ ssi.free_at_limit = RTNCD_WARNING := by
  rw [Ssi.free_at_limit]
  split_ifs
  · exact .inl rfl
  · exact .inr rfl

theorem free_at_limit_ne (ssi : Ssi) : ssi.free_at_limit ≠ RTNCD_SUCCESS := by
  rcases free_at_limit_eq ssi with h | h
  · rw [h]
    decide
  · rw [h]
    decide

/-- How a list comes to its end: with all elements seen, at the limit, or with an error. -/
inductive Listed (limit size buffer_size : ℤ) (ssi : Ssi) (all : List α) (rc : ℤ)
    (result : List α) : Prop
  | all_seen (copied : Copied α) : CopyInv size buffer_size all copied → copied.entries = result →
      (all ≠ [] → (all.length : ℤ) ≤ limit) → rc = ssi.free_at_end →
      Listed limit size buffer_size ssi all rc result
  | at_limit (copied : Copied α) (done : List α) : CopyInv size buffer_size done copied →
      copied.entries = result → done <+: all → limit ≤ done.length → done.length < all.length →
      rc = ssi.free_at_limit → Listed limit size buffer_size ssi all rc result
  | failed : rc = RTNCD_FAILURE → Listed limit size buffer_size ssi all rc result

theorem jobs_listed (ssi : Ssi) (zjb : ZJB) (all : List JobInfo) :
    Listed zjb.jobs_max sizeof_job_info zjb.buffer_size ssi all
      (ZJBMTCOM ssi zjb (.gives all)).rc (ZJBMTCOM ssi zjb (.gives all)).result := by
  rw [ZJBMTCOM]
  rcases copy_entries_cases zjb.jobs_max (show 0 < sizeof_job_info by decide)
    (fun job _ => ssi.iaztlkup job) all (CopyInv.start _ zjb.buffer_size zjb.detail_rc) with
    ⟨copied, hrun, hinv, hlimit⟩ | ⟨copied, done, hrun, hinv, hdone, -, hlimit, hlt⟩ |
      ⟨copied, _, _, hrun, _⟩
  · rw [hrun]
    exact .all_seen copied hinv rfl hlimit rfl
  · rw [hrun]
    exact .at_limit copied done hinv rfl hdone hlimit hlt rfl
  · rw [hrun]
    exact .failed rfl

theorem dds_listed (ssi : Ssi) (zjb : ZJB) {job : JobInfo} {chains : List (List Statsevb)}
    (h : ssi.verbose job = .gives chains) :
    Listed zjb.dds_max sizeof_statsevb zjb.buffer_size ssi chains.flatten
      (list_job_dds ssi zjb job).rc (list_job_dds ssi zjb job).result := by
  rw [list_job_dds, h]
  dsimp only
  rw [copy_chains_eq]
  rcases copy_entries_cases zjb.dds_max (show 0 < sizeof_statsevb by decide)
    (fun _ detail_rc => (0, detail_rc)) chains.flatten
    (CopyInv.start _ zjb.buffer_size zjb.detail_rc) with
    ⟨copied, hrun, hinv, hlimit⟩ | ⟨copied, done, hrun, hinv, hdone, -, hlimit, hlt⟩ |
      ⟨copied, _, _, hrun, hrc⟩
  · rw [hrun]
    exact .all_seen copied hinv rfl hlimit rfl
  · rw [hrun]
    exact .at_limit copied done hinv rfl hdone hlimit hlt rfl
  · exact absurd rfl hrc

/-- An error is announced without entries. -/
theorem announced_error {β : Type} {all : List α} {response : α → β} {run : Run (List β)}
    (hrc : run.rc ≠ RTNCD_SUCCESS) (hresult : run.result = []) : Announced all response run :=
  ⟨⟨0, by rw [hresult, List.take_zero, List.map_nil]⟩, fun h => absurd h hrc⟩

theorem prefix_map_take {β : Type} {entries all : List α} (h : entries <+: all)
    (response : α → β) : ∃ n, entries.map response = (all.take n).map response :=
  ⟨entries.length, by rw [← List.prefix_iff_eq_take.mp h]⟩

/-! Jobs. -/

/-- Every request is granted, for so many jobs, and a list of data sets for each. -/
def grants (jobs : List JobInfo) (dds : List Statsevb) : Ssi where
  init_ssib := 0
  modify _ _ _ := .gives 1
  status _ := .gives jobs
  list _ := .gives jobs
  verbose _ := .gives [dds]
  iaztlkup _ := (0, 0)
  free := some 0

/-- Where every lookup succeeds the list does not fail. -/
theorem jobs_served {ssi : Ssi} (zjb : ZJB) (all : List JobInfo)
    (hlookup : ∀ job, (ssi.iaztlkup job).1 = 0) (hfree : ssi.free = some 0)
    (hlimit : all ≠ [] → (all.length : ℤ) ≤ zjb.jobs_max) :
    ∃ copied : Copied JobInfo, CopyInv sizeof_job_info zjb.buffer_size all copied ∧
      (ZJBMTCOM ssi zjb (.gives all)).rc = RTNCD_SUCCESS ∧
      (ZJBMTCOM ssi zjb (.gives all)).result = copied.entries := by
  rw [ZJBMTCOM]
  rcases copy_entries_cases zjb.jobs_max (show 0 < sizeof_job_info by decide)
    (fun job _ => ssi.iaztlkup job) all
    (CopyInv.start _ zjb.buffer_size zjb.detail_rc) with
    ⟨copied, hrun, hinv, -⟩ | ⟨_, done, hrun, -, -, -, hreached, hlt⟩ | ⟨_, _, _, hrun, hrc⟩
  · rw [hrun]
    refine ⟨copied, hinv, ?_, rfl⟩
    dsimp only
    rw [Ssi.free_at_end, hfree]
    rfl
  · have hne : all ≠ [] := by
      rintro rfl
      exact absurd hlt (Nat.not_lt_zero _)
    have hle := hlimit hne
    rw [List.nil_append] at hlt
    omega
  · exact absurd (hlookup _) hrc

theorem jobs_granted (zjb : ZJB) (all jobs : List JobInfo) (dds : List Statsevb)
    (hlimit : all ≠ [] → (all.length : ℤ) ≤ zjb.jobs_max) :
    ∃ copied : Copied JobInfo, CopyInv sizeof_job_info zjb.buffer_size all copied ∧
      (ZJBMTCOM (grants jobs dds) zjb (.gives all)).rc = RTNCD_SUCCESS ∧
      (ZJBMTCOM (grants jobs dds) zjb (.gives all)).result = copied.entries :=
  jobs_served zjb all (fun _ => rfl) rfl hlimit

/-- The list, once the subsystem has given the jobs. -/
theorem list_by_owner_eq {ssi : Ssi} {current_user : Bytes} {zjb : ZJB}
    {owner_name prefix_name status_name : Bytes} {all : List JobInfo} (hinit : ssi.init_ssib = 0)
    (hlist : ssi.list (job_filter cs
      (owner_handle cs current_user zjb owner_name prefix_name status_name)) = .gives all) :
    zjb_list_by_owner cs ssi current_user zjb owner_name prefix_name status_name =
      let run := ZJBMTCOM ssi
        (owner_handle cs current_user zjb owner_name prefix_name status_name) (.gives all)
      if run.rc ≠ RTNCD_SUCCESS ∧ run.rc ≠ RTNCD_WARNING then ⟨run.rc, run.handle, run.passed, []⟩
      else ⟨run.rc, run.handle, run.passed, zjb_build_job_response run.result⟩ := by
  rw [zjb_list_by_owner, ZJBMLIST, if_neg (not_not.mpr hinit), hlist]

theorem jobs_announced_iff (current_user : Bytes) (zjb : ZJB)
    (owner_name prefix_name status_name : Bytes) (all : List JobInfo) :
    JobsAnnounced cs current_user zjb owner_name prefix_name status_name all ↔
      JobsFit zjb all.length := by
  constructor
  · intro h hall hlimit
    have hne : all ≠ [] := List.ne_nil_of_length_pos hall
    have hannounced := h (grants all []) rfl
    obtain ⟨copied, hinv, hrc, hresult⟩ := jobs_granted
      (owner_handle cs current_user zjb owner_name prefix_name status_name) all all []
      fun _ => hlimit
    rw [list_by_owner_eq rfl rfl] at hannounced
    dsimp only at hannounced
    rw [if_neg (fun hfailed => hfailed.1 hrc)] at hannounced
    have hcomplete := hannounced.complete hrc
    dsimp only at hcomplete
    rw [hresult, zjb_build_job_response] at hcomplete
    have hentries : copied.entries = all :=
      hinv.first.eq_of_length (by simpa using congrArg List.length hcomplete)
    have hfits := hinv.fits (by rw [hentries]; exact hne)
    rw [hentries] at hfits
    exact hfits
  · intro hfit ssi hlist
    by_cases hinit : ssi.init_ssib ≠ 0
    · rw [zjb_list_by_owner, ZJBMLIST, if_pos hinit, if_pos failure_fails]
      exact announced_error failure_fails.1 rfl
    rw [list_by_owner_eq (not_not.mp hinit) hlist]
    have hlisted := jobs_listed ssi
      (owner_handle cs current_user zjb owner_name prefix_name status_name) all
    generalize ZJBMTCOM ssi
      (owner_handle cs current_user zjb owner_name prefix_name status_name) (.gives all) = run
      at hlisted ⊢
    dsimp only
    by_cases hfailed : run.rc ≠ RTNCD_SUCCESS ∧ run.rc ≠ RTNCD_WARNING
    · rw [if_pos hfailed]
      exact announced_error hfailed.1 rfl
    rw [if_neg hfailed]
    rcases hlisted with ⟨copied, hinv, hresult, hlimit, -⟩ |
      ⟨copied, done, hinv, hresult, hdone, -, -, hrc⟩ | hrc
    · refine ⟨prefix_map_take (hresult ▸ hinv.first) job_response, fun _ => ?_⟩
      dsimp only
      rw [zjb_build_job_response, ← hresult]
      by_cases hne : all = []
      · subst hne
        rw [List.prefix_nil.mp hinv.first]
      · rw [hinv.complete (hfit (List.length_pos_iff.mpr hne) (hlimit hne))]
    · refine ⟨prefix_map_take (hresult ▸ hinv.first.trans hdone) job_response, fun hok => ?_⟩
      exact absurd (hrc.symm.trans hok) (free_at_limit_ne ssi)
    · exact absurd ⟨by rw [hrc]; decide, by rw [hrc]; decide⟩ hfailed

/-! Data sets. -/

theorem view_result (ssi : Ssi) (zjb : ZJB) (jobid : Bytes) :
    (zjb_view cs ssi zjb jobid).result =
      if (ZJBMVIEW ssi (set_jobid cs (default_limits zjb) jobid)).rc = RTNCD_SUCCESS then
        (ZJBMVIEW ssi (set_jobid cs (default_limits zjb) jobid)).result.head?.map job_response
      else none := by
  rw [zjb_view]
  generalize ZJBMVIEW ssi (set_jobid cs (default_limits zjb) jobid) = run
  by_cases hrc : run.rc = RTNCD_SUCCESS
  · rw [if_pos hrc, if_neg (show ¬ run.rc ≠ 0 from not_not.mpr hrc)]
    rcases run.result with _ | ⟨job, jobs⟩
    · rfl
    · rfl
  · rw [if_neg hrc, if_pos (show run.rc ≠ 0 from hrc)]

theorem set_jobid_limits (zjb : ZJB) (jobid : Bytes) :
    (set_jobid cs zjb jobid).jobs_max = zjb.jobs_max ∧
      (set_jobid cs zjb jobid).dds_max = zjb.dds_max ∧
      (set_jobid cs zjb jobid).buffer_size = zjb.buffer_size := by
  rw [set_jobid]
  split_ifs
  · exact ⟨rfl, rfl, rfl⟩
  · exact ⟨rfl, rfl, rfl⟩

/-- A job is not found where the buffer has no room for it, or the limit is below zero. -/
theorem view_none (ssi : Ssi) {zjb : ZJB} (jobid : Bytes)
    (h : (default_limits zjb).jobs_max < 0 ∨
      (default_limits zjb).buffer_size < sizeof_job_info) :
    (zjb_view cs ssi zjb jobid).result = none := by
  obtain ⟨hjobs, -, hbuffer⟩ := @set_jobid_limits cs (default_limits zjb) jobid
  rw [← hjobs, ← hbuffer] at h
  rw [view_result]
  generalize set_jobid cs (default_limits zjb) jobid = zjb at h ⊢
  rw [ZJBMVIEW]
  by_cases hinit : ssi.init_ssib ≠ 0
  · rw [if_pos hinit]
    exact if_neg failure_fails.1
  rw [if_neg hinit]
  rcases ssi.status zjb.selection with jobs | _ | _
  · have hlisted := jobs_listed ssi zjb jobs
    generalize ZJBMTCOM ssi zjb (.gives jobs) = run at hlisted ⊢
    by_cases hrc : run.rc = RTNCD_SUCCESS
    · have hnone : run.result = [] := by
        rcases hlisted with ⟨copied, hinv, hresult, hlimit, -⟩ |
          ⟨copied, done, hinv, hresult, hdone, -, -, hstopped⟩ | hfailed
        · rw [← hresult]
          by_contra hsome
          rcases h with hlow | hroom
          · have hne : jobs ≠ [] := by
              rintro rfl
              exact hsome (List.prefix_nil.mp hinv.first)
            have hle := hlimit hne
            omega
          · have hfits := hinv.fits hsome
            have hpos := List.length_pos_iff.mpr hsome
            rw [sizeof_job_info] at hroom hfits
            omega
        · exact absurd (hstopped.symm.trans hrc) (free_at_limit_ne ssi)
        · exact absurd (hfailed.symm.trans hrc) failure_fails.1
      rw [hnone]
      exact ite_self _
    · exact if_neg hrc
  · exact if_neg failure_fails.1
  · exact if_neg failure_fails.1

/-- A job that the buffer has room for is found, where its lookup succeeds. -/
theorem view_served {ssi : Ssi} {zjb : ZJB} {jobid : Bytes} {job : JobInfo}
    (hinit : ssi.init_ssib = 0)
    (hstatus : ssi.status (set_jobid cs (default_limits zjb) jobid).selection = .gives [job])
    (hlookup : ∀ job, (ssi.iaztlkup job).1 = 0) (hfree : ssi.free = some 0)
    (hlimit : ¬ (default_limits zjb).jobs_max < 0)
    (hroom : ¬ (default_limits zjb).buffer_size < sizeof_job_info) :
    (zjb_view cs ssi zjb jobid).result = some (job_response job) := by
  have hdefault : (default_limits zjb).jobs_max ≠ 0 := by
    rw [default_limits]
    dsimp only
    by_cases hzero : zjb.jobs_max = 0
    · rw [if_pos hzero]
      decide
    · rw [if_neg hzero]
      exact hzero
  obtain ⟨hjobs, -, hbuffer⟩ := @set_jobid_limits cs (default_limits zjb) jobid
  rw [← hjobs] at hlimit hdefault
  rw [← hbuffer] at hroom
  rw [view_result]
  generalize set_jobid cs (default_limits zjb) jobid = zjb at hstatus hlimit hroom hdefault ⊢
  rw [ZJBMVIEW, if_neg (not_not.mpr hinit), hstatus]
  dsimp only
  obtain ⟨copied, hinv, hrc, hresult⟩ := jobs_served zjb [job] hlookup hfree fun _ => by
    rw [List.length_singleton]
    omega
  rw [if_pos hrc, hresult, hinv.complete (by rw [List.length_singleton]; omega)]
  rfl

theorem view_some {zjb : ZJB} (jobid : Bytes) (job : JobInfo) (dds : List Statsevb)
    (hlimit : ¬ (default_limits zjb).jobs_max < 0)
    (hroom : ¬ (default_limits zjb).buffer_size < sizeof_job_info) :
    (zjb_view cs (grants [job] dds) zjb jobid).result = some (job_response job) :=
  view_served rfl rfl (fun _ => rfl) rfl hlimit hroom

/-- The list, once the subsystem has given a job: an error, its data sets, or where there are none
those of a job that waits for input. -/
theorem list_dds_cases {ssi : Ssi} {zjb : ZJB} {jobid : Bytes} {job : JobInfo}
    {jobs : List JobInfo} (hinit : ssi.init_ssib = 0)
    (hstatus : ssi.status (set_jobid cs zjb jobid).selection = .gives (job :: jobs))
    {listed : Run (List Statsevb)}
    (hlisted : list_job_dds ssi (set_jobid cs (dds_limits zjb) jobid) job = listed)
    {list : Run (List ZJobDD)} (hlist : zjb_list_dds cs ssi zjb jobid = list) :
    ((listed.rc ≠ RTNCD_SUCCESS ∧ listed.rc ≠ RTNCD_WARNING) ∧ list.rc = listed.rc ∧
        list.result = []) ∨
      (listed.rc ≠ RTNCD_FAILURE ∧ listed.result ≠ [] ∧ list.rc = listed.rc ∧
        list.result = listed.result.map (dd_response jobid)) ∨
      (listed.result = [] ∧ (zjb_view cs ssi listed.handle jobid).result = none ∧
        list.rc = RTNCD_WARNING ∧ list.result = []) ∨
      (listed.rc ≠ RTNCD_FAILURE ∧ listed.result = [] ∧ ∃ job, (zjb_view cs ssi listed.handle jobid).result = some job ∧
        list.rc = listed.rc ∧ list.result = input_dds cs job) := by
  have hlimits : SameIds (dds_limits zjb) zjb := ⟨rfl, rfl⟩
  have hselection := (@same_ids_set cs _ _ hlimits jobid).selection
  rw [zjb_list_dds, ZJBMLSDS, if_neg (not_not.mpr hinit)] at hlist
  rw [← hselection] at hstatus
  dsimp only at hlist
  rw [hstatus] at hlist
  dsimp only at hlist
  subst hlisted
  by_cases hfailed :
      (list_job_dds ssi (set_jobid cs (dds_limits zjb) jobid) job).rc ≠ RTNCD_SUCCESS ∧
        (list_job_dds ssi (set_jobid cs (dds_limits zjb) jobid) job).rc ≠ RTNCD_WARNING
  · rw [if_pos hfailed] at hlist
    rw [← hlist]
    exact .inl ⟨hfailed, rfl, rfl⟩
  rw [if_neg hfailed] at hlist
  have hrc : (list_job_dds ssi (set_jobid cs (dds_limits zjb) jobid) job).rc ≠ RTNCD_FAILURE :=
    fun h => hfailed (by rw [h]; exact failure_fails)
  by_cases hnone : (list_job_dds ssi (set_jobid cs (dds_limits zjb) jobid) job).result = []
  · rw [if_pos hnone] at hlist
    rcases hview : (zjb_view cs ssi
      (list_job_dds ssi (set_jobid cs (dds_limits zjb) jobid) job).handle jobid).result with _ | job
    · rw [hview] at hlist
      rw [← hlist]
      exact .inr (.inr (.inl ⟨hnone, rfl, rfl, rfl⟩))
    · rw [hview] at hlist
      rw [← hlist]
      exact .inr (.inr (.inr ⟨hrc, hnone, job, rfl, rfl, rfl⟩))
  · rw [if_neg hnone] at hlist
    rw [← hlist]
    exact .inr (.inl ⟨hrc, hnone, rfl, rfl⟩)

theorem list_job_dds_limits (ssi : Ssi) (zjb : ZJB) (job : JobInfo) :
    (default_limits (list_job_dds ssi zjb job).handle).jobs_max = (default_limits zjb).jobs_max ∧
      (default_limits (list_job_dds ssi zjb job).handle).buffer_size =
        (default_limits zjb).buffer_size := by
  rw [list_job_dds]
  rcases ssi.verbose job with chains | _ | _
  · dsimp only
    rcases copy_chains zjb.dds_max sizeof_statsevb zjb.buffer_size chains
      { detail_rc := zjb.detail_rc } with ⟨_, copied⟩ | copied
    · exact ⟨rfl, rfl⟩
    · exact ⟨rfl, rfl⟩
  · exact ⟨rfl, rfl⟩
  · exact ⟨rfl, rfl⟩

/-- The limits that a job is viewed with, for the data sets that take the place of those listed. -/
theorem view_limits (ssi : Ssi) (zjb : ZJB) (jobid : Bytes) (job : JobInfo) :
    ((default_limits (list_job_dds ssi (set_jobid cs (dds_limits zjb) jobid) job).handle).jobs_max <
        0 ↔ (dds_limits zjb).jobs_max < 0) ∧
      (default_limits (list_job_dds ssi (set_jobid cs (dds_limits zjb) jobid) job).handle
        ).buffer_size = (dds_limits zjb).buffer_size := by
  obtain ⟨hjobs, hbuffer⟩ := list_job_dds_limits ssi (set_jobid cs (dds_limits zjb) jobid) job
  obtain ⟨hset_jobs, -, hset_buffer⟩ := @set_jobid_limits cs (dds_limits zjb) jobid
  rw [hjobs, hbuffer, default_limits, hset_jobs, hset_buffer]
  dsimp only
  constructor
  · by_cases hzero : (dds_limits zjb).jobs_max = 0
    · rw [if_pos hzero, hzero]
      decide
    · rw [if_neg hzero]
  · have hbuffer : (dds_limits zjb).buffer_size ≠ 0 := by
      rw [dds_limits]
      dsimp only
      by_cases hzero : zjb.buffer_size = 0
      · rw [if_pos hzero]
        decide
      · rw [if_neg hzero]
        exact hzero
    rw [if_neg hbuffer]

theorem dds_limit_ne (zjb : ZJB) : (dds_limits zjb).dds_max ≠ 0 := by
  rw [dds_limits]
  dsimp only
  by_cases hzero : zjb.dds_max = 0
  · rw [if_pos hzero]
    decide
  · rw [if_neg hzero]
    exact hzero

theorem announced_dds {zjb : ZJB} {all : List Statsevb} (hfit : DdsFit zjb all.length)
    (hne : all ≠ []) {ssi : Ssi} {jobid : Bytes} {job : JobInfo} {jobs : List JobInfo}
    {chains : List (List Statsevb)}
    (hstatus : ssi.status (set_jobid cs zjb jobid).selection = .gives (job :: jobs))
    (hverbose : ssi.verbose job = .gives chains) (hall : chains.flatten = all) :
    Announced all (dd_response jobid) (zjb_list_dds cs ssi zjb jobid) := by
  by_cases hinit : ssi.init_ssib ≠ 0
  · rw [zjb_list_dds, ZJBMLSDS, if_pos hinit, if_pos failure_fails]
    exact announced_error failure_fails.1 rfl
  have hlisted := dds_listed ssi (set_jobid cs (dds_limits zjb) jobid) hverbose
  have hcases := list_dds_cases (not_not.mp hinit) hstatus rfl rfl
  obtain ⟨-, hlimit, hbuffer⟩ := @set_jobid_limits cs (dds_limits zjb) jobid
  obtain ⟨hview_jobs, hview_buffer⟩ := @view_limits cs ssi zjb jobid job
  rw [hall, hlimit, hbuffer] at hlisted
  have hpos := List.length_pos_iff.mpr hne
  generalize zjb_list_dds cs ssi zjb jobid = list at hcases ⊢
  generalize list_job_dds ssi (set_jobid cs (dds_limits zjb) jobid) job = listed
    at hlisted hcases hview_jobs hview_buffer
  rcases hcases with ⟨hfailed, hrc, hresult⟩ | ⟨hok, hsome, hrc, hresult⟩ | ⟨-, -, hrc, hresult⟩ |
    ⟨hok, hnone, found, hview, -, -⟩
  · exact announced_error (hrc ▸ hfailed.1) hresult
  · -- Data sets are listed: there is room for one at least.
    rcases hlisted with ⟨copied, hinv, hentries, hreached, -⟩ |
      ⟨copied, done, hinv, hentries, hdone, -, -, hstopped⟩ | hfailed
    · refine ⟨hresult ▸ prefix_map_take (hentries ▸ hinv.first) _, fun _ => ?_⟩
      have hfits := hinv.fits (hentries ▸ hsome)
      have hone := List.length_pos_iff.mpr (hentries ▸ hsome)
      have hroom : sizeof_statsevb ≤ (dds_limits zjb).buffer_size := by
        rw [sizeof_statsevb] at hfits ⊢
        omega
      rw [hresult, ← hentries, hinv.complete ((hfit hpos hroom).1 (hreached hne))]
    · refine ⟨hresult ▸ prefix_map_take (hentries ▸ hinv.first.trans hdone) _, fun hsuccess => ?_⟩
      exact absurd (hstopped.symm.trans (hrc.symm.trans hsuccess)) (free_at_limit_ne ssi)
    · exact absurd hfailed hok
  · exact announced_error (hrc ▸ by decide) hresult
  · -- None is listed, so that there is no room for one, or the limit is below zero.
    have hlow : (default_limits listed.handle).jobs_max < 0 ∨
        (default_limits listed.handle).buffer_size < sizeof_job_info := by
      rw [hview_jobs, hview_buffer]
      by_cases hroom : sizeof_statsevb ≤ (dds_limits zjb).buffer_size
      · rcases hlisted with ⟨copied, hinv, hentries, -, -⟩ |
          ⟨copied, done, hinv, hentries, -, hreached, -, -⟩ | hfailed
        · exact absurd (hentries.trans hnone) (hinv.some hne hroom)
        · have hlimit := dds_limit_ne zjb
          by_cases hdone : done = []
          · rw [hdone, List.length_nil] at hreached
            exact (hfit hpos hroom).2 (by omega)
          · exact absurd (hentries.trans hnone) (hinv.some hdone hroom)
        · exact absurd hfailed hok
      · rw [sizeof_statsevb] at hroom
        rw [sizeof_job_info]
        omega
    rw [view_none ssi jobid hlow] at hview
    cases hview

/-- A job with other names than those asked for. -/
def other_job (jobid : Bytes) : JobInfo := ⟨[], jobid ++ [0], []⟩

/-- All data sets are seen within the limit. -/
theorem dds_served {ssi : Ssi} (zjb : ZJB) {job : JobInfo} {chains : List (List Statsevb)}
    (hverbose : ssi.verbose job = .gives chains) (hfree : ssi.free = some 0)
    (hlimit : chains.flatten ≠ [] → (chains.flatten.length : ℤ) ≤ zjb.dds_max) :
    ∃ copied : Copied Statsevb, CopyInv sizeof_statsevb zjb.buffer_size chains.flatten copied ∧
      (list_job_dds ssi zjb job).rc = RTNCD_SUCCESS ∧
      (list_job_dds ssi zjb job).result = copied.entries := by
  rw [list_job_dds, hverbose]
  dsimp only
  rw [copy_chains_eq]
  rcases copy_entries_cases zjb.dds_max (show 0 < sizeof_statsevb by decide)
    (fun _ detail_rc => (0, detail_rc)) chains.flatten
    (CopyInv.start _ zjb.buffer_size zjb.detail_rc) with
    ⟨copied, hrun, hinv, -⟩ | ⟨_, done, hrun, -, -, -, hreached, hlt⟩ | ⟨_, _, _, hrun, hrc⟩
  · rw [hrun]
    refine ⟨copied, hinv, ?_, rfl⟩
    dsimp only
    rw [Ssi.free_at_end, hfree]
    rfl
  · rw [List.nil_append] at hlt
    have hne : chains.flatten ≠ [] := by
      intro hnil
      rw [hnil] at hlt
      exact absurd hlt (Nat.not_lt_zero _)
    have hle := hlimit hne
    omega
  · exact absurd rfl hrc

theorem dds_granted (zjb : ZJB) (job : JobInfo) (jobs : List JobInfo) (all : List Statsevb)
    (hlimit : (all.length : ℤ) ≤ zjb.dds_max) :
    ∃ copied : Copied Statsevb, CopyInv sizeof_statsevb zjb.buffer_size all copied ∧
      (list_job_dds (grants jobs all) zjb job).rc = RTNCD_SUCCESS ∧
      (list_job_dds (grants jobs all) zjb job).result = copied.entries := by
  have hserved := @dds_served (grants jobs all) zjb job [all] rfl rfl
  rw [List.flatten_singleton] at hserved
  exact hserved fun _ => hlimit

/-- With a limit below zero none is listed. -/
theorem dds_below_zero {zjb : ZJB} (job : JobInfo) (jobs : List JobInfo) {all : List Statsevb}
    (hne : all ≠ []) (hlimit : zjb.dds_max < 0) :
    (list_job_dds (grants jobs all) zjb job).rc = RTNCD_WARNING ∧
      (list_job_dds (grants jobs all) zjb job).result = [] := by
  obtain ⟨first, rest, rfl⟩ := List.exists_cons_of_ne_nil hne
  rw [list_job_dds]
  show _ ∧ _
  rw [show (grants jobs (first :: rest)).verbose job = .gives [first :: rest] from rfl]
  dsimp only
  rw [copy_chains_eq, List.flatten_singleton, copy_entries, if_pos hlimit.le]
  exact ⟨rfl, rfl⟩

theorem dds_announced_iff (zjb : ZJB) (jobid : Bytes) (all : List Statsevb) :
    DdsAnnounced cs zjb jobid all ↔ DdsFit zjb all.length := by
  constructor
  · intro h hpos hroom
    have hne : all ≠ [] := List.ne_nil_of_length_pos hpos
    have hannounced := h hne (grants [other_job jobid] all) (other_job jobid) [] [all] rfl rfl
      (List.append_nil all)
    have hcases := @list_dds_cases cs (grants [other_job jobid] all) zjb jobid (other_job jobid) []
      rfl rfl _ rfl _ rfl
    obtain ⟨-, hset_limit, hset_buffer⟩ := @set_jobid_limits cs (dds_limits zjb) jobid
    constructor
    · intro hlimit
      obtain ⟨copied, hinv, hrc, hresult⟩ := dds_granted (set_jobid cs (dds_limits zjb) jobid)
        (other_job jobid) [other_job jobid] all (by rw [hset_limit]; exact hlimit)
      rw [hset_buffer] at hinv
      have hsome := hinv.some hne hroom
      rw [hrc, hresult] at hcases
      rcases hcases with ⟨hfailed, -, -⟩ | ⟨-, -, hok, hlist⟩ | ⟨hnone, -⟩ | ⟨-, hnone, -⟩
      · exact absurd rfl hfailed.1
      · have hcomplete := hannounced.complete hok
        rw [hlist] at hcomplete
        have hentries : copied.entries = all :=
          hinv.first.eq_of_length (by simpa using congrArg List.length hcomplete)
        have hfits := hinv.fits hsome
        rw [hentries] at hfits
        exact hfits
      · exact absurd hnone hsome
      · exact absurd hnone hsome
    · -- The job is found for the data sets that take the place of those listed.
      intro hlimit
      by_contra hlow
      rw [not_or] at hlow
      obtain ⟨hview_jobs, hview_buffer⟩ :=
        @view_limits cs (grants [other_job jobid] all) zjb jobid (other_job jobid)
      obtain ⟨hrc, hresult⟩ := @dds_below_zero (set_jobid cs (dds_limits zjb) jobid)
        (other_job jobid) [other_job jobid] all hne (by rw [hset_limit]; exact hlimit)
      have hview := @view_some cs _ jobid (other_job jobid) all
        (mt hview_jobs.mp hlow.1) (by rw [hview_buffer]; exact hlow.2)
      rw [hrc, hresult, hview] at hcases
      rcases hcases with ⟨hfailed, -, -⟩ | ⟨-, hsome, -⟩ | ⟨-, hnone, -⟩ | ⟨-, -, job, hjob, -, hlist⟩
      · exact absurd rfl hfailed.2
      · exact absurd rfl hsome
      · cases hnone
      · obtain rfl := Option.some.inj hjob
        obtain ⟨n, hfirst⟩ := hannounced.first
        rw [hlist] at hfirst
        have hmem : ∀ dd ∈ input_dds cs (job_response (other_job jobid)), dd.jobid = jobid := by
          rw [hfirst]
          intro dd hdd
          obtain ⟨_, -, rfl⟩ := List.mem_map.mp hdd
          rfl
        have hjobid : jobid ++ [0] = jobid := hmem _ List.mem_cons_self
        exact absurd (congrArg List.length hjobid) (by simp)
  · intro hfit hne ssi job jobs chains hstatus hverbose hall
    exact announced_dds hfit hne hstatus hverbose hall

/-- A list that is not complete is announced just when what is left out is so for the limit: a
buffer that has no room for all entries goes unnoticed. -/
theorem listings_announced_iff (current_user : Bytes) (zjb : ZJB)
    (owner_name prefix_name status_name : Bytes) (jobs : List JobInfo) (jobid : Bytes)
    (dds : List Statsevb) :
    (JobsAnnounced cs current_user zjb owner_name prefix_name status_name jobs ↔
        JobsFit zjb jobs.length) ∧
      (DdsAnnounced cs zjb jobid dds ↔ DdsFit zjb dds.length) :=
  ⟨jobs_announced_iff current_user zjb owner_name prefix_name status_name jobs,
    dds_announced_iff zjb jobid dds⟩

/-- With the limits that are the default, the last of 419 jobs is left out. -/
theorem last_job_left_out :
    ¬ JobsAnnounced ibm1047 [] {} [] [] [] (List.replicate 419 (other_job [])) := by
  intro h
  have hcomplete := (h (grants (List.replicate 419 (other_job [])) []) rfl).complete
    (by decide +kernel)
  revert hcomplete
  decide +kernel

end Zowex.zjb

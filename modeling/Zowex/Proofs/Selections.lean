import Zowex.Spec.Jobs

/-! Which job a call acts on. Each call leaves one of the two identifiers of the handle as it was,
and the job id is the one that is looked at first. -/

namespace Zowex.zjb

open zds

variable {cs : Charset} {ssi : Ssi}

/-! The fields. -/

/-- What `strncpy` copies is the text itself just when nothing comes after a null character. -/
theorem strncpy_eq_iff (source : Bytes) :
    strncpy source source.length = source ↔
      ∀ before after, source = before ++ 0 :: after → ∀ c ∈ after, c = 0 := by
  induction source with
  | nil => simp [strncpy]
  | cons first source ih =>
    by_cases hnull : first = 0
    · subst hnull
      have hcopy : strncpy (0 :: source) (0 :: source).length =
          List.replicate (source.length + 1) 0 := by
        simp [strncpy]
      rw [hcopy, List.replicate_succ, List.cons_eq_cons, eq_comm (b := source),
        List.eq_replicate_iff]
      constructor
      · rintro ⟨-, -, hzeros⟩ before after heq c hc
        rcases before with _ | ⟨_, before⟩
        · obtain ⟨-, rfl⟩ := List.cons_eq_cons.mp heq
          exact hzeros c hc
        · obtain ⟨-, rfl⟩ := List.cons_eq_cons.mp heq
          exact hzeros c (by simp [hc])
      · exact fun h => ⟨rfl, rfl, h [] source rfl⟩
    · have hcopy : strncpy (first :: source) (first :: source).length =
          first :: strncpy source source.length := by
        simp [strncpy, hnull]
      rw [hcopy, List.cons_eq_cons, ih]
      constructor
      · rintro ⟨-, h⟩ before after heq c hc
        rcases before with _ | ⟨_, before⟩
        · exact absurd (List.cons_eq_cons.mp heq).1 hnull
        · exact h before after (List.cons_eq_cons.mp heq).2 c hc
      · intro h
        refine ⟨rfl, fun before after heq => h (first :: before) after ?_⟩
        rw [heq, List.cons_append]

theorem field_bytes (jobid : Bytes) (len : ℕ) :
    (zut_uppercase_pad_truncate cs jobid len).bytes =
      strncpy (jobid.map (toupper cs)) (min (jobid.map (toupper cs)).length len) ++
        List.replicate (len - min (jobid.map (toupper cs)).length len) (cs.code ' ') := rfl

theorem field_eq_iff {jobid : Bytes} {len : ℕ} (hlen : jobid.length ≤ len) :
    (zut_uppercase_pad_truncate cs jobid len).bytes =
        jobid.map (toupper cs) ++ List.replicate (len - (jobid.map (toupper cs)).length)
          (cs.code ' ') ↔
      ∀ before after, jobid.map (toupper cs) = before ++ 0 :: after → ∀ c ∈ after, c = 0 := by
  have hmin : min (jobid.map (toupper cs)).length len = (jobid.map (toupper cs)).length := by
    rw [List.length_map]
    exact Nat.min_eq_left hlen
  rw [field_bytes, hmin, List.append_left_inj, strncpy_eq_iff]

theorem field_head {jobid : Bytes} (hne : jobid ≠ []) {len : ℕ} (hlen : 0 < len) :
    (zut_uppercase_pad_truncate cs jobid len).bytes.headD 0 = 0 ↔
      (jobid.map (toupper cs)).head? = some 0 := by
  obtain ⟨first, rest, rfl⟩ := List.exists_cons_of_ne_nil hne
  obtain ⟨n, rfl⟩ : ∃ n, len = n + 1 := ⟨len - 1, by omega⟩
  rw [field_bytes, List.map_cons, List.length_cons, Nat.succ_min_succ, strncpy]
  by_cases hnull : toupper cs first = 0
  · simp [hnull, List.replicate_succ]
  · simp [hnull]

/-! A call. -/

/-- The identifiers of the handle are those of another. -/
def SameIds (zjb zjb' : ZJB) : Prop := zjb.jobid = zjb'.jobid ∧ zjb.correlator = zjb'.correlator

theorem SameIds.selection {zjb zjb' : ZJB} (h : SameIds zjb zjb') :
    zjb.selection = zjb'.selection := by
  rw [ZJB.selection, ZJB.selection, h.1, h.2]

theorem same_ids_set {zjb zjb' : ZJB} (h : SameIds zjb zjb') (jobid : Bytes) :
    SameIds (set_jobid cs zjb jobid) (set_jobid cs zjb' jobid) := by
  rw [set_jobid, set_jobid]
  by_cases hlong : jobid.length > 8
  · rw [if_pos hlong, if_pos hlong]
    exact ⟨h.1, rfl⟩
  · rw [if_neg hlong, if_neg hlong]
    exact ⟨rfl, h.2⟩

/-- To set it once more changes nothing. -/
theorem set_jobid_again {zjb after : ZJB} {jobid : Bytes}
    (h : SameIds after (set_jobid cs zjb jobid)) :
    SameIds (set_jobid cs after jobid) (set_jobid cs zjb jobid) := by
  refine (fun hagain => ?_) (@same_ids_set cs _ _ h jobid)
  refine ⟨hagain.1.trans ?_, hagain.2.trans ?_⟩
  · rw [set_jobid, set_jobid]
    by_cases hlong : jobid.length > 8
    · rw [if_pos hlong]
    · rw [if_neg hlong, if_neg hlong]
  · rw [set_jobid, set_jobid]
    by_cases hlong : jobid.length > 8
    · rw [if_pos hlong, if_pos hlong]
    · rw [if_neg hlong]

/-- What a call does with the identifiers of a handle on which its own is set. -/
structure Passes (ssi : Ssi) (zjb : ZJB) (after : ZJB) (passed : List Selection) : Prop where
  ids : SameIds after zjb
  only : ∀ selection ∈ passed, selection = zjb.selection
  passes : ssi.init_ssib = 0 → zjb.selection ∈ passed

theorem passes_modify (zjb : ZJB) (type : ModifyType) (flags : Bool) :
    Passes ssi zjb (ZJBMMOD ssi zjb type flags).handle (ZJBMMOD ssi zjb type flags).passed := by
  rw [ZJBMMOD]
  by_cases hinit : ssi.init_ssib ≠ 0
  · rw [if_pos hinit]
    exact ⟨⟨rfl, rfl⟩, by simp, fun h => absurd h hinit⟩
  · rw [if_neg hinit]
    dsimp only
    rcases ssi.modify type flags zjb.selection with ssjmnsjf | _ | _
    · dsimp only
      by_cases hnone : ssjmnsjf = 0
      · rw [if_pos hnone]
        exact ⟨⟨rfl, rfl⟩, by simp, by simp⟩
      · rw [if_neg hnone]
        exact ⟨⟨rfl, rfl⟩, by simp, by simp⟩
    · exact ⟨⟨rfl, rfl⟩, by simp, by simp⟩
    · exact ⟨⟨rfl, rfl⟩, by simp, by simp⟩

theorem ids_of_jobs (zjb : ZJB) (answer : Answer (List JobInfo)) :
    SameIds (ZJBMTCOM ssi zjb answer).handle zjb := by
  rcases answer with chain | _ | _
  · rw [ZJBMTCOM]
    rcases copy_entries zjb.jobs_max sizeof_job_info zjb.buffer_size
      (fun job _ => ssi.iaztlkup job) chain { detail_rc := zjb.detail_rc } with
      ⟨_ | _, copied⟩ | copied
    · exact ⟨rfl, rfl⟩
    · exact ⟨rfl, rfl⟩
    · exact ⟨rfl, rfl⟩
  · exact ⟨rfl, rfl⟩
  · exact ⟨rfl, rfl⟩

theorem passes_jobs (zjb : ZJB) :
    Passes ssi zjb (ZJBMVIEW ssi zjb).handle (ZJBMVIEW ssi zjb).passed := by
  rw [ZJBMVIEW]
  by_cases hinit : ssi.init_ssib ≠ 0
  · rw [if_pos hinit]
    exact ⟨⟨rfl, rfl⟩, by simp, fun h => absurd h hinit⟩
  · rw [if_neg hinit]
    exact ⟨ids_of_jobs zjb _, by simp, by simp⟩

theorem ids_of_dds (zjb : ZJB) (job : JobInfo) :
    SameIds (list_job_dds ssi zjb job).handle zjb := by
  rw [list_job_dds]
  rcases ssi.verbose job with chains | _ | _
  · dsimp only
    rcases copy_chains zjb.dds_max sizeof_statsevb zjb.buffer_size chains
      { detail_rc := zjb.detail_rc } with ⟨_, copied⟩ | copied
    · exact ⟨rfl, rfl⟩
    · exact ⟨rfl, rfl⟩
  · exact ⟨rfl, rfl⟩
  · exact ⟨rfl, rfl⟩

theorem passes_dds (zjb : ZJB) :
    Passes ssi zjb (ZJBMLSDS ssi zjb).handle (ZJBMLSDS ssi zjb).passed := by
  rw [ZJBMLSDS]
  by_cases hinit : ssi.init_ssib ≠ 0
  · rw [if_pos hinit]
    exact ⟨⟨rfl, rfl⟩, by simp, fun h => absurd h hinit⟩
  · rw [if_neg hinit]
    dsimp only
    rcases ssi.status zjb.selection with (_ | ⟨job, jobs⟩) | _ | _
    · exact ⟨⟨rfl, rfl⟩, by simp, by simp⟩
    · exact ⟨ids_of_dds zjb job, by simp, by simp⟩
    · exact ⟨⟨rfl, rfl⟩, by simp, by simp⟩
    · exact ⟨⟨rfl, rfl⟩, by simp, by simp⟩

theorem passes_view (zjb : ZJB) (jobid : Bytes) :
    Passes ssi (set_jobid cs zjb jobid) (zjb_view cs ssi zjb jobid).handle
      (zjb_view cs ssi zjb jobid).passed := by
  have hlimits : SameIds (default_limits zjb) zjb := ⟨rfl, rfl⟩
  have hids := @same_ids_set cs _ _ hlimits jobid
  have hrun := @passes_jobs ssi (set_jobid cs (default_limits zjb) jobid)
  have hpasses : Passes ssi (set_jobid cs zjb jobid)
      (ZJBMVIEW ssi (set_jobid cs (default_limits zjb) jobid)).handle
      (ZJBMVIEW ssi (set_jobid cs (default_limits zjb) jobid)).passed :=
    ⟨⟨hrun.ids.1.trans hids.1, hrun.ids.2.trans hids.2⟩, hids.selection ▸ hrun.only,
      hids.selection ▸ hrun.passes⟩
  rw [zjb_view]
  dsimp only
  by_cases hrc : (ZJBMVIEW ssi (set_jobid cs (default_limits zjb) jobid)).rc ≠ 0
  · rw [if_pos hrc]
    exact hpasses
  · rw [if_neg hrc]
    rcases zjb_build_job_response
      (ZJBMVIEW ssi (set_jobid cs (default_limits zjb) jobid)).result with _ | ⟨job, jobs⟩
    · exact ⟨⟨hpasses.ids.1, hpasses.ids.2⟩, hpasses.only, hpasses.passes⟩
    · exact hpasses

theorem passes_list_dds (zjb : ZJB) (jobid : Bytes) :
    Passes ssi (set_jobid cs zjb jobid) (zjb_list_dds cs ssi zjb jobid).handle
      (zjb_list_dds cs ssi zjb jobid).passed := by
  have hlimits : SameIds (dds_limits zjb) zjb := ⟨rfl, rfl⟩
  have hids := @same_ids_set cs _ _ hlimits jobid
  have hrun := @passes_dds ssi (set_jobid cs (dds_limits zjb) jobid)
  have hpasses : Passes ssi (set_jobid cs zjb jobid)
      (ZJBMLSDS ssi (set_jobid cs (dds_limits zjb) jobid)).handle
      (ZJBMLSDS ssi (set_jobid cs (dds_limits zjb) jobid)).passed :=
    ⟨⟨hrun.ids.1.trans hids.1, hrun.ids.2.trans hids.2⟩, hids.selection ▸ hrun.only,
      hids.selection ▸ hrun.passes⟩
  rw [zjb_list_dds]
  dsimp only
  generalize ZJBMLSDS ssi (set_jobid cs (dds_limits zjb) jobid) = run at hpasses ⊢
  by_cases hrc : run.rc ≠ RTNCD_SUCCESS ∧ run.rc ≠ RTNCD_WARNING
  · rw [if_pos hrc]
    exact hpasses
  rw [if_neg hrc]
  by_cases hnone : run.result = []
  · -- The job is viewed with the same identifier.
    rw [if_pos hnone]
    have hview := @passes_view cs ssi run.handle jobid
    have hagain := set_jobid_again hpasses.ids
    have hboth : Passes ssi (set_jobid cs zjb jobid) (zjb_view cs ssi run.handle jobid).handle
        (run.passed ++ (zjb_view cs ssi run.handle jobid).passed) := by
      refine ⟨⟨hview.ids.1.trans hagain.1, hview.ids.2.trans hagain.2⟩, ?_,
        fun hinit => List.mem_append_left _ (hpasses.passes hinit)⟩
      intro selection hselection
      rcases List.mem_append.mp hselection with hfirst | hsecond
      · exact hpasses.only selection hfirst
      · exact (hview.only selection hsecond).trans hagain.selection
    rcases (zjb_view cs ssi run.handle jobid).result with _ | job
    · exact ⟨⟨hboth.ids.1, hboth.ids.2⟩, hboth.only, hboth.passes⟩
    · exact hboth
  · rw [if_neg hnone]
    exact hpasses

/-- Every operation passes what is selected once its identifier is set. -/
theorem passes_call (operation : Operation) (zjb : ZJB) (jobid : Bytes) :
    Passes ssi (set_jobid cs zjb jobid) (operation.call cs ssi zjb jobid).1
      (operation.call cs ssi zjb jobid).2 := by
  cases operation with
  | view => exact passes_view zjb jobid
  | list_dds => exact passes_list_dds zjb jobid
  | delete => exact passes_modify _ .ssjmprg true
  | cancel => exact passes_modify _ .ssjmcanc true
  | hold => exact passes_modify _ .ssjmhold false
  | release => exact passes_modify _ .ssjmrls false

/-! What is selected. -/

/-- What is selected is what the identifier names just when it fits, and no job id is in the handle
where it is a correlator. -/
theorem named_iff (zjb : ZJB) (jobid : Bytes) :
    named cs jobid = some (set_jobid cs zjb jobid).selection ↔
      Fits cs jobid ∧ (8 < jobid.length → zjb.jobid.bytes.headD 0 = 0) := by
  rw [named, set_jobid]
  dsimp only
  by_cases hempty : jobid = []
  · rw [if_pos hempty]
    constructor
    · intro h
      cases h
    · exact fun h => absurd hempty h.1.nonempty
  rw [if_neg hempty]
  by_cases hshort : jobid.length ≤ 8
  · have hpadded := @field_eq_iff cs _ _ hshort
    have hhead := @field_head cs _ hempty 8 (by decide)
    rw [if_pos hshort, if_neg (not_lt.mpr hshort), ZJB.selection]
    by_cases hnull : (zut_uppercase_pad_truncate cs jobid 8).bytes.headD 0 ≠ 0
    · rw [if_pos hnull, Option.some_inj, Selection.jobid.injEq, and_self, eq_comm, hpadded]
      exact ⟨fun h => ⟨⟨hempty, by omega, h, fun _ => fun hfirst => hnull (hhead.mpr hfirst)⟩,
        fun hlong => absurd hlong (not_lt.mpr hshort)⟩, fun h => h.1.terminated⟩
    · rw [if_neg hnull]
      rw [not_not] at hnull
      constructor
      · intro h
        cases h
      · exact fun h => absurd (hhead.mp hnull) (h.1.begins hshort)
  rw [if_neg hshort, if_pos (not_le.mp hshort), ZJB.selection]
  by_cases hlimit : jobid.length ≤ 64
  · have hpadded := @field_eq_iff cs _ _ hlimit
    rw [if_pos hlimit]
    by_cases hset : zjb.jobid.bytes.headD 0 ≠ 0
    · rw [if_pos hset]
      constructor
      · intro h
        cases h
      · exact fun h => absurd (h.2 (not_le.mp hshort)) hset
    · rw [if_neg hset, Option.some_inj, Selection.correlator.injEq, eq_comm, hpadded]
      exact ⟨fun h => ⟨⟨hempty, hlimit, h, fun hle => absurd hle hshort⟩,
        fun _ => not_not.mp hset⟩, fun h => h.1.terminated⟩
  · rw [if_neg hlimit]
    constructor
    · intro h
      cases h
    · exact fun h => absurd h.1.short hlimit

/-! The calls one after the other. -/

/-- Every request is refused. -/
def refuses : Ssi where
  init_ssib := 0
  modify _ _ _ := .refuses
  status _ := .refuses
  list _ := .refuses
  verbose _ := .refuses
  iaztlkup _ := (0, 0)
  free := some 0

/-- Whether a job id is in the handle after a call with an identifier that fits. -/
theorem head_after {zjb : ZJB} {jobid : Bytes} (h : Fits cs jobid) (operation : Operation) :
    (operation.call cs ssi zjb jobid).1.jobid.bytes.headD 0 = 0 ↔
      8 < jobid.length ∧ zjb.jobid.bytes.headD 0 = 0 := by
  rw [(passes_call operation zjb jobid).ids.1, set_jobid]
  by_cases hlong : jobid.length > 8
  · rw [if_pos hlong]
    exact ⟨fun hhead => ⟨hlong, hhead⟩, fun h => h.2⟩
  · rw [if_neg hlong, field_head h.nonempty (by decide)]
    exact ⟨fun hfirst => absurd hfirst (h.begins (not_lt.mp hlong)), fun h => absurd h.1 hlong⟩

theorem acts_on_named_cons (zjb : ZJB) (operation : Operation) (jobid : Bytes)
    (calls : List (Operation × Bytes)) :
    ActsOnNamed cs zjb ((operation, jobid) :: calls) ↔
      named cs jobid = some (set_jobid cs zjb jobid).selection ∧
        ∀ ssi, ActsOnNamed cs (operation.call cs ssi zjb jobid).1 calls := by
  constructor
  · intro h
    constructor
    · have hserved := h (((operation, jobid), refuses) :: calls.map fun call => (call, refuses))
        (by simp [Function.comp_def])
      exact hserved _ List.mem_cons_self _ ((passes_call operation zjb jobid).passes rfl)
    · intro ssi served hcalls
      have hserved := h (((operation, jobid), ssi) :: served) (by rw [List.map_cons, hcalls])
      exact fun p hp => hserved p (List.mem_cons_of_mem _ hp)
  · rintro ⟨hnamed, hafter⟩ served hcalls
    obtain ⟨⟨_, ssi⟩, served, rfl, rfl, hrest⟩ := List.map_eq_cons_iff.mp hcalls
    refine List.forall_mem_cons.mpr ⟨fun selection hselection => ?_, hafter ssi served hrest⟩
    rw [(passes_call operation zjb jobid).only selection hselection]
    exact hnamed

/-- From any handle: the correlators come before the first job id. -/
theorem acts_on_named_from (zjb : ZJB) (calls : List (Operation × Bytes)) :
    ActsOnNamed cs zjb calls ↔
      NamesKept cs calls ∧
        (zjb.jobid.bytes.headD 0 ≠ 0 → ∀ call ∈ calls, call.2.length ≤ 8) := by
  induction calls generalizing zjb with
  | nil =>
    refine ⟨fun _ => ⟨⟨by simp, .nil⟩, by simp⟩, fun _ served hcalls => ?_⟩
    rw [List.map_eq_nil_iff.mp hcalls]
    simp [selections]
  | cons call calls ih =>
    obtain ⟨operation, jobid⟩ := call
    rw [acts_on_named_cons, named_iff, NamesKept, List.forall_mem_cons, List.pairwise_cons,
      List.forall_mem_cons]
    simp only [ih]
    constructor
    · rintro ⟨⟨hfits, hcorrelator⟩, hrest⟩
      obtain ⟨⟨hall, hordered⟩, hhead⟩ := hrest refuses
      rw [Ne, head_after hfits] at hhead
      refine ⟨⟨⟨hfits, hall⟩, fun later hlater hlong => ?_, hordered⟩, fun hset => ⟨?_, ?_⟩⟩
      · by_contra hshort
        exact absurd hlong (not_lt.mpr (hhead (fun h => hshort h.1) later hlater))
      · exact not_lt.mp fun hlong => hset (hcorrelator hlong)
      · exact hhead fun h => hset h.2
    · rintro ⟨⟨⟨hfits, hall⟩, hlater, hordered⟩, hset⟩
      refine ⟨⟨hfits, fun hlong => ?_⟩, fun ssi => ⟨⟨hall, hordered⟩, fun hafter later hmem => ?_⟩⟩
      · by_contra hhead
        exact absurd hlong (not_lt.mpr (hset hhead).1)
      · rw [Ne, head_after hfits, not_and_or, not_lt] at hafter
        rcases hafter with hshort | hhead
        · exact not_lt.mp fun hlong => absurd (hlater later hmem hlong) (not_lt.mpr hshort)
        · exact (hset hhead).2 later hmem

/-- The calls on a handle act each on the job that it names just when every identifier fits and no
correlator comes after a job id: the job id stays in the handle, and is looked at first. -/
theorem acts_on_named_iff (calls : List (Operation × Bytes)) :
    ActsOnNamed cs {} calls ↔ NamesKept cs calls := by
  rw [acts_on_named_from]
  exact ⟨fun h => h.1, fun h => ⟨h, fun hset => absurd rfl hset⟩⟩

/-- A job is viewed, and another one deleted by its correlator: the first one is deleted. -/
theorem viewed_job_deleted :
    ¬ ActsOnNamed ibm1047 {} [(.view, ibm1047.str "JOB00001"),
      (.delete, ibm1047.str "J0000002SYS1....D8F2A1B3.......:")] := by
  intro h
  have hdelete := (acts_on_named_cons _ _ _ _).mp (((acts_on_named_cons _ _ _ _).mp h).2 refuses)
  exact absurd hdelete.1 (by decide +kernel)

end Zowex.zjb

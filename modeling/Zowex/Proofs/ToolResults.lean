import Zowex.Proofs.Tools

/-! The return codes of the commands. That of a write of control statements is dropped, and that of
the program of a run is overwritten by that of reading the spool. -/

namespace Zowex.tool

open zjb

variable {cs : Charset} {sv : Services} {streams : Streams}

theorem failure_ne_success : RTNCD_FAILURE ≠ RTNCD_SUCCESS := by decide

theorem loop_rc (calls : ℕ) (commands : List Bytes) :
    (zut_loop_dynalloc sv calls commands).1 = 0 ↔ Succeed sv calls commands := by
  rcases @loop_cases sv calls commands with ⟨hall, hrun⟩ | ⟨before, failed, after, rc, rfl,
    hbefore, hrc, hcall, hrun⟩
  · rw [hrun]
    exact iff_of_true rfl hall
  · rw [hrun]
    apply iff_of_false
    · exact failure_ne_success
    · intro hall
      have hfailed := hall before.length failed (by simp)
      rw [hcall] at hfailed
      exact hrc hfailed

/-! When the commands succeed. -/

theorem search_success (args : SearchArgs) :
    (handle_tool_search cs sv args).rc = RTNCD_SUCCESS ↔
      Succeed sv 0 (search_dds cs args) ∧
        SearchSucceeded (sv.zut_search (args.parms.map (zds.toupper cs))) ∧
        (sv.zds_read (cs.str "OUTDD")).1 = 0 := by
  rw [← loop_rc, handle_tool_search]
  rcases zut_loop_dynalloc sv 0 (search_dds cs args) with ⟨rc, log⟩
  dsimp only
  by_cases hrc : rc ≠ 0
  · rw [if_pos hrc]
    exact iff_of_false failure_ne_success fun h => hrc h.1
  rw [if_neg hrc]
  rw [not_not] at hrc
  by_cases hsearch : SearchSucceeded (sv.zut_search (args.parms.map (zds.toupper cs)))
  · rw [if_neg fun hfailed => hsearch.elim hfailed.1 fun h => h.elim hfailed.2.1 fun h =>
      h.elim hfailed.2.2.1 hfailed.2.2.2]
    by_cases hread : (sv.zds_read (cs.str "OUTDD")).1 ≠ 0
    · rw [if_pos hread]
      exact iff_of_false failure_ne_success fun h => hread h.2.2
    · rw [if_neg hread]
      exact iff_of_true rfl ⟨hrc, hsearch, not_not.mp hread⟩
  · rw [if_pos ⟨fun h => hsearch (.inl h), fun h => hsearch (.inr (.inl h)),
      fun h => hsearch (.inr (.inr (.inl h))), fun h => hsearch (.inr (.inr (.inr h)))⟩]
    exact iff_of_false failure_ne_success fun h => hsearch h.2.1

theorem amblist_success (args : AmblistArgs) :
    (handle_tool_amblist cs sv args).rc = RTNCD_SUCCESS ↔
      Succeed sv 0 (amblist_dds cs args) ∧ sv.zut_run (cs.str "AMBLIST") [] = 0 ∧
        (sv.zds_read (cs.str "SYSPRINT")).1 = 0 := by
  rw [← loop_rc, handle_tool_amblist]
  rcases zut_loop_dynalloc sv 0 (amblist_dds cs args) with ⟨rc, log⟩
  dsimp only
  by_cases hrc : rc ≠ 0
  · rw [if_pos hrc]
    exact iff_of_false failure_ne_success fun h => hrc h.1
  rw [if_neg hrc]
  rw [not_not] at hrc
  by_cases hrun : sv.zut_run (cs.str "AMBLIST") [] ≠ RTNCD_SUCCESS
  · rw [if_pos hrun]
    exact iff_of_false failure_ne_success fun h => hrun h.2.1
  rw [if_neg hrun]
  by_cases hread : (sv.zds_read (cs.str "SYSPRINT")).1 ≠ 0
  · rw [if_pos hread]
    exact iff_of_false failure_ne_success fun h => hread h.2.2
  · rw [if_neg hread]
    exact iff_of_true rfl ⟨hrc, not_not.mp hrun, not_not.mp hread⟩

theorem convert_success (args : ConvertArgs)
    (h : (handle_tool_convert_dsect cs sv args).rc = RTNCD_SUCCESS) :
    Succeed sv 0 (convert_dds cs args) ∧ sv.zut_convert_dsect = 0 := by
  revert h
  rw [← loop_rc, handle_tool_convert_dsect]
  rcases zut_loop_dynalloc sv 0 (convert_dds cs args) with ⟨rc, log⟩
  dsimp only
  by_cases hrc : rc ≠ 0
  · rw [if_pos hrc]
    exact fun h => absurd h failure_ne_success
  rw [if_neg hrc]
  by_cases hconvert : sv.zut_convert_dsect ≠ 0
  · rw [if_pos hconvert]
    exact fun h => absurd h failure_ne_success
  · exact fun _ => ⟨not_not.mp hrc, not_not.mp hconvert⟩

theorem compress_success (dsn : Bytes)
    (h : (handle_data_set_compress cs sv dsn).rc = RTNCD_SUCCESS) :
    sv.is_pds = true ∧ Succeed sv 0 (compress_dds cs dsn) ∧
      sv.zds_write (cs.str "sysin") (cs.str "        COPY OUTDD=B,INDD=A") = 0 ∧
      sv.zut_run (cs.str "IEBCOPY") [] = 0 ∧ (sv.zds_read (cs.str "SYSPRINT")).1 = 0 := by
  revert h
  rw [← loop_rc, handle_data_set_compress]
  dsimp only
  split_ifs with hpds hrc hwrite hrun hread
  · exact fun h => absurd h failure_ne_success
  · exact fun h => absurd h failure_ne_success
  · exact fun h => absurd h failure_ne_success
  · exact fun h => absurd h failure_ne_success
  · exact fun h => absurd h failure_ne_success
  · exact fun h => absurd h failure_ne_success
  · exact fun _ => ⟨by simpa using hpds, not_not.mp hrc, not_not.mp hwrite, not_not.mp hrun,
      not_not.mp hread⟩

/-! A run. -/

theorem run_not_started {args : RunArgs} (h : ¬ Started cs sv args) :
    (handle_tool_run cs sv args).rc = RTNCD_FAILURE := by
  revert h
  rw [Started, ← loop_rc, handle_tool_run]
  rcases zut_loop_dynalloc sv 0 (run_dds cs args) with ⟨rc, log⟩
  dsimp only
  intro h
  by_cases hrc : rc ≠ 0
  · rw [if_pos hrc]
  rw [if_neg hrc, if_pos]
  · rfl
  · by_contra hopen
    refine h ⟨not_not.mp hrc, fun hin => ?_⟩
    by_contra hclosed
    exact hopen ⟨hin, by simpa using hclosed⟩

/-- What is given after the program. -/
theorem run_started {args : RunArgs} (h : Started cs sv args) :
    (handle_tool_run cs sv args).rc =
      if args.out_dd = [] then program_rc cs sv args
      else if out_is_sysout cs args then spool_rc cs sv args
      else if !sv.ifstream args.out_dd then RTNCD_FAILURE
      else program_rc cs sv args := by
  obtain ⟨hloop, hopen⟩ := h
  rw [← loop_rc] at hloop
  rw [handle_tool_run]
  revert hloop
  rcases zut_loop_dynalloc sv 0 (run_dds cs args) with ⟨rc, log⟩
  rintro rfl
  dsimp only
  rw [if_neg (not_not.mpr rfl), if_neg]
  · rw [spool_rc]
    split_ifs with hout hsysout hlist hread hclosed
    · rfl
    · rfl
    · rfl
    · exact not_not.mp hread
    · rfl
    · rfl
  · rintro ⟨hin, hclosed⟩
    rw [hopen hin] at hclosed
    cases hclosed

theorem write_noted_iff {dds : List Bytes} {rc : ℤ} {program output : Prop} :
    (Succeed sv 0 dds ∧ program ∧ output → Succeed sv 0 dds ∧ rc = 0 ∧ program ∧ output) ↔
      WriteNoted sv dds rc program output := by
  rw [WriteNoted]
  tauto

/-- A run with a program that succeeds. -/
theorem run_streams_iff {args : RunArgs} (h : Started cs sv args)
    (hprogram : program_rc cs sv args = 0) :
    ((handle_tool_run cs sv args).rc = RTNCD_SUCCESS →
      (Command.run args).Completed cs sv streams) ↔ StreamsNoted cs sv streams args := by
  have hsuccess : (handle_tool_run cs sv args).rc = RTNCD_SUCCESS ↔
      (args.out_dd = [] ∨ (out_is_sysout cs args = true ∧ spool_rc cs sv args = 0) ∨
        out_is_sysout cs args = false ∧ sv.ifstream args.out_dd = true) := by
    rw [run_started h, hprogram]
    split_ifs with hout hsysout hclosed
    · exact iff_of_true rfl (.inl hout)
    · rw [hsysout]
      simp [hout, RTNCD_SUCCESS]
    · simp [hout, hsysout, failure_ne_success, show sv.ifstream args.out_dd = false by
        simpa using hclosed]
    · simp [hsysout, RTNCD_SUCCESS, show sv.ifstream args.out_dd = true by simpa using hclosed]
  rw [hsuccess, StreamsNoted]
  refine forall_congr' fun hread => ?_
  rw [Command.Completed]
  constructor
  · rintro ⟨-, hwritten, -, -, hfile⟩
    exact ⟨hwritten, fun hout hsysout => (hfile hout hsysout).2⟩
  · rintro ⟨hwritten, hfile⟩
    refine ⟨h, hwritten, hprogram, fun hout hsysout => ?_, fun hout hsysout =>
      ⟨?_, hfile hout hsysout⟩⟩
    · rcases hread with hnone | ⟨-, hspool⟩ | ⟨hfalse, -⟩
      · exact absurd hnone hout
      · exact hspool
      · rw [hsysout] at hfalse
        cases hfalse
    · rcases hread with hnone | ⟨htrue, -⟩ | ⟨-, hopen⟩
      · exact absurd hnone hout
      · rw [hsysout] at htrue
        cases htrue
      · exact hopen

/-- A run with one that fails. -/
theorem run_own_iff {args : RunArgs} (h : Started cs sv args) :
    (handle_tool_run cs sv args).rc = program_rc cs sv args ↔ OwnCode cs sv args := by
  rw [run_started h, OwnCode]
  split_ifs with hout hsysout hclosed
  · exact iff_of_true rfl (.inl hout)
  · simp [hout, hsysout]
  · have hifstream : sv.ifstream args.out_dd = false := by simpa using hclosed
    simp [hout, hsysout, hifstream, eq_comm]
  · have hifstream : sv.ifstream args.out_dd = true := by simpa using hclosed
    simp [hsysout, hifstream]

theorem run_hides_none_iff (args : RunArgs) :
    HidesNone cs sv streams (.run args) ↔ (Command.run args).Noted cs sv streams := by
  have hown : (∀ args', Command.run args = .run args' → Started cs sv args' →
      program_rc cs sv args' ≠ 0 → (handle_tool_run cs sv args).rc = program_rc cs sv args') ↔
      (Started cs sv args → program_rc cs sv args ≠ 0 →
        (handle_tool_run cs sv args).rc = program_rc cs sv args) := by
    constructor
    · exact fun h => h args rfl
    · rintro h args' ⟨⟩
      exact h
  rw [HidesNone, Command.Noted, Command.handle, hown]
  by_cases hstarted : Started cs sv args
  · simp only [hstarted, true_imp_iff, run_own_iff hstarted]
    by_cases hprogram : program_rc cs sv args = 0
    · simp only [hprogram, ne_eq, not_true_eq_false, false_imp_iff, and_true, true_imp_iff]
      exact run_streams_iff hstarted hprogram
    · simp only [hprogram, ne_eq, not_false_eq_true, true_imp_iff, false_imp_iff, true_and]
      refine and_iff_right_of_imp fun hcode hsuccess => ?_
      exact absurd (((run_own_iff hstarted).mpr hcode).symm.trans hsuccess) hprogram
  · simp only [hstarted, false_imp_iff, and_true, iff_true, run_not_started hstarted]
    exact fun h => absurd h failure_ne_success

/-- A failure is hidden where the control statements alone are not written, where a stream loses
data, and where reading the output of a program that failed has another return code. -/
theorem hides_none_iff (cs : Charset) (sv : Services) (streams : Streams) (command : Command) :
    HidesNone cs sv streams command ↔ command.Noted cs sv streams := by
  have hother (h : ∀ args, command ≠ .run args) : HidesNone cs sv streams command ↔
      ((command.handle cs sv).rc = RTNCD_SUCCESS → command.Completed cs sv streams) :=
    and_iff_left fun args hrun => absurd hrun (h args)
  cases command with
  | convert_dsect args =>
    rw [hother (by simp)]
    exact iff_of_true (convert_success args) trivial
  | search args =>
    rw [hother (by simp), Command.Noted, ← write_noted_iff, Command.handle, search_success]
    rfl
  | amblist args =>
    rw [hother (by simp), Command.Noted, ← write_noted_iff, Command.handle, amblist_success]
    rfl
  | run args => exact run_hides_none_iff args
  | compress dsn =>
    rw [hother (by simp)]
    exact iff_of_true (compress_success dsn) trivial

/-- A program that ends with 12, with its output in a data set of the spool. -/
def twelve : Services :=
  { working with
    zut_run := fun _ _ => 12
    jobid := ibm1047.str "JOB00001"
    ssi := grants [⟨ibm1047.str "IBMUSER1", ibm1047.str "JOB00001", ibm1047.str "IBMUSER"⟩]
      [⟨ibm1047.str "OUT", [], [], ibm1047.str "IBMUSER.OUT", 1, [], false⟩] }

def to_spool : Command :=
  .run ⟨ibm1047.str "IEFBR14", [], [], ibm1047.str "out",
    [(ibm1047.str "out", ibm1047.str "sysout(a)")]⟩

/-- Streams that lose nothing. -/
def whole : Streams :=
  ⟨fun _ => true, fun _ => true⟩

/-- The return code is that of reading the spool. -/
theorem twelve_hidden : ¬ HidesNone ibm1047 twelve whole to_spool := by
  intro h
  have hrc : (to_spool.handle ibm1047 twelve).rc = 0 := by decide +kernel
  have hcompleted := (h.1 hrc).2.2.1
  exact absurd hcompleted (by decide +kernel)

end Zowex.tool

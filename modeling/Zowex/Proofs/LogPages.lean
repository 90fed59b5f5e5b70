import Zowex.Spec.Syslog

/-! The pages of the system log. Whether there are more records is not looked at when the limit is
reached. -/

namespace Zowex.zds

open zjb

variable {cs : Charset} {log : Log} {max_lines : ℕ} {ending : ℤ} {records : List Bytes}
  {state : ReadLoop}

theorem lines_cons (record : Bytes) :
    lines cs (record :: records) = record ++ [cs.code '\n'] ++ lines cs records := rfl

/-- The loop as long as the limit is not reached: all records, and what comes behind them. -/
theorem read_loop_below (hlines : state.lines_read + records.length < max_lines) :
    read_loop cs max_lines ending records state =
      { state with
        response := state.response ++ lines cs records
        lines_read := state.lines_read + records.length
        failed := if ending = RTNCD_WARNING then state.failed else some ending
        calls := state.calls ++ List.replicate (records.length + 1) .ZDSRIVSM } := by
  induction records generalizing state with
  | nil =>
    rw [read_loop]
    split_ifs <;> simp [lines]
  | cons record records ih =>
    rw [List.length_cons] at hlines
    push_cast at hlines
    rw [read_loop]
    dsimp only
    rw [if_neg (by omega), ih (by dsimp only; omega), lines_cons, List.length_cons,
      List.replicate_succ]
    simp only [List.append_assoc, List.singleton_append, Nat.cast_add, Nat.cast_one]
    congr 1
    omega

/-- The loop up to the limit: there may be no record left. -/
theorem read_loop_full (hpos : state.lines_read < max_lines)
    (hlines : (max_lines : ℤ) ≤ state.lines_read + records.length) :
    ∃ rest taken : ℕ, (taken : ℤ) = max_lines - state.lines_read ∧
      rest + taken = records.length ∧
      read_loop cs max_lines ending records state =
        { state with
          response := state.response ++ lines cs (records.take taken)
          lines_read := max_lines
          has_more := true
          calls := state.calls ++ List.replicate taken .ZDSRIVSM } := by
  induction records generalizing state with
  | nil =>
    rw [List.length_nil] at hlines
    omega
  | cons record records ih =>
    rw [List.length_cons] at hlines
    push_cast at hlines
    rw [read_loop]
    dsimp only
    by_cases hlast : state.lines_read + 1 ≥ max_lines
    · refine ⟨records.length, 1, by omega, rfl, ?_⟩
      rw [if_pos hlast]
      simp only [List.take_succ_cons, List.take_zero, lines_cons, List.replicate_one]
      simp [lines]
      omega
    · obtain ⟨rest, taken, htaken, hrest, hloop⟩ := @ih
        { state with
          response := state.response ++ record ++ [cs.code '\n']
          lines_read := state.lines_read + 1
          calls := state.calls ++ [.ZDSRIVSM] } (by dsimp only; omega) (by dsimp only; omega)
      refine ⟨rest, taken + 1, ?_, ?_, ?_⟩
      · dsimp only at htaken
        push_cast
        omega
      · rw [List.length_cons]
        omega
      · rw [if_neg hlast, hloop, List.take_succ_cons, lines_cons, List.replicate_succ]
        simp

/-- What the loop leaves where the data end behind the records. -/
theorem read_vsam_page (hopen : log.ZDSOIVSM = RTNCD_SUCCESS)
    (hpoint : log.ZDSPIVSM = RTNCD_SUCCESS) (hend : log.ending = RTNCD_WARNING)
    (hlimit : 1 ≤ max_lines) :
    (zds_read_vsam cs log max_lines).response = lines cs (log.records.take max_lines) ∧
      (zds_read_vsam cs log max_lines).returned_lines =
        (min max_lines log.records.length : ℕ) ∧
      ((zds_read_vsam cs log max_lines).has_more = true ↔ max_lines ≤ log.records.length) := by
  rw [zds_read_vsam, if_neg (not_not.mpr hopen), if_neg (not_not.mpr hpoint)]
  by_cases hfull : max_lines ≤ log.records.length
  · obtain ⟨rest, taken, htaken, hrest, hloop⟩ := @read_loop_full cs max_lines log.ending
      log.records { calls := [.ZDSOIVSM, .ZDSPIVSM] } (by dsimp only; omega) (by dsimp only; omega)
    obtain rfl : taken = max_lines := by
      dsimp only at htaken
      omega
    rw [hloop]
    simp [hfull]
  · have hloop := @read_loop_below cs max_lines log.ending log.records
      { calls := [.ZDSOIVSM, .ZDSPIVSM] } (by dsimp only; omega)
    rw [hloop, if_pos hend]
    have hshort : log.records.length ≤ max_lines := by omega
    simp [hfull, List.take_of_length_le hshort, hshort]

/-- Whatever the loop ends with, the data set is closed behind it. -/
theorem read_loop_calls : ∃ n, (read_loop cs max_lines ending records state).calls =
    state.calls ++ List.replicate n .ZDSRIVSM := by
  induction records generalizing state with
  | nil =>
    refine ⟨1, ?_⟩
    rw [read_loop]
    split_ifs <;> rfl
  | cons record records ih =>
    rw [read_loop]
    dsimp only
    split_ifs
    · exact ⟨1, rfl⟩
    · obtain ⟨n, hcalls⟩ := @ih { state with
        response := state.response ++ record ++ [cs.code '\n']
        lines_read := state.lines_read + 1
        calls := state.calls ++ [.ZDSRIVSM] }
      refine ⟨n + 1, ?_⟩
      rw [hcalls, List.replicate_succ]
      simp

theorem closed_once (hopen : log.ZDSOIVSM = RTNCD_SUCCESS) :
    (zds_read_vsam cs log max_lines).calls.count .ZDSCIVSM = 1 := by
  rw [zds_read_vsam, if_neg (not_not.mpr hopen)]
  by_cases hpoint : log.ZDSPIVSM = RTNCD_SUCCESS
  · rw [if_neg (not_not.mpr hpoint)]
    obtain ⟨n, hcalls⟩ := @read_loop_calls cs max_lines log.ending log.records
      { calls := [.ZDSOIVSM, .ZDSPIVSM] }
    have hcount : ((read_loop cs max_lines log.ending log.records
        { calls := [.ZDSOIVSM, .ZDSPIVSM] }).calls ++ [VsamCall.ZDSCIVSM]).count .ZDSCIVSM = 1 := by
      rw [hcalls]
      simp [List.count_replicate]
    dsimp only
    cases (read_loop cs max_lines log.ending log.records
      { calls := [.ZDSOIVSM, .ZDSPIVSM] }).failed with
    | none => exact hcount
    | some rc => exact hcount
  · rw [if_pos hpoint]
    rfl

/-- The page is exact except where the limit is the number of the records: there are said to be
more of them. -/
theorem pages_exactly_iff (hlimit : 1 ≤ max_lines) :
    PagesExactly cs log max_lines (zds_read_vsam cs log max_lines) ↔
      ¬ (log.ZDSOIVSM = RTNCD_SUCCESS ∧ log.ZDSPIVSM = RTNCD_SUCCESS ∧
        log.ending = RTNCD_WARNING ∧ log.records.length = max_lines) := by
  constructor
  · rintro h ⟨hopen, hpoint, hend, hlength⟩
    have hmore := (h.page hopen hpoint hend).2.2
    rw [(read_vsam_page hopen hpoint hend hlimit).2.2] at hmore
    omega
  · intro hother
    refine ⟨closed_once, fun hopen hpoint hend => ?_⟩
    obtain ⟨hresponse, hreturned, hmore⟩ := @read_vsam_page cs log max_lines hopen hpoint hend hlimit
    refine ⟨hresponse, hreturned, ?_⟩
    rw [hmore]
    have hne : log.records.length ≠ max_lines := fun h => hother ⟨hopen, hpoint, hend, h⟩
    omega

/-- A log of two records. -/
def two_records : Log where
  ZDSOIVSM := 0
  ZDSPIVSM := 0
  records := [ibm1047.str "FIRST", ibm1047.str "SECOND"]
  ending := RTNCD_WARNING
  ZDSCIVSM := 0
  ending_ne := warning_ne_success

theorem pages_exactly_three :
    PagesExactly ibm1047 two_records 3 (zds_read_vsam ibm1047 two_records 3) ↔
      ¬ (two_records.ZDSOIVSM = RTNCD_SUCCESS ∧ two_records.ZDSPIVSM = RTNCD_SUCCESS ∧
        two_records.ending = RTNCD_WARNING ∧ two_records.records.length = 3) :=
  pages_exactly_iff (by decide)

theorem more_announced_at_end :
    ¬ PagesExactly ibm1047 two_records 2 (zds_read_vsam ibm1047 two_records 2) := by
  intro h
  obtain ⟨-, -, hmore⟩ := h.page rfl rfl rfl
  obtain ⟨-, -, hread⟩ := @read_vsam_page ibm1047 two_records 2 rfl rfl rfl (by decide)
  exact absurd (hmore.mp (hread.mpr le_rfl)) (by decide)

end Zowex.zds

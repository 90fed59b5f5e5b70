import Mathlib.Tactic
import Zowex.Proofs.MemberLines
import Zowex.Spec.MemberWrite

/-! What holds of the write of a member between the open and the close, and after it: a member that
is opened has all its resources, a close gives back what an open has acquired, and one that
succeeds has stored the records. -/

namespace Zowex.zds

variable {cs : Charset} {sv : BpamServices}

/-! The open. -/

/-- An `IO_CTRL` with what an open acquires up to one step or another. -/
def with_enq : IoCtrl where
  has_enq := true
  log := [.acquire .dd, .acquire .enq]

def with_reserve : IoCtrl where
  has_enq := true
  has_reserve := true
  log := [.acquire .dd, .acquire .enq, .acquire .reserve]

def with_dcb : IoCtrl where
  has_enq := true
  has_reserve := true
  dcbofopn := true
  log := [.acquire .dd, .acquire .enq, .acquire .reserve, .acquire .dcb]

def opened : IoCtrl where
  has_enq := true
  has_reserve := true
  dcbofopn := true
  buffer := true
  log := [.acquire .dd, .acquire .enq, .acquire .reserve, .acquire .dcb, .acquire .buffer]

/-- Where an open can stop. -/
theorem open_output_cases (sv : BpamServices) :
    open_output_bpam sv (({} : IoCtrl).acquire .dd) = (true, opened) ∨
    ∃ ioc ∈ [({} : IoCtrl).acquire .dd, with_enq, with_reserve, with_dcb],
      open_output_bpam sv (({} : IoCtrl).acquire .dd) = (false, ioc) := by
  rw [open_output_bpam]
  by_cases henq : (!sv.read_output_jfcb || !sv.validate_jfcb_attributes || !sv.enq) = true
  · rw [if_pos henq]
    exact .inr ⟨_, by simp, rfl⟩
  rw [if_neg henq]
  dsimp only
  by_cases hreserve : (!sv.get_ucb || !sv.reserve) = true
  · rw [if_pos hreserve]
    exact .inr ⟨with_enq, by simp, rfl⟩
  rw [if_neg hreserve]
  cases hdcb : sv.dcbofopn with
  | false =>
    have hclosed (b : Bool) : (!sv.open_output_dcb || sv.dcb_abend || !false || b) = true := by
      simp
    rw [if_neg Bool.false_ne_true]
    exact .inr ⟨with_reserve, by simp, if_pos (hclosed _)⟩
  | true =>
    rw [if_pos rfl]
    by_cases hfails : (!sv.open_output_dcb || sv.dcb_abend || !true ||
        !validate_dcb_attributes sv) = true
    · exact .inr ⟨with_dcb, by simp, if_pos hfails⟩
    · exact .inl (if_neg hfails)

theorem open_error {run : MemberRun} (h : zds_open_output_bpam sv = .error run) :
    run.result = .error .not_allocated ∨ run.result = .error .not_opened := by
  rw [zds_open_output_bpam] at h
  by_cases halloc : (!sv.alloc) = true
  · rw [if_pos halloc] at h
    exact .inl (by rw [← Except.error.inj h])
  rw [if_neg halloc] at h
  rcases open_output_cases sv with hopen | ⟨next, -, hopen⟩
  · rw [hopen] at h
    cases h
  · rw [hopen] at h
    exact .inr (by rw [← Except.error.inj h])

theorem open_ok {ioc : IoCtrl} (h : zds_open_output_bpam sv = .ok ioc) : ioc = opened := by
  rw [zds_open_output_bpam] at h
  by_cases halloc : (!sv.alloc) = true
  · rw [if_pos halloc] at h
    cases h
  rw [if_neg halloc] at h
  rcases open_output_cases sv with hopen | ⟨next, -, hopen⟩
  · rw [hopen] at h
    exact (Except.ok.inj h).symm
  · rw [hopen] at h
    cases h

/-! The lines. -/

theorem hand_out_ok {write : List Bytes → Bool} {records before handed : List Bytes}
    (h : hand_out write records before = .ok handed) :
    handed = before ++ records ∧ (records = [] ∨ write handed = true) := by
  induction records generalizing before with
  | nil =>
    rw [List.append_nil]
    exact ⟨(Except.ok.inj h).symm, .inl rfl⟩
  | cons record records ih =>
    rw [hand_out, List.map_cons, write_lines, zds_write_output_bpam] at h
    by_cases hwrite : write (before ++ [Line.record (record, none)]) = true
    · rw [if_pos hwrite] at h
      obtain ⟨hhanded, hlast⟩ := ih h
      have hrecord : Line.record (record, none) = record := rfl
      rw [hrecord] at hhanded hwrite
      rw [List.append_assoc, List.singleton_append] at hhanded
      refine ⟨hhanded, .inr ?_⟩
      rcases hlast with rfl | hlast
      · rw [hhanded]
        exact hwrite
      · exact hlast
    · rw [if_neg hwrite] at h
      cases h

theorem hand_out_error {write : List Bytes → Bool} {records before : List Bytes}
    {written : Written} (h : hand_out write records before = .error written) :
    written.exit = .write_failed := by
  induction records generalizing before with
  | nil => cases h
  | cons record records ih =>
    rw [hand_out, List.map_cons, write_lines, zds_write_output_bpam] at h
    by_cases hwrite : write (before ++ [Line.record (record, none)]) = true
    · rw [if_pos hwrite] at h
      exact ih h
    · rw [if_neg hwrite] at h
      rw [← Except.error.inj h]

/-- A member whose lines all go out gets what each of them is encoded to. -/
theorem member_lines_finished {s : LineSetup} {write : List Bytes → Bool} {data : Bytes}
    {handed : List Bytes} {t : TruncationTracker}
    (h : write_member_lines cs s write data = ⟨handed, .finished t⟩) :
    ∃ outs, (all_lines cs s data).mapM (encoded s) = some outs ∧ handed = in_order cs outs ∧
      (handed = [] ∨ write handed = true) := by
  rcases hmap : (all_lines cs s data).mapM (encoded s) with _ | outs
  · rw [written_none hmap] at h
    cases h
  rw [written_in_order hmap] at h
  rcases hout : hand_out write (in_order cs outs) [] with written | handed'
  · have hexit := hand_out_error hout
    rw [hout] at h
    rw [show written = _ from h] at hexit
    cases hexit
  · rw [hout] at h
    obtain ⟨hhanded, hlast⟩ := hand_out_ok hout
    obtain rfl : handed' = handed := congrArg Written.handed h
    rw [List.nil_append] at hhanded
    rw [← hhanded] at hlast
    exact ⟨outs, rfl, hhanded, hlast⟩

/-- The lines end early in one of these ways only. -/
def Exits {α : Type} (ends : Exit → Prop) (lines : Except Written α) : Prop :=
  ∀ written, lines = .error written → ends written.exit

section

variable {α β : Type} {ends : Exit → Prop} {s : LineSetup}

theorem Exits.ok (a : α) : Exits ends (.ok a) := fun _ h => by cases h

theorem Exits.error {written : Written} (h : ends written.exit) :
    Exits ends (.error written : Except Written α) := by
  intro written' heq
  rw [← Except.error.inj heq]
  exact h

theorem Exits.bind {lines : Except Written α} {next : α → Except Written β}
    (h : Exits ends lines) (hnext : ∀ a, Exits ends (next a)) : Exits ends (lines >>= next) := by
  rcases lines with written | a
  · exact .error (h written rfl)
  · exact hnext a

theorem Exits.of {lines : Except Written (List Bytes × TruncationTracker)}
    (h : Exits ends lines) (hfinished : ∀ t, ends (.finished t)) :
    ends (Written.of lines).exit := by
  rcases lines with written | ⟨handed, truncation⟩
  · exact h written rfl
  · exact hfinished truncation

theorem exits_write (hwrite : ends .write_failed) (write : List Bytes → Bool) (lines : List Line)
    (handed : List Bytes) : Exits ends (write_lines write lines handed) := by
  induction lines generalizing handed with
  | nil => exact .ok handed
  | cons line lines ih =>
    refine .bind ?_ ih
    rw [zds_write_output_bpam]
    by_cases hout : write (handed ++ [line.record]) = true
    · rw [if_pos hout]
      exact .ok _
    · rw [if_neg hout]
      exact .error hwrite

theorem exits_kept (hwrite : ends .write_failed) (write : List Bytes → Bool)
    {lines : List PreparedLine}
    (h : ∀ line ∈ lines, encoded s line = none → ends .encode_failed) (st : StreamState) :
    Exits ends (lines.foldlM (stream_kept cs s write) st) := by
  induction lines generalizing st with
  | nil => exact .ok st
  | cons line lines ih =>
    rw [List.foldlM_cons]
    refine .bind ?_ (ih fun line hline => h line (List.mem_cons_of_mem _ hline))
    rw [stream_kept]
    refine .bind (exits_write hwrite write _ _) fun handed => ?_
    rcases hencoded : encoded s line with _ | out
    · exact .error (h line List.mem_cons_self hencoded)
    · exact .bind (exits_write hwrite write _ _) fun handed => .ok _

theorem exits_trailing_line (hwrite : ends .write_failed) (write : List Bytes → Bool)
    {st : StreamState}
    (h : ∀ line, kept_end cs s st.state.asa_state st.line_buffer = some line →
      encoded s line = none → ends .encode_failed) :
    Exits ends (stream_trailing_line cs s write st) := by
  rw [stream_trailing_line]
  by_cases hempty : st.line_buffer = []
  · rw [if_pos hempty]
    exact .ok st
  rw [if_neg hempty]
  rcases hend : kept_end cs s st.state.asa_state st.line_buffer with _ | line
  · obtain ⟨next, -, hskips⟩ := trailing_line_skips st.state hend
    rw [hskips]
    exact .ok _
  rw [trailing_line_keeps st.state hend]
  rcases hencoded : encoded s line with _ | out
  · exact .error (h line hend hencoded)
  · exact .bind (exits_write hwrite write _ _) fun handed =>
      .bind (exits_write hwrite write _ _) fun handed => .ok _

/-- How a streamed write of lines can end: as it should, with a record that is not written, with a
line that is not encoded, or with a chunk that is not decoded. -/
theorem exits_streamed {data : Bytes} {e : Option zbase64.DecodeError} {chunks : List Bytes}
    (write : List Bytes → Bool) (hdata : decoded_data chunks (some []) = (data, e))
    (hfinished : ∀ t, ends (.finished t)) (hwrite : ends .write_failed)
    (hencode : ∀ line ∈ kept_lines cs s data ++
        if e.isNone then (kept_last cs s data).toList else [],
      encoded s line = none → ends .encode_failed)
    (hthrew : ∀ e', e = some e' → ends (.threw e')) :
    ends (write_member_lines_streamed cs s write chunks).exit := by
  suffices h : Exits ends (do
      let st ← stream_chunks cs s write chunks (some []) {}
      let st ← stream_trailing_line cs s write st
      let handed ← write_prev_line write st.prev_line st.handed
      .ok (handed, st.state.truncation.flush_range)) from h.of hfinished
  rw [stream_chunks_eq chunks (some []) {} (Lines.complete_nil _) (Lines.unfinished_nil _), hdata]
  dsimp only
  rw [List.nil_append, stream_fold, bind_assoc]
  have hkept := @exits_kept cs ends s hwrite write _ (fun line hline =>
    hencode line (List.mem_append_left _ hline)) {}
  rw [kept_lines] at hkept
  rcases hfold : List.foldlM (stream_kept cs s write) {} _ with written | st
  · exact .error (hkept written hfold)
  rcases e with _ | e
  · show Exits ends (do
      let st ← stream_trailing_line cs s write
        { with_blanks (keep_lines cs s {} (Lines.complete s.newline_char data)).2 st with
          line_buffer := Lines.unfinished s.newline_char data }
      let handed ← write_prev_line write st.prev_line st.handed
      .ok (handed, st.state.truncation.flush_range))
    refine .bind (exits_trailing_line hwrite write fun line hline => ?_) fun st =>
      .bind (exits_write hwrite write _ _) fun handed => .ok _
    refine hencode line (List.mem_append_right _ ?_)
    rw [kept_last_eq]
    exact Option.mem_toList.mpr hline
  · exact .error (hthrew e rfl)

theorem exits_at_once {data : Bytes} (write : List Bytes → Bool)
    (hfinished : ∀ t, ends (.finished t)) (hwrite : ends .write_failed)
    (hencode : ∀ line ∈ all_lines cs s data, encoded s line = none → ends .encode_failed) :
    ends (write_member_lines cs s write data).exit := by
  rw [write_member_lines]
  rcases collect_lines_eq cs s data with ⟨hnone, hcollect⟩ | ⟨outs, st, lines, -, hcollect, -⟩
  · rw [hcollect]
    rcases Traversals.mapM_cases (encoded s) (all_lines cs s data) with ⟨outs, houts⟩ |
      ⟨before, line, after, outs, hlines, -, hline⟩
    · rw [hnone] at houts
      cases houts
    · refine hencode line ?_ hline
      rw [hlines]
      exact List.mem_append_right _ List.mem_cons_self
  · rw [hcollect]
    dsimp only
    rcases hout : write_lines write lines [] with written | handed
    · exact exits_write hwrite write lines [] written hout
    · exact hfinished _

end

/-! The close. -/

/-- A close that succeeds has stored all records. -/
theorem close_stores {sv : BpamServices} {ioc : IoCtrl} {handed : List Bytes}
    (hopen : ioc.dcbofopn = true) (h : (zds_close_output_bpam sv ioc handed).ok = true) :
    (zds_close_output_bpam sv ioc handed).stored = some handed := by
  have hok : (close_output_bpam sv ioc handed).ok = true := h
  show (close_output_bpam sv ioc handed).stored = some handed
  have hflushed : handed = [] ∨ sv.write_flush handed = true := by
    simp only [close_output_bpam, hopen, Bool.and_eq_true] at hok
    simpa using hok.1.1.1
  have hafter : sv.open_after_flush handed = true := by
    by_contra hclosed
    obtain ⟨hne, hfailed⟩ := sv.flush_abend handed (by simpa using hclosed)
    rcases hflushed with hnil | hflushed
    · exact hne hnil
    · rw [hfailed] at hflushed
      cases hflushed
  have hfound : found_open ioc (sv.open_after_flush handed) = ioc := by
    rw [found_open, hafter, Bool.not_true, Bool.and_false]
    rfl
  have hwritten : sv.written handed = handed := by
    rcases hflushed with rfl | hflushed
    · exact List.prefix_nil.mp (sv.written_prefix [])
    · exact sv.written_flushed handed hflushed
  have hstowed : (sv.update_ispf_statistics && sv.stow) = true := by
    simp only [close_output_bpam, hfound, hopen, finalize_dcb, if_true, Bool.and_eq_true] at hok
    simpa using hok.1.1.2.1
  simp only [close_output_bpam, hfound, hopen, finalize_dcb, if_true, hstowed, hwritten]

/-! A whole write. -/

/-- As long as the records go out the DCB stays open. -/
theorem stays_open {handed : List Bytes} (h : handed = [] ∨ sv.write handed = true) :
    sv.open_after handed = true := by
  rcases List.eq_nil_or_concat' handed with rfl | ⟨before, record, rfl⟩
  · exact sv.open_after_nil
  · by_contra hclosed
    rw [Bool.not_eq_true] at hclosed
    have hwrite := sv.write_abend before record hclosed
    rcases h with h | h
    · simp at h
    · rw [hwrite] at h
      cases h

theorem found_open_open {ioc : IoCtrl} : found_open ioc true = ioc := by
  rw [found_open, Bool.not_true, Bool.and_false]
  rfl

variable {Shift : Type} {iconv_open : IconvOpen Shift} {opts : ZEncode}

/-- A write that succeeds has stored what its lines are encoded to. -/
theorem member_run_ok {data : Bytes} {t : TruncationTracker}
    (h : (zds_write_member_bpam sv cs iconv_open opts data).result = .ok t) :
    iconv_valid cs iconv_open opts = true ∧
    ∃ outs, (all_lines cs (line_setup sv cs iconv_open opts) data).mapM
        (encoded (line_setup sv cs iconv_open opts)) = some outs ∧
      (zds_write_member_bpam sv cs iconv_open opts data).stored = some (in_order cs outs) := by
  revert h
  rw [zds_write_member_bpam]
  rcases hopen : zds_open_output_bpam sv with run | ioc
  · intro h
    rcases open_error hopen with herror | herror <;> rw [herror] at h <;> cases h
  obtain rfl := open_ok hopen
  dsimp only
  by_cases hvalid : (!iconv_valid cs iconv_open opts) = true
  · rw [if_pos hvalid]
    intro h
    cases h
  rw [if_neg hvalid]
  rcases hlines : write_member_lines cs (line_setup sv cs iconv_open opts) sv.write data with
    ⟨handed, truncation | _ | _ | e⟩
  · obtain ⟨outs, houts, rfl, hlast⟩ := member_lines_finished hlines
    rw [end_of_lines]
    dsimp only
    rw [stays_open hlast, found_open_open]
    intro h
    by_cases hok : (zds_close_output_bpam sv opened (in_order cs outs)).ok = true
    · refine ⟨by simpa using hvalid, outs, houts, close_stores rfl hok⟩
    · rw [if_neg hok] at h
      cases h
  · intro h
    cases h
  · intro h
    cases h
  · intro h
    cases h

/-- Every service does its work, on a data set of fixed records. -/
def bpam_works : BpamServices where
  alloc := true
  read_output_jfcb := true
  validate_jfcb_attributes := true
  enq := true
  get_ucb := true
  reserve := true
  open_output_dcb := true
  dcb_abend := false
  dcbofopn := true
  open_after _ := true
  open_after_flush _ := true
  dcb := ⟨true, false, true, 80, 800⟩
  dcbrecca := false
  open_pipe := true
  fdopen := true
  write _ := true
  write_flush _ := true
  update_ispf_statistics := true
  stow := true
  close_dcb := true
  deq_reserve := true
  deq := true
  free := true
  failure_rc := true
  written := id
  written_prefix _ := List.prefix_rfl
  written_flushed _ _ := rfl
  open_after_nil := rfl
  write_abend _ _ h := by cases h
  flush_abend _ h := by cases h
  dcb_defined := by decide

end Zowex.zds

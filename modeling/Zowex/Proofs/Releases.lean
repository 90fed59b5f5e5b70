import Zowex.Proofs.DataSets

/-! A write of a member gives back what it has acquired, unless an exception leaves the loop over
the chunks: there is no guard for the `IO_CTRL`. -/

namespace Zowex.zds

variable {cs : Charset} {sv : BpamServices} {Contents : Type}

/-! A close. -/

/-- What a close releases of an `IO_CTRL`, in its order. -/
def releases (ioc : IoCtrl) : List Event :=
  (if ioc.dcbofopn then [.release .dcb] else []) ++
    (if ioc.buffer then [.release .buffer] else []) ++
    (if ioc.has_reserve then [.release .reserve] else []) ++
    (if ioc.has_enq then [.release .enq] else [])

/-- The DCB is released by the system or by the close. -/
theorem close_log (sv : BpamServices) (ioc : IoCtrl) (handed : List Bytes) :
    (close_output_bpam sv ioc handed).log = ioc.log ++ releases ioc := by
  obtain ⟨has_enq, has_reserve, dcbofopn, buffer, log⟩ := ioc
  rw [close_output_bpam, found_open]
  cases dcbofopn <;> cases sv.open_after_flush handed <;> cases buffer <;> cases has_reserve <;>
    cases has_enq <;> simp [releases, finalize_dcb, IoCtrl.release]

theorem closed_log (ioc : IoCtrl) (handed : List Bytes) :
    (zds_close_output_bpam sv ioc handed).log = ioc.log ++ releases ioc ++ [.release .dd] := by
  rw [zds_close_output_bpam, close_log]

theorem released_nil : Released [] := fun _ => .inl rfl

theorem released_of_open {ioc : IoCtrl}
    (h : ioc ∈ [({} : IoCtrl).acquire .dd, with_enq, with_reserve, with_dcb, opened,
      found_open opened false]) :
    Released (ioc.log ++ releases ioc ++ [.release .dd]) := by
  intro r
  simp only [List.mem_cons, List.not_mem_nil, or_false] at h
  rcases h with rfl | rfl | rfl | rfl | rfl | rfl <;> cases r <;> decide

theorem open_error_released {run : MemberRun} (h : zds_open_output_bpam sv = .error run) :
    Released run.log := by
  rw [zds_open_output_bpam] at h
  by_cases halloc : (!sv.alloc) = true
  · rw [if_pos halloc] at h
    rw [← Except.error.inj h]
    exact released_nil
  rw [if_neg halloc] at h
  rcases open_output_cases sv with hopen | ⟨ioc, hioc, hopen⟩
  · rw [hopen] at h
    cases h
  · rw [hopen] at h
    rw [← Except.error.inj h]
    dsimp only
    rw [close_log]
    refine released_of_open ?_
    simp only [List.mem_cons, List.not_mem_nil, or_false] at hioc ⊢
    tauto

/-- A close of what was opened, whether the DCB is found open or not. -/
theorem close_released (sv : BpamServices) (dcbofopn : Bool) (handed : List Bytes) :
    Released (zds_close_output_bpam sv (found_open opened dcbofopn) handed).log := by
  rw [closed_log]
  refine released_of_open ?_
  cases dcbofopn with
  | true => simp [found_open_open]
  | false => simp

theorem close_with_released (sv : BpamServices) (e : MemberError) :
    Released (close_with sv opened [] e).log :=
  close_released sv true []

/-! Runs without an exception. -/

theorem end_of_lines_released {written : Written} (h : ∀ e, written.exit ≠ .threw e) :
    Released (end_of_lines sv opened written).log := by
  rw [end_of_lines]
  rcases hexit : written.exit with truncation | _ | _ | e
  · exact close_released sv _ written.handed
  · exact close_released sv _ written.handed
  · exact close_released sv _ written.handed
  · exact absurd hexit (h e)

variable {Shift : Type} {iconv_open : IconvOpen Shift}

theorem member_released {source : Source} (zds : ZDS) (h : source.decoded.2 = none) :
    Released (write_member cs iconv_open sv zds source).log := by
  rcases member_cases cs iconv_open sv zds source with hopen | hpipe | ⟨-, hinvalid⟩ | ⟨-, hlines⟩
  · exact open_error_released hopen
  · rw [hpipe]
    exact close_with_released sv .no_pipe
  · rw [hinvalid]
    exact close_with_released sv .no_converter
  · rw [hlines]
    refine end_of_lines_released (exits_source (fun x => ∀ e, x ≠ .threw e) sv.write
      (fun t e => Exit.noConfusion) (fun e => Exit.noConfusion)
      (fun line _ _ e => Exit.noConfusion) fun e he => ?_)
    rw [h] at he
    cases he

/-- What a write does with resources it does for the member. -/
theorem zds_write_log (lib : Library Contents) (sv : DataSetServices) {opts : ZDSWriteOpts}
    (source : Source) (before : Contents)
    (h : Released (write_member cs iconv_open sv.bpam opts.zds source).log) :
    Released (zds_write cs iconv_open lib sv opts source before).log := by
  have hcontents : Released (write_contents cs iconv_open lib sv opts source before).log := by
    rw [write_contents]
    by_cases hmember : zds_has_member cs opts.dsname = true
    · rw [if_pos hmember]
      exact h
    · rw [if_neg hmember]
      exact released_nil
  rw [zds_write]
  by_cases htarget : opts.dsname = [] ∧ opts.ddname = []
  · rw [if_pos htarget]
    exact released_nil
  rw [if_neg htarget]
  by_cases hdd : opts.ddname ≠ []
  · rw [if_pos hdd]
    exact released_nil
  rw [if_neg hdd]
  rcases write_refused cs iconv_open lib sv opts before with _ | e
  · dsimp only
    by_cases hfailure : is_failure sv
        (write_contents cs iconv_open lib sv opts source before).result = true
    · rw [if_pos hfailure]
      exact hcontents
    rw [if_neg hfailure, read_back]
    rcases zds_read cs iconv_open lib sv.file.fopen_read sv.attrs opts.zds.encoding_opts
      (write_contents cs iconv_open lib sv opts source before).contents with e | saved_contents
    · exact hcontents
    · exact hcontents
  · exact released_nil

/-! A chunk that is not decoded. -/

theorem line_works {s : LineSetup} (hencode : ∀ line, s.encode line = some line)
    (st : StreamState) (line : Bytes) :
    ∃ st', stream_line cs s (fun _ => true) st line = .ok st' := by
  rw [stream_line]
  rcases prepare cs s st.state.asa_state (strip_cr line) with ⟨prepared, asa_state, line⟩
  dsimp only
  by_cases hskip : prepared.skip_line = true
  · rw [if_pos hskip]
    exact ⟨_, rfl⟩
  · rw [if_neg hskip, write_asa_overflow_records, write_lines_all, hencode]
    dsimp only [bind, Except.bind]
    rw [write_prev_line, write_lines_all]
    exact ⟨_, rfl⟩

theorem lines_work (cs : Charset) {s : LineSetup} (hencode : ∀ line, s.encode line = some line)
    (raw : List Bytes) (st : StreamState) :
    ∃ st', raw.foldlM (stream_line cs s fun _ => true) st = .ok st' := by
  induction raw generalizing st with
  | nil => exact ⟨st, rfl⟩
  | cons line raw ih =>
    obtain ⟨st', hline⟩ := line_works hencode st line
    rw [List.foldlM_cons, hline]
    exact ih st'

/-- Lines that all go out leave the exception of the chunks. -/
theorem streamed_throws (cs : Charset) {s : LineSetup}
    (hencode : ∀ line, s.encode line = some line) {chunks : List Bytes} {e : zbase64.DecodeError}
    (h : (decoded_data chunks (some [])).2 = some e) :
    (write_member_lines_streamed cs s (fun _ => true) chunks).exit = .threw e := by
  obtain ⟨st, hlines⟩ := lines_work cs hencode
    (Lines.complete s.newline_char (decoded_data chunks (some [])).1) {}
  rw [write_member_lines_streamed, stream_chunks_eq chunks (some []) {} (Lines.complete_nil _)
    (Lines.unfinished_nil _)]
  dsimp only
  rw [List.nil_append, hlines, h]
  rfl

theorem member_throws {chunks : List Bytes} {e : zbase64.DecodeError}
    (h : (decoded_data chunks (some [])).2 = some e) :
    write_member cs no_iconv bpam_works {} (.streamed chunks) =
      { log := opened.log, result := .error (.threw e) } := by
  have hlines := streamed_throws cs (s := line_setup bpam_works cs no_iconv {}) (fun _ => rfl) h
  have hvalid : ¬ (!iconv_valid cs no_iconv {}) = true := Bool.false_ne_true
  rw [write_member, zds_write_member_bpam_streamed,
    show zds_open_output_bpam bpam_works = .ok opened from rfl]
  dsimp only
  rw [if_neg (by decide), if_neg hvalid, end_of_lines,
    show (write_member_lines_streamed cs (line_setup bpam_works cs no_iconv {}) bpam_works.write
      chunks).exit = _ from hlines]
  rfl

theorem opened_not_released : ¬ Released opened.log := by
  intro h
  rcases h .enq with h | h
  · cases h
  · cases h

/-- A write of a member has released its resources whatever fails, just when its data is no base64
that cannot be decoded. -/
theorem releases_iff_decodes (cs : Charset) (source : Source) :
    (∀ (Shift Contents : Type) (iconv_open : IconvOpen Shift) (lib : Library Contents)
      (sv : DataSetServices) (opts : ZDSWriteOpts) (before : Contents),
      opts.ddname = [] → zds_has_member cs opts.dsname = true →
      Released (zds_write cs iconv_open lib sv opts source before).log) ↔
    source.decoded.2 = none := by
  constructor
  · intro h
    cases source with
    | buffered data => rfl
    | streamed chunks =>
      rcases hdata : (decoded_data chunks (some [])).2 with _ | e
      · exact hdata
      · have hreleased := h Unit Bytes no_iconv plain services_work
          { zds := {}, dsname := member_name cs } [] rfl (member_name_has_member cs)
        have hthrows : (write_member cs no_iconv bpam_works {} (.streamed chunks)).result =
            .error (.threw e) := by
          rw [member_throws hdata]
        rw [services_work, member_write_fails cs no_iconv bpam_works _ [] rfl hthrows
          MemberError.noConfusion, member_throws hdata] at hreleased
        exact absurd hreleased opened_not_released
  · intro h Shift Contents iconv_open lib sv opts before _ _
    exact zds_write_log lib sv source before (member_released opts.zds h)

/-- A chunk of characters that are not in the alphabet leaves all five resources. -/
theorem malformed_base64_leaks :
    ¬ Released (zds_write ibm1047 no_iconv plain services_work
      { zds := {}, dsname := member_name ibm1047 } (.streamed [ibm1047.str "!!!!"]) []).log := by
  intro h
  have hlog : (zds_write ibm1047 no_iconv plain services_work
      { zds := {}, dsname := member_name ibm1047 } (.streamed [ibm1047.str "!!!!"]) []).log =
      opened.log := by
    decide +kernel
  rw [hlog] at h
  exact opened_not_released h

end Zowex.zds

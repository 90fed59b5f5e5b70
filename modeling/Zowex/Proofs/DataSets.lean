import Zowex.Proofs.MemberWrite
import Zowex.Spec.DataSets

/-! What every write of a data set does before and after its data is written, and services that do
their work. -/

namespace Zowex.zds

variable {Shift Contents : Type} {cs : Charset} {iconv_open : IconvOpen Shift}
  {lib : Library Contents} {opts : ZEncode}

theorem setup_encoding_eq (h : zds_use_codepage opts = true) :
    setup_encoding cs iconv_open opts =
      (⟨true, opts.codepage, source_encoding cs opts,
        (get_newline_char cs iconv_open (source_encoding cs opts)).1⟩,
        (get_newline_char cs iconv_open (source_encoding cs opts)).2) := by
  rw [setup_encoding, h]
  rfl

theorem text_of_use (h : zds_use_codepage opts = true) :
    opts.data_type ≠ .eDataTypeBinary := by
  rw [zds_use_codepage, Bool.and_eq_true, decide_eq_true_eq] at h
  rw [h.1]
  decide

theorem file_contents_text {Contents : Type} (lib : Library Contents) {run : FileRun} {temp : Bytes}
    (attrs : DscbAttributes) (before : Contents) (huse : zds_use_codepage opts = true)
    (h : run.stored = some temp) :
    run.contents lib attrs opts before = lib.write_text attrs temp := by
  rw [FileRun.contents, h]
  exact if_neg (text_of_use huse)

theorem read_back_ok {sv : DataSetServices} {write_opts : ZDSWriteOpts} {run : WriteRun Contents}
    {t : TruncationTracker}
    (h : (read_back cs iconv_open lib sv write_opts run).result = .ok t) :
    run.result = .ok t ∧
      (read_back cs iconv_open lib sv write_opts run).contents = run.contents := by
  revert h
  rw [read_back]
  rcases zds_read cs iconv_open lib sv.file.fopen_read sv.attrs write_opts.zds.encoding_opts
    run.contents with e | saved_contents
  · intro h
    cases h
  · exact fun h => ⟨h, rfl⟩

/-- A write to a data set that succeeds is one of its contents that does. -/
theorem zds_write_ok {sv : DataSetServices} {write_opts : ZDSWriteOpts} {source : Source}
    {before : Contents} {t : TruncationTracker} (hdsn : write_opts.ddname = [])
    (h : (zds_write cs iconv_open lib sv write_opts source before).result = .ok t) :
    (write_contents cs iconv_open lib sv write_opts source before).result = .ok t ∧
      (zds_write cs iconv_open lib sv write_opts source before).contents =
        (write_contents cs iconv_open lib sv write_opts source before).contents := by
  revert h
  rw [zds_write]
  by_cases htarget : write_opts.dsname = [] ∧ write_opts.ddname = []
  · rw [if_pos htarget]
    intro h
    cases h
  rw [if_neg htarget, if_neg (by simp [hdsn])]
  rcases write_refused cs iconv_open lib sv write_opts before with _ | e
  · dsimp only
    by_cases hfailure : is_failure sv
        (write_contents cs iconv_open lib sv write_opts source before).result = true
    · rw [if_pos hfailure]
      exact fun h => ⟨h, rfl⟩
    · rw [if_neg hfailure]
      exact read_back_ok
  · intro h
    cases h

/-- A write to a DD is one to a file of which nothing is known. -/
theorem zds_write_dd (cs : Charset) (iconv_open : IconvOpen Shift) {Contents : Type}
    (lib : Library Contents) (sv : DataSetServices) (write_opts : ZDSWriteOpts) (source : Source)
    (before : Contents)
    (h : write_opts.ddname ≠ []) :
    (zds_write cs iconv_open lib sv write_opts source before).result =
        (write_file cs iconv_open sv.file {} write_opts.zds source).result ∧
      (zds_write cs iconv_open lib sv write_opts source before).contents =
        (write_file cs iconv_open sv.file {} write_opts.zds source).contents lib {}
          write_opts.zds.encoding_opts before := by
  rw [zds_write, if_neg (fun hnone => h hnone.2), if_pos h]
  exact ⟨rfl, rfl⟩

/-- A write that succeeds, and is none of a member, is one of a file that does. -/
theorem zds_write_file_ok {sv : DataSetServices} {write_opts : ZDSWriteOpts} {source : Source}
    {before : Contents} {t : TruncationTracker}
    (hmember : write_opts.ddname = [] → zds_has_member cs write_opts.dsname = false)
    (h : (zds_write cs iconv_open lib sv write_opts source before).result = .ok t) :
    (write_file cs iconv_open sv.file (if write_opts.ddname = [] then sv.attrs else {})
        write_opts.zds source).result = .ok t ∧
      (zds_write cs iconv_open lib sv write_opts source before).contents =
        (write_file cs iconv_open sv.file (if write_opts.ddname = [] then sv.attrs else {})
          write_opts.zds source).contents lib (if write_opts.ddname = [] then sv.attrs else {})
          write_opts.zds.encoding_opts before := by
  by_cases hdd : write_opts.ddname = []
  · obtain ⟨hok, hcontents⟩ := zds_write_ok hdd h
    rw [write_contents, hmember hdd, if_neg Bool.false_ne_true] at hok
    rw [hcontents, write_contents, hmember hdd, if_neg Bool.false_ne_true, if_pos hdd]
    exact ⟨hok, rfl⟩
  · obtain ⟨hok, hcontents⟩ := zds_write_dd cs iconv_open lib sv write_opts source before hdd
    rw [if_neg hdd, ← hok, ← hcontents]
    exact ⟨h, rfl⟩

/-- Every call of the library does what it should. -/
def all_work : FileServices where
  fopen_write := true
  fopen_read := true
  open_pipe := true
  fdopen := true
  fwrite _ bytes := bytes.length
  fwrite_le _ _ := le_rfl
  fflush := true

def services_with (bpam : BpamServices) : DataSetServices where
  exists_dsn := true
  attrs := {}
  file := all_work
  bpam

def services_work : DataSetServices := services_with bpam_works

/-- A library that knows no codepage. -/
def no_iconv : IconvOpen Unit := fun _ _ => none

/-- A data set that holds just its bytes. -/
def plain : Library Bytes where
  read_text := id
  read_binary := id
  read_records _ _ := []
  write_text _ := id
  write_binary := id
  stow := List.flatten

theorem read_bytes_plain (bytes : Bytes) : read_bytes cs plain {} opts bytes = bytes := by
  rw [read_bytes, reads_records, file_bytes]
  have hasa : DscbAttributes.is_asa cs {} = false := rfl
  rw [hasa, Bool.false_and, if_neg Bool.false_ne_true]
  split_ifs <;> rfl

/-! Members. -/

/-- The lines of a member, from either source. -/
def source_lines (cs : Charset) (s : LineSetup) (write : List Bytes → Bool) : Source → Written
  | .buffered data => write_member_lines cs s write data
  | .streamed chunks => write_member_lines_streamed cs s write chunks

/-- A write of a member fails to open it, or a pipe, or a converter, or comes to its lines. -/
theorem member_cases (cs : Charset) (iconv_open : IconvOpen Shift) (sv : BpamServices) (zds : ZDS)
    (source : Source) :
    zds_open_output_bpam sv = .error (write_member cs iconv_open sv zds source) ∨
    write_member cs iconv_open sv zds source = close_with sv opened [] .no_pipe ∨
    iconv_valid cs iconv_open zds.encoding_opts = false ∧
      write_member cs iconv_open sv zds source = close_with sv opened [] .no_converter ∨
    iconv_valid cs iconv_open zds.encoding_opts = true ∧
      write_member cs iconv_open sv zds source =
        end_of_lines sv opened
          (source_lines cs (line_setup sv cs iconv_open zds.encoding_opts) sv.write source) := by
  cases source with
  | buffered data =>
    rw [write_member, zds_write_member_bpam]
    rcases hopen : zds_open_output_bpam sv with run | ioc
    · exact .inl rfl
    obtain rfl := open_ok hopen
    dsimp only
    by_cases hvalid : (!iconv_valid cs iconv_open zds.encoding_opts) = true
    · rw [if_pos hvalid]
      exact .inr (.inr (.inl ⟨by simpa using hvalid, rfl⟩))
    · rw [if_neg hvalid]
      exact .inr (.inr (.inr ⟨by simpa using hvalid, rfl⟩))
  | streamed chunks =>
    rw [write_member, zds_write_member_bpam_streamed]
    rcases hopen : zds_open_output_bpam sv with run | ioc
    · exact .inl rfl
    obtain rfl := open_ok hopen
    dsimp only
    by_cases hpipe : (!sv.open_pipe || !sv.fdopen) = true
    · rw [if_pos hpipe]
      exact .inr (.inl rfl)
    rw [if_neg hpipe]
    by_cases hvalid : (!iconv_valid cs iconv_open zds.encoding_opts) = true
    · rw [if_pos hvalid]
      exact .inr (.inr (.inl ⟨by simpa using hvalid, rfl⟩))
    · rw [if_neg hvalid]
      exact .inr (.inr (.inr ⟨by simpa using hvalid, rfl⟩))

/-- A write of a member that is opened, and its pipe as well. -/
theorem member_opened (cs : Charset) (iconv_open : IconvOpen Shift) {sv : BpamServices} (zds : ZDS)
    (source : Source) (hopen : zds_open_output_bpam sv = .ok opened)
    (hpipe : (!sv.open_pipe || !sv.fdopen) = false) :
    write_member cs iconv_open sv zds source =
      if !iconv_valid cs iconv_open zds.encoding_opts then close_with sv opened [] .no_converter
      else end_of_lines sv opened
        (source_lines cs (line_setup sv cs iconv_open zds.encoding_opts) sv.write source) := by
  cases source with
  | buffered data =>
    rw [write_member, zds_write_member_bpam, hopen]
    rfl
  | streamed chunks =>
    rw [write_member, zds_write_member_bpam_streamed, hopen]
    dsimp only
    rw [if_neg (by simp [hpipe])]
    rfl

/-- How the lines of either source can end. -/
theorem exits_source (ends : Exit → Prop) {s : LineSetup} {source : Source}
    (write : List Bytes → Bool) (hfinished : ∀ t, ends (.finished t)) (hwrite : ends .write_failed)
    (hencode : ∀ line ∈ kept_lines cs s source.decoded.1 ++
        if source.decoded.2.isNone then (kept_last cs s source.decoded.1).toList else [],
      encoded s line = none → ends .encode_failed)
    (hthrew : ∀ e, source.decoded.2 = some e → ends (.threw e)) :
    ends (source_lines cs s write source).exit := by
  cases source with
  | buffered data => exact exits_at_once write hfinished hwrite hencode
  | streamed chunks => exact exits_streamed write rfl hfinished hwrite hencode hthrew

/-- The name of a member of a data set without a name. -/
def member_name (cs : Charset) : Bytes := cs.str "()"

theorem member_name_has_member (cs : Charset) : zds_has_member cs (member_name cs) = true := by
  have hne : (cs.code '(' == cs.code ')') = false := by
    rw [cs.code_beq (by decide +kernel) (by decide +kernel)]
    decide
  have hname : member_name cs = [cs.code '(', cs.code ')'] := rfl
  rw [zds_has_member, hname]
  simp [List.idxOf_cons, hne]

/-- With every service at work, nothing but its e-tag refuses a write. -/
theorem services_check (cs : Charset) (iconv_open : IconvOpen Shift) (lib : Library Contents)
    (sv : BpamServices) (opts : ZDSWriteOpts) (before : Contents) :
    write_refused cs iconv_open lib (services_with sv) opts before =
      validate_etag_if_present cs iconv_open lib true {} opts.zds before := by
  have hrecfm (include_standard : Bool) :
      ¬ zds_write_recfm_unsupported cs [] include_standard = true := by
    cases include_standard <;> simp [zds_write_recfm_unsupported, Charset.str]
  have hexists : ¬ (!(services_with sv).exists_dsn) = true := Bool.false_ne_true
  have haccepted : (services_with sv).attrs.recfm = [] := rfl
  rw [write_refused, if_neg hexists, haccepted, if_neg (hrecfm _)]
  rfl

theorem services_accept (cs : Charset) (iconv_open : IconvOpen Shift) (lib : Library Contents)
    (sv : BpamServices) {opts : ZDSWriteOpts} (before : Contents) (h : opts.zds.etag = []) :
    write_refused cs iconv_open lib (services_with sv) opts before = none := by
  rw [services_check, validate_etag_if_present, h, if_neg (by simp)]

/-- A write of a member that fails before the close is all that is left of a write. -/
theorem member_write_fails (cs : Charset) (iconv_open : IconvOpen Shift) (sv : BpamServices)
    {zds : ZDS} (source : Source) (before : Bytes) {e : MemberError} (hetag : zds.etag = [])
    (h : (write_member cs iconv_open sv zds source).result = .error e) (he : e ≠ .close_failed) :
    zds_write cs iconv_open plain (services_with sv)
        { zds, dsname := member_name cs } source before =
      { contents := (write_member cs iconv_open sv zds source).contents plain before
        log := (write_member cs iconv_open sv zds source).log
        result := .error (.member e)
        etag := [] } := by
  have hcontents : write_contents cs iconv_open plain (services_with sv)
        { zds, dsname := member_name cs } source before =
      { contents := (write_member cs iconv_open sv zds source).contents plain before
        log := (write_member cs iconv_open sv zds source).log
        result := .error (.member e)
        etag := [] } := by
    rw [write_contents, if_pos (member_name_has_member cs)]
    dsimp only
    rw [show (services_with sv).bpam = sv from rfl, h, hetag]
    rfl
  have hfailure : is_failure (services_with sv)
      (.error (.member e) : Except WriteError TruncationTracker) = true := by
    rw [is_failure]
    · intro hclose
      exact he (WriteError.member.inj hclose)
  rw [zds_write, if_neg (fun hnone => List.cons_ne_nil _ _ hnone.1), if_neg (by simp),
    services_accept cs iconv_open plain sv before hetag]
  dsimp only
  rw [hcontents]
  dsimp only
  rw [if_pos hfailure]

end Zowex.zds

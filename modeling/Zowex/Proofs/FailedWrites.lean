import Zowex.Proofs.DataSets
import Zowex.Spec.FailedWrites

/-! A write that fails for its data has changed its target in nearly every case: the target is
opened, and so emptied, before the data is looked at, and a member is closed with a STOW. -/

namespace Zowex

open zds zusf

variable {Shift : Type} {cs : Charset} {iconv_open : IconvOpen Shift}

/-! The loop over the chunks of a file. -/

/-- A write of chunks up to its end. -/
def chunk_run (sv : FileServices) (tracks : Bool) (max_len : ℤ) (newline_char : UInt8)
    (e_msg : Bool) (chunks : List Bytes) (st : WriteState Shift) : FileRun :=
  match write_chunks sv tracks max_len newline_char chunks st with
  | .error run => run
  | .ok st => finish_write sv max_len e_msg st

/-- No error of this run is one for its data. -/
def Unrelated (run : FileRun) : Prop :=
  ∀ e, run.result = .error e → e.is_conversion = false

theorem Unrelated.error {stored : Option Bytes} {e : WriteError} (h : e.is_conversion = false) :
    Unrelated ⟨stored, .error e⟩ := by
  intro e' he
  rw [← Except.error.inj he]
  exact h

theorem Unrelated.ok {stored : Option Bytes} {t : TruncationTracker} :
    Unrelated ⟨stored, .ok t⟩ := fun _ h => by cases h

theorem unrelated_finish {sv : FileServices} {max_len : ℤ} {e_msg : Bool} {st : WriteState Shift}
    (h : flush_encoding_state st.conversion e_msg ≠ none) :
    Unrelated (finish_write sv max_len e_msg st) := by
  obtain ⟨flush_buffer, hflush⟩ := Option.ne_none_iff_exists'.mp h
  rw [finish_write, hflush]
  dsimp only
  split_ifs
  · exact .error rfl
  · exact .ok
  · exact .error rfl
  · exact .ok

/-- A short write is one of something. -/
theorem ne_nil_of_short {sv : FileServices} {st : WriteState Shift} {chunk : Bytes}
    (h : (st.write sv chunk).write_failed = true) (hbefore : st.write_failed = false) :
    chunk ≠ [] := by
  rintro rfl
  have hzero := sv.fwrite_le st.stored []
  rw [WriteState.write] at h
  dsimp only at h
  rw [hbefore, Bool.false_or, decide_eq_true_eq] at h
  exact h (Nat.le_zero.mp hzero)

/-- One round of the loop: what is tracked of the lines has no part in it. -/
theorem write_chunks_cons (tracks : Bool) (max_len : ℤ) (newline_char : UInt8)
    {chunk decoded out : Bytes} {left_over : Option Bytes} {conversion : Conversion Shift}
    {st : WriteState Shift} (chunks : List Bytes)
    (hdecode : zbase64.decode_stream chunk st.left_over = (.ok decoded, left_over))
    (hencode : encode_chunk_if_needed st.conversion decoded = some (out, conversion)) :
    ∃ st' : WriteState Shift, st'.conversion = conversion ∧ st'.left_over = left_over ∧
      st'.stored = st.stored ∧ st'.write_failed = st.write_failed ∧
      ∀ sv : FileServices, write_chunks sv tracks max_len newline_char (chunk :: chunks) st =
        if (st'.write sv out).write_failed then .ok (st'.write sv out)
        else write_chunks sv tracks max_len newline_char chunks (st'.write sv out) := by
  cases tracks with
  | true =>
    refine ⟨{ st with
      conversion, left_over
      tracked := (Lines.complete newline_char (st.line_buffer ++ out)).foldl
        (measure_line max_len) st.tracked
      line_buffer := Lines.unfinished newline_char (st.line_buffer ++ out) },
      rfl, rfl, rfl, rfl, fun sv => ?_⟩
    rw [write_chunks, hdecode]
    dsimp only
    rw [hencode]
    rfl
  | false =>
    refine ⟨{ st with conversion, left_over }, rfl, rfl, rfl, rfl, fun sv => ?_⟩
    rw [write_chunks, hdecode]
    dsimp only
    rw [hencode]
    rfl

theorem unrelated_chunks (sv : FileServices) (tracks : Bool) (max_len : ℤ) (newline_char : UInt8)
    {e_msg : Bool} {chunks : List Bytes} (st : WriteState Shift)
    (h : StreamConverts e_msg st.conversion st.left_over chunks) (hst : st.write_failed = false) :
    Unrelated (chunk_run sv tracks max_len newline_char e_msg chunks st) := by
  induction chunks generalizing st with
  | nil => exact unrelated_finish h
  | cons chunk chunks ih =>
    revert h
    rw [StreamConverts]
    rcases hdecode : zbase64.decode_stream chunk st.left_over with ⟨e | decoded, left_over⟩
    · exact False.elim
    dsimp only
    rcases hencode : encode_chunk_if_needed st.conversion decoded with _ | ⟨out, conversion⟩
    · exact False.elim
    rintro ⟨hflush, hrest⟩
    obtain ⟨st', rfl, rfl, -, hfailed, hround⟩ :=
      write_chunks_cons tracks max_len newline_char chunks hdecode hencode
    rw [hst] at hfailed
    rw [chunk_run, hround]
    by_cases hshort : (st'.write sv out).write_failed = true
    · rw [if_pos hshort]
      exact unrelated_finish (hflush (ne_nil_of_short hshort hfailed))
    · rw [if_neg hshort]
      exact ih _ hrest (Bool.eq_false_iff.mpr hshort)

/-! A run that comes to the failure. -/

/-- Every call does its work, but a write from some length on. -/
def short_from (n : ℕ) : FileServices where
  fopen_write := true
  fopen_read := true
  open_pipe := true
  fdopen := true
  fwrite stored bytes := if stored.length < n then bytes.length else 0
  fwrite_le stored bytes := by
    split_ifs
    · exact le_rfl
    · exact Nat.zero_le _
  fflush := true

/-- The run ends with an error for its data, after something was opened. -/
def FailsForData (run : FileRun) : Prop :=
  ∃ stored e, run = ⟨some stored, .error e⟩ ∧ e.is_conversion = true

theorem fails_finish {sv : FileServices} {max_len : ℤ} {e_msg : Bool} {st : WriteState Shift}
    (h : flush_encoding_state st.conversion e_msg = none) :
    FailsForData (finish_write sv max_len e_msg st) := by
  rw [finish_write, h]
  exact ⟨_, _, rfl, rfl⟩

/-- Below the length everything is taken, and nothing is always taken. -/
theorem write_in_full {n : ℕ} {st : WriteState Shift} {out : Bytes}
    (h : (st.stored ++ out).length ≤ n) (hst : st.write_failed = false) :
    st.write (short_from n) out =
      { st with stored := st.stored ++ out, write_failed := false } := by
  have hfull : (short_from n).fwrite st.stored out = out.length := by
    rcases out with _ | ⟨byte, out⟩
    · exact Nat.le_zero.mp ((short_from n).fwrite_le _ _)
    · refine if_pos ?_
      rw [List.length_append, List.length_cons] at h
      omega
  rw [WriteState.write, hfull, hst, List.take_length]
  simp

theorem write_short {st : WriteState Shift} {out : Bytes} (h : out ≠ []) :
    (st.write (short_from st.stored.length) out).write_failed = true := by
  have hnone : (short_from st.stored.length).fwrite st.stored out = 0 := if_neg (lt_irrefl _)
  have hlength := List.length_pos_iff.mpr h
  rw [WriteState.write, hnone]
  dsimp only
  rw [Bool.or_eq_true, decide_eq_true_eq]
  exact .inr hlength.ne

/-- Where the data does not convert, writes that are short from the right length on come to it. -/
theorem fails_chunks (tracks : Bool) (max_len : ℤ) (newline_char : UInt8) {e_msg : Bool}
    {chunks : List Bytes} (st : WriteState Shift)
    (h : ¬ StreamConverts e_msg st.conversion st.left_over chunks)
    (hst : st.write_failed = false) :
    ∃ n, st.stored.length ≤ n ∧
      FailsForData (chunk_run (short_from n) tracks max_len newline_char e_msg chunks st) := by
  induction chunks generalizing st with
  | nil =>
    rw [StreamConverts, not_not] at h
    exact ⟨_, le_rfl, fails_finish h⟩
  | cons chunk chunks ih =>
    revert h
    rw [StreamConverts]
    rcases hdecode : zbase64.decode_stream chunk st.left_over with ⟨e | decoded, left_over⟩
    · refine fun _ => ⟨_, le_rfl, ?_⟩
      rw [chunk_run, write_chunks, hdecode]
      exact ⟨_, _, rfl, rfl⟩
    dsimp only
    rcases hencode : encode_chunk_if_needed st.conversion decoded with _ | ⟨out, conversion⟩
    · refine fun _ => ⟨_, le_rfl, ?_⟩
      rw [chunk_run, write_chunks, hdecode]
      dsimp only
      rw [hencode]
      exact ⟨_, _, rfl, rfl⟩
    intro h
    obtain ⟨st', rfl, rfl, hstored, hfailed, hround⟩ :=
      write_chunks_cons tracks max_len newline_char chunks hdecode hencode
    rw [hst] at hfailed
    by_cases hflush : out ≠ [] → flush_encoding_state st'.conversion e_msg ≠ none
    · obtain ⟨n, hn, hfails⟩ := ih
        { st' with stored := st'.stored ++ out, write_failed := false }
        (fun hrest => h ⟨hflush, hrest⟩) rfl
      have hlength : st'.stored.length ≤ n :=
        (List.length_append ▸ Nat.le_add_right _ _).trans hn
      refine ⟨n, hstored ▸ hlength, ?_⟩
      rw [chunk_run, hround, write_in_full hn hfailed, if_neg Bool.false_ne_true]
      exact hfails
    · rw [Classical.not_imp, not_not] at hflush
      refine ⟨st'.stored.length, hstored ▸ le_rfl, ?_⟩
      rw [chunk_run, hround, if_pos (write_short hflush.1)]
      exact fails_finish hflush.2

/-! Data sets. -/

variable {opts : ZEncode} {e_msg : Bool} {source : Source}

theorem sequential_unrelated (sv : FileServices) (attrs : DscbAttributes) {zds : ZDS}
    (h : ConversionSafe cs iconv_open opts e_msg source .sequential)
    (hopts : zds.encoding_opts = opts) (hmsg : zds.e_msg = e_msg) :
    Unrelated (write_file cs iconv_open sv attrs zds source) := by
  subst hopts hmsg
  cases source with
  | buffered data =>
    rw [write_file, zds_write_sequential]
    dsimp only
    by_cases hopened : (!sv.fopen_write) = true
    · rw [if_pos hopened]
      exact .error rfl
    rw [if_neg hopened]
    by_cases hempty : data = []
    · rw [if_pos hempty]
      exact .ok
    rw [if_neg hempty]
    have hsome : (if (setup_encoding cs iconv_open zds.encoding_opts).1.has_encoding = true then
        (zut_encode iconv_open data
          (setup_encoding cs iconv_open zds.encoding_opts).1.source_encoding
          (setup_encoding cs iconv_open zds.encoding_opts).1.codepage).output
      else some data) ≠ none := by
      by_cases huse : zds_use_codepage zds.encoding_opts = true
      · rw [setup_encoding_eq huse, if_pos rfl]
        exact h huse hempty
      · rw [if_neg (show ¬ (setup_encoding cs iconv_open zds.encoding_opts).1.has_encoding = true
          from huse)]
        exact Option.some_ne_none data
    obtain ⟨temp, htemp⟩ := Option.ne_none_iff_exists'.mp hsome
    rw [htemp]
    dsimp only
    by_cases hshort : sv.fwrite [] temp ≠ temp.length
    · rw [if_pos hshort]
      exact .error rfl
    · rw [if_neg hshort]
      exact .ok
  | streamed chunks =>
    obtain ⟨hvalid, hconverts⟩ := h
    rw [write_file, zds_write_sequential_streamed]
    dsimp only
    by_cases hopened : (!sv.fopen_write) = true
    · rw [if_pos hopened]
      exact .error rfl
    rw [if_neg hopened]
    by_cases hpipe : (!sv.open_pipe || !sv.fdopen) = true
    · rw [if_pos hpipe]
      exact .error rfl
    have hopen : ¬ (!validate_iconv_setup (setup_encoding cs iconv_open zds.encoding_opts).1
        ((setup_encoding cs iconv_open zds.encoding_opts).1.iconv_guard iconv_open)) = true := by
      rw [Bool.not_eq_true, Bool.not_eq_false']
      exact hvalid
    rw [if_neg hpipe, if_neg hopen]
    exact unrelated_chunks sv _ _ _ _ hconverts rfl

/-- Services with which the write fails for its data. -/
theorem sequential_fails (cs : Charset) (iconv_open : IconvOpen Shift)
    (h : ¬ ConversionSafe cs iconv_open opts e_msg source .sequential) :
    ∃ sv, FailsForData
      (write_file cs iconv_open sv {} { encoding_opts := opts, e_msg } source) := by
  cases source with
  | buffered data =>
    rw [ConversionSafe] at h
    push Not at h
    obtain ⟨huse, hempty, hnone⟩ := h
    refine ⟨all_work, ?_⟩
    have hopened : ¬ (!all_work.fopen_write) = true := by decide
    rw [write_file, zds_write_sequential, setup_encoding_eq huse]
    dsimp only
    rw [if_neg hopened, if_neg hempty, if_pos rfl, hnone]
    exact ⟨_, _, rfl, rfl⟩
  | streamed chunks =>
    rw [ConversionSafe, not_and_or] at h
    have hopened (n : ℕ) : ¬ (!(short_from n).fopen_write) = true := Bool.false_ne_true
    have hpipe (n : ℕ) : ¬ (!(short_from n).open_pipe || !(short_from n).fdopen) = true :=
      Bool.false_ne_true
    by_cases hvalid : iconv_valid cs iconv_open opts = true
    · have hconverts := h.resolve_left (not_not.mpr hvalid)
      have hopen : ¬ (!validate_iconv_setup (setup_encoding cs iconv_open opts).1
          ((setup_encoding cs iconv_open opts).1.iconv_guard iconv_open)) = true := by
        rw [Bool.not_eq_true, Bool.not_eq_false']
        exact hvalid
      obtain ⟨n, -, hfails⟩ := fails_chunks (tracks_lines {} opts)
        (DscbAttributes.effective_lrecl cs {}) (setup_encoding cs iconv_open opts).1.newline_char
        { conversion := .start ((setup_encoding cs iconv_open opts).1.iconv_guard iconv_open) }
        hconverts rfl
      refine ⟨short_from n, ?_⟩
      rw [write_file, zds_write_sequential_streamed]
      dsimp only
      rw [if_neg (hopened n), if_neg (hpipe n), if_neg hopen]
      exact hfails
    · have hclosed : (!validate_iconv_setup (setup_encoding cs iconv_open opts).1
          ((setup_encoding cs iconv_open opts).1.iconv_guard iconv_open)) = true := by
        rw [Bool.not_eq_eq_eq_not, Bool.not_true]
        exact Bool.eq_false_iff.mpr hvalid
      refine ⟨short_from 0, ?_⟩
      rw [write_file, zds_write_sequential_streamed]
      dsimp only
      rw [if_neg (hopened 0), if_neg (hpipe 0), if_pos hclosed]
      exact ⟨_, _, rfl, rfl⟩

/-! Files. -/

/-- No error of this run that comes from its write is one for its data, unless nothing was
written. -/
def UssUnrelated (run : UssRun) : Prop :=
  ∀ e, run.result = .error (.write e) → e.is_conversion = true → run.stored = none

theorem UssUnrelated.error {stored : Option Bytes} {e : UssError}
    (h : ∀ e', e = .write e' → e'.is_conversion = false) : UssUnrelated ⟨stored, .error e⟩ := by
  intro e' he hconversion
  rw [h e' (Except.error.inj he)] at hconversion
  cases hconversion

theorem UssUnrelated.unwritten {result : Except UssError Bytes} : UssUnrelated ⟨none, result⟩ :=
  fun _ _ _ => rfl

theorem uss_unrelated_new_etag (sv : UssServices) (stored : Bytes) :
    UssUnrelated (new_etag cs sv stored) := by
  rw [new_etag]
  rcases sv.stat_after with _ | ⟨mtime, byte_size⟩
  · exact .error fun e' he => by cases he
  · intro e he
    cases he

/-- A run of the loop, up to the e-tag. -/
theorem uss_unrelated_run (sv : UssServices) {run : FileRun} (h : Unrelated run) :
    UssUnrelated (match run.result with
      | .error e => ⟨run.stored, .error (.write e)⟩
      | .ok _ => new_etag cs sv (run.stored.getD [])) := by
  rcases hresult : run.result with e | t
  · refine .error fun e' he => ?_
    rw [← UssError.write.inj he]
    exact h e hresult
  · exact uss_unrelated_new_etag sv _

theorem uss_unrelated {ccsid : ℤ} {sv : UssServices} {file : ZUSF}
    (h : ConversionSafe cs iconv_open opts e_msg source (.file ccsid))
    (hccsid : sv.ccsid = ccsid) (hopts : file.encoding_opts = opts) (hmsg : file.e_msg = e_msg) :
    UssUnrelated (write_uss cs iconv_open sv file source) := by
  subst hccsid hopts hmsg
  cases source with
  | buffered data =>
    rw [write_uss, zusf_write_to_uss_file]
    rcases zusf.write_refused cs sv file with _ | e
    · dsimp only
      split
      · exact .unwritten
      rename_i temp _
      by_cases hopened : (!sv.file.fopen_write) = true
      · rw [if_pos hopened]
        exact .unwritten
      rw [if_neg hopened]
      by_cases hshort : temp ≠ [] ∧ sv.file.fwrite [] temp ≠ temp.length
      · rw [if_pos hshort]
        exact .error fun e he => by rw [← UssError.write.inj he]; rfl
      · rw [if_neg hshort]
        exact uss_unrelated_new_etag sv temp
    · exact .unwritten
  | streamed chunks =>
    obtain ⟨hvalid, hconverts⟩ := h
    rw [write_uss, zusf_write_to_uss_file_streamed]
    rcases zusf.write_refused cs sv file with _ | e
    · dsimp only
      by_cases hopened : (!sv.file.fopen_write) = true
      · rw [if_pos hopened]
        exact .unwritten
      rw [if_neg hopened]
      by_cases hpipe : (!sv.file.open_pipe || !sv.file.fdopen) = true
      · rw [if_pos hpipe]
        exact .error fun e he => by rw [← UssError.write.inj he]; rfl
      have hopen : ¬ ((encoding_to_use cs file.encoding_opts sv.ccsid).isSome &&
          (write_guard cs iconv_open file.encoding_opts sv.ccsid).isNone) = true := by
        rw [Bool.and_eq_true, not_and, Option.isNone_iff_eq_none, ← Option.not_isSome_iff_eq_none,
          not_not]
        exact hvalid
      rw [if_neg hpipe, if_neg hopen]
      exact uss_unrelated_run sv (unrelated_chunks sv.file false 0 0 _ hconverts rfl)
    · exact .unwritten

theorem uss_fails (cs : Charset) (iconv_open : IconvOpen Shift) {ccsid : ℤ}
    (h : ¬ ConversionSafe cs iconv_open opts e_msg source (.file ccsid)) :
    ∃ sv stored e, sv.ccsid = ccsid ∧
      write_uss cs iconv_open sv { encoding_opts := opts, e_msg } source =
        ⟨some stored, .error (.write e)⟩ ∧ e.is_conversion = true := by
  cases source with
  | buffered data => exact absurd trivial h
  | streamed chunks =>
    rw [ConversionSafe, not_and_or] at h
    let sv (n : ℕ) : UssServices := ⟨short_from n, .missing, ccsid, none⟩
    have hrefused (n : ℕ) : zusf.write_refused cs (sv n) { encoding_opts := opts, e_msg } = none :=
      rfl
    have hopened (n : ℕ) : ¬ (!(sv n).file.fopen_write) = true := Bool.false_ne_true
    have hpipe (n : ℕ) : ¬ (!(sv n).file.open_pipe || !(sv n).file.fdopen) = true :=
      Bool.false_ne_true
    by_cases hvalid : (encoding_to_use cs opts ccsid).isSome = true →
        (write_guard cs iconv_open opts ccsid).isSome = true
    · have hopen : ¬ ((encoding_to_use cs opts ccsid).isSome &&
          (write_guard cs iconv_open opts ccsid).isNone) = true := by
        rw [Bool.and_eq_true, not_and, Option.isNone_iff_eq_none, ← Option.not_isSome_iff_eq_none,
          not_not]
        exact hvalid
      obtain ⟨n, -, stored, e, hrun, he⟩ := fails_chunks false 0 0
        { conversion := .start (write_guard cs iconv_open opts ccsid) }
        (h.resolve_left (not_not.mpr hvalid)) rfl
      refine ⟨sv n, stored, e, rfl, ?_, he⟩
      rw [write_uss, zusf_write_to_uss_file_streamed, hrefused n]
      dsimp only
      rw [if_neg (hopened n), if_neg (hpipe n), if_neg hopen]
      have hend (run : FileRun) (h : run = ⟨some stored, .error e⟩) :
          (match run.result with
            | .error e => (⟨run.stored, .error (.write e)⟩ : UssRun)
            | .ok _ => new_etag cs (sv n) (run.stored.getD [])) =
            ⟨some stored, .error (.write e)⟩ := by
        rw [h]
      exact hend _ hrun
    · have hclosed : ((encoding_to_use cs opts ccsid).isSome &&
          (write_guard cs iconv_open opts ccsid).isNone) = true := by
        rw [Classical.not_imp, Option.not_isSome_iff_eq_none, ← Option.isNone_iff_eq_none] at hvalid
        rw [Bool.and_eq_true]
        exact hvalid
      refine ⟨sv 0, [], .no_converter, rfl, ?_, rfl⟩
      rw [write_uss, zusf_write_to_uss_file_streamed, hrefused 0]
      dsimp only
      rw [if_neg (hopened 0), if_neg (hpipe 0), if_pos hclosed]

/-! Members. -/

theorem kept_lines_congr (s s' : LineSetup) (hasa : s.is_asa = s'.is_asa)
    (hnewline : s.newline_char = s'.newline_char) (data : Bytes) :
    kept_lines cs s data = kept_lines cs s' data ∧ kept_last cs s data = kept_last cs s' data := by
  obtain ⟨newline_char, is_asa, max_len, encode⟩ := s
  obtain ⟨newline_char', is_asa', max_len', encode'⟩ := s'
  obtain rfl : is_asa = is_asa' := hasa
  obtain rfl : newline_char = newline_char' := hnewline
  have hlines (asa_state : AsaStreamState) (raw : List Bytes) :
      keep_lines cs ⟨newline_char, is_asa, max_len, encode⟩ asa_state raw =
        keep_lines cs ⟨newline_char, is_asa, max_len', encode'⟩ asa_state raw := by
    induction raw generalizing asa_state with
    | nil => rfl
    | cons line raw ih =>
      rw [keep_lines_cons, keep_lines_cons, ← ih]
      rfl
  constructor
  · rw [kept_lines, hlines]
    rfl
  · rw [kept_last, kept_last, hlines]
    rfl

/-- The lines of a member are the same whatever the attributes that have no part in it. -/
theorem lines_encode_iff (sv : BpamServices) (data : Bytes) (complete : Bool) :
    LinesEncode cs (member_lines cs iconv_open opts sv.dcbrecca) data complete ↔
      LinesEncode cs (line_setup sv cs iconv_open opts) data complete := by
  obtain ⟨hlines, hlast⟩ := @kept_lines_congr cs
    (member_lines cs iconv_open opts sv.dcbrecca) (line_setup sv cs iconv_open opts) rfl rfl data
  rw [LinesEncode, LinesEncode, hlines, hlast]
  rfl

theorem member_safe_iff :
    ConversionSafe cs iconv_open opts e_msg source .member ↔
      MemberEncodes cs iconv_open opts source.decoded.1 source.decoded.2.isNone := by
  cases source <;> rfl

theorem member_unrelated {Contents : Type} {lib : Library Contents} {sv : BpamServices} {zds : ZDS}
    {e : MemberError} {before : Contents}
    (h : MemberEncodes cs iconv_open opts source.decoded.1 source.decoded.2.isNone)
    (hopts : zds.encoding_opts = opts)
    (hresult : (write_member cs iconv_open sv zds source).result = .error e)
    (he : (WriteError.member e).is_conversion = true) :
    (write_member cs iconv_open sv zds source).contents lib before = before := by
  subst hopts
  obtain ⟨hvalid, hencode⟩ := h
  rcases member_cases cs iconv_open sv zds source with hopen | hpipe | ⟨hinvalid, -⟩ | ⟨-, hlines⟩
  · rcases open_error hopen with herror | herror
    · rw [herror] at hresult
      rw [← Except.error.inj hresult] at he
      cases he
    · rw [herror] at hresult
      rw [← Except.error.inj hresult] at he
      cases he
  · rw [hpipe] at hresult
    rw [← Except.error.inj hresult] at he
    cases he
  · rw [hinvalid] at hvalid
    cases hvalid
  rw [hlines] at hresult ⊢
  have hexit := exits_source (· ≠ .encode_failed) sv.write (fun t => Exit.noConfusion)
    Exit.noConfusion (fun line hline hnone => absurd (encoded_eq_none.mp hnone)
      ((lines_encode_iff sv _ _).mp (hencode sv.dcbrecca) line hline)) fun e _ => Exit.noConfusion
  revert hresult
  rw [end_of_lines]
  rcases hend : (source_lines cs (line_setup sv cs iconv_open zds.encoding_opts) sv.write
    source).exit with t | _ | _ | e'
  · intro hresult
    dsimp only at hresult
    split_ifs at hresult
    rw [← Except.error.inj hresult] at he
    cases he
  · intro hresult
    rw [← Except.error.inj hresult] at he
    cases he
  · exact absurd hend hexit
  · exact fun _ => rfl

/-- Every service does its work, for a data set with control characters or without. -/
def works_with (is_asa : Bool) : BpamServices := { bpam_works with dcbrecca := is_asa }

theorem close_works (is_asa : Bool) (handed : List Bytes) (e : MemberError) :
    (close_with (works_with is_asa) opened handed e).stored = some handed ∧
      (close_with (works_with is_asa) opened handed e).result = .error e := by
  exact ⟨rfl, rfl⟩

/-- Where a line that a newline ends is not encoded, no later chunk counts. -/
theorem streamed_fails {s : LineSetup} {chunks : List Bytes} {before after : List PreparedLine}
    {line : PreparedLine} {outs : List EncodedLine}
    (hlines : kept_lines cs s (decoded_data chunks (some [])).1 = before ++ line :: after)
    (h : before.mapM (encoded s) = some outs) (hline : encoded s line = none) :
    (write_member_lines_streamed cs s (fun _ => true) chunks).exit = .encode_failed := by
  have hkept : (keep_lines cs s ({} : StreamState).state.asa_state (Lines.complete s.newline_char
      (decoded_data chunks (some [])).1)).1 = before ++ line :: after := hlines
  rw [write_member_lines_streamed, stream_chunks_eq chunks (some []) {} (Lines.complete_nil _)
    (Lines.unfinished_nil _)]
  dsimp only
  rw [List.nil_append, stream_fold, hkept, kept_fold_fails _ h hline, hand_out, write_lines_all]
  rfl

theorem source_fails {s : LineSetup}
    (h : ¬ LinesEncode cs s source.decoded.1 source.decoded.2.isNone) :
    (source_lines cs s (fun _ => true) source).exit = .encode_failed := by
  cases source with
  | buffered data =>
    rcases hmap : (all_lines cs s data).mapM (encoded s) with _ | outs
    · rw [source_lines, written_none hmap]
    · exact absurd (encodes_of_mapM hmap) h
  | streamed chunks =>
    rcases Traversals.mapM_cases (encoded s) (kept_lines cs s (decoded_data chunks (some [])).1) with
      ⟨outs, houts⟩ | ⟨before, line, after, outs, hlines, houts, hline⟩
    · rcases hdata : decoded_data chunks (some []) with ⟨data, _ | e⟩
      · rw [hdata] at houts
        rw [Source.decoded, hdata, LinesEncode, Option.isNone_none, if_pos rfl] at h
        rcases hlast : kept_last cs s data with _ | line
        · rw [hlast, Option.toList_none, List.append_nil] at h
          exact absurd (encodes_of_mapM houts) h
        rcases hline : encoded s line with _ | out
        · rw [source_lines, streamed_of_decoded hdata, stream_last_fails hlast houts hline,
            hand_out, write_lines_all]
          rfl
        · refine absurd (fun line' hmem => ?_) h
          rw [hlast, Option.toList_some, List.mem_append, List.mem_singleton] at hmem
          rcases hmem with hmem | rfl
          · exact encodes_of_mapM houts line' hmem
          · rw [Ne, ← encoded_eq_none, hline]
            exact Option.some_ne_none out
      · rw [hdata] at houts
        rw [Source.decoded, hdata, LinesEncode, Option.isNone_some, if_neg Bool.false_ne_true,
          List.append_nil] at h
        exact absurd (encodes_of_mapM houts) h
    · exact streamed_fails hlines houts hline

theorem member_fails (cs : Charset) (iconv_open : IconvOpen Shift) (zds : ZDS)
    (h : ¬ MemberEncodes cs iconv_open zds.encoding_opts source.decoded.1
      source.decoded.2.isNone) :
    ∃ sv e stored, (write_member cs iconv_open sv zds source).stored = some stored ∧
      (write_member cs iconv_open sv zds source).result = .error e ∧
      e ≠ .close_failed ∧ (WriteError.member e).is_conversion = true := by
  have hopen (is_asa : Bool) : zds_open_output_bpam (works_with is_asa) = .ok opened := by
    cases is_asa <;> rfl
  by_cases hvalid : iconv_valid cs iconv_open zds.encoding_opts = true
  · rw [MemberEncodes, not_and] at h
    obtain ⟨is_asa, hlines⟩ := not_forall.mp (h hvalid)
    rw [show is_asa = (works_with is_asa).dcbrecca from rfl, lines_encode_iff] at hlines
    have hexit : (source_lines cs (line_setup (works_with is_asa) cs iconv_open zds.encoding_opts)
        (works_with is_asa).write source).exit = .encode_failed := source_fails hlines
    have hrun : write_member cs iconv_open (works_with is_asa) zds source =
        close_with (works_with is_asa) opened (source_lines cs (line_setup (works_with is_asa) cs
          iconv_open zds.encoding_opts) (works_with is_asa).write source).handed
          .encode_failed := by
      rw [member_opened cs iconv_open zds source (hopen is_asa) rfl, hvalid, Bool.not_true,
        if_neg Bool.false_ne_true, end_of_lines, hexit]
      rfl
    obtain ⟨hstored, hresult⟩ := close_works is_asa (source_lines cs (line_setup
      (works_with is_asa) cs iconv_open zds.encoding_opts) (works_with is_asa).write source).handed
      .encode_failed
    exact ⟨works_with is_asa, .encode_failed, _, hrun ▸ hstored, hrun ▸ hresult,
      MemberError.noConfusion, rfl⟩
  · rw [Bool.not_eq_true] at hvalid
    have hrun : write_member cs iconv_open (works_with false) zds source =
        close_with (works_with false) opened [] .no_converter := by
      rw [member_opened cs iconv_open zds source (hopen false) rfl, hvalid, Bool.not_false,
        if_pos rfl]
    obtain ⟨hstored, hresult⟩ := close_works false [] .no_converter
    exact ⟨works_with false, .no_converter, [], hrun ▸ hstored, hrun ▸ hresult,
      MemberError.noConfusion, rfl⟩

/-! Whole writes. -/

/-- A write that fails for its data has not begun to write, or is one of a file or of the contents
of a data set. -/
theorem zds_write_fails {Contents : Type} {lib : Library Contents} {sv : DataSetServices}
    {write_opts : ZDSWriteOpts} {before : Contents} {e : WriteError}
    (h : (zds_write cs iconv_open lib sv write_opts source before).result = .error e)
    (he : e.is_conversion = true) :
    (zds_write cs iconv_open lib sv write_opts source before).contents = before ∨
    write_opts.ddname ≠ [] ∨
    write_opts.ddname = [] ∧
      (write_contents cs iconv_open lib sv write_opts source before).result = .error e ∧
      (zds_write cs iconv_open lib sv write_opts source before).contents =
        (write_contents cs iconv_open lib sv write_opts source before).contents := by
  by_cases hdd : write_opts.ddname ≠ []
  · exact .inr (.inl hdd)
  rw [not_not] at hdd
  revert h
  rw [zds_write]
  by_cases htarget : write_opts.dsname = [] ∧ write_opts.ddname = []
  · rw [if_pos htarget]
    exact fun _ => .inl rfl
  rw [if_neg htarget, if_neg (not_not.mpr hdd)]
  rcases zds.write_refused cs iconv_open lib sv write_opts before with _ | e'
  · dsimp only
    by_cases hfailure : is_failure sv
        (write_contents cs iconv_open lib sv write_opts source before).result = true
    · rw [if_pos hfailure]
      exact fun h => .inr (.inr ⟨hdd, h, rfl⟩)
    rw [if_neg hfailure, read_back]
    rcases zds_read cs iconv_open lib sv.file.fopen_read sv.attrs write_opts.zds.encoding_opts
      (write_contents cs iconv_open lib sv write_opts source before).contents with e' | contents
    · intro h
      rw [← Except.error.inj h] at he
      cases he
    · exact fun h => .inr (.inr ⟨hdd, h, rfl⟩)
  · exact fun _ => .inl rfl

/-- A write that fails for its data leaves everything as it is just when it cannot so fail, or has
not begun to store then. -/
theorem changes_nothing_iff (cs : Charset) (iconv_open : IconvOpen Shift) (opts : ZEncode)
    (e_msg : Bool) (source : Source) (target : Target) :
    ChangesNothing cs iconv_open opts e_msg source target ↔
      ConversionSafe cs iconv_open opts e_msg source target := by
  have hgrows (stored : Bytes) : stored ≠ stored ++ [0] := by simp
  cases target with
  | sequential =>
    constructor
    · intro h
      by_contra hspecial
      obtain ⟨sv, stored, e, hrun, he⟩ := sequential_fails cs iconv_open hspecial
      obtain ⟨hresult, hcontents⟩ := zds_write_dd cs iconv_open plain
        { services_work with file := sv }
        { zds := { encoding_opts := opts, e_msg }, ddname := [0] } source (stored ++ [0])
        (List.cons_ne_nil _ _)
      rw [show write_file cs iconv_open sv {} { encoding_opts := opts, e_msg } source = _ from hrun]
        at hresult hcontents
      have hbefore := h Bytes plain { services_work with file := sv }
        { zds := { encoding_opts := opts, e_msg }, ddname := [0] } (stored ++ [0]) e rfl rfl
        (fun hnone => absurd hnone (List.cons_ne_nil _ _)) hresult he
      rw [hcontents, FileRun.contents] at hbefore
      dsimp only [plain] at hbefore
      rw [ite_self] at hbefore
      exact hgrows stored hbefore
    · intro h Contents lib sv write_opts before e hopts hmsg hmember hresult he
      rcases zds_write_fails hresult he with hbefore | hdd | ⟨hdd, hcontents, -⟩
      · exact hbefore
      · rw [(zds_write_dd cs iconv_open lib sv write_opts source before hdd).1] at hresult
        rw [sequential_unrelated sv.file {} h hopts hmsg e hresult] at he
        cases he
      · rw [write_contents, hmember hdd, if_neg Bool.false_ne_true] at hcontents
        rw [sequential_unrelated sv.file sv.attrs h hopts hmsg e hcontents] at he
        cases he
  | member =>
    rw [member_safe_iff]
    constructor
    · intro h
      by_contra hspecial
      obtain ⟨sv, e, stored, hstored, hresult, hclose, he⟩ := member_fails cs iconv_open
        { encoding_opts := opts, e_msg } hspecial
      have hwrite := member_write_fails cs iconv_open sv source (stored.flatten ++ [0]) rfl hresult
        hclose
      have hbefore := h Bytes plain (services_with sv)
        { zds := { encoding_opts := opts, e_msg }, dsname := member_name cs }
        (stored.flatten ++ [0]) (.member e) rfl rfl rfl (member_name_has_member cs)
        (by rw [hwrite]) he
      rw [hwrite, MemberRun.contents, hstored] at hbefore
      exact hgrows stored.flatten hbefore
    · intro h Contents lib sv write_opts before e hopts hmsg hdd hmember hresult he
      rcases zds_write_fails hresult he with hbefore | hne | ⟨-, hrun, hcontents⟩
      · exact hbefore
      · exact absurd hdd hne
      · rw [hcontents]
        rw [write_contents, hmember, if_pos rfl] at hrun ⊢
        dsimp only at hrun ⊢
        rcases hmember_run : (write_member cs iconv_open sv.bpam write_opts.zds source).result with
          e' | t
        · rw [hmember_run] at hrun
          obtain rfl := Except.error.inj hrun
          exact member_unrelated h hopts hmember_run he
        · rw [hmember_run] at hrun
          cases hrun
  | file ccsid =>
    constructor
    · intro h
      by_contra hspecial
      obtain ⟨sv, stored, e, hccsid, hrun, he⟩ := uss_fails cs iconv_open hspecial
      have hbefore := h sv { encoding_opts := opts, e_msg } (stored ++ [0]) e hccsid rfl rfl
        (by rw [hrun]) he
      rw [hrun] at hbefore
      exact hgrows stored hbefore
    · intro h sv file before e hccsid hopts hmsg hresult he
      rw [UssRun.contents, uss_unrelated h hccsid hopts hmsg e hresult he]
      rfl

/-- A converter that takes no byte above 0x7F. -/
def seven_bit : IconvOpen Unit := fun _ _ => some
  { initial := ()
    convert := fun _ bytes => if bytes.all (· < 0x80) then some (bytes, ()) else none
    flush := fun _ => some [] }

/-- A byte that the converter does not take has the data set, the member or the file empty. -/
theorem unconvertible_empties :
    ¬ ChangesNothing ibm1047 seven_bit { codepage := [88] } false (.buffered [0xFF]) .sequential ∧
      ¬ ChangesNothing ibm1047 seven_bit { codepage := [88] } false (.buffered [0xFF]) .member ∧
      ¬ ChangesNothing ibm1047 seven_bit { codepage := [88] } false (.streamed [ibm1047.str "/w=="])
        (.file 0) := by
  refine ⟨fun h => ?_, fun h => ?_, fun h => ?_⟩
  · have hbefore := h Bytes plain services_work
      { zds := { encoding_opts := { codepage := [88] } }, ddname := [0] } [65] .not_converted rfl
      rfl (fun hnone => absurd hnone (List.cons_ne_nil _ _)) (by decide +kernel) rfl
    revert hbefore
    decide +kernel
  · have hbefore := h Bytes plain services_work
      { zds := { encoding_opts := { codepage := [88] } }, dsname := member_name ibm1047 } [65]
      (.member .encode_failed) rfl rfl rfl (member_name_has_member ibm1047) (by decide +kernel) rfl
    revert hbefore
    decide +kernel
  · have hbefore := h ⟨all_work, .found 0 1, 0, none⟩ { encoding_opts := { codepage := [88] } } [65]
      .not_converted rfl rfl rfl (by decide +kernel) rfl
    revert hbefore
    decide +kernel

end Zowex

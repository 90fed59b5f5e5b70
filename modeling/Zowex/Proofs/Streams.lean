import Zowex.Proofs.Base64Stream
import Zowex.Proofs.Conversions
import Zowex.Proofs.FailedWrites
import Zowex.Spec.Streams

/-! Streams: what a run of the loop over the chunks comes to, and a stream that ends within a group,
whose last characters are dropped. -/

namespace Zowex

open zds zusf

variable {Shift : Type} {cs : Charset} {iconv_open : IconvOpen Shift} {opts : ZEncode}
  {e_msg : Bool}

/-! What is decoded. -/

theorem encode_chunk_some {cd : Iconv Shift} {shift : Shift} {piece output : Bytes}
    {conversion : Conversion Shift}
    (h : encode_chunk_if_needed (some (cd, shift)) piece = some (output, conversion)) :
    ∃ next, cd.convert shift piece = some (output, next) ∧ conversion = some (cd, next) := by
  rw [encode_chunk_if_needed] at h
  dsimp only at h
  rw [zut_encode_with, zut_iconv] at h
  obtain ⟨⟨converted, next⟩, hiconv, h⟩ := Option.map_eq_some_iff.mp h
  obtain ⟨rfl, rfl⟩ := Prod.mk.inj h
  obtain ⟨⟨output, next'⟩, hconvert, hiconv⟩ := Option.bind_eq_some_iff.mp hiconv
  dsimp only at hiconv
  by_cases hlimit : output.length > piece.length * 4 + 16
  · rw [if_pos hlimit] at hiconv
    cases hiconv
  · rw [if_neg hlimit, if_pos (by rfl), Option.some_inj, Prod.mk.injEq] at hiconv
    obtain ⟨rfl, rfl⟩ := hiconv
    exact ⟨_, hconvert, rfl⟩

theorem encode_pieces_none (pieces : List Bytes) :
    encode_pieces e_msg (none : Conversion Shift) pieces = some pieces.flatten := by
  induction pieces with
  | nil => rfl
  | cons piece pieces ih =>
    rw [encode_pieces, List.flatten_cons]
    show (do
      let rest ← encode_pieces e_msg none pieces
      some (piece ++ rest)) = _
    rw [ih]
    rfl

/-! A run of the loop. -/

/-- A write that does not fail is one in full. -/
theorem write_not_failed {sv : FileServices} {st : WriteState Shift} {bytes : Bytes}
    (h : (st.write sv bytes).write_failed = false) :
    st.write sv bytes = { st with stored := st.stored ++ bytes, write_failed := false } := by
  revert h
  rw [WriteState.write]
  dsimp only
  rw [Bool.or_eq_false_iff, decide_eq_false_iff_not, not_not]
  rintro ⟨hbefore, hlength⟩
  rw [hlength, List.take_length, hbefore]
  simp

theorem finish_ok {sv : FileServices} {max_len : ℤ} {st : WriteState Shift}
    {t : TruncationTracker} (h : (finish_write sv max_len e_msg st).result = .ok t) :
    ∃ sequence, flush_encoding_state st.conversion e_msg = some sequence ∧
      (finish_write sv max_len e_msg st).stored = some (st.stored ++ sequence) ∧
      st.write_failed = false := by
  revert h
  rw [finish_write]
  rcases flush_encoding_state st.conversion e_msg with _ | sequence
  · intro h
    cases h
  dsimp only
  by_cases hsequence : sequence ≠ []
  · rw [if_pos hsequence]
    by_cases hfailed : ((st.write sv sequence).write_failed || !sv.fflush) = true
    · rw [if_pos hfailed]
      intro h
      cases h
    · rw [if_neg hfailed]
      rw [Bool.not_eq_true, Bool.or_eq_false_iff] at hfailed
      have hbefore : st.write_failed = false := by
        have := hfailed.1
        rw [WriteState.write, Bool.or_eq_false_iff] at this
        exact this.1
      rw [write_not_failed hfailed.1]
      exact fun _ => ⟨sequence, rfl, rfl, hbefore⟩
  · rw [if_neg hsequence]
    by_cases hfailed : (st.write_failed || !sv.fflush) = true
    · rw [if_pos hfailed]
      intro h
      cases h
    · rw [if_neg hfailed]
      rw [Bool.not_eq_true, Bool.or_eq_false_iff] at hfailed
      rw [not_not] at hsequence
      rw [hsequence]
      exact fun _ => ⟨[], rfl, by rw [List.append_nil], hfailed.1⟩

/-- A run that succeeds has decoded and converted every chunk. -/
theorem chunk_run_ok (sv : FileServices) (tracks : Bool) (max_len : ℤ) (newline_char : UInt8)
    {chunks : List Bytes} (st : WriteState Shift) {t : TruncationTracker}
    (h : (chunk_run sv tracks max_len newline_char e_msg chunks st).result = .ok t) :
    ∃ pieces left output, zbase64.decode_run chunks st.left_over = (.ok pieces, left) ∧
      encode_pieces e_msg st.conversion pieces = some output ∧
      (chunk_run sv tracks max_len newline_char e_msg chunks st).stored =
        some (st.stored ++ output) := by
  induction chunks generalizing st with
  | nil =>
    obtain ⟨sequence, hflush, hstored, -⟩ := finish_ok h
    exact ⟨[], st.left_over, sequence, rfl, hflush, hstored⟩
  | cons chunk chunks ih =>
    rcases hdecode : zbase64.decode_stream chunk st.left_over with ⟨e | decoded, left_over⟩
    · rw [chunk_run, write_chunks, hdecode] at h
      cases h
    rcases hencode : encode_chunk_if_needed st.conversion decoded with _ | ⟨out, conversion⟩
    · rw [chunk_run, write_chunks, hdecode] at h
      dsimp only at h
      rw [hencode] at h
      cases h
    obtain ⟨st', rfl, rfl, hstored, hfailed, hround⟩ :=
      write_chunks_cons tracks max_len newline_char chunks hdecode hencode
    rw [chunk_run, hround] at h ⊢
    by_cases hshort : (st'.write sv out).write_failed = true
    · rw [if_pos hshort] at h
      obtain ⟨-, -, -, hnot⟩ := finish_ok h
      rw [hshort] at hnot
      cases hnot
    · rw [if_neg hshort] at h ⊢
      have hwrite := write_not_failed (Bool.eq_false_iff.mpr hshort)
      obtain ⟨pieces, left, output, hrun, hpieces, hafter⟩ := ih _ h
      rw [hwrite] at hrun hpieces hafter
      refine ⟨decoded :: pieces, left, out ++ output, ?_, ?_, ?_⟩
      · rw [zbase64.decode_run, hdecode]
        dsimp only
        rw [hrun]
        rfl
      · rw [encode_pieces, hencode]
        dsimp only [bind, Option.bind]
        rw [hpieces]
      · rw [← List.append_assoc, ← hstored]
        rw [hwrite]
        exact hafter

theorem all_work_works : all_work.Work := ⟨rfl, rfl, fun _ _ => rfl, rfl⟩

/-- With every call at work, a run of chunks that are decoded and converted succeeds. -/
theorem chunk_run_works {sv : FileServices} (hsv : sv.Work) (tracks : Bool) (max_len : ℤ)
    (newline_char : UInt8)
    {chunks pieces : List Bytes} {left : Option Bytes} {output : Bytes} (st : WriteState Shift)
    (hst : st.write_failed = false)
    (hrun : zbase64.decode_run chunks st.left_over = (.ok pieces, left))
    (hpieces : encode_pieces e_msg st.conversion pieces = some output) :
    ∃ t, chunk_run sv tracks max_len newline_char e_msg chunks st =
      ⟨some (st.stored ++ output), .ok t⟩ := by
  have hfull (st : WriteState Shift) (bytes : Bytes) (hst : st.write_failed = false) :
      (st.write sv bytes).write_failed = false := by
    rw [WriteState.write]
    dsimp only
    rw [hst, Bool.false_or, decide_eq_false_iff_not, not_not]
    exact hsv.fwrite _ _
  have hflushed : ¬ (false || !sv.fflush) = true := by
    rw [hsv.fflush]
    decide
  induction chunks generalizing st pieces output left with
  | nil =>
    rw [zbase64.decode_run, Prod.mk.injEq, Except.ok.injEq] at hrun
    rw [← hrun.1, encode_pieces] at hpieces
    rw [chunk_run, write_chunks]
    dsimp only
    rw [finish_write, hpieces]
    dsimp only
    by_cases houtput : output ≠ []
    · rw [if_pos houtput, write_not_failed (hfull st output hst)]
      dsimp only
      rw [if_neg hflushed]
      exact ⟨_, rfl⟩
    · rw [not_not] at houtput
      rw [if_neg (not_not.mpr houtput), hst, houtput, List.append_nil]
      rw [if_neg hflushed]
      exact ⟨_, rfl⟩
  | cons chunk chunks ih =>
    rw [zbase64.decode_run] at hrun
    rcases hdecode : zbase64.decode_stream chunk st.left_over with ⟨e | decoded, left_over⟩
    · rw [hdecode] at hrun
      cases hrun
    rw [hdecode] at hrun
    dsimp only at hrun
    rcases hrest : zbase64.decode_run chunks left_over with ⟨e | rest, left'⟩
    · rw [hrest] at hrun
      cases hrun
    rw [hrest] at hrun
    obtain rfl := Except.ok.inj (congrArg Prod.fst hrun)
    rw [encode_pieces] at hpieces
    obtain ⟨⟨out, conversion⟩, hencode, hafter⟩ := Option.bind_eq_some_iff.mp hpieces
    obtain ⟨last, hlast, houtput⟩ := Option.bind_eq_some_iff.mp hafter
    obtain rfl := Option.some.inj houtput
    obtain ⟨st', rfl, rfl, hstored, hfailed, hround⟩ :=
      write_chunks_cons tracks max_len newline_char chunks hdecode hencode
    rw [hst] at hfailed
    have hwrite := hfull st' out hfailed
    obtain ⟨t, hresult⟩ := ih (st'.write sv out) hwrite hrest hlast
    refine ⟨t, ?_⟩
    rw [chunk_run, hround, if_neg (by rw [hwrite]; exact Bool.false_ne_true)]
    refine hresult.trans ?_
    rw [write_not_failed hwrite, ← List.append_assoc, ← hstored]

/-! Whole streams. -/

/-- The message that is left before a stream of a data set is written. -/
def start_msg (cs : Charset) (iconv_open : IconvOpen Shift) (zds : ZDS) : Bool :=
  zds.e_msg || (setup_encoding cs iconv_open zds.encoding_opts).2

/-- The conversion that a stream of a data set starts with. -/
def start_conversion (cs : Charset) (iconv_open : IconvOpen Shift) (opts : ZEncode) :
    Conversion Shift :=
  .start ((setup_encoding cs iconv_open opts).1.iconv_guard iconv_open)

theorem guard_eq (cs : Charset) (iconv_open : IconvOpen Shift) (opts : ZEncode) :
    (setup_encoding cs iconv_open opts).1.iconv_guard iconv_open =
      if zds_use_codepage opts then iconv_open opts.codepage (source_encoding cs opts)
      else none :=
  rfl

theorem streamed_ok {sv : FileServices} {attrs : DscbAttributes} {zds : ZDS} {chunks : List Bytes}
    {t : TruncationTracker}
    (h : (zds_write_sequential_streamed cs iconv_open sv attrs zds chunks).result = .ok t) :
    iconv_valid cs iconv_open zds.encoding_opts = true ∧
    ∃ pieces left output, zbase64.decode_run chunks (some []) = (.ok pieces, left) ∧
      encode_pieces (start_msg cs iconv_open zds) (start_conversion cs iconv_open zds.encoding_opts)
        pieces = some output ∧
      (zds_write_sequential_streamed cs iconv_open sv attrs zds chunks).stored = some output := by
  revert h
  rw [zds_write_sequential_streamed]
  dsimp only
  by_cases hopened : (!sv.fopen_write) = true
  · rw [if_pos hopened]
    intro h
    cases h
  rw [if_neg hopened]
  by_cases hpipe : (!sv.open_pipe || !sv.fdopen) = true
  · rw [if_pos hpipe]
    intro h
    cases h
  rw [if_neg hpipe]
  by_cases hvalid : (!validate_iconv_setup (setup_encoding cs iconv_open zds.encoding_opts).1
      ((setup_encoding cs iconv_open zds.encoding_opts).1.iconv_guard iconv_open)) = true
  · rw [if_pos hvalid]
    intro h
    cases h
  rw [if_neg hvalid]
  intro h
  rw [Bool.not_eq_true, Bool.not_eq_false'] at hvalid
  exact ⟨hvalid, chunk_run_ok sv _ _ _ _ h⟩

theorem streamed_works {sv : FileServices} (hsv : sv.Work)
    (hopen : sv.fopen_write = true) (attrs : DscbAttributes) {zds : ZDS} {chunks pieces : List Bytes}
    {left : Option Bytes} {output : Bytes}
    (hvalid : iconv_valid cs iconv_open zds.encoding_opts = true)
    (hrun : zbase64.decode_run chunks (some []) = (.ok pieces, left))
    (hpieces : encode_pieces (start_msg cs iconv_open zds)
      (start_conversion cs iconv_open zds.encoding_opts) pieces = some output) :
    ∃ t, zds_write_sequential_streamed cs iconv_open sv attrs zds chunks =
      ⟨some output, .ok t⟩ := by
  have hopened : ¬ (!sv.fopen_write) = true := by
    rw [hopen]
    decide
  have hpipe : ¬ (!sv.open_pipe || !sv.fdopen) = true := by
    rw [hsv.open_pipe, hsv.fdopen]
    decide
  have hguard : ¬ (!validate_iconv_setup (setup_encoding cs iconv_open zds.encoding_opts).1
      ((setup_encoding cs iconv_open zds.encoding_opts).1.iconv_guard iconv_open)) = true := by
    rw [Bool.not_eq_true, Bool.not_eq_false']
    exact hvalid
  rw [zds_write_sequential_streamed]
  dsimp only
  rw [if_neg hopened, if_neg hpipe, if_neg hguard]
  exact chunk_run_works hsv _ _ _ _ rfl hrun hpieces

theorem line_converted {sv : BpamServices} {line output : Bytes}
    (hvalid : iconv_valid cs iconv_open opts = true)
    (h : (line_setup sv cs iconv_open opts).encode line = some output) :
    converted cs iconv_open opts line = some output := by
  rw [converted]
  by_cases huse : zds_use_codepage opts = true
  · rw [if_pos huse]
    rw [line_setup, setup_encoding_eq huse] at h
    rw [iconv_valid, setup_encoding_eq huse] at hvalid
    obtain ⟨cd, hcd⟩ := Option.isSome_iff_exists.mp hvalid
    exact encode_line_conversion hcd h
  · have hguard : (setup_encoding cs iconv_open opts).1.iconv_guard iconv_open = none := by
      rw [guard_eq, if_neg huse]
    rw [if_neg huse, ← h]
    show some line = encode_line_if_needed
      ((setup_encoding cs iconv_open opts).1.iconv_guard iconv_open) line
    rw [hguard]
    rfl

end Zowex

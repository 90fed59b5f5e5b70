import Zowex.Proofs.Streams
import Zowex.Spec.AsaPage

/-! The records of a member with control characters show the page of its text: the lines that are
blank are what the next record is moved by, so that the text is ahead of the records by their
number. -/

namespace Zowex

open Printing zds

variable {cs : Charset} {s : LineSetup} {convert : Bytes → Option Bytes}

/-! The control characters. -/

theorem control_space : control cs (cs.code ' ') = some (.advance 1) := if_pos rfl

theorem control_zero : control cs (cs.code '0') = some (.advance 2) := by
  have hspace : cs.code '0' ≠ cs.code ' ' := by
    rw [Ne, cs.code_eq_iff (by decide) (by decide)]
    decide
  rw [control, if_neg hspace, if_pos rfl]

theorem control_minus : control cs (cs.code '-') = some (.advance 3) := by
  have hspace : cs.code '-' ≠ cs.code ' ' := by
    rw [Ne, cs.code_eq_iff (by decide) (by decide)]
    decide
  have hzero : cs.code '-' ≠ cs.code '0' := by
    rw [Ne, cs.code_eq_iff (by decide) (by decide)]
    decide
  rw [control, if_neg hspace, if_neg hzero, if_pos rfl]

theorem control_one : control cs (cs.code '1') = some .new_page := by
  have hspace : cs.code '1' ≠ cs.code ' ' := by
    rw [Ne, cs.code_eq_iff (by decide) (by decide)]
    decide
  have hzero : cs.code '1' ≠ cs.code '0' := by
    rw [Ne, cs.code_eq_iff (by decide) (by decide)]
    decide
  have hminus : cs.code '1' ≠ cs.code '-' := by
    rw [Ne, cs.code_eq_iff (by decide) (by decide)]
    decide
  rw [control, if_neg hspace, if_neg hzero, if_neg hminus, if_pos rfl]

theorem overflow_blanks_eq (blank_count : ℕ) :
    AsaStreamState.overflow_blanks blank_count = (blank_count / 3, blank_count % 3) := by
  induction blank_count using AsaStreamState.overflow_blanks.induct with
  | case1 blank_count rounds left _ ih =>
    rw [AsaStreamState.overflow_blanks, ih]
    exact Prod.ext (Nat.add_div_right _ (by decide)).symm (Nat.add_mod_right _ _).symm
  | case2 blank_count hsmall =>
    rw [AsaStreamState.overflow_blanks]
    · have hlt : blank_count < 3 := by
        by_contra hge
        exact hsmall (blank_count - 3) (by omega)
      rw [Nat.div_eq_of_lt hlt, Nat.mod_eq_of_lt hlt]
    · exact hsmall

/-- The control character without a form feed moves by the blanks that are left, and the line. -/
theorem control_blanks {blank_count : ℕ} (h : blank_count < 3) :
    control cs (AsaStreamState.get_asa_char cs blank_count false) =
      some (.advance (blank_count + 1)) := by
  rw [AsaStreamState.get_asa_char, if_neg Bool.false_ne_true]
  by_cases hone : blank_count = 1
  · rw [if_pos hone, hone]
    exact control_zero
  rw [if_neg hone]
  by_cases htwo : blank_count = 2
  · rw [if_pos htwo, htwo]
    exact control_minus
  · obtain rfl : blank_count = 0 := by omega
    rw [if_neg htwo]
    exact control_space

/-! A line. -/

/-- What the line of the text is moved by where its record is moved so. -/
def text_control (control : Control) : Control :=
  if control = .new_page then control else .advance 1

theorem keep_line_blank (hasa : s.is_asa = true) {line : Bytes} (h : strip_cr line = [])
    (blank_count : ℕ) : keep_line cs s ⟨blank_count⟩ line = (none, ⟨blank_count + 1⟩) := by
  rw [keep_line, prepare, if_pos hasa, h]
  rfl

theorem keep_line_text (hasa : s.is_asa = true) {line : Bytes} (h : strip_cr line ≠ [])
    (blank_count : ℕ) :
    ∃ char control text,
      keep_line cs s ⟨blank_count⟩ line =
        (some ⟨blank_count / 3, some char, text⟩, ⟨0⟩) ∧
      Zowex.control cs char = some control ∧
      (∀ convert, print_line convert (strip_cr line) =
        (convert text).map fun text => (text_control control, text)) ∧
      (control = .new_page ∨ control = .advance (blank_count % 3 + 1)) := by
  rw [keep_line, prepare, if_pos hasa, AsaStreamState.prepare_line, overflow_blanks_eq]
  by_cases hfeed : (strip_cr line).head? = some FF_CHAR
  · refine ⟨cs.code '1', .new_page, (strip_cr line).tail, ?_, control_one, fun convert => ?_,
      .inl rfl⟩
    · simp [hfeed, AsaStreamState.get_asa_char]
    · rw [print_line, if_neg h, if_pos hfeed, text_control, if_pos rfl]
  · refine ⟨AsaStreamState.get_asa_char cs (blank_count % 3) false, .advance (blank_count % 3 + 1),
      strip_cr line, ?_, control_blanks (Nat.mod_lt _ (by decide)), fun convert => ?_, .inr rfl⟩
    · simp [hfeed, h]
    · rw [print_line, if_neg h, if_neg hfeed, text_control, if_neg (by simp)]

/-- A record after its overflow records. -/
theorem shown_record (position : Position) (n : ℕ) (control : Control) (text : Bytes)
    (rest : List (Control × Bytes)) :
    shown position (List.replicate n (Control.advance 3, []) ++ (control, text) :: rest) =
      shown { position with line := position.line + n * 3 } ((control, text) :: rest) := by
  rw [shown_append, shown_blanks, last_blanks, List.nil_append]

theorem print_overflow (n : ℕ) :
    (overflow cs n).mapM (print_record cs) =
      some (List.replicate n (Control.advance 3, [])) := by
  induction n with
  | zero => rfl
  | succ n ih =>
    rw [overflow, List.replicate_succ, List.mapM_cons, ← overflow, ih, print_record, control_minus]
    rfl

theorem print_encoded {n : ℕ} {char : UInt8} {control : Control}
    (h : Zowex.control cs char = some control) (text : Bytes) (outs : List EncodedLine) :
    (in_order cs ((n, (text, some char)) :: outs)).mapM (print_record cs) =
      ((in_order cs outs).mapM (print_record cs)).map fun records =>
        List.replicate n (Control.advance 3, []) ++ (control, text) :: records := by
  rw [in_order, List.flatMap_cons, ← in_order, List.append_assoc, List.mapM_append, print_overflow,
    List.mapM_append, List.mapM_cons]
  rw [show print_record cs (Line.record (text, some char)) = some (control, text) by
    rw [Line.record, Option.toList_some, List.singleton_append, print_record, h, Option.map_some]]
  rcases (in_order cs outs).mapM (print_record cs) with _ | records
  · rfl
  · rfl

/-- The position of the text is that of the records, moved by the blanks that are pending. -/
theorem page_of_lines (hasa : s.is_asa = true)
    (hconvert : ∀ line output, s.encode line = some output → convert line = some output)
    (raw : List Bytes) (blank_count : ℕ) (position : Position) {outs : List EncodedLine}
    (h : (keep_lines cs s ⟨blank_count⟩ raw).1.mapM (encoded s) = some outs) :
    ∃ lines records, (raw.map strip_cr).mapM (print_line convert) = some lines ∧
      (in_order cs outs).mapM (print_record cs) = some records ∧
      shown { position with line := position.line + blank_count } lines =
        shown position records := by
  induction raw generalizing blank_count position outs with
  | nil =>
    obtain rfl := Option.some.inj h
    exact ⟨[], [], rfl, rfl, rfl⟩
  | cons line raw ih =>
    rw [keep_lines_cons] at h
    by_cases hblank : strip_cr line = []
    · rw [keep_line_blank hasa hblank] at h
      obtain ⟨lines, records, hlines, hrecords, hshown⟩ := ih (blank_count + 1) position h
      refine ⟨(.advance 1, []) :: lines, records, ?_, hrecords, hshown⟩
      rw [List.map_cons, List.mapM_cons, hblank, hlines]
      rfl
    obtain ⟨char, control, text, hkeep, hcontrol, hline, hmoves⟩ :=
      @keep_line_text cs s hasa line hblank blank_count
    rw [hkeep, Option.toList_some, List.singleton_append, List.mapM_cons] at h
    obtain ⟨out, hout, h⟩ := Option.bind_eq_some_iff.mp h
    obtain ⟨rest, hrest, h⟩ := Option.bind_eq_some_iff.mp h
    obtain rfl := Option.some.inj h
    obtain ⟨output, houtput, rfl⟩ := Option.map_eq_some_iff.mp hout
    -- Where the line is printed, from either side.
    have hposition : (text_control control).move
        { position with line := position.line + blank_count } =
        control.move { position with line := position.line + blank_count / 3 * 3 } := by
      rcases hmoves with rfl | rfl
      · rfl
      · rw [text_control, if_neg (by simp)]
        simp only [Control.move, Position.mk.injEq, true_and]
        omega
    obtain ⟨lines, records, hlines, hrecords, hshown⟩ := ih 0
      (control.move { position with line := position.line + blank_count / 3 * 3 }) hrest
    refine ⟨(text_control control, output) :: lines, _, ?_,
      (print_encoded hcontrol output rest).trans (congrArg (Option.map _) hrecords), ?_⟩
    · rw [List.map_cons, List.mapM_cons, hline, hconvert _ _ houtput, hlines]
      rfl
    · rw [shown_record, shown, shown, hposition]
      dsimp only
      rw [Nat.add_zero] at hshown
      rw [hshown]

/-- The last line is kept like the others: where it is blank it is not kept either. -/
theorem all_lines_eq (hasa : s.is_asa = true) (data : Bytes) :
    all_lines cs s data = (keep_lines cs s {} (data.splitOn s.newline_char)).1 := by
  have happend (asa_state : AsaStreamState) (lines : List Bytes) (line : Bytes) :
      (keep_lines cs s asa_state (lines ++ [line])).1 =
        (keep_lines cs s asa_state lines).1 ++
          (keep_line cs s (keep_lines cs s asa_state lines).2 line).1.toList := by
    induction lines generalizing asa_state with
    | nil => simp [keep_lines]
    | cons first lines ih =>
      rw [List.cons_append, keep_lines_cons, keep_lines_cons]
      dsimp only
      rw [ih, List.append_assoc]
  rw [← Lines.complete_append_unfinished, happend, all_lines, kept_lines, kept_last_eq, kept_end]
  by_cases hblank : strip_cr (Lines.unfinished s.newline_char data) = []
  · rw [if_pos hblank, keep_line_blank hasa hblank]
  · rw [if_neg hblank]

variable {Shift : Type} {iconv_open : IconvOpen Shift} {opts : ZEncode}

/-- A member with control characters shows its text, whatever blank lines and form feeds are in
it. -/
theorem asa_page_preserved (sv : BpamServices) (data : Bytes) {t : TruncationTracker}
    (hasa : sv.dcbrecca = true)
    (h : (zds_write_member_bpam sv cs iconv_open opts data).result = .ok t) :
    ∃ records page,
      (zds_write_member_bpam sv cs iconv_open opts data).stored = some records ∧
      printed cs records = some page ∧
      text_page (converted cs iconv_open opts)
        (setup_encoding cs iconv_open opts).1.newline_char data = some page := by
  obtain ⟨hvalid, outs, houts, hstored⟩ := member_run_ok h
  rw [all_lines_eq hasa] at houts
  obtain ⟨lines, records, hlines, hrecords, hshown⟩ :=
    page_of_lines hasa (fun _ _ => line_converted hvalid) _ 0 {} houts
  refine ⟨in_order cs outs, shown {} records, hstored, ?_, ?_⟩
  · rw [printed, hrecords]
    rfl
  · rw [text_page, ← hshown]
    exact congrArg (Option.map (shown {})) hlines

/-- Two lines with five blank ones between them, and one on the next page. -/
theorem asa_page_preserved_example :
    ∃ records page,
      (zds_write_member_bpam (works_with true) ibm1047 no_iconv {}
        (ibm1047.str "a\n\n\n\n\n\nb\n\x0cc")).stored = some records ∧
      printed ibm1047 records = some page ∧
      text_page (converted ibm1047 no_iconv {}) (setup_encoding ibm1047 no_iconv {}).1.newline_char
        (ibm1047.str "a\n\n\n\n\n\nb\n\x0cc") = some page :=
  asa_page_preserved (works_with true) _ (t := {}) rfl (by decide +kernel)

example : printed ibm1047 [ibm1047.str " a", ibm1047.str "-", ibm1047.str "-b", ibm1047.str "1c"] =
    some [(⟨1, 1⟩, ibm1047.str "a"), (⟨1, 7⟩, ibm1047.str "b"), (⟨2, 1⟩, ibm1047.str "c")] := by
  decide +kernel

end Zowex

import Zowex.Lib.Traversals
import Zowex.Proofs.Base64Stream
import Zowex.Spec.MemberLines

/-! When a member written in chunks gets the records it gets in one piece. Both writes go through
the lines that are kept; what goes out is told by what each line was encoded to, so that the two
are compared as lists of records, and hand them out alike however that fails. -/

namespace Zowex.zds

variable {cs : Charset} {s : LineSetup} {write : List Bytes → Bool}

/-- A line that was encoded, after its overflow records. -/
abbrev EncodedLine := ℕ × Line

def encoded (s : LineSetup) (line : PreparedLine) : Option EncodedLine :=
  (s.encode line.line).map fun out => (line.overflow_records, (out, line.asa_char))

/-- What is kept of a line that goes out, but for the blanks. -/
def count_line (s : LineSetup) (st : LineState) (line : EncodedLine) : LineState :=
  track s st st.asa_state line.2

def overflow (cs : Charset) (overflow_count : ℕ) : List Bytes :=
  List.replicate overflow_count [cs.code '-']

/-! What goes out. -/

theorem write_lines_append (lines more : List Line) (handed : List Bytes) :
    write_lines write (lines ++ more) handed =
      (do let handed ← write_lines write lines handed; write_lines write more handed) := by
  induction lines generalizing handed with
  | nil => rfl
  | cons line lines ih =>
    rw [List.cons_append, write_lines, write_lines, bind_assoc]
    congr 1
    funext handed
    exact ih handed

/-- Only the records count. -/
theorem write_lines_congr {lines lines' : List Line} (handed : List Bytes)
    (h : lines.map Line.record = lines'.map Line.record) :
    write_lines write lines handed = write_lines write lines' handed := by
  induction lines generalizing lines' handed with
  | nil =>
    rw [List.map_nil, eq_comm, List.map_eq_nil_iff] at h
    rw [h]
  | cons line lines ih =>
    obtain ⟨line', lines', rfl, hline, hlines⟩ := List.map_eq_cons_iff.mp h.symm
    rw [write_lines, write_lines, zds_write_output_bpam, zds_write_output_bpam, hline]
    congr 1
    funext handed
    exact ih handed hlines.symm

theorem write_lines_all (lines : List Line) (handed : List Bytes) :
    write_lines (fun _ => true) lines handed = .ok (handed ++ lines.map Line.record) := by
  induction lines generalizing handed with
  | nil => rw [List.map_nil, List.append_nil, write_lines]
  | cons line lines ih =>
    rw [write_lines, zds_write_output_bpam, if_pos rfl]
    exact (ih _).trans (by rw [List.map_cons, List.append_assoc, List.singleton_append])

/-! Every line goes through `keep_line`. -/

theorem collect_line_eq (st : LineState) (lines : List Line) (line : Bytes) :
    collect_line cs s (st, lines) line =
      match keep_line cs s st.asa_state line with
      | (none, asa_state) => some ({ st with asa_state }, lines)
      | (some kept, asa_state) => (encoded s kept).map fun out =>
        ({ count_line s st out with asa_state },
          lines ++ List.replicate out.1 (overflow_line cs) ++ [out.2]) := by
  rw [collect_line, keep_line]
  rcases prepare cs s st.asa_state (strip_cr line) with ⟨prepared, asa_state, line⟩
  dsimp only
  by_cases hskip : prepared.skip_line = true
  · rw [if_pos hskip, if_pos hskip]
  · rw [if_neg hskip, if_neg hskip]
    dsimp only [encoded]
    rcases s.encode line with _ | out
    · rfl
    · rfl

theorem keep_lines_cons (asa_state : AsaStreamState) (line : Bytes) (lines : List Bytes) :
    keep_lines cs s asa_state (line :: lines) =
      ((keep_line cs s asa_state line).1.toList ++
          (keep_lines cs s (keep_line cs s asa_state line).2 lines).1,
        (keep_lines cs s (keep_line cs s asa_state line).2 lines).2) := rfl

theorem foldl_count_asa (outs : List EncodedLine) (st : LineState) (asa_state : AsaStreamState) :
    outs.foldl (count_line s) { st with asa_state } =
      { outs.foldl (count_line s) st with asa_state } := by
  induction outs generalizing st with
  | nil => rfl
  | cons out outs ih =>
    rw [List.foldl_cons, List.foldl_cons, ← ih]
    rfl

theorem collect_fold (st : LineState) (lines : List Line) (raw : List Bytes) :
    raw.foldlM (collect_line cs s) (st, lines) =
      ((keep_lines cs s st.asa_state raw).1.mapM (encoded s)).map fun outs =>
        ({ outs.foldl (count_line s) st with
            asa_state := (keep_lines cs s st.asa_state raw).2 },
          lines ++ outs.flatMap fun out =>
            List.replicate out.1 (overflow_line cs) ++ [out.2]) := by
  induction raw generalizing st lines with
  | nil => simp [keep_lines]
  | cons line raw ih =>
    rw [List.foldlM_cons, collect_line_eq, keep_lines_cons]
    rcases keep_line cs s st.asa_state line with ⟨_ | kept, asa_state⟩
    · refine (ih _ _).trans ?_
      dsimp only
      rw [Option.toList_none, List.nil_append]
      congr 1
      funext outs
      rw [foldl_count_asa]
    · dsimp only
      rw [Option.toList_some, List.singleton_append, List.mapM_cons]
      rcases encoded s kept with _ | out
      · rfl
      · refine (ih _ _).trans ?_
        dsimp only [Option.bind_eq_bind, Option.bind_some, Option.map_some]
        rcases (keep_lines cs s asa_state raw).1.mapM (encoded s) with _ | outs
        · rfl
        · simp only [Option.map_some, Option.bind_some, pure, foldl_count_asa, List.foldl_cons,
            List.flatMap_cons, List.append_assoc]

/-! The lines held back. -/

def stream_kept (cs : Charset) (s : LineSetup) (write : List Bytes → Bool) (st : StreamState)
    (line : PreparedLine) : Except Written StreamState := do
  let handed ← write_asa_overflow_records cs write line.overflow_records st.handed
  match encoded s line with
  | none => .error ⟨handed, .encode_failed⟩
  | some out =>
    let handed ← write_prev_line write st.prev_line handed
    .ok { st with state := count_line s st.state out, handed, prev_line := some out.2 }

def with_blanks (asa_state : AsaStreamState) (st : StreamState) : StreamState :=
  { st with state := { st.state with asa_state } }

theorem stream_line_eq (st : StreamState) (line : Bytes) :
    stream_line cs s write st line =
      ((keep_line cs s st.state.asa_state line).1.toList.foldlM (stream_kept cs s write) st).map
        (with_blanks (keep_line cs s st.state.asa_state line).2) := by
  rw [stream_line, keep_line]
  rcases prepare cs s st.state.asa_state (strip_cr line) with ⟨prepared, asa_state, line⟩
  dsimp only
  by_cases hskip : prepared.skip_line = true
  · rw [if_pos hskip, if_pos hskip]
    rfl
  · rw [if_neg hskip, if_neg hskip, Option.toList_some, List.foldlM_cons, stream_kept, encoded]
    dsimp only
    rcases write_asa_overflow_records cs write prepared.overflow_records st.handed with e | handed
    · rfl
    · rcases s.encode line with _ | out
      · rfl
      · dsimp only [bind, Except.bind, Option.map_some]
        rcases write_prev_line write st.prev_line handed with e | handed
        · rfl
        · rfl

theorem stream_kept_blanks (asa_state : AsaStreamState) (st : StreamState)
    (lines : List PreparedLine) :
    lines.foldlM (stream_kept cs s write) (with_blanks asa_state st) =
      (lines.foldlM (stream_kept cs s write) st).map (with_blanks asa_state) := by
  induction lines generalizing st with
  | nil => rfl
  | cons line lines ih =>
    rw [List.foldlM_cons, List.foldlM_cons, stream_kept, stream_kept]
    dsimp only [with_blanks]
    rcases write_asa_overflow_records cs write line.overflow_records st.handed with e | handed
    · rfl
    · rcases encoded s line with _ | out
      · rfl
      · dsimp only [bind, Except.bind]
        rcases write_prev_line write st.prev_line handed with e | handed
        · rfl
        · exact ih { st with state := count_line s st.state out, prev_line := some out.2, handed }

theorem stream_fold (st : StreamState) (raw : List Bytes) :
    raw.foldlM (stream_line cs s write) st =
      ((keep_lines cs s st.state.asa_state raw).1.foldlM (stream_kept cs s write) st).map
        (with_blanks (keep_lines cs s st.state.asa_state raw).2) := by
  induction raw generalizing st with
  | nil => rfl
  | cons line raw ih =>
    rw [List.foldlM_cons, stream_line_eq, keep_lines_cons, List.foldlM_append]
    rcases (keep_line cs s st.state.asa_state line).1.toList.foldlM (stream_kept cs s write) st
      with e | next
    · rfl
    · refine (ih _).trans ?_
      dsimp only [bind, Except.bind, Except.map, with_blanks]
      rw [← with_blanks, stream_kept_blanks]
      rcases List.foldlM (stream_kept cs s write) next _ with e | next
      · rfl
      · rfl

/-! The records, in the order of either write. -/

def in_order (cs : Charset) (outs : List EncodedLine) : List Bytes :=
  outs.flatMap fun out => overflow cs out.1 ++ [out.2.record]

def held_back (cs : Charset) : Option Line → List EncodedLine → List Bytes
  | _, [] => []
  | prev_line, (overflow_count, line) :: outs =>
    overflow cs overflow_count ++ prev_line.toList.map Line.record ++ held_back cs (some line) outs

def last_line (prev_line : Option Line) (outs : List EncodedLine) : Option Line :=
  outs.foldl (fun _ out => some out.2) prev_line

def hand_out (write : List Bytes → Bool) (records handed : List Bytes) :
    Except Written (List Bytes) :=
  write_lines write (records.map fun record => (record, none)) handed

theorem write_lines_eq (lines : List Line) (handed : List Bytes) :
    write_lines write lines handed = hand_out write (lines.map Line.record) handed := by
  refine write_lines_congr handed ?_
  rw [List.map_map, List.map_map]
  rfl

theorem hand_out_append (records more handed : List Bytes) :
    hand_out write (records ++ more) handed =
      (do let handed ← hand_out write records handed; hand_out write more handed) := by
  rw [hand_out, List.map_append, write_lines_append]
  rfl

theorem overflow_eq (overflow_count : ℕ) (handed : List Bytes) :
    write_asa_overflow_records cs write overflow_count handed =
      hand_out write (overflow cs overflow_count) handed := by
  rw [write_asa_overflow_records, write_lines_eq, List.map_replicate]
  rfl

theorem prev_line_eq (prev_line : Option Line) (handed : List Bytes) :
    write_prev_line write prev_line handed =
      hand_out write (prev_line.toList.map Line.record) handed :=
  write_lines_eq _ handed

/-- Where every line is encoded, they go out each after the next one's overflow records. -/
theorem kept_fold (cs : Charset) (s : LineSetup) (write : List Bytes → Bool) (st : StreamState)
    {lines : List PreparedLine} {outs : List EncodedLine}
    (h : lines.mapM (encoded s) = some outs) :
    lines.foldlM (stream_kept cs s write) st =
      (do
        let handed ← hand_out write (held_back cs st.prev_line outs) st.handed
        .ok { st with state := outs.foldl (count_line s) st.state, handed,
                      prev_line := last_line st.prev_line outs }) := by
  induction lines generalizing st outs with
  | nil =>
    rw [List.mapM_nil, Option.pure_def, Option.some_inj] at h
    rw [← h]
    rfl
  | cons line lines ih =>
    rw [List.mapM_cons] at h
    obtain ⟨out, hout, h⟩ := Option.bind_eq_some_iff.mp h
    obtain ⟨rest, hrest, h⟩ := Option.bind_eq_some_iff.mp h
    rw [Option.pure_def, Option.some_inj] at h
    subst h
    obtain ⟨overflow_count, line'⟩ := out
    have hcount : line.overflow_records = overflow_count := by
      obtain ⟨text, -, htext⟩ := Option.map_eq_some_iff.mp hout
      exact congrArg Prod.fst htext
    rw [List.foldlM_cons, stream_kept, hout, held_back, hand_out_append, hand_out_append,
      overflow_eq, hcount]
    dsimp only
    rcases hand_out write (overflow cs overflow_count) st.handed with e | handed
    · rfl
    dsimp only [bind, Except.bind]
    rw [prev_line_eq]
    rcases hand_out write (st.prev_line.toList.map Line.record) handed with e | handed
    · rfl
    refine (ih _ hrest).trans ?_
    dsimp only [bind, Except.bind]
    rcases hand_out write (held_back cs (some line') rest) handed with e | handed
    · rfl
    · rfl

/-- Where the line after them cannot be encoded, its overflow records still go out. -/
theorem kept_fold_fails (st : StreamState) {lines : List PreparedLine} {outs : List EncodedLine}
    (h : lines.mapM (encoded s) = some outs) {line : PreparedLine} (hline : encoded s line = none)
    (after : List PreparedLine) :
    (lines ++ line :: after).foldlM (stream_kept cs s write) st =
      (do
        let handed ← hand_out write
          (held_back cs st.prev_line outs ++ overflow cs line.overflow_records) st.handed
        .error ⟨handed, .encode_failed⟩) := by
  rw [List.foldlM_append, kept_fold cs s write st h, hand_out_append]
  dsimp only [bind, Except.bind]
  rcases hand_out write (held_back cs st.prev_line outs) st.handed with e | handed
  · rfl
  · dsimp only
    rw [List.foldlM_cons, stream_kept, hline, overflow_eq]
    dsimp only [bind, Except.bind]
    rcases hand_out write (overflow cs line.overflow_records) handed with e | handed
    · rfl
    · rfl

/-! The chunks. -/

theorem stream_kept_buffer (st : StreamState) (buffer : Bytes) (lines : List PreparedLine) :
    lines.foldlM (stream_kept cs s write) { st with line_buffer := buffer } =
      (lines.foldlM (stream_kept cs s write) st).map
        fun next => { next with line_buffer := buffer } := by
  induction lines generalizing st with
  | nil => rfl
  | cons line lines ih =>
    rw [List.foldlM_cons, List.foldlM_cons, stream_kept, stream_kept]
    dsimp only
    rcases write_asa_overflow_records cs write line.overflow_records st.handed with e | handed
    · rfl
    · rcases encoded s line with _ | out
      · rfl
      · dsimp only [bind, Except.bind]
        rcases write_prev_line write st.prev_line handed with e | handed
        · rfl
        · exact ih { st with state := count_line s st.state out, prev_line := some out.2, handed }

theorem stream_buffer (st : StreamState) (buffer : Bytes) (raw : List Bytes) :
    raw.foldlM (stream_line cs s write) { st with line_buffer := buffer } =
      (raw.foldlM (stream_line cs s write) st).map
        fun next => { next with line_buffer := buffer } := by
  rw [stream_fold, stream_fold, stream_kept_buffer]
  rcases List.foldlM (stream_kept cs s write) st _ with e | next
  · rfl
  · rfl

/-- After the chunks: an exception, or the line that no newline ends. -/
def end_of_chunks (s : LineSetup) (data : Bytes) (e : Option zbase64.DecodeError)
    (st : StreamState) : Except Written StreamState :=
  match e with
  | none => .ok { st with line_buffer := Lines.unfinished s.newline_char data }
  | some e => .error ⟨st.handed, .threw e⟩

/-- The chunks come to the lines of what they are decoded to, up to an exception. -/
theorem stream_chunks_eq (chunks : List Bytes) (left_over : Option Bytes) (st : StreamState)
    (hcomplete : Lines.complete s.newline_char st.line_buffer = [])
    (hunfinished : Lines.unfinished s.newline_char st.line_buffer = st.line_buffer) :
    stream_chunks cs s write chunks left_over st =
      (do
        let data := st.line_buffer ++ (decoded_data chunks left_over).1
        let next ← (Lines.complete s.newline_char data).foldlM (stream_line cs s write) st
        end_of_chunks s data (decoded_data chunks left_over).2 next) := by
  induction chunks generalizing left_over st with
  | nil =>
    dsimp only [decoded_data]
    rw [List.append_nil, hcomplete, List.foldlM_nil]
    dsimp only [bind, Except.bind, pure, Except.pure, end_of_chunks]
    rw [hunfinished]
    rfl
  | cons chunk chunks ih =>
    rw [stream_chunks, decoded_data]
    rcases hdecode : zbase64.decode_stream chunk left_over with ⟨e | decoded, left_over'⟩
    · dsimp only
      rw [List.append_nil, hcomplete]
      rfl
    dsimp only
    rw [← List.append_assoc, Lines.complete_append _ (st.line_buffer ++ _), List.foldlM_append]
    rcases List.foldlM (stream_line cs s write) st
      (Lines.complete s.newline_char (st.line_buffer ++ decoded)) with e | next
    · rfl
    · refine (ih left_over' _ (Lines.complete_unfinished _ _)
        (Lines.unfinished_unfinished _ _)).trans ?_
      dsimp only [bind, Except.bind]
      rw [stream_buffer]
      rcases List.foldlM (stream_line cs s write) next _ with e | last
      · rfl
      · dsimp only [Except.map, end_of_chunks]
        rw [Lines.unfinished_append _ (st.line_buffer ++ _)]

/-- What is decoded in full is what all calls give. -/
theorem decoded_data_of_run {chunks outs : List Bytes} {left_over left : Option Bytes}
    (h : zbase64.decode_run chunks left_over = (.ok outs, left)) :
    decoded_data chunks left_over = (outs.flatten, none) := by
  induction chunks generalizing outs left_over left with
  | nil =>
    rw [zbase64.decode_run, Prod.mk.injEq, Except.ok.injEq] at h
    rw [← h.1]
    rfl
  | cons chunk chunks ih =>
    rw [zbase64.decode_run] at h
    rw [decoded_data]
    rcases hdecode : zbase64.decode_stream chunk left_over with ⟨e | decoded, left_over'⟩
    · rw [hdecode] at h
      cases h
    rw [hdecode] at h
    dsimp only at h ⊢
    rcases hrest : zbase64.decode_run chunks left_over' with ⟨e | rest, left'⟩
    · rw [hrest] at h
      cases h
    · rw [hrest] at h
      obtain rfl : decoded :: rest = outs := Except.ok.inj (congrArg Prod.fst h)
      rw [ih hrest, List.flatten_cons]

/-! The line after the last newline. -/

def kept_end (cs : Charset) (s : LineSetup) (asa_state : AsaStreamState) (line : Bytes) :
    Option PreparedLine :=
  if strip_cr line = [] then none else (keep_line cs s asa_state line).1

theorem kept_last_eq (data : Bytes) :
    kept_last cs s data =
      kept_end cs s (keep_lines cs s {} (Lines.complete s.newline_char data)).2
        (Lines.unfinished s.newline_char data) := rfl

theorem trailing_line_skips (st : LineState) {line : Bytes}
    (h : kept_end cs s st.asa_state line = none) :
    ∃ next : LineState, next.truncation = st.truncation ∧
      process_bpam_trailing_line cs s st line = some ({ skip_line := true }, next) := by
  rw [kept_end, keep_line] at h
  rw [process_bpam_trailing_line]
  dsimp only at h ⊢
  by_cases hempty : strip_cr line = []
  · rw [if_pos hempty]
    exact ⟨st, rfl, rfl⟩
  rw [if_neg hempty] at h ⊢
  rcases hprepare : prepare cs s st.asa_state (strip_cr line) with ⟨prepared, asa_state, text⟩
  rw [hprepare] at h
  dsimp only at h ⊢
  by_cases hskip : prepared.skip_line = true
  · rw [if_pos hskip]
    exact ⟨{ st with asa_state }, rfl, rfl⟩
  · rw [if_neg hskip] at h
    cases h

theorem trailing_line_keeps (st : LineState) {line : Bytes} {kept : PreparedLine}
    (h : kept_end cs s st.asa_state line = some kept) :
    process_bpam_trailing_line cs s st line = (encoded s kept).map fun out =>
      ({ line := out.2.1, asa_char := out.2.2, overflow_records := out.1 },
        { count_line s st out with asa_state := (keep_line cs s st.asa_state line).2 }) := by
  rw [kept_end, keep_line] at h
  rw [process_bpam_trailing_line, keep_line]
  dsimp only at h ⊢
  by_cases hempty : strip_cr line = []
  · rw [if_pos hempty] at h
    cases h
  rw [if_neg hempty] at h ⊢
  rcases hprepare : prepare cs s st.asa_state (strip_cr line) with ⟨prepared, asa_state, text⟩
  rw [hprepare] at h
  dsimp only at h ⊢
  by_cases hskip : prepared.skip_line = true
  · rw [if_pos hskip] at h
    cases h
  · rw [if_neg hskip] at h ⊢
    obtain rfl := Option.some.inj h
    dsimp only [encoded]
    rcases s.encode text with _ | out
    · rfl
    · rfl

theorem kept_end_nil (asa_state : AsaStreamState) : kept_end cs s asa_state [] = none := rfl

theorem mapM_concat {kept : List PreparedLine} {outs : List EncodedLine}
    (h : kept.mapM (encoded s) = some outs) (line : PreparedLine) :
    (kept ++ [line]).mapM (encoded s) = (encoded s line).map fun out => outs ++ [out] := by
  rw [List.mapM_append, h, List.mapM_cons]
  rcases encoded s line with _ | out
  · rfl
  · rfl

theorem mapM_concat_some {kept : List PreparedLine} {outs : List EncodedLine}
    {line : PreparedLine} (h : (kept ++ [line]).mapM (encoded s) = some outs) :
    ∃ before out, kept.mapM (encoded s) = some before ∧ encoded s line = some out ∧
      outs = before ++ [out] := by
  rcases hkept : kept.mapM (encoded s) with _ | before
  · rw [List.mapM_append, hkept] at h
    cases h
  · rw [mapM_concat hkept] at h
    obtain ⟨out, hout, rfl⟩ := Option.map_eq_some_iff.mp h
    exact ⟨before, out, rfl, hout, rfl⟩

/-- What is handed out, and what was truncated, where every line is encoded. -/
def finish (s : LineSetup) (outs : List EncodedLine) : Except Written (List Bytes) → Written
  | .error written => written
  | .ok handed => ⟨handed, .finished (outs.foldl (count_line s) {}).truncation.flush_range⟩

/-- The lines that are kept, with the last of them. -/
def all_lines (cs : Charset) (s : LineSetup) (data : Bytes) : List PreparedLine :=
  kept_lines cs s data ++ (kept_last cs s data).toList

theorem in_order_append (outs more : List EncodedLine) :
    in_order cs (outs ++ more) = in_order cs outs ++ in_order cs more :=
  List.flatMap_append

theorem records_in_order (outs : List EncodedLine) :
    (outs.flatMap fun out => List.replicate out.1 (overflow_line cs) ++ [out.2]).map Line.record =
      in_order cs outs := by
  rw [List.map_flatMap, in_order]
  congr 1
  funext out
  rw [List.map_append, List.map_replicate]
  rfl

theorem collect_lines_eq (cs : Charset) (s : LineSetup) (data : Bytes) :
    (all_lines cs s data).mapM (encoded s) = none ∧ collect_lines cs s data = none ∨
    ∃ outs st lines, (all_lines cs s data).mapM (encoded s) = some outs ∧
      collect_lines cs s data = some (st, lines) ∧
      st.truncation = (outs.foldl (count_line s) {}).truncation ∧
      lines.map Line.record = in_order cs outs := by
  rw [collect_lines, collect_fold, all_lines, kept_lines, kept_last_eq]
  generalize Lines.unfinished s.newline_char data = line
  rcases keep_lines cs s ({} : LineState).asa_state (Lines.complete s.newline_char data)
    with ⟨kept, asa_state⟩
  dsimp only
  rcases hmap : kept.mapM (encoded s) with _ | outs
  · rw [List.mapM_append, hmap]
    exact .inl ⟨rfl, rfl⟩
  rw [Option.map_some, List.nil_append]
  dsimp only [bind, Option.bind]
  by_cases hempty : line = []
  · rw [hempty, kept_end_nil, Option.toList_none, List.append_nil, hmap]
    exact .inr ⟨outs, _, _, rfl, rfl, rfl, records_in_order outs⟩
  rw [collect_trailing_line, if_neg hempty]
  rcases hend : kept_end cs s asa_state line with _ | last
  · rw [Option.toList_none, List.append_nil, hmap]
    obtain ⟨next, hnext, hskips⟩ :=
      trailing_line_skips { outs.foldl (count_line s) {} with asa_state } hend
    rw [hskips]
    exact .inr ⟨outs, _, _, rfl, rfl, hnext, records_in_order outs⟩
  · rw [Option.toList_some, mapM_concat hmap,
      trailing_line_keeps { outs.foldl (count_line s) {} with asa_state } hend]
    rcases encoded s last with _ | out
    · exact .inl ⟨rfl, rfl⟩
    · refine .inr ⟨_, _, _, rfl, rfl, ?_, ?_⟩
      · rw [List.foldl_append]
        rfl
      · rw [in_order_append, ← records_in_order, ← records_in_order, List.append_assoc,
          List.map_append]
        simp

/-- In one piece, no record goes out before every line is encoded. -/
theorem written_none {data : Bytes} (h : (all_lines cs s data).mapM (encoded s) = none) :
    write_member_lines cs s write data = ⟨[], .encode_failed⟩ := by
  rw [write_member_lines]
  rcases collect_lines_eq cs s data with ⟨-, hcollect⟩ | ⟨outs, _, _, houts, -⟩
  · rw [hcollect]
  · rw [h] at houts
    cases houts

theorem written_in_order {data : Bytes} {outs : List EncodedLine}
    (h : (all_lines cs s data).mapM (encoded s) = some outs) :
    write_member_lines cs s write data =
      finish s outs (hand_out write (in_order cs outs) []) := by
  rw [write_member_lines]
  rcases collect_lines_eq cs s data with ⟨hnone, -⟩ |
    ⟨outs', st, lines, houts, hlines, htruncation, hrecords⟩
  · rw [h] at hnone
    cases hnone
  · rw [h, Option.some_inj] at houts
    subst houts
    rw [hlines]
    dsimp only
    rw [write_lines_eq, hrecords, htruncation]
    rcases hand_out write (in_order cs outs) [] with written | handed
    · rfl
    · rfl

/-! In chunks. -/

/-- What is handed out before a line that cannot be encoded. -/
def fail : Except Written (List Bytes) → Written
  | .error written => written
  | .ok handed => ⟨handed, .encode_failed⟩

/-- The lines of the text, then the one that no newline ends, then the one held back. -/
def stream_lines (cs : Charset) (s : LineSetup) (write : List Bytes → Bool) (data : Bytes) :
    Except Written (List Bytes × TruncationTracker) := do
  let st ← (Lines.complete s.newline_char data).foldlM (stream_line cs s write) {}
  let st ← stream_trailing_line cs s write
    { st with line_buffer := Lines.unfinished s.newline_char data }
  let handed ← write_prev_line write st.prev_line st.handed
  .ok (handed, st.state.truncation.flush_range)

def Written.of : Except Written (List Bytes × TruncationTracker) → Written
  | .error written => written
  | .ok (handed, truncation) => ⟨handed, .finished truncation⟩

/-- Chunks that are decoded in full are written as what they are decoded to. -/
theorem streamed_of_decoded {data : Bytes} {chunks : List Bytes}
    (h : decoded_data chunks (some []) = (data, none)) :
    write_member_lines_streamed cs s write chunks = .of (stream_lines cs s write data) := by
  rw [write_member_lines_streamed, stream_lines,
    stream_chunks_eq chunks (some []) {} (Lines.complete_nil _) (Lines.unfinished_nil _), h]
  dsimp only
  rw [bind_assoc]
  rfl

theorem streamed_eq {data : Bytes} {chunks : List Bytes}
    (h : chunks.flatten = zbase64.encode data) :
    write_member_lines_streamed cs s write chunks = .of (stream_lines cs s write data) := by
  have hdecode : zbase64.decode chunks.flatten = .ok data := by
    rw [h]
    exact zbase64.decode_encode data
  obtain ⟨outs, hrun, hflat⟩ := zbase64.decode_run_flatten hdecode
  exact streamed_of_decoded (hflat ▸ decoded_data_of_run hrun)

theorem stream_fails {data : Bytes} {before after : List PreparedLine} {line : PreparedLine}
    {outs : List EncodedLine} (hlines : kept_lines cs s data = before ++ line :: after)
    (h : before.mapM (encoded s) = some outs) (hline : encoded s line = none) :
    Written.of (stream_lines cs s write data) =
      fail (hand_out write (held_back cs none outs ++ overflow cs line.overflow_records) []) := by
  have hkept : (keep_lines cs s ({} : StreamState).state.asa_state
      (Lines.complete s.newline_char data)).1 = before ++ line :: after := hlines
  rw [stream_lines, stream_fold, hkept, kept_fold_fails _ h hline]
  rcases hand_out write (held_back cs none outs ++ overflow cs line.overflow_records) []
    with written | handed
  · rfl
  · rfl

theorem stream_lines_kept {data : Bytes} {outs : List EncodedLine}
    (h : (kept_lines cs s data).mapM (encoded s) = some outs) :
    stream_lines cs s write data = (do
      let handed ← hand_out write (held_back cs none outs) []
      let st ← stream_trailing_line cs s write
        { state := { outs.foldl (count_line s) {} with
            asa_state := (keep_lines cs s {} (Lines.complete s.newline_char data)).2 },
          prev_line := last_line none outs, handed,
          line_buffer := Lines.unfinished s.newline_char data }
      let handed ← write_prev_line write st.prev_line st.handed
      .ok (handed, st.state.truncation.flush_range)) := by
  have hfold := kept_fold cs s write {} h
  rw [kept_lines] at hfold
  rw [stream_lines, stream_fold]
  change (do let st ← Except.map (with_blanks _) (List.foldlM (stream_kept cs s write) {} _)
             _) = _
  rw [hfold]
  dsimp only [bind, Except.bind]
  rcases hand_out write (held_back cs none outs) [] with written | handed
  · rfl
  · rfl

theorem stream_last_fails {data : Bytes} {line : PreparedLine} {outs : List EncodedLine}
    (hlast : kept_last cs s data = some line)
    (h : (kept_lines cs s data).mapM (encoded s) = some outs) (hline : encoded s line = none) :
    Written.of (stream_lines cs s write data) =
      fail (hand_out write (held_back cs none outs) []) := by
  rw [kept_last_eq] at hlast
  rw [stream_lines_kept h]
  have hbuffer : Lines.unfinished s.newline_char data ≠ [] := by
    intro hempty
    rw [hempty, kept_end_nil] at hlast
    cases hlast
  dsimp only [bind, Except.bind]
  rcases hand_out write (held_back cs none outs) [] with written | handed
  · rfl
  · dsimp only
    rw [stream_trailing_line, if_neg hbuffer, trailing_line_keeps _ hlast, hline]
    rfl

theorem held_back_append (prev_line : Option Line) (outs more : List EncodedLine) :
    held_back cs prev_line (outs ++ more) =
      held_back cs prev_line outs ++ held_back cs (last_line prev_line outs) more := by
  induction outs generalizing prev_line with
  | nil => rfl
  | cons out outs ih =>
    obtain ⟨overflow_count, line⟩ := out
    rw [List.cons_append, held_back, held_back, ih, List.append_assoc _ _ (held_back _ _ more)]
    rfl

theorem stream_trailing_skips (cs : Charset) (s : LineSetup)
    (write : List Bytes → Bool) (st : StreamState)
    (h : kept_end cs s st.state.asa_state st.line_buffer = none) :
    ∃ next : LineState, next.truncation = st.state.truncation ∧
      stream_trailing_line cs s write st = .ok { st with state := next } := by
  rw [stream_trailing_line]
  by_cases hempty : st.line_buffer = []
  · rw [if_pos hempty]
    exact ⟨st.state, rfl, rfl⟩
  · obtain ⟨next, hnext, hskips⟩ := trailing_line_skips _ h
    rw [if_neg hempty, hskips]
    exact ⟨next, hnext, rfl⟩

theorem stream_trailing_keeps (st : StreamState) {line : PreparedLine} {out : EncodedLine}
    (h : kept_end cs s st.state.asa_state st.line_buffer = some line)
    (hout : encoded s line = some out) :
    stream_trailing_line cs s write st = (do
      let handed ← hand_out write (held_back cs st.prev_line [out]) st.handed
      .ok { st with
        state := { count_line s st.state out with
          asa_state := (keep_line cs s st.state.asa_state st.line_buffer).2 },
        handed, prev_line := some out.2 }) := by
  have hbuffer : st.line_buffer ≠ [] := by
    intro hempty
    rw [hempty, kept_end_nil] at h
    cases h
  obtain ⟨overflow_count, line'⟩ := out
  rw [stream_trailing_line, if_neg hbuffer, trailing_line_keeps _ h, hout, held_back, held_back,
    List.append_nil, hand_out_append]
  dsimp only [Option.map_some]
  rw [overflow_eq]
  rcases hand_out write (overflow cs overflow_count) st.handed with written | handed
  · rfl
  dsimp only [bind, Except.bind]
  rw [prev_line_eq]
  rcases hand_out write (st.prev_line.toList.map Line.record) handed with written | handed
  · rfl
  · rfl

/-- In chunks, where every line is encoded, each goes out after the next one's overflow records. -/
theorem stream_held_back {data : Bytes} {outs : List EncodedLine}
    (h : (all_lines cs s data).mapM (encoded s) = some outs) :
    Written.of (stream_lines cs s write data) =
      finish s outs (hand_out write
        (held_back cs none outs ++ (last_line none outs).toList.map Line.record) []) := by
  rw [all_lines] at h
  rcases hlast : kept_last cs s data with _ | line
  · rw [hlast, Option.toList_none, List.append_nil] at h
    rw [kept_last_eq] at hlast
    rw [stream_lines_kept h, hand_out_append]
    dsimp only [bind, Except.bind]
    rcases hand_out write (held_back cs none outs) [] with written | handed
    · rfl
    obtain ⟨next, hnext, hskips⟩ := stream_trailing_skips cs s write
      ⟨{ outs.foldl (count_line s) {} with
        asa_state := (keep_lines cs s {} (Lines.complete s.newline_char data)).2 },
        last_line none outs, handed, Lines.unfinished s.newline_char data⟩ hlast
    dsimp only
    rw [hskips]
    dsimp only
    rw [prev_line_eq, hnext]
    rcases hand_out write ((last_line none outs).toList.map Line.record) handed with _ | handed
    · rfl
    · rfl
  · rw [hlast, Option.toList_some] at h
    rw [kept_last_eq] at hlast
    obtain ⟨before, out, hbefore, hout, rfl⟩ := mapM_concat_some h
    rw [stream_lines_kept hbefore, held_back_append, List.append_assoc, hand_out_append]
    dsimp only [bind, Except.bind]
    rcases hand_out write (held_back cs none before) [] with written | handed
    · rfl
    dsimp only
    rw [stream_trailing_keeps ⟨{ before.foldl (count_line s) {} with
        asa_state := (keep_lines cs s {} (Lines.complete s.newline_char data)).2 },
        last_line none before, handed, Lines.unfinished s.newline_char data⟩ hlast hout,
      hand_out_append]
    dsimp only [bind, Except.bind]
    rcases hand_out write (held_back cs (last_line none before) [out]) handed with _ | handed
    · rfl
    dsimp only
    have hlast : last_line none (before ++ [out]) = some out.2 := by
      rw [last_line, List.foldl_append]
      rfl
    rw [prev_line_eq, hlast]
    rcases hand_out write ((some out.2).toList.map Line.record) handed with _ | handed
    · rfl
    · rw [finish, List.foldl_append]
      rfl

/-! The two orders. -/

theorem replicate_append_comm {α : Type*} {a b : α} {n : ℕ} :
    List.replicate n a ++ [b] = b :: List.replicate n a ↔ n = 0 ∨ b = a := by
  induction n with
  | zero => simp
  | succ n ih =>
    rw [List.replicate_succ, List.cons_append, List.cons_eq_cons]
    constructor
    · exact fun h => .inr h.1.symm
    · rintro (h | rfl)
      · omega
      · refine ⟨rfl, ?_⟩
        rw [← List.replicate_succ]
        exact ih.mpr (.inr rfl)

/-- Holding a line back changes nothing just when what overtakes it is the same record. -/
theorem held_back_iff (prev_line : Line) (outs : List EncodedLine) (before_count : ℕ) :
    held_back cs (some prev_line) outs ++ (last_line (some prev_line) outs).toList.map Line.record =
        prev_line.record :: in_order cs outs ↔
      ((before_count, prev_line) :: outs).IsChain fun before after =>
        after.1 = 0 ∨ before.2.record = [cs.code '-'] := by
  induction outs generalizing prev_line before_count with
  | nil => simp [held_back, last_line, in_order]
  | cons out outs ih =>
    obtain ⟨overflow_count, line⟩ := out
    rw [List.isChain_cons_cons, ← ih line overflow_count, ← replicate_append_comm]
    have hleft : held_back cs (some prev_line) ((overflow_count, line) :: outs) ++
        (last_line (some prev_line) ((overflow_count, line) :: outs)).toList.map Line.record =
        (overflow cs overflow_count ++ [prev_line.record]) ++ (held_back cs (some line) outs ++
          (last_line (some line) outs).toList.map Line.record) := by
      rw [held_back, List.append_assoc]
      rfl
    have hright : prev_line.record :: in_order cs ((overflow_count, line) :: outs) =
        (prev_line.record :: overflow cs overflow_count) ++ (line.record :: in_order cs outs) := by
      rw [in_order, List.flatMap_cons, List.append_assoc]
      rfl
    rw [hleft, hright]
    constructor
    · exact fun h => List.append_inj h (by simp)
    · rintro ⟨hfirst, hrest⟩
      exact congrArg₂ _ hfirst hrest

theorem held_back_iff_none (outs : List EncodedLine) :
    held_back cs none outs ++ (last_line none outs).toList.map Line.record = in_order cs outs ↔
      outs.IsChain fun before after => after.1 = 0 ∨ before.2.record = [cs.code '-'] := by
  rcases outs with _ | ⟨⟨overflow_count, line⟩, outs⟩
  · simp [held_back, last_line, in_order]
  · rw [← held_back_iff line outs overflow_count, held_back, in_order, List.flatMap_cons,
      ← in_order]
    simp [last_line]

/-- Nothing is handed out before the line that fails. -/
theorem held_back_nil (outs : List EncodedLine) :
    held_back cs none outs = [] ↔ outs.length ≤ 1 ∧ ∀ out ∈ outs, out.1 = 0 := by
  rcases outs with _ | ⟨⟨overflow_count, line⟩, _ | ⟨⟨_, _⟩, _⟩⟩
  · simp [held_back]
  · simp [held_back, overflow]
  · simp [held_back]

/-! The lines, and what they are encoded to. -/

theorem encoded_eq_none {line : PreparedLine} :
    encoded s line = none ↔ s.encode line.line = none := by
  rw [encoded, Option.map_eq_none_iff]

theorem encodes_of_mapM {lines : List PreparedLine} {outs : List EncodedLine}
    (h : lines.mapM (encoded s) = some outs) : ∀ line ∈ lines, s.encode line.line ≠ none := by
  rw [Traversals.mapM_eq_some_iff] at h
  induction h with
  | nil => simp
  | cons hline _ ih =>
    refine List.forall_mem_cons.mpr ⟨fun hnone => ?_, ih⟩
    rw [encoded_eq_none.mpr hnone] at hline
    cases hline

theorem isChain_encoded {lines : List PreparedLine} {outs : List EncodedLine}
    (h : lines.mapM (encoded s) = some outs) :
    (lines.IsChain fun before after => after.overflow_records = 0 ∨
        ∃ line, s.encode before.line = some line ∧
          Line.record (line, before.asa_char) = [cs.code '-']) ↔
      outs.IsChain fun before after => after.1 = 0 ∨ before.2.record = [cs.code '-'] := by
  rw [Traversals.mapM_eq_some_iff] at h
  induction h with
  | nil => simp
  | @cons line out lines outs hline hrest ih =>
    obtain ⟨text, htext, rfl⟩ := Option.map_eq_some_iff.mp hline
    cases hrest with
    | nil => simp
    | @cons next out' _ _ hnext hrest =>
      obtain ⟨text', htext', rfl⟩ := Option.map_eq_some_iff.mp hnext
      rw [List.isChain_cons_cons, List.isChain_cons_cons, ih, htext]
      simp

theorem overflow_encoded {lines : List PreparedLine} {outs : List EncodedLine}
    (h : lines.mapM (encoded s) = some outs) :
    (outs.length ≤ 1 ∧ ∀ out ∈ outs, out.1 = 0) ↔
      lines.length ≤ 1 ∧ ∀ line ∈ lines, line.overflow_records = 0 := by
  rw [Traversals.mapM_eq_some_iff] at h
  rw [h.length_eq]
  refine and_congr Iff.rfl ?_
  induction h with
  | nil => simp
  | cons hline _ ih =>
    obtain ⟨text, -, rfl⟩ := Option.map_eq_some_iff.mp hline
    rw [List.forall_mem_cons, List.forall_mem_cons, ih]

/-- A line that cannot be encoded leaves no record in either write just when none went out
before it. -/
theorem fail_eq_iff (records : List Bytes) :
    (∀ write, fail (hand_out write records []) = ⟨[], .encode_failed⟩) ↔ records = [] := by
  constructor
  · intro h
    have hall := h fun _ => true
    rw [hand_out, write_lines_all, List.nil_append, List.map_map] at hall
    have hrecords := congrArg Written.handed hall
    exact (List.map_id' records).symm.trans hrecords
  · rintro rfl write
    rfl

theorem finish_eq_iff (outs : List EncodedLine) (records records' : List Bytes) :
    (∀ write, finish s outs (hand_out write records []) =
        finish s outs (hand_out write records' [])) ↔ records = records' := by
  constructor
  · intro h
    have hall := h fun _ => true
    rw [hand_out, write_lines_all, List.nil_append, List.map_map, hand_out, write_lines_all,
      List.nil_append, List.map_map] at hall
    have hrecords := congrArg Written.handed hall
    exact (List.map_id' records).symm.trans (hrecords.trans (List.map_id' records'))
  · rintro rfl write
    rfl

/-- There is one first line that cannot be encoded. -/
theorem first_failing {before before' after after' : List PreparedLine} {line line' : PreparedLine}
    (heq : before ++ line :: after = before' ++ line' :: after')
    (h : ∀ line ∈ before, s.encode line.line ≠ none) (hline : s.encode line.line = none)
    (h' : ∀ line ∈ before', s.encode line.line ≠ none) (hline' : s.encode line'.line = none) :
    before' = before ∧ line' = line := by
  induction before generalizing before' with
  | nil =>
    rcases before' with _ | ⟨first, before'⟩
    · exact ⟨rfl, (List.cons_eq_cons.mp heq).1.symm⟩
    · obtain ⟨rfl, -⟩ := List.cons_eq_cons.mp heq
      exact absurd hline (h' _ List.mem_cons_self)
  | cons first before ih =>
    rcases before' with _ | ⟨first', before'⟩
    · obtain ⟨rfl, -⟩ := List.cons_eq_cons.mp heq
      exact absurd hline' (h _ List.mem_cons_self)
    · obtain ⟨rfl, hrest⟩ := List.cons_eq_cons.mp heq
      obtain ⟨rfl, rfl⟩ := ih hrest (fun l hl => h l (List.mem_cons_of_mem _ hl))
        fun l hl => h' l (List.mem_cons_of_mem _ hl)
      exact ⟨rfl, rfl⟩

theorem keeps_order_of_encodes {lines : List PreparedLine} {last : Option PreparedLine}
    {outs : List EncodedLine} (h : (lines ++ last.toList).mapM (encoded s) = some outs) :
    KeepsOrder cs s lines last ↔
      outs.IsChain fun before after => after.1 = 0 ∨ before.2.record = [cs.code '-'] := by
  have hencodes := encodes_of_mapM h
  rw [← isChain_encoded h]
  constructor
  · exact fun hkeeps => hkeeps.blanks hencodes
  · intro hchain
    refine ⟨fun _ => hchain, ?_, ?_⟩
    · rintro before after line rfl - hnone
      exact absurd hnone (hencodes line (by simp))
    · rintro line rfl - hnone
      exact absurd hnone (hencodes line (by simp))

theorem keeps_order_of_failing {before after : List PreparedLine} {line : PreparedLine}
    {last : Option PreparedLine} {outs : List EncodedLine}
    (h : before.mapM (encoded s) = some outs) (hline : encoded s line = none) :
    KeepsOrder cs s (before ++ line :: after) last ↔
      held_back cs none outs ++ overflow cs line.overflow_records = [] := by
  rw [encoded_eq_none] at hline
  have hencodes := encodes_of_mapM h
  rw [List.append_eq_nil_iff, held_back_nil, overflow_encoded h, overflow,
    List.replicate_eq_nil_iff]
  constructor
  · intro hkeeps
    obtain ⟨hlength, hoverflow, hall⟩ := hkeeps.fails before after line rfl hencodes hline
    exact ⟨⟨hlength, hall⟩, hoverflow⟩
  · rintro ⟨⟨hlength, hall⟩, hoverflow⟩
    refine ⟨fun hnone => absurd hline (hnone line (by simp)), ?_,
      fun _ _ hnone => absurd hline (hnone line (by simp))⟩
    intro before' after' line' heq hbefore' hline'
    obtain ⟨rfl, rfl⟩ := first_failing heq hencodes hline hbefore' hline'
    exact ⟨hlength, hoverflow, hall⟩

theorem keeps_order_of_last_failing {lines : List PreparedLine} {last : PreparedLine}
    {outs : List EncodedLine} (h : lines.mapM (encoded s) = some outs)
    (hlast : encoded s last = none) :
    KeepsOrder cs s lines (some last) ↔ held_back cs none outs = [] := by
  rw [encoded_eq_none] at hlast
  have hencodes := encodes_of_mapM h
  rw [held_back_nil, overflow_encoded h]
  constructor
  · exact fun hkeeps => hkeeps.last_fails last rfl hencodes hlast
  · intro hnone
    refine ⟨fun hall => absurd hlast (hall last (by simp)), ?_, fun _ _ _ _ => hnone⟩
    rintro before after line rfl - hline
    exact absurd hline (hencodes line (by simp))

/-- A member written in chunks gets the records of one written at once, however the writes of
the records fail, just when no line that is held back goes out in another place. -/
theorem streamed_iff_keeps_order (cs : Charset) (s : LineSetup) (data : Bytes)
    (chunks : List Bytes) (h : chunks.flatten = zbase64.encode data) :
    (∀ write, write_member_lines_streamed cs s write chunks =
        write_member_lines cs s write data) ↔
      KeepsOrder cs s (kept_lines cs s data) (kept_last cs s data) := by
  simp only [streamed_eq h]
  rcases Traversals.mapM_cases (encoded s) (all_lines cs s data) with ⟨outs, houts⟩ | hfails
  · simp only [stream_held_back houts, written_in_order houts]
    rw [finish_eq_iff, held_back_iff_none, keeps_order_of_encodes houts]
  have hnone : (all_lines cs s data).mapM (encoded s) = none := by
    obtain ⟨before, line, after, outs, hlines, houts, hline⟩ := hfails
    rw [hlines, List.mapM_append, houts, List.mapM_cons, hline]
    rfl
  simp only [written_none hnone]
  rcases Traversals.mapM_cases (encoded s) (kept_lines cs s data) with ⟨outs, houts⟩ |
    ⟨before, line, after, outs, hlines, houts, hline⟩
  · rcases hlast : kept_last cs s data with _ | last
    · rw [all_lines, hlast, Option.toList_none, List.append_nil, houts] at hnone
      cases hnone
    · have hline : encoded s last = none := by
        rw [all_lines, hlast, Option.toList_some, mapM_concat houts, Option.map_eq_none_iff]
          at hnone
        exact hnone
      simp only [stream_last_fails hlast houts hline]
      rw [fail_eq_iff, keeps_order_of_last_failing houts hline]
  · simp only [stream_fails hlines houts hline]
    rw [fail_eq_iff, hlines, keeps_order_of_failing houts hline]

/-- Print lines of at most 79 bytes that need no conversion. -/
def asa_setup : LineSetup := ⟨ibm1047.code '\n', true, 79, some⟩

/-- Three blank lines between two others. -/
def blank_lines : Bytes := ibm1047.str "a\n\n\n\nb\n"

theorem streamed_iff_keeps_order_split :
    [ibm1047.str "gRU", ibm1047.str "VFRWC", ibm1047.str "FQ=="].flatten =
        zbase64.encode blank_lines ∧
      ((∀ write, write_member_lines_streamed ibm1047 asa_setup write
          [ibm1047.str "gRU", ibm1047.str "VFRWC", ibm1047.str "FQ=="] =
        write_member_lines ibm1047 asa_setup write blank_lines) ↔
      KeepsOrder ibm1047 asa_setup (kept_lines ibm1047 asa_setup blank_lines)
        (kept_last ibm1047 asa_setup blank_lines)) := by
  have hflat : [ibm1047.str "gRU", ibm1047.str "VFRWC", ibm1047.str "FQ=="].flatten =
      zbase64.encode blank_lines := by
    rw [zbase64.encode_eq_groups]
    decide +kernel
  exact ⟨hflat, streamed_iff_keeps_order ibm1047 asa_setup blank_lines _ hflat⟩

/-- In one piece the records are " a", "-" and " b", in chunks the second is first. -/
theorem overflow_overtakes :
    ¬ ∀ chunks : List Bytes, chunks.flatten = zbase64.encode blank_lines →
      (write_member_lines_streamed ibm1047 asa_setup (fun _ => true) chunks).handed =
        (write_member_lines ibm1047 asa_setup (fun _ => true) blank_lines).handed := by
  intro h
  have hsame := h [ibm1047.str "gRUVFRWCFQ=="] (by
    rw [zbase64.encode_eq_groups]
    decide +kernel)
  revert hsame
  decide +kernel

end Zowex.zds

import Zowex.Lib.Ranges
import Zowex.Spec.DataSets

/-! The lines that a tracker was given are read back from the ranges it wrote, and the tracker of a
scan was given the lines that are too long. -/

namespace Zowex.zds

open Ranges

namespace TruncationTracker

/-- The ranges that stand in the text and the one that may still grow, and the lines in them. -/
structure Holds (written : List Range) (pending : Option Range) (lines : List ℕ)
    (t : TruncationTracker) : Prop where
  count : t.count = lines.length
  text : t.lines_str.toList = Ranges.text written
  range : t.range = pending.map fun r => (r.first, r.last)
  numbers : Ranges.numbers (written ++ pending.toList) = lines
  separate : Separate (written ++ pending.toList)

variable {written : List Range} {pending : Option Range} {lines : List ℕ} {t : TruncationTracker}
  {n : ℕ}

theorem Holds.start : Holds [] none [] {} := ⟨rfl, rfl, rfl, rfl, List.Pairwise.nil⟩

theorem toList_toString (n : ℕ) : (toString n).toList = Nat.toDigits 10 n := Nat.toList_repr

theorem toList_range (r : Range) :
    (if r.first = r.last then toString r.first
      else toString r.first ++ "-" ++ toString r.last).toList = r.text := by
  rw [Range.text]
  split_ifs
  · exact toList_toString _
  · simp [toList_toString]

theorem Holds.flush_range (h : Holds written pending lines t) :
    Holds (written ++ pending.toList) none lines t.flush_range := by
  have hrange := h.range
  rw [TruncationTracker.flush_range]
  cases pending with
  | none =>
    rw [hrange]
    simpa using h
  | some r =>
    have hempty : t.lines_str = "" ↔ Ranges.text written = [] := by
      rw [← h.text, String.toList_eq_nil_iff]
    rw [hrange]
    refine ⟨h.count, ?_, rfl, by simpa using h.numbers, by simpa using h.separate⟩
    simp only [Option.map_some, Option.toList_some, String.toList_append, toList_range]
    rw [text_concat]
    by_cases hnil : t.lines_str = ""
    · rw [if_pos hnil, if_pos (hempty.mp hnil)]
      rfl
    · rw [if_neg hnil, if_neg (mt hempty.mpr hnil), String.toList_append, h.text]
      rfl

/-- A line behind a gap begins a range of its own. -/
theorem Holds.begin_range (h : Holds written none lines t)
    (hgap : ∀ a ∈ written, a.last + 1 < n) :
    Holds written (some (Range.single n)) (lines ++ [n])
      { t with count := t.count + 1, range := some (n, n) } := by
  have hnumbers := h.numbers
  have hseparate := h.separate
  rw [Option.toList_none, List.append_nil] at hnumbers hseparate
  refine ⟨by simp [h.count], h.text, rfl, ?_, hseparate.concat hgap⟩
  rw [Option.toList_some, numbers_concat, hnumbers, Range.numbers_single]

/-- The line behind the last one of the pending range belongs to it. -/
theorem Holds.extend_range {r : Range} (h : Holds written (some r) lines t) :
    Holds written (some r.extend) (lines ++ [r.last + 1])
      { t with count := t.count + 1, range := some (r.first, r.last + 1) } := by
  have hnumbers := h.numbers
  have hseparate := h.separate
  rw [Option.toList_some, numbers_concat] at hnumbers
  rw [Separate, Option.toList_some, List.pairwise_append] at hseparate
  refine ⟨by simp [h.count], h.text, rfl, ?_, Separate.concat hseparate.1 ?_⟩
  · rw [Option.toList_some, numbers_concat, Range.numbers_extend, ← List.append_assoc, hnumbers]
  · intro a ha
    exact hseparate.2.2 a ha r (List.mem_singleton_self r)

/-- The count is the same before the pending range is written and after it. -/
theorem add_line_gap {range : ℕ × ℕ} (hrange : t.range = some range) (hgap : n ≠ range.2 + 1) :
    t.add_line n =
      { t.flush_range with count := t.flush_range.count + 1, range := some (n, n) } := by
  obtain ⟨count, _, lines_str⟩ := t
  obtain rfl := hrange
  simp [TruncationTracker.add_line, TruncationTracker.flush_range, hgap]

theorem Holds.last_lt (h : Holds written pending lines t) (hlines : ∀ m ∈ lines, m < n) :
    ∀ a ∈ written ++ pending.toList, a.last < n := by
  intro a ha
  apply hlines
  rw [← h.numbers]
  exact List.mem_flatMap.mpr ⟨a, ha, Range.mem_numbers.mpr ⟨a.ordered, le_rfl⟩⟩

theorem Holds.last_le {r : Range} (h : Holds written (some r) lines t) :
    ∀ a ∈ written ++ [r], a.last ≤ r.last := by
  intro a ha
  rcases List.mem_append.mp ha with ha | ha
  · have hsep := (List.pairwise_append.mp h.separate).2.2 a ha r (List.mem_singleton_self r)
    have := r.ordered
    omega
  · rw [List.mem_singleton.mp ha]

/-- Without a pending range there is none that was written. -/
theorem Holds.add_line (h : Holds written pending lines t) (hopen : pending = none → written = [])
    (hlines : ∀ m ∈ lines, m < n) :
    ∃ written r, Holds written (some r) (lines ++ [n]) (t.add_line n) := by
  have hrange := h.range
  have hlast := h.last_lt hlines
  cases pending with
  | none =>
    obtain rfl := hopen rfl
    rw [TruncationTracker.add_line, hrange]
    exact ⟨[], _, h.begin_range (by simp)⟩
  | some r =>
    by_cases hnext : n = r.last + 1
    · subst hnext
      rw [TruncationTracker.add_line, hrange]
      simp only [Option.map_some, if_true]
      exact ⟨written, _, h.extend_range⟩
    · have hgap : ∀ a ∈ written ++ [r], a.last + 1 < n := by
        intro a ha
        have hr : r.last < n := hlast r (by simp)
        have hle : a.last ≤ r.last := h.last_le a ha
        omega
      rw [add_line_gap hrange hnext]
      exact ⟨_, _, h.flush_range.begin_range hgap⟩

/-- The lines come in order, each above those before it. -/
theorem Holds.add_lines {more : List ℕ} (h : Holds written pending lines t)
    (hopen : pending = none → written = []) (hlines : (lines ++ more).Pairwise (· < ·)) :
    ∃ written pending, Holds written pending (lines ++ more)
      (more.foldl TruncationTracker.add_line t) := by
  induction more generalizing written pending lines t with
  | nil => exact ⟨written, pending, by simpa using h⟩
  | cons n more ih =>
    rw [List.append_cons] at hlines ⊢
    have hbefore : ∀ m ∈ lines, m < n := by
      intro m hm
      exact (List.pairwise_append.mp (List.pairwise_append.mp hlines).1).2.2 m hm n (by simp)
    obtain ⟨written', r, hadded⟩ := h.add_line hopen hbefore
    exact ih hadded (fun hnone => absurd hnone (Option.some_ne_none r)) hlines

/-- What a tracker reports of the lines it was given. -/
structure Reports (t : TruncationTracker) (lines : List ℕ) : Prop where
  count : t.count = lines.length
  ranges : ∃ ranges, parse t.lines_str.toList = some ranges ∧ Ranges.numbers ranges = lines ∧
    Separate ranges

theorem Holds.reports (h : Holds written pending lines t) : Reports t.flush_range lines := by
  have hflushed := h.flush_range
  have hnumbers := hflushed.numbers
  have hseparate := hflushed.separate
  rw [Option.toList_none, List.append_nil] at hnumbers hseparate
  refine ⟨hflushed.count, _, ?_, hnumbers, hseparate⟩
  rw [hflushed.text, parse_text]

/-- A strictly increasing sequence of lines is what the text of its ranges stands for. -/
theorem ranges_lossless {lines : List ℕ} (h : lines.Pairwise (· < ·)) :
    Reports (lines.foldl TruncationTracker.add_line {}).flush_range lines := by
  obtain ⟨_, _, hholds⟩ := Holds.start.add_lines (fun _ => rfl) h
  exact hholds.reports

theorem ranges_lossless_of_some :
    Reports ([2, 3, 4, 9, 11, 12].foldl TruncationTracker.add_line {}).flush_range
      [2, 3, 4, 9, 11, 12] :=
  ranges_lossless (by decide)

example : ([2, 3, 4, 9, 11, 12].foldl add_line {}).flush_range.lines_str = "2-4, 9, 11-12" := by
  decide +kernel

end TruncationTracker

/-! The lines of a scan. -/

/-- The lines that a scan measures: an empty one behind the last newline is none. -/
def scanned_lines (data : Bytes) (newline_char : UInt8) : List Bytes :=
  let rest := Lines.unfinished newline_char data
  Lines.complete newline_char data ++ if rest = [] then [] else [rest]

/-- The numbers of the lines that are longer than `max_len`. -/
def long_lines (max_len : ℤ) (line_num : ℕ) (lines : List Bytes) : List ℕ :=
  ((lines.zipIdx (line_num + 1)).filter fun line => ((strip_cr line.1).length : ℤ) > max_len).map
    Prod.snd

variable {max_len : ℤ} {data : Bytes} {newline_char : UInt8}

theorem foldl_measure_line (lines : List Bytes) (line_num : ℕ) (t : TruncationTracker) :
    lines.foldl (measure_line max_len) (line_num, t) =
      (line_num + lines.length,
        (long_lines max_len line_num lines).foldl TruncationTracker.add_line t) := by
  induction lines generalizing line_num t with
  | nil => rfl
  | cons line lines ih =>
    rw [List.foldl_cons, measure_line, ih, List.length_cons, Nat.add_comm lines.length 1,
      ← Nat.add_assoc]
    congr 1
    by_cases hlong : ((strip_cr line).length : ℤ) > max_len
    · simp [long_lines, hlong]
    · simp [long_lines, hlong]

theorem long_lines_increasing (line_num : ℕ) (lines : List Bytes) :
    (long_lines max_len line_num lines).Pairwise (· < ·) := by
  have hsublist : (long_lines max_len line_num lines).Sublist
      ((lines.zipIdx (line_num + 1)).map Prod.snd) := List.filter_sublist.map _
  rw [List.zipIdx_map_snd] at hsublist
  exact List.Pairwise.sublist hsublist List.pairwise_lt_range'

theorem scan_for_truncated_lines_eq :
    scan_for_truncated_lines data max_len newline_char =
      ((long_lines max_len 0 (scanned_lines data newline_char)).foldl
        TruncationTracker.add_line {}).flush_range := by
  have hmeasured := @foldl_measure_line max_len (scanned_lines data newline_char) 0 {}
  rw [scanned_lines, List.foldl_append] at hmeasured
  rw [scan_for_truncated_lines, measure_rest, scanned_lines]
  by_cases hrest : Lines.unfinished newline_char data = []
  · simp only [if_pos hrest, List.foldl_nil] at hmeasured ⊢
    rw [hmeasured]
  · simp only [if_neg hrest, List.foldl_cons, List.foldl_nil] at hmeasured ⊢
    rw [hmeasured]

/-- A scan reports the lines that are longer than the record can hold. -/
theorem scan_reports :
    (scan_for_truncated_lines data max_len newline_char).Reports
      (long_lines max_len 0 (scanned_lines data newline_char)) := by
  rw [scan_for_truncated_lines_eq]
  obtain ⟨_, _, hholds⟩ := TruncationTracker.Holds.start.add_lines (fun _ => rfl)
    (long_lines_increasing 0 (scanned_lines data newline_char))
  exact hholds.reports

end Zowex.zds

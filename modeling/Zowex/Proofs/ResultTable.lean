import Zowex.Lib.Csv
import Zowex.Spec.ResultTable

/-! The lines of a table in CSV, read as records. The cells are joined with commas as they are, and
so a line is read back as the cells of its row where none of them needs quotes. -/

namespace Zowex.format

open zds (zut_trim)

variable {α : Type*} {cs : Charset}

theorem zut_format_as_csv_eq (fields : List Bytes) :
    zut_format_as_csv cs fields = Csv.join (cs.code ',') (fields.map (zut_trim cs)) := by
  induction fields with
  | nil => rfl
  | cons field fields ih =>
    rcases fields with _ | ⟨next, fields⟩
    · rw [List.map_singleton, Csv.join_singleton]
      rfl
    · rw [List.map_cons, Csv.join_cons (by simp), ← ih]
      rfl

/-- Without leading and trailing blanks. -/
def Trimmed (cs : Charset) (cell : Bytes) : Prop :=
  cell.head? ≠ some (cs.code ' ') ∧ cell.getLast? ≠ some (cs.code ' ')

theorem dropWhile_of_head {cell : Bytes} (h : cell.head? ≠ some (cs.code ' ')) :
    cell.dropWhile (· = cs.code ' ') = cell := by
  rcases cell with _ | ⟨c, cell⟩
  · rfl
  · rw [List.dropWhile_cons_of_neg]
    simpa using h

theorem zut_trim_of_trimmed {cell : Bytes} (h : Trimmed cs cell) : zut_trim cs cell = cell := by
  have hlast : cell.reverse.dropWhile (· = cs.code ' ') = cell.reverse :=
    dropWhile_of_head (by rw [List.head?_reverse]; exact h.2)
  rw [zut_trim, hlast, List.reverse_reverse, dropWhile_of_head h.1]

theorem map_zut_trim {cells : List Bytes} (h : ∀ cell ∈ cells, Trimmed cs cell) :
    cells.map (zut_trim cs) = cells := by
  rw [List.map_congr_left fun cell hcell => zut_trim_of_trimmed (h cell hcell), List.map_id']

theorem trimmed_nil : Trimmed cs [] :=
  ⟨by simp, by simp⟩

namespace ResultTable

variable {table : ResultTable α} {cells : List Bytes}

theorem mem_resize {cell : Bytes} (h : cell ∈ table.resize cells) : cell ∈ cells ∨ cell = [] := by
  rw [resize, List.mem_append] at h
  exact h.imp id List.eq_of_mem_replicate

theorem resize_ne_nil_iff (hcells : cells.length ≤ table.m_widths.length) :
    table.resize cells ≠ [] ↔ table.m_widths ≠ [] := by
  rw [← List.length_pos_iff, ← List.length_pos_iff, resize, List.length_append,
    List.length_replicate]
  omega

theorem print_line_csv (hcsv : table.m_csv) (htrimmed : ∀ cell ∈ cells, Trimmed cs cell) :
    table.print_line cs cells =
      Csv.join (cs.code ',') (table.resize cells) ++ [cs.code '\n'] := by
  have hall : ∀ cell ∈ table.resize cells, Trimmed cs cell := by
    intro cell hcell
    rcases mem_resize hcell with hmem | rfl
    · exact htrimmed cell hmem
    · exact trimmed_nil
  rw [print_line, if_pos hcsv, zut_format_as_csv_eq, map_zut_trim hall]

/-- A line of CSV is read as the cells of the row, padded to the columns, if and only if there are
columns and no cell has a comma or a quote in it. -/
theorem csv_record_iff (cs : Charset) (table : ResultTable α) (cells : List Bytes)
    (hcsv : table.m_csv) (hcells : cells.length ≤ table.m_widths.length)
    (htrimmed : ∀ cell ∈ cells, Trimmed cs cell) :
    ∃ record, table.print_line cs cells = record ++ [cs.code '\n'] ∧
      (Csv.read (cs.code ',') (cs.code '"') record =
          some (cells ++ List.replicate (table.m_widths.length - cells.length) []) ↔
        table.m_widths ≠ [] ∧
          ∀ cell ∈ cells, cs.code ',' ∉ cell ∧ cs.code '"' ∉ cell) := by
  have hne : cs.code ',' ≠ cs.code '"' := cs.code_ne (by decide) (by decide) (by decide)
  refine ⟨_, print_line_csv hcsv htrimmed, ?_⟩
  rw [← resize, Csv.read_join_iff hne, resize_ne_nil_iff hcells]
  refine and_congr Iff.rfl ⟨fun hbare cell hcell => ?_, fun hbare cell hcell => ?_⟩
  · exact hbare cell (List.mem_append_left _ hcell)
  · rcases mem_resize hcell with hmem | rfl
    · exact hbare cell hmem
    · exact ⟨List.not_mem_nil, List.not_mem_nil⟩

/-- The hypotheses hold of a row with a cell for one of two columns. -/
theorem csv_record_of_one_cell : ∃ record,
    ({ m_csv := true, m_header := false, m_widths := [8, 0] } : ResultTable Unit).print_line ascii
      [ascii.str "a.txt"] = record ++ [ascii.code '\n'] ∧
    Csv.read (ascii.code ',') (ascii.code '"') record = some [ascii.str "a.txt", []] := by
  obtain ⟨record, hline, hread⟩ := csv_record_iff ascii
    { m_csv := true, m_header := false, m_widths := [8, 0] : ResultTable Unit }
    [ascii.str "a.txt"] rfl (by decide) (by
      rw [List.forall_mem_singleton, Trimmed]
      decide)
  refine ⟨record, hline, hread.mpr ⟨by decide, ?_⟩⟩
  rw [List.forall_mem_singleton]
  decide

/-- A name with a comma is read as two fields. -/
theorem comma_in_a_name :
    ({ m_csv := true, m_header := false, m_widths := [0] } : ResultTable Unit).print_line ascii
      [ascii.str "a,b"] = ascii.str "a,b" ++ [ascii.code '\n'] ∧
    Csv.read (ascii.code ',') (ascii.code '"') (ascii.str "a,b") =
      some [ascii.str "a", ascii.str "b"] := by
  decide

end ResultTable

end Zowex.format

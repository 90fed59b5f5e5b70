import Zowex.Spec.CopyDsn

/-! `ResultTable` of `result_table.hpp`: the rows of a command, as lines of a table or as records of
CSV. The nodes of the structured result are of any type. -/

namespace Zowex.format

open zds (zut_trim)

variable {α : Type*} (cs : Charset)

def zut_format_as_csv : List Bytes → Bytes
  | [] => []
  | [field] => zut_trim cs field
  | field :: fields => zut_trim cs field ++ cs.code ',' :: zut_format_as_csv fields

/-- `std::left` and `std::setw`. -/
def setw (width : ℤ) (cell : Bytes) : Bytes :=
  cell ++ List.replicate (width.toNat - cell.length) (cs.code ' ')

/-- The cells of a line of the table: each but the first after a blank. -/
def table_cells (widths : List ℤ) : List (Bytes × ℕ) → Bytes
  | [] => []
  | (cell, i) :: cells =>
    let width := widths.getD i 0
    (if 0 < i then [cs.code ' '] else []) ++ (if 0 < width then setw cs width cell else cell) ++
      table_cells widths cells

structure ResultTable (α : Type*) where
  m_csv : Bool
  m_header : Bool
  m_header_printed : Bool := false
  m_names : List Bytes := []
  m_widths : List ℤ := []
  m_items : List α := []

namespace ResultTable

def add_column (table : ResultTable α) (name : Bytes) (width : ℤ) : ResultTable α :=
  { table with m_names := table.m_names ++ [name], m_widths := table.m_widths ++ [width] }

/-- `if (fields.size() < m_widths.size()) fields.resize(m_widths.size())`. -/
def resize (table : ResultTable α) (fields : List Bytes) : List Bytes :=
  fields ++ List.replicate (table.m_widths.length - fields.length) []

def print_line (table : ResultTable α) (cells : List Bytes) : Bytes :=
  if table.m_csv then zut_format_as_csv cs (table.resize cells) ++ [cs.code '\n']
  else table_cells cs table.m_widths cells.zipIdx ++ [cs.code '\n']

/-- The table after a row, and what is printed. -/
def emit_row (table : ResultTable α) (cells : List Bytes) (object : Option α) :
    ResultTable α × Bytes :=
  let table := { table with m_items := table.m_items ++ object.toList }
  if table.m_header ∧ ¬ table.m_header_printed then
    ({ table with m_header_printed := true },
      table.print_line cs table.m_names ++ table.print_line cs cells)
  else (table, table.print_line cs cells)

end ResultTable

end Zowex.format

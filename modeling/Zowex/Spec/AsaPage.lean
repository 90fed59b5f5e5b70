import Zowex.Lib.Printing
import Zowex.Spec.Streams

/-! The page that a text is, and the one that the records of a member with control characters are
printed on. -/

namespace Zowex

open Printing zds

variable (cs : Charset)

/-- The first character of a record. -/
def control (char : UInt8) : Option Control :=
  if char = cs.code ' ' then some (.advance 1)
  else if char = cs.code '0' then some (.advance 2)
  else if char = cs.code '-' then some (.advance 3)
  else if char = cs.code '1' then some .new_page
  else none

def print_record : Bytes → Option (Control × Bytes)
  | [] => none
  | char :: text => (control cs char).map fun control => (control, text)

def printed (records : List Bytes) : Option (List (Position × Bytes)) :=
  (records.mapM (print_record cs)).map (shown {})

/-- A line of a text shows what it is converted to, on the next page if it starts with a form
feed. -/
def print_line (convert : Bytes → Option Bytes) (line : Bytes) : Option (Control × Bytes) :=
  if line = [] then some (.advance 1, [])
  else if line.head? = some FF_CHAR then
    (convert line.tail).map fun text => (.new_page, text)
  else (convert line).map fun text => (.advance 1, text)

def text_page (convert : Bytes → Option Bytes) (newline_char : UInt8) (data : Bytes) :
    Option (List (Position × Bytes)) :=
  (((data.splitOn newline_char).map strip_cr).mapM (print_line convert)).map (shown {})

end Zowex

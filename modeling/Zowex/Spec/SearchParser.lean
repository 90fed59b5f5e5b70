import Mathlib.Data.List.DropRight
import Zowex.Spec.Charset
import Zowex.Spec.ConfigManager

/-! `parseSearchOutput` of the SDK: the listing of a search, read line by line. A string is the list
of its characters, and a regular expression is what it reads of one, as far as it can. -/

namespace Zowex.sdk.SearchParser

open ConfigManager Shell

/-! Regular expressions. -/

/-- A class of characters with `+`: the longest run, and what follows it. -/
def many1 (p : Char → Bool) (text : Text) : Option (Text × Text) :=
  let run := text.takeWhile p
  if run = [] then none else some (run, text.dropWhile p)

def literal (word : String) (text : Text) : Option Text :=
  if word.toList.isPrefixOf text then some (text.drop word.toList.length) else none

/-- `\s{2}(.+)$` -/
def two_spaces_content : Text → Option Text
  | a :: b :: content =>
    if is_space a && is_space b && content ≠ [] && !content.any is_line_end then some content
    else none
  | _ => none

/-- `\s+(.+)`: a blank is read as the text where nothing else is left for it. -/
def spaces_text (text : Text) : Option Text :=
  let texts := (List.range (text.takeWhile is_space).length).reverse.map fun n =>
    (text.drop (n + 1)).takeWhile (!is_line_end ·)
  texts.find? (· ≠ [])

/-- The first place in a text where a pattern matches. -/
def search {α : Type} (pattern : Text → Option α) : Text → Option α
  | [] => pattern []
  | c :: text => (pattern (c :: text)).or (search pattern text)

def includes (line : Text) (word : String) : Bool := (search (literal word) line).isSome

/-- `/SRCH DSN:\s+(\S+)/` -/
def dsMatch : Text → Option Text :=
  search fun text => do
    let text ← literal "SRCH DSN:" text
    let (_, text) ← many1 is_space text
    let (dsn, _) ← many1 (!is_space ·) text
    return dsn

/-- `/^([^()]+)\(([^)]+)\)\s*$/`, the name of the member. -/
def memParse (dsn : Text) : Option Text := do
  let (_, text) ← many1 (fun c => c ≠ '(' && c ≠ ')') dsn
  let text ← literal "(" text
  let (name, text) ← many1 (· ≠ ')') text
  let text ← literal ")" text
  if text.all is_space then some name else none

/-- `/^\s+(\S+)\s+[-]+\s+STRING\(S\) FOUND\s+[-]+/` -/
def memberMatch (line : Text) : Option Text := do
  let (_, text) ← many1 is_space line
  let (name, text) ← many1 (!is_space ·) text
  let (_, text) ← many1 is_space text
  let (_, text) ← many1 (· = '-') text
  let (_, text) ← many1 is_space text
  let text ← literal "STRING(S) FOUND" text
  let (_, text) ← many1 is_space text
  let _ ← many1 (· = '-') text
  return name

/-- `parseInt` of digits. -/
def parse_digits (digits : Text) : ℕ :=
  digits.foldl (fun n c => 10 * n + (c.toNat - '0'.toNat)) 0

/-- The numbers of the summary. -/
structure Counts where
  linesFound : ℕ
  linesProcessed : ℕ
  membersWithLines : ℕ
  membersWithoutLines : ℕ
  compareColumns : Text
  longestLine : ℕ

/-- `/^\s*(\d+)\s+(\d+)\s+(\d+)\s+(\d+)\s+(\d+:\d+)\s+(\d+)\s*$/` -/
def summaryMatch (line : Text) : Option Counts := do
  let (found, text) ← many1 Char.isDigit (line.dropWhile is_space)
  let (_, text) ← many1 is_space text
  let (processed, text) ← many1 Char.isDigit text
  let (_, text) ← many1 is_space text
  let (with_lines, text) ← many1 Char.isDigit text
  let (_, text) ← many1 is_space text
  let (without_lines, text) ← many1 Char.isDigit text
  let (_, text) ← many1 is_space text
  let (first_column, text) ← many1 Char.isDigit text
  let text ← literal ":" text
  let (last_column, text) ← many1 Char.isDigit text
  let (_, text) ← many1 is_space text
  let (longest, text) ← many1 Char.isDigit text
  if text.all is_space then
    some ⟨parse_digits found, parse_digits processed, parse_digits with_lines,
      parse_digits without_lines, first_column ++ ':' :: last_column, parse_digits longest⟩
  else none

/-- `/^\s+(\d+)\s{2}(.+)$/` -/
def matchLine (line : Text) : Option (Text × Text) := do
  let (_, text) ← many1 is_space line
  let (digits, text) ← many1 Char.isDigit text
  let content ← two_spaces_content text
  return (digits, content)

/-- `/^\s+\*\s{2}(.+)$/` -/
def contextLine (line : Text) : Option Text := do
  let (_, text) ← many1 is_space line
  let text ← literal "*" text
  two_spaces_content text

/-- `/PROCESS OPTIONS USED:\s+(.+)/` -/
def optionsMatch : Text → Option Text :=
  search fun text => (literal "PROCESS OPTIONS USED:" text).bind spaces_text

/-- `/SRCHFOR\s+'([^']+)'/` -/
def patternMatch : Text → Option Text :=
  search fun text => do
    let text ← literal "SRCHFOR" text
    let (_, text) ← many1 is_space text
    let text ← literal "'" text
    let (pattern, text) ← many1 (· ≠ '\'') text
    let _ ← literal "'" text
    return pattern

def trimEnd (text : Text) : Text := text.rdropWhile is_space

def trim (text : Text) : Text := trimEnd (text.dropWhile is_space)

/-! The result, and the loop. -/

structure SearchMatch where
  lineNumber : ℕ
  content : Text
  beforeContext : List Text
  afterContext : List Text

structure SearchMember where
  name : Option Text
  found : List SearchMatch

structure SearchResult where
  dataset : Text
  header : Text
  members : List SearchMember
  counts : Counts
  processOptions : Text
  searchPattern : Text

/-- What the loop has read so far. -/
structure Parser where
  result : SearchResult
  currentMember : Option SearchMember
  pendingContext : List Text

def SearchResult.empty : SearchResult := ⟨[], [], [], ⟨0, 0, 0, 0, [], 0⟩, [], []⟩

/-- `afterContext.push` of the last match. -/
def push_after (context : List Text) (found : List SearchMatch) : List SearchMatch :=
  match found.getLast? with
  | none => []
  | some lastMatch =>
    found.dropLast ++ [{ lastMatch with afterContext := lastMatch.afterContext ++ context }]

def closeCurrentMember (p : Parser) : Parser :=
  let members :=
    match p.currentMember with
    | none => p.result.members
    | some member =>
      if member.name.isSome || member.found ≠ [] then
        p.result.members ++ [{ member with found := push_after p.pendingContext member.found }]
      else p.result.members
  { result := { p.result with members := members }, currentMember := none, pendingContext := [] }

def open_member (p : Parser) (name : Option Text) : Parser :=
  { closeCurrentMember p with currentMember := some ⟨name, []⟩ }

/-- The options and the pattern of the search. -/
def read_options (p : Parser) (line : Text) : Parser :=
  let options := ((optionsMatch line).map trim).getD p.result.processOptions
  let pattern := (patternMatch line).getD p.result.searchPattern
  { p with result := { p.result with processOptions := options, searchPattern := pattern } }

def push_match (p : Parser) (member : SearchMember) (digits content : Text) : Parser :=
  let before := if member.found = [] then p.pendingContext else []
  let found := push_after p.pendingContext member.found ++
    [⟨parse_digits digits, trimEnd content, before, []⟩]
  { p with currentMember := some { member with found := found }, pendingContext := [] }

def read_entry (p : Parser) (line : Text) : Parser :=
  match p.currentMember with
  | none => read_options p line
  | some member =>
    match matchLine line with
    | some (digits, content) => push_match p member digits content
    | none =>
      match contextLine line with
      | some content =>
        read_options { p with pendingContext := p.pendingContext ++ [trimEnd content] } line
      | none => read_options p line

def read_member (p : Parser) (line : Text) : Parser :=
  match memberMatch line with
  | some name => open_member p (some name)
  | none =>
    match summaryMatch line with
    | some counts =>
      let p := closeCurrentMember p
      { p with result := { p.result with counts := counts } }
    | none => read_entry p line

/-- One iteration of the loop. -/
def read_line (p : Parser) (line : Text) : Parser :=
  let header :=
    if includes line "ASMFSUPC" && includes line "COMPARE UTILITY" then trim line
    else p.result.header
  let p := { p with result := { p.result with header := header } }
  match dsMatch line with
  | some dsn =>
    let p := { p with result := { p.result with dataset := dsn } }
    if includes line "SOURCE SECTION" then open_member p (memParse dsn) else read_member p line
  | none => read_member p line

def parseSearchOutput (output : Text) : SearchResult :=
  (closeCurrentMember ((output.splitOn '\n').foldl read_line
    { result := .empty, currentMember := none, pendingContext := [] })).result

end Zowex.sdk.SearchParser

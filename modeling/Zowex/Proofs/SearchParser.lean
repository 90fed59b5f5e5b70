import Zowex.Spec.SearchParser

/-! What the parser of a search listing makes of the lines that a search has found, and of the lines
around them. The text of such a line is what stands in the data set, and is read by the same
expressions as the lines of the listing itself. -/

namespace Zowex.sdk.SearchParser

open ConfigManager Shell

/-- A line of a section that was found, or one around it. -/
inductive Entry
  | matched (lineNumber : ℕ) (content : Text)
  | context (content : Text)
deriving DecidableEq

/-- What a line is taken for. -/
inductive Reading
  | opens (name : Option Text)
  | closes
  | entry (entry : Entry)
  | other
deriving DecidableEq

/-- The header of a section, or the summary. -/
def section_reading (line : Text) : Option Reading :=
  match (dsMatch line).filter fun _ => includes line "SOURCE SECTION" with
  | some dsn => some (.opens (memParse dsn))
  | none =>
    match memberMatch line with
    | some name => some (.opens (some name))
    | none => (summaryMatch line).map fun _ => .closes

def entry_reading (line : Text) : Reading :=
  match matchLine line with
  | some (digits, content) => .entry (.matched (parse_digits digits) (trimEnd content))
  | none =>
    match contextLine line with
    | some content => .entry (.context (trimEnd content))
    | none => .other

def reading (line : Text) : Reading := (section_reading line).getD (entry_reading line)

/-! The members that the loop puts together. -/

structure Core where
  members : List SearchMember
  current : Option SearchMember
  pending : List Text

def Parser.core (p : Parser) : Core := ⟨p.result.members, p.currentMember, p.pendingContext⟩

def Core.close (c : Core) : Core :=
  let members :=
    match c.current with
    | none => c.members
    | some member =>
      if member.name.isSome || member.found ≠ [] then
        c.members ++ [{ member with found := push_after c.pending member.found }]
      else c.members
  ⟨members, none, []⟩

def Core.read (c : Core) (member : SearchMember) : Entry → Core
  | .matched lineNumber content =>
    let before := if member.found = [] then c.pending else []
    let found := push_after c.pending member.found ++ [⟨lineNumber, content, before, []⟩]
    ⟨c.members, some { member with found := found }, []⟩
  | .context content => { c with pending := c.pending ++ [content] }

def Core.advance (c : Core) : Reading → Core
  | .opens name => { c.close with current := some ⟨name, []⟩ }
  | .closes => c.close
  | .entry entry =>
    match c.current with
    | none => c
    | some member => c.read member entry
  | .other => c

theorem core_close (p : Parser) : (closeCurrentMember p).core = p.core.close := rfl

theorem core_read_options (p : Parser) (line : Text) : (read_options p line).core = p.core := rfl

theorem core_read_entry (p : Parser) (line : Text) :
    (read_entry p line).core = p.core.advance (entry_reading line) := by
  rw [read_entry, entry_reading]
  rcases hcurrent : p.currentMember with _ | member
  · rcases matchLine line with _ | ⟨digits, content⟩
    · rcases contextLine line with _ | content <;>
        simp [Core.advance, Parser.core, read_options, hcurrent]
    · simp [Core.advance, Parser.core, read_options, hcurrent]
  · rcases matchLine line with _ | ⟨digits, content⟩
    · rcases contextLine line with _ | content <;>
        simp [Core.advance, Core.read, Parser.core, read_options, hcurrent]
    · simp [Core.advance, Core.read, Parser.core, push_match, hcurrent]

/-- A line that is not the header of a source section. -/
theorem core_read_member {p : Parser} {line : Text}
    (h : ((dsMatch line).filter fun _ => includes line "SOURCE SECTION") = none) :
    (read_member p line).core = p.core.advance (reading line) := by
  rw [read_member, reading, section_reading, h]
  rcases memberMatch line with _ | name
  · rcases summaryMatch line with _ | counts
    · exact core_read_entry p line
    · rfl
  · rfl

theorem core_read_line (p : Parser) (line : Text) :
    (read_line p line).core = p.core.advance (reading line) := by
  rw [read_line]
  dsimp only
  rcases hdsn : dsMatch line with _ | dsn
  · exact core_read_member (by rw [hdsn]; rfl)
  · by_cases hsource : includes line "SOURCE SECTION" = true
    · have hreading : reading line = .opens (memParse dsn) := by
        rw [reading, section_reading, hdsn, Option.filter_some, if_pos hsource]
        rfl
      rw [hreading]
      dsimp only
      rw [if_pos hsource]
      rfl
    · dsimp only
      rw [if_neg hsource]
      exact core_read_member (by rw [hdsn, Option.filter_some, if_neg hsource])

theorem core_read_lines (p : Parser) (lines : List Text) :
    (lines.foldl read_line p).core = (lines.map reading).foldl Core.advance p.core := by
  induction lines generalizing p with
  | nil => rfl
  | cons line lines ih => rw [List.foldl_cons, ih, core_read_line, List.map_cons, List.foldl_cons]

/-- The members that come of the readings of all lines. -/
def collected (readings : List Reading) : List SearchMember :=
  (readings.foldl Core.advance ⟨[], none, []⟩).close.members

theorem members_eq (output : Text) :
    (parseSearchOutput output).members = collected ((output.splitOn '\n').map reading) := by
  have hcore := core_read_lines
    { result := .empty, currentMember := none, pendingContext := [] } (output.splitOn '\n')
  rw [collected, parseSearchOutput]
  exact congrArg (fun c : Core => c.close.members) hcore

/-! The sections of a listing, and what becomes of their lines. -/

structure Section where
  name : Option Text
  entries : List Entry

def Entry.is_match : Entry → Bool
  | .matched _ _ => true
  | .context _ => false

def Section.has_match (s : Section) : Bool := s.entries.any Entry.is_match

/-- The sections that are complete, and the one that is open. -/
abbrev Gathered : Type := List Section × Option Section

def Gathered.all (g : Gathered) : List Section := g.1 ++ g.2.toList

def gather (g : Gathered) : Reading → Gathered
  | .opens name => (g.all, some ⟨name, []⟩)
  | .closes => (g.all, none)
  | .entry entry => (g.1, g.2.map fun s => { s with entries := s.entries ++ [entry] })
  | .other => g

def gathered (readings : List Reading) : Gathered := readings.foldl gather ([], none)

def sections (readings : List Reading) : List Section := (gathered readings).all

/-- A match with the lines around it, in the order they have in the result. -/
def SearchMatch.entries (found : SearchMatch) : List Entry :=
  found.beforeContext.map .context ++ .matched found.lineNumber found.content ::
    found.afterContext.map .context

def SearchMember.entries (member : SearchMember) : List Entry :=
  member.found.flatMap SearchMatch.entries

theorem entries_push_after {found : List SearchMatch} (h : found ≠ []) (context : List Text) :
    (push_after context found).flatMap SearchMatch.entries =
      found.flatMap SearchMatch.entries ++ context.map .context := by
  obtain ⟨before, last, rfl⟩ := List.eq_nil_or_concat found |>.resolve_left h
  simp [push_after, SearchMatch.entries]

/-- Of two matches only the first one has lines before it. -/
def SearchMember.Placed (member : SearchMember) : Prop :=
  ∀ found ∈ member.found.tail, found.beforeContext = []

theorem SearchMember.entries_nil {member : SearchMember} (h : member.found = []) :
    member.entries = [] := by
  rw [SearchMember.entries, h, List.flatMap_nil]

theorem any_is_match_context (context : List Text) :
    (context.map Entry.context).any Entry.is_match = false := by
  simp [Entry.is_match]

theorem SearchMember.any_is_match (member : SearchMember) :
    member.entries.any Entry.is_match = true ↔ member.found ≠ [] := by
  constructor
  · intro hany hfound
    rw [member.entries_nil hfound] at hany
    cases hany
  · intro hfound
    obtain ⟨found, rest, hcons⟩ := List.exists_cons_of_ne_nil hfound
    rw [SearchMember.entries, hcons]
    simp [SearchMatch.entries, Entry.is_match]

/-- The member that is open, and the section it is read from. -/
inductive Open : Option SearchMember → List Text → Option Section → Prop
  | closed : Open none [] none
  | opened {member : SearchMember} {pending : List Text} {s : Section} : member.name = s.name →
      member.entries ++ pending.map .context = s.entries → Open (some member) pending (some s)

/-- What becomes of a section: nothing, if it has neither a name nor a match, and of its lines
nothing if it has no match. -/
def Section.kept (s : Section) : Bool := s.name.isSome || s.has_match

def Section.listed (s : Section) : Option Text × List Entry :=
  (s.name, if s.has_match then s.entries else [])

def SearchMember.listed (member : SearchMember) : Option Text × List Entry :=
  (member.name, member.entries)

structure Tracks (c : Core) (g : Gathered) : Prop where
  members : c.members.map SearchMember.listed = (g.1.filter Section.kept).map Section.listed
  current : Open c.current c.pending g.2
  placed : ∀ member ∈ c.members ++ c.current.toList, member.Placed

theorem has_match_iff {member : SearchMember} {pending : List Text} {s : Section}
    (h : member.entries ++ pending.map .context = s.entries) :
    s.has_match = true ↔ member.found ≠ [] := by
  rw [Section.has_match, ← h, List.any_append, any_is_match_context, Bool.or_false,
    member.any_is_match]

theorem push_after_nil (context : List Text) : push_after context [] = [] := rfl

theorem push_after_ne_nil {found : List SearchMatch} (h : found ≠ []) (context : List Text) :
    push_after context found ≠ [] := by
  obtain ⟨before, last, rfl⟩ := List.eq_nil_or_concat found |>.resolve_left h
  simp [push_after]

/-- The last match only gets more lines behind it. -/
theorem push_after_placed {member : SearchMember} (h : member.Placed) (context : List Text) :
    ({ member with found := push_after context member.found } : SearchMember).Placed := by
  obtain ⟨name, found⟩ := member
  rcases List.eq_nil_or_concat found with rfl | ⟨before, last, rfl⟩
  · exact h
  · intro f hf
    simp only [push_after, List.concat_eq_append, List.getLast?_append, List.getLast?_singleton,
      Option.some_or, List.dropLast_concat] at hf
    rcases before with _ | ⟨first, before⟩
    · simp at hf
    · simp only [List.cons_append, List.tail_cons, List.mem_append, List.mem_singleton] at hf
      rcases hf with hf | rfl
      · exact h f (by simp [hf])
      · exact h last (by simp)

/-- A member that is closed lists what becomes of its section. -/
theorem listed_closed {member : SearchMember} {pending : List Text} {s : Section}
    (hname : member.name = s.name) (h : member.entries ++ pending.map .context = s.entries) :
    ({ member with found := push_after pending member.found } : SearchMember).listed =
      s.listed := by
  have hmatch := has_match_iff h
  rw [SearchMember.listed, Section.listed, hname]
  by_cases hfound : member.found = []
  · rw [if_neg (fun hhas => hmatch.mp hhas hfound), hfound, push_after_nil]
    rfl
  · rw [if_pos (hmatch.mpr hfound), ← h]
    exact congrArg (s.name, ·) (entries_push_after hfound pending)

theorem kept_iff {member : SearchMember} {pending : List Text} {s : Section}
    (hname : member.name = s.name) (h : member.entries ++ pending.map .context = s.entries) :
    (member.name.isSome || member.found ≠ []) = s.kept := by
  rw [Section.kept, hname, Bool.eq_iff_iff, Bool.or_eq_true, Bool.or_eq_true, has_match_iff h,
    decide_eq_true_eq]

theorem Tracks.close {c : Core} {g : Gathered} (h : Tracks c g) : Tracks c.close (g.all, none) := by
  obtain ⟨members, current, pending⟩ := c
  obtain ⟨done, s⟩ := g
  obtain ⟨hmembers, hcurrent, hplaced⟩ := h
  dsimp only at hmembers hcurrent hplaced
  cases hcurrent with
  | closed => exact ⟨by simpa [Core.close, Gathered.all] using hmembers, .closed, hplaced⟩
  | @opened member _ s hname hentries =>
    have hkept := kept_iff hname hentries
    have hlisted := listed_closed hname hentries
    have hclosed := push_after_placed (hplaced member (by simp)) pending
    rw [Core.close, Gathered.all]
    dsimp only [Option.toList_some]
    by_cases hs : s.kept = true
    · rw [if_pos (hkept.trans hs)]
      refine ⟨?_, .closed, ?_⟩
      · simp only [List.map_append, hmembers, List.filter_append, List.map_singleton, hlisted]
        rw [List.filter_singleton, hs, cond_true, List.map_singleton]
      · intro m hm
        simp only [Option.toList_none, List.append_nil, List.mem_append, List.mem_singleton] at hm
        rcases hm with hm | rfl
        · exact hplaced m (List.mem_append_left _ hm)
        · exact hclosed
    · rw [if_neg (fun hmember => hs (hkept.symm.trans hmember))]
      refine ⟨?_, .closed, ?_⟩
      · rw [List.filter_append, List.filter_singleton, Bool.eq_false_iff.mpr hs, cond_false,
          List.append_nil]
        exact hmembers
      · intro m hm
        simp only [Option.toList_none, List.append_nil] at hm
        exact hplaced m (List.mem_append_left _ hm)

/-- The matches of a member after one more. -/
theorem entries_push_match (found : List SearchMatch) (pending : List Text) (lineNumber : ℕ)
    (content : Text) :
    (push_after pending found ++
        [(⟨lineNumber, content, if found = [] then pending else [], []⟩ : SearchMatch)]).flatMap
          SearchMatch.entries =
      found.flatMap SearchMatch.entries ++ pending.map .context ++
        [.matched lineNumber content] := by
  by_cases hfound : found = []
  · simp [hfound, push_after_nil, SearchMatch.entries]
  · rw [List.flatMap_append, entries_push_after hfound]
    simp [hfound, SearchMatch.entries]

theorem push_match_placed {name : Option Text} {found : List SearchMatch}
    (h : SearchMember.Placed ⟨name, found⟩) (pending : List Text) (lineNumber : ℕ)
    (content : Text) :
    SearchMember.Placed ⟨name, push_after pending found ++
      [⟨lineNumber, content, if found = [] then pending else [], []⟩]⟩ := by
  by_cases hfound : found = []
  · simp [hfound, push_after_nil, SearchMember.Placed]
  · have hpushed := push_after_placed h pending
    intro f hf
    dsimp only at hf
    rw [List.tail_append_of_ne_nil (push_after_ne_nil hfound pending), if_neg hfound] at hf
    rcases List.mem_append.mp hf with hf | hf
    · exact hpushed f hf
    · rw [List.mem_singleton.mp hf]

/-- A line of the section that is open. -/
theorem Tracks.read {members : List SearchMember} {done : List Section} {member : SearchMember}
    {pending : List Text} {s : Section} (h : Tracks ⟨members, some member, pending⟩ (done, some s))
    (entry : Entry) : Tracks (Core.read ⟨members, some member, pending⟩ member entry)
      (done, some { s with entries := s.entries ++ [entry] }) := by
  obtain ⟨hmembers, hcurrent, hplaced⟩ := h
  dsimp only at hmembers hcurrent hplaced
  cases hcurrent with
  | opened hname hentries =>
    cases entry with
    | matched lineNumber content =>
      refine ⟨hmembers, .opened hname ?_, ?_⟩
      · have hpushed := entries_push_match member.found pending lineNumber content
        rw [← hentries]
        exact (List.append_nil _).trans hpushed
      · intro m hm
        rcases List.mem_append.mp hm with hm | hm
        · exact hplaced m (List.mem_append_left _ hm)
        · rw [List.mem_singleton.mp hm]
          exact push_match_placed (hplaced member (by simp)) pending lineNumber content
    | context content =>
      refine ⟨hmembers, .opened hname ?_, hplaced⟩
      have hpending : (pending ++ [content]).map Entry.context =
          pending.map Entry.context ++ [.context content] := List.map_append
      rw [← hentries, List.append_assoc]
      exact congrArg (member.entries ++ ·) hpending

theorem Tracks.advance {c : Core} {g : Gathered} (h : Tracks c g) (reading : Reading) :
    Tracks (c.advance reading) (gather g reading) := by
  cases reading with
  | opens name =>
    obtain ⟨hmembers, -, hplaced⟩ := h.close
    refine ⟨hmembers, .opened rfl rfl, ?_⟩
    intro m hm
    rcases List.mem_append.mp hm with hm | hm
    · exact hplaced m (List.mem_append_left _ hm)
    · rw [List.mem_singleton.mp hm]
      exact fun f hf => absurd hf List.not_mem_nil
  | closes => exact h.close
  | entry entry =>
    obtain ⟨members, current, pending⟩ := c
    obtain ⟨done, s⟩ := g
    rcases hcurrent : h.current with _ | ⟨hname, hentries⟩
    · exact h
    · exact h.read entry
  | other => exact h

theorem tracks_gathered (readings : List Reading) :
    Tracks (readings.foldl Core.advance ⟨[], none, []⟩) (gathered readings) := by
  have hstart : Tracks ⟨[], none, []⟩ ([], none) :=
    ⟨rfl, .closed, fun m hm => absurd hm List.not_mem_nil⟩
  rw [gathered]
  generalize (⟨[], none, []⟩ : Core) = c at hstart ⊢
  generalize (([], none) : Gathered) = g at hstart ⊢
  induction readings generalizing c g with
  | nil => exact hstart
  | cons reading readings ih => exact ih _ _ (hstart.advance reading)

/-- What is collected of all readings. -/
theorem collected_listed (readings : List Reading) :
    (collected readings).map SearchMember.listed =
        ((sections readings).filter Section.kept).map Section.listed ∧
      ∀ member ∈ collected readings, member.Placed := by
  obtain ⟨hmembers, -, hplaced⟩ := (tracks_gathered readings).close
  exact ⟨hmembers, fun m hm => hplaced m (List.mem_append_left _ hm)⟩

/-! Listings. -/

/-- A line that the search writes itself, or a line of a section: its number or an asterisk behind
some blanks, and two blanks before its text. -/
inductive ListingLine
  | control (text : Text)
  | matched (margin : ℕ) (digits content : Text)
  | context (margin : ℕ) (content : Text)

namespace ListingLine

def margin_text (margin : ℕ) : Text := List.replicate (margin + 1) ' '

def text : ListingLine → Text
  | control text => text
  | matched margin digits content => margin_text margin ++ (digits ++ ' ' :: ' ' :: content)
  | context margin content => margin_text margin ++ '*' :: ' ' :: ' ' :: content

/-- The text of a line of a section. -/
def content : ListingLine → Option Text
  | control _ => none
  | matched _ _ content => some content
  | context _ content => some content

/-- What a line stands for in the listing. -/
def meaning : ListingLine → Reading
  | control text => (section_reading text).getD .other
  | matched _ digits content => .entry (.matched (parse_digits digits) (trimEnd content))
  | context _ content => .entry (.context (trimEnd content))

end ListingLine

def meanings (lines : List ListingLine) : List Reading := lines.map ListingLine.meaning

/-- The listing of a search. What the search writes itself does not look like a line of a section,
but where it is a header or the summary. -/
structure Listing where
  lines : List ListingLine
  nonempty : lines ≠ []
  one_line : ∀ line ∈ lines, '\n' ∉ line.text
  control : ∀ text, .control text ∈ lines → section_reading text = none →
    entry_reading text = .other
  digits : ∀ margin digits content, .matched margin digits content ∈ lines →
    digits ≠ [] ∧ ∀ c ∈ digits, c.isDigit = true
  inside : ∀ before line after, lines = before ++ line :: after → line.content ≠ none →
    (gathered (meanings before)).2 ≠ none

def Listing.text (listing : Listing) : Text :=
  ['\n'].intercalate (listing.lines.map ListingLine.text)

/-- The result has all sections of the listing with all their lines in order: a line around a match
before the first one or after the one that it follows. -/
def Keeps (listing : Listing) : Prop :=
  (parseSearchOutput listing.text).members.map SearchMember.listed =
      ((sections (meanings listing.lines)).filter fun s => s.name.isSome || s.entries ≠ []).map
        (fun s => (s.name, s.entries)) ∧
    ∀ member ∈ (parseSearchOutput listing.text).members, member.Placed

/-- No line of a section looks like a header or the summary, is empty, or has a character that ends
a line, and no section has only lines around matches. -/
structure Plain (listing : Listing) : Prop where
  lines : ∀ line ∈ listing.lines, ∀ content, line.content = some content →
    section_reading line.text = none ∧ content ≠ [] ∧ ∀ c ∈ content, is_line_end c = false
  sections : ∀ s ∈ sections (meanings listing.lines), s.entries ≠ [] → s.has_match = true

theorem many1_append {p : Char → Bool} {run rest : Text} (hne : run ≠ [])
    (hrun : ∀ c ∈ run, p c = true) (hrest : ∀ c ∈ rest.head?, p c = false) :
    many1 p (run ++ rest) = some (run, rest) := by
  have htake : (run ++ rest).takeWhile p = run := by
    rw [List.takeWhile_append_of_pos hrun]
    rcases rest with _ | ⟨c, rest⟩
    · simp
    · rw [List.takeWhile_cons_of_neg (by simp [hrest c rfl]), List.append_nil]
  have hdrop : (run ++ rest).dropWhile p = rest := by
    rw [List.dropWhile_append_of_pos hrun]
    rcases rest with _ | ⟨c, rest⟩
    · rfl
    · rw [List.dropWhile_cons_of_neg (by simp [hrest c rfl])]
  rw [many1, htake, hdrop]
  exact if_neg hne

theorem many1_none {p : Char → Bool} {text : Text} (h : ∀ c ∈ text.head?, p c = false) :
    many1 p text = none := by
  rcases text with _ | ⟨c, text⟩
  · rfl
  · rw [many1, List.takeWhile_cons_of_neg (by simp [h c rfl])]
    exact if_pos rfl

/-- The digits are ten characters. -/
theorem mem_digits {c : Char} (h : c.isDigit = true) : c ∈ "0123456789".toList := by
  rw [Char.isDigit, Bool.and_eq_true, decide_eq_true_eq, decide_eq_true_eq] at h
  have hlow : 48 ≤ c.toNat := h.1
  have hhigh : c.toNat ≤ 57 := h.2
  rw [← Char.ofNat_toNat c]
  generalize c.toNat = n at hlow hhigh
  interval_cases n <;> decide

theorem digit_ne {c : Char} (h : c.isDigit = true) : is_space c = false ∧ c ≠ '*' := by
  have hall : ∀ c ∈ "0123456789".toList, is_space c = false ∧ c ≠ '*' := by decide +kernel
  exact hall c (mem_digits h)

theorem two_spaces_content_eq (content : Text) :
    two_spaces_content (' ' :: ' ' :: content) =
      if content ≠ [] ∧ ∀ c ∈ content, is_line_end c = false then some content else none := by
  have hspace : is_space ' ' = true := rfl
  simp [two_spaces_content, hspace]

theorem many1_margin (margin : ℕ) {rest : Text} (h : ∀ c ∈ rest.head?, is_space c = false) :
    many1 is_space (ListingLine.margin_text margin ++ rest) =
      some (ListingLine.margin_text margin, rest) := by
  refine many1_append ?_ ?_ h
  · simp [ListingLine.margin_text]
  · intro c hc
    rw [List.eq_of_mem_replicate hc]
    rfl

theorem entry_reading_matched (margin : ℕ) {digits : Text} (content : Text) (hne : digits ≠ [])
    (hdigits : ∀ c ∈ digits, c.isDigit = true) :
    entry_reading (ListingLine.matched margin digits content).text =
      if content ≠ [] ∧ ∀ c ∈ content, is_line_end c = false then
        .entry (.matched (parse_digits digits) (trimEnd content))
      else .other := by
  obtain ⟨d, rest, rfl⟩ := List.exists_cons_of_ne_nil hne
  obtain ⟨hspace, hstar⟩ := digit_ne (hdigits d List.mem_cons_self)
  have hmargin : many1 is_space (ListingLine.margin_text margin ++
      (d :: rest ++ ' ' :: ' ' :: content)) =
        some (ListingLine.margin_text margin, d :: rest ++ ' ' :: ' ' :: content) :=
    many1_margin margin (by simpa using hspace)
  have hrun : many1 Char.isDigit (d :: rest ++ ' ' :: ' ' :: content) =
      some (d :: rest, ' ' :: ' ' :: content) := by
    refine many1_append hne hdigits ?_
    rintro c ⟨⟩
    rfl
  have hliteral : literal "*" (d :: rest ++ ' ' :: ' ' :: content) = none := by
    simp [literal, Ne.symm hstar]
  have hmatch : matchLine (ListingLine.matched margin (d :: rest) content).text =
      (two_spaces_content (' ' :: ' ' :: content)).map fun content => (d :: rest, content) := by
    rw [matchLine, ListingLine.text, hmargin]
    dsimp only [bind, Option.bind]
    rw [hrun]
    dsimp only
    rcases two_spaces_content (' ' :: ' ' :: content) with _ | found <;> rfl
  have hcontext : contextLine (ListingLine.matched margin (d :: rest) content).text = none := by
    rw [contextLine, ListingLine.text, hmargin]
    dsimp only [bind, Option.bind]
    rw [hliteral]
  rw [entry_reading, hmatch, hcontext, two_spaces_content_eq]
  by_cases hcontent : content ≠ [] ∧ ∀ c ∈ content, is_line_end c = false
  · rw [if_pos hcontent, if_pos hcontent]
    rfl
  · rw [if_neg hcontent, if_neg hcontent]
    rfl

theorem entry_reading_context (margin : ℕ) (content : Text) :
    entry_reading (ListingLine.context margin content).text =
      if content ≠ [] ∧ ∀ c ∈ content, is_line_end c = false then
        .entry (.context (trimEnd content))
      else .other := by
  have hmargin : many1 is_space (ListingLine.margin_text margin ++ '*' :: ' ' :: ' ' :: content) =
      some (ListingLine.margin_text margin, '*' :: ' ' :: ' ' :: content) := by
    apply many1_margin
    rintro c ⟨⟩
    rfl
  have hdigits : many1 Char.isDigit ('*' :: ' ' :: ' ' :: content) = none := by
    apply many1_none
    rintro c ⟨⟩
    rfl
  have hliteral : literal "*" ('*' :: ' ' :: ' ' :: content) = some (' ' :: ' ' :: content) := by
    simp [literal]
  have hmatch : matchLine (ListingLine.context margin content).text = none := by
    rw [matchLine, ListingLine.text, hmargin]
    dsimp only [bind, Option.bind]
    rw [hdigits]
  have hcontext : contextLine (ListingLine.context margin content).text =
      two_spaces_content (' ' :: ' ' :: content) := by
    rw [contextLine, ListingLine.text, hmargin]
    dsimp only [bind, Option.bind]
    rw [hliteral]
  rw [entry_reading, hmatch, hcontext, two_spaces_content_eq]
  by_cases hcontent : content ≠ [] ∧ ∀ c ∈ content, is_line_end c = false
  · rw [if_pos hcontent, if_pos hcontent]
  · rw [if_neg hcontent, if_neg hcontent]

/-! How many lines the result has. -/

def entry_count (members : List SearchMember) : ℕ :=
  (members.map fun member => member.entries.length).sum

def Core.size (c : Core) : ℕ :=
  entry_count c.members + entry_count c.current.toList + c.pending.length

def Reading.is_entry : Reading → Bool
  | .entry _ => true
  | _ => false

theorem entry_count_append (first second : List SearchMember) :
    entry_count (first ++ second) = entry_count first + entry_count second := by
  simp [entry_count]

theorem length_push_after (member : SearchMember) (pending : List Text) :
    ({ member with found := push_after pending member.found } : SearchMember).entries.length ≤
      member.entries.length + pending.length := by
  by_cases hfound : member.found = []
  · rw [hfound, push_after_nil]
    exact Nat.zero_le _
  · have hpushed := entries_push_after hfound pending
    rw [SearchMember.entries, SearchMember.entries, hpushed]
    simp

theorem size_close (c : Core) : c.close.size ≤ c.size := by
  obtain ⟨members, current, pending⟩ := c
  rcases current with _ | member
  · simp [Core.close, Core.size]
  · rw [Core.close]
    dsimp only
    have hpushed := length_push_after member pending
    split_ifs
    · simp only [Core.size, entry_count_append, Option.toList_some, Option.toList_none]
      simp only [entry_count, List.map_cons, List.map_nil, List.sum_cons, List.sum_nil,
        List.length_nil]
      omega
    · simp only [Core.size, Option.toList_none]
      simp only [entry_count, List.map_nil, List.sum_nil, List.length_nil]
      omega

/-- A line adds itself at most. -/
theorem size_advance (c : Core) (reading : Reading) :
    (c.advance reading).size ≤ c.size + if reading.is_entry then 1 else 0 := by
  have hclose := size_close c
  cases reading with
  | opens name =>
    have hopen : (c.advance (.opens name)).size = c.close.size := by
      simp [Core.advance, Core.size, Core.close, entry_count, SearchMember.entries]
    rw [hopen]
    simpa [Reading.is_entry] using hclose
  | closes => exact hclose.trans (Nat.le_add_right _ _)
  | entry entry =>
    obtain ⟨members, current, pending⟩ := c
    rcases current with _ | member
    · exact Nat.le_succ _
    · cases entry with
      | matched lineNumber content =>
        have hpushed := congrArg List.length
          (entries_push_match member.found pending lineNumber content)
        have hsize : (Core.advance ⟨members, some member, pending⟩
            (.entry (.matched lineNumber content))).size = entry_count members +
              ((push_after pending member.found ++ [(⟨lineNumber, content,
                if member.found = [] then pending else [], []⟩ : SearchMatch)]).flatMap
                  SearchMatch.entries).length := by
          simp [Core.advance, Core.read, Core.size, entry_count, SearchMember.entries]
        have hbefore : Core.size ⟨members, some member, pending⟩ = entry_count members +
            (member.found.flatMap SearchMatch.entries).length + pending.length := by
          simp [Core.size, entry_count, SearchMember.entries]
        rw [hsize, hbefore, hpushed]
        simp only [List.length_append, List.length_map, List.length_singleton, Reading.is_entry,
          if_true]
        omega
      | context content =>
        simp [Core.advance, Core.read, Core.size, Reading.is_entry, Nat.add_assoc]
  | other => exact Nat.le_add_right _ _

theorem size_fold (c : Core) (readings : List Reading) :
    (readings.foldl Core.advance c).size ≤ c.size + readings.countP Reading.is_entry := by
  induction readings generalizing c with
  | nil => exact le_rfl
  | cons reading readings ih =>
    have hstep := size_advance c reading
    have hrest := ih (c.advance reading)
    rw [List.foldl_cons, List.countP_cons]
    omega

theorem size_collected (readings : List Reading) :
    entry_count (collected readings) ≤ readings.countP Reading.is_entry := by
  have hfold := size_fold ⟨[], none, []⟩ readings
  have hclose := size_close (readings.foldl Core.advance ⟨[], none, []⟩)
  have hmembers : entry_count (collected readings) ≤
      (readings.foldl Core.advance ⟨[], none, []⟩).close.size := by
    rw [Core.size, Nat.add_assoc]
    exact Nat.le_add_right _ _
  have hempty : Core.size ⟨[], none, []⟩ = 0 := rfl
  omega

/-- All lines of a listing are in its sections. -/
def section_count (all : List Section) : ℕ := (all.map fun s => s.entries.length).sum

theorem section_count_append (first second : List Section) :
    section_count (first ++ second) = section_count first + section_count second := by
  simp [section_count]

theorem section_count_gather (g : Gathered) (reading : Reading)
    (h : reading.is_entry = true → g.2 ≠ none) :
    section_count (gather g reading).all =
      section_count g.all + if reading.is_entry then 1 else 0 := by
  obtain ⟨done, s⟩ := g
  cases reading with
  | opens name => simp [gather, Gathered.all, section_count, Reading.is_entry]
  | closes => simp [gather, Gathered.all, section_count, Reading.is_entry]
  | entry entry =>
    obtain ⟨s, rfl⟩ := Option.ne_none_iff_exists'.mp (h rfl)
    simp [gather, Gathered.all, section_count, Reading.is_entry, Nat.add_assoc]
  | other => rfl

theorem section_reading_ne_entry (line : Text) (entry : Entry) :
    section_reading line ≠ some (.entry entry) := by
  rw [section_reading]
  rcases (dsMatch line).filter fun _ => includes line "SOURCE SECTION" with _ | dsn
  · rcases memberMatch line with _ | name
    · rcases summaryMatch line with _ | counts <;> simp
    · simp
  · simp

theorem is_entry_meaning (line : ListingLine) :
    line.meaning.is_entry = line.content.isSome := by
  cases line with
  | control text =>
    have hne := section_reading_ne_entry text
    rw [ListingLine.meaning, ListingLine.content]
    rcases hsection : section_reading text with _ | r
    · rfl
    · cases r with
      | entry entry => exact absurd hsection (hne entry)
      | _ => rfl
  | matched margin digits content => rfl
  | context margin content => rfl

/-- Up to any line of a listing, all lines of sections are in the sections so far. -/
theorem section_count_gathered (listing : Listing) {before after : List ListingLine}
    (h : listing.lines = before ++ after) :
    section_count (gathered (meanings before)).all =
      (meanings before).countP Reading.is_entry := by
  induction before using List.reverseRecOn generalizing after with
  | nil => rfl
  | append_singleton before line ih =>
    have hlines : listing.lines = before ++ line :: after := by simpa using h
    have hinside : line.meaning.is_entry = true → (gathered (meanings before)).2 ≠ none := by
      intro hentry
      apply listing.inside before line after hlines
      rw [is_entry_meaning] at hentry
      exact Option.isSome_iff_ne_none.mp hentry
    have hmeanings : meanings (before ++ [line]) = meanings before ++ [line.meaning] :=
      List.map_append
    have hgathered : gathered (meanings (before ++ [line])) =
        gather (gathered (meanings before)) line.meaning := by
      rw [hmeanings, gathered, List.foldl_append]
      rfl
    rw [hgathered, section_count_gather _ _ hinside, ih hlines, hmeanings, List.countP_append,
      List.countP_singleton]

theorem section_count_listing (listing : Listing) :
    section_count (sections (meanings listing.lines)) =
      (meanings listing.lines).countP Reading.is_entry :=
  section_count_gathered listing (List.append_nil _).symm

/-- What the lines of a listing are read as. -/
theorem members_of_listing (listing : Listing) :
    (parseSearchOutput listing.text).members =
      collected (listing.lines.map fun line => reading line.text) := by
  rw [members_eq, Listing.text, List.splitOn_intercalate, List.map_map]
  · rfl
  · simpa using listing.one_line
  · simpa using listing.nonempty

theorem entry_reading_of_content {listing : Listing} {line : ListingLine}
    (hmem : line ∈ listing.lines) {content : Text} (hcontent : line.content = some content) :
    entry_reading line.text =
      if content ≠ [] ∧ ∀ c ∈ content, is_line_end c = false then line.meaning else .other := by
  cases line with
  | control text => cases hcontent
  | matched margin digits content' =>
    obtain rfl := Option.some.inj hcontent
    obtain ⟨hne, hdigits⟩ := listing.digits margin digits content' hmem
    exact entry_reading_matched margin content' hne hdigits
  | context margin content' =>
    obtain rfl := Option.some.inj hcontent
    exact entry_reading_context margin content'

/-- A line of a section that looks like a header is not read as what it means. -/
theorem reading_eq_meaning {listing : Listing} {line : ListingLine} (hmem : line ∈ listing.lines)
    (h : ∀ content, line.content = some content →
      section_reading line.text = none ∧ content ≠ [] ∧ ∀ c ∈ content, is_line_end c = false) :
    reading line.text = line.meaning := by
  rcases hcontent : line.content with _ | content
  · cases line with
    | control text =>
      rw [reading, ListingLine.meaning, ListingLine.text]
      rcases hsection : section_reading text with _ | r
      · exact listing.control text hmem hsection
      · rfl
    | matched margin digits content => cases hcontent
    | context margin content => cases hcontent
  · obtain ⟨hsection, hplain⟩ := h content hcontent
    rw [reading, hsection, Option.getD_none, entry_reading_of_content hmem hcontent, if_pos hplain]

theorem plain_of_is_entry {listing : Listing} {line : ListingLine} (hmem : line ∈ listing.lines)
    (h : (reading line.text).is_entry = true) : ∃ content, line.content = some content ∧
      section_reading line.text = none ∧ content ≠ [] ∧ ∀ c ∈ content, is_line_end c = false := by
  have hne := section_reading_ne_entry line.text
  rw [reading] at h
  rcases hsection : section_reading line.text with _ | r
  · rw [hsection, Option.getD_none] at h
    rcases hcontent : line.content with _ | content
    · cases line with
      | control text =>
        rw [ListingLine.text] at h hsection
        rw [listing.control text hmem hsection] at h
        cases h
      | matched margin digits content => cases hcontent
      | context margin content => cases hcontent
    · rw [entry_reading_of_content hmem hcontent] at h
      by_cases hplain : content ≠ [] ∧ ∀ c ∈ content, is_line_end c = false
      · exact ⟨content, rfl, rfl, hplain⟩
      · rw [if_neg hplain] at h
        cases h
  · rw [hsection] at h
    cases r with
    | entry entry => exact absurd hsection (hne entry)
    | _ => cases h

/-- The lines of a section that the result does not have. -/
def Section.lost (s : Section) : ℕ := if s.has_match then 0 else s.entries.length

theorem entry_count_listed (members : List SearchMember) :
    entry_count members = ((members.map SearchMember.listed).map fun e => e.2.length).sum := by
  rw [List.map_map]
  rfl

theorem length_listed (s : Section) : s.listed.2.length + s.lost = s.entries.length := by
  rw [Section.listed, Section.lost]
  split_ifs <;> simp

theorem section_count_kept (all : List Section) :
    (((all.filter Section.kept).map Section.listed).map fun e => e.2.length).sum +
      (all.map Section.lost).sum = section_count all := by
  induction all with
  | nil => rfl
  | cons s all ih =>
    have hlisted := length_listed s
    rw [section_count, List.map_cons, List.map_cons, List.sum_cons, List.sum_cons, List.filter_cons]
    rw [section_count] at ih
    by_cases hkept : s.kept = true
    · rw [if_pos hkept, List.map_cons, List.map_cons, List.sum_cons]
      omega
    · have hmatch : s.has_match = false := by
        rw [Section.kept, Bool.or_eq_true, not_or] at hkept
        exact Bool.eq_false_iff.mpr hkept.2
      have hnone : s.listed.2.length = 0 := by
        rw [Section.listed, hmatch]
        rfl
      rw [if_neg hkept]
      omega

theorem section_count_nonempty (all : List Section) :
    (((all.filter fun s => s.name.isSome || s.entries ≠ []).map
      fun s => (s.name, s.entries)).map fun e => e.2.length).sum = section_count all := by
  induction all with
  | nil => rfl
  | cons s all ih =>
    rw [section_count] at ih ⊢
    rw [List.map_cons, List.sum_cons, List.filter_cons]
    by_cases hkept : (s.name.isSome || s.entries ≠ []) = true
    · rw [if_pos hkept, List.map_cons, List.map_cons, List.sum_cons, ih]
    · have hempty : s.entries = [] := by
        rw [Bool.or_eq_true, not_or, decide_eq_true_eq] at hkept
        exact not_not.mp hkept.2
      rw [if_neg hkept, ih, hempty, List.length_nil, Nat.zero_add]

/-- If no more lines than these count, each of them does. -/
theorem forall_of_countP {α : Type} {p q : α → Bool} {l : List α}
    (hpq : ∀ a ∈ l, p a = true → q a = true) (h : l.countP q ≤ l.countP p) :
    ∀ a ∈ l, q a = true → p a = true := by
  induction l with
  | nil => exact fun a ha => absurd ha List.not_mem_nil
  | cons b l ih =>
    have hrest : l.countP p ≤ l.countP q :=
      List.countP_mono_left fun a ha => hpq a (List.mem_cons_of_mem b ha)
    have hb := hpq b List.mem_cons_self
    rw [List.countP_cons, List.countP_cons] at h
    have hl : l.countP q ≤ l.countP p := by
      by_cases hp : p b = true
      · rw [if_pos hp, if_pos (hb hp)] at h
        omega
      · rw [if_neg hp] at h
        omega
    have hhead : q b = true → p b = true := by
      intro hq
      by_contra hp
      rw [if_pos hq, if_neg hp] at h
      omega
    exact List.forall_mem_cons.mpr
      ⟨hhead, ih (fun a ha => hpq a (List.mem_cons_of_mem b ha)) hl⟩

theorem readings_eq_meanings {listing : Listing}
    (h : ∀ line ∈ listing.lines, ∀ content, line.content = some content →
      section_reading line.text = none ∧ content ≠ [] ∧ ∀ c ∈ content, is_line_end c = false) :
    (listing.lines.map fun line => reading line.text) = meanings listing.lines :=
  List.map_congr_left fun line hmem => reading_eq_meaning hmem (h line hmem)

/-- If nothing is lost, each line is read as what it means. -/
theorem plain_lines_of_count {listing : Listing}
    (h : entry_count (parseSearchOutput listing.text).members =
      section_count (sections (meanings listing.lines))) :
    ∀ line ∈ listing.lines, ∀ content, line.content = some content →
      section_reading line.text = none ∧ content ≠ [] ∧ ∀ c ∈ content, is_line_end c = false := by
  have hread := size_collected (listing.lines.map fun line => reading line.text)
  rw [← members_of_listing, h, section_count_listing, meanings, List.countP_map,
    List.countP_map] at hread
  have hall := forall_of_countP (p := Reading.is_entry ∘ fun line => reading line.text)
    (q := Reading.is_entry ∘ ListingLine.meaning) ?_ hread
  · intro line hmem content hcontent
    have hentry : line.meaning.is_entry = true := by
      rw [is_entry_meaning, hcontent]
      rfl
    obtain ⟨content', hcontent', hplain⟩ := plain_of_is_entry hmem (hall line hmem hentry)
    obtain rfl := Option.some.inj (hcontent.symm.trans hcontent')
    exact hplain
  · intro line hmem hentry
    obtain ⟨content, hcontent, -⟩ := plain_of_is_entry hmem hentry
    rw [Function.comp_apply, is_entry_meaning, hcontent]
    rfl

/-- Sections that have a match wherever they have a line are listed with all their lines. -/
theorem kept_listed {all : List Section}
    (h : ∀ s ∈ all, s.entries ≠ [] → s.has_match = true) :
    (all.filter Section.kept).map Section.listed =
      (all.filter fun s => s.name.isSome || s.entries ≠ []).map fun s => (s.name, s.entries) := by
  have hmatch : ∀ s ∈ all, s.has_match = decide (s.entries ≠ []) := by
    intro s hs
    rw [Bool.eq_iff_iff, decide_eq_true_eq]
    refine ⟨fun hhas hempty => ?_, h s hs⟩
    rw [Section.has_match, hempty] at hhas
    cases hhas
  have hfilter : all.filter Section.kept =
      all.filter fun s => s.name.isSome || s.entries ≠ [] := by
    apply List.filter_congr
    intro s hs
    rw [Section.kept, hmatch s hs]
  rw [hfilter]
  apply List.map_congr_left
  intro s hs
  rw [Section.listed, hmatch s (List.mem_of_mem_filter hs)]
  by_cases hentries : s.entries = []
  · simp [hentries]
  · simp [hentries]

/-- Nothing of a listing is lost and nothing is in a wrong place exactly if its lines are plain. -/
theorem keeps_iff (listing : Listing) : Keeps listing ↔ Plain listing := by
  constructor
  · rintro ⟨hkeeps, -⟩
    have hcount : entry_count (parseSearchOutput listing.text).members =
        section_count (sections (meanings listing.lines)) := by
      rw [entry_count_listed, hkeeps, section_count_nonempty]
    have hlines := plain_lines_of_count hcount
    refine ⟨hlines, fun s hs hentries => ?_⟩
    have hkept := section_count_kept (sections (meanings listing.lines))
    rw [← (collected_listed (meanings listing.lines)).1, ← readings_eq_meanings hlines,
      ← members_of_listing, ← entry_count_listed, hcount] at hkept
    have hlost : ((sections (meanings listing.lines)).map Section.lost).sum = 0 := by
      rw [← readings_eq_meanings hlines] at hkept ⊢
      omega
    have hnone : s.lost = 0 := List.sum_eq_zero_iff.mp hlost s.lost (List.mem_map_of_mem hs)
    by_contra hmatch
    rw [Section.lost, if_neg hmatch, List.length_eq_zero_iff] at hnone
    exact hentries hnone
  · rintro ⟨hlines, hsections⟩
    obtain ⟨hlisted, hplaced⟩ := collected_listed (meanings listing.lines)
    rw [← readings_eq_meanings hlines, ← members_of_listing, readings_eq_meanings hlines]
      at hlisted
    rw [← readings_eq_meanings hlines, ← members_of_listing] at hplaced
    exact ⟨hlisted.trans (kept_listed hsections), hplaced⟩

/-- A line around a match that quotes the header of a section. -/
def quoting_listing : Listing where
  lines :=
    [.control "  LINE-#  SOURCE SECTION                    SRCH DSN: A.B(M)".toList,
      .matched 5 ['1'] "// JOB".toList,
      .context 5 "//* SEE SOURCE SECTION OF SRCH DSN: C.D".toList]
  nonempty := by simp
  one_line := by decide +kernel
  control := by
    intro text htext hsection
    simp only [List.mem_cons, List.not_mem_nil, or_false, reduceCtorEq,
      ListingLine.control.injEq] at htext
    subst htext
    revert hsection
    decide +kernel
  digits := by
    intro margin digits content hmem
    simp only [List.mem_cons, List.not_mem_nil, or_false, reduceCtorEq, false_or,
      ListingLine.matched.injEq] at hmem
    obtain ⟨rfl, rfl, rfl⟩ := hmem
    decide
  inside := by
    intro before line after hlines hcontent
    rcases before with _ | ⟨first, before⟩
    · obtain ⟨rfl, -⟩ := List.cons.inj hlines
      exact absurd rfl hcontent
    · obtain ⟨hfirst, hrest⟩ := List.cons.inj hlines
      rcases before with _ | ⟨second, before⟩
      · rw [← hfirst]
        exact Option.isSome_iff_ne_none.mp (by decide +kernel)
      · obtain ⟨hsecond, hend⟩ := List.cons.inj hrest
        rcases before with _ | ⟨third, before⟩
        · rw [← hfirst, ← hsecond]
          exact Option.isSome_iff_ne_none.mp (by decide +kernel)
        · exact absurd (List.cons.inj hend).2.symm (by simp)

/-- The line around the match is gone: it opens a section without a name and without a match. -/
theorem quoted_header_ends_section : ¬ Keeps quoting_listing := by
  intro hkeeps
  have hcounts := congrArg (List.map fun e => e.2.length) hkeeps.1
  revert hcounts
  decide +kernel

end Zowex.sdk.SearchParser

import Mathlib.Data.List.Basic
import Mathlib.Tactic

/-! The POSIX shell reading one simple command: how it cuts a line into words and output
redirections, and removes the quoting. Anything that makes it do more (an expansion, an
operator other than `>`, a second command) ends in `failed`. -/

namespace Shell

abbrev Text := List Char

inductive Item
  | word (text : Text)
  | output
  deriving DecidableEq, Repr

def Item.size : Item → ℕ
  | .word text => text.length
  | .output => 0

/-- Where the reader stands: `blank` is between words, `word` in the unquoted part of one. An
unquoted backslash notes whether a word had begun. -/
inductive Mode
  | blank | word | single | double | double_escape
  | escape (in_word : Bool)
  | comment | failed
  deriving DecidableEq, Repr

structure State where
  items : List Item := []
  text : Text := []
  mode : Mode := .blank
  deriving DecidableEq, Repr

namespace State

def add (s : State) (cs : Text) (mode : Mode) : State :=
  { s with text := s.text ++ cs, mode }

/-- The end of a word, if one had begun. -/
def close (s : State) : State :=
  match s.mode with
  | .word => { items := s.items ++ [.word s.text] }
  | _ => s

/-- Expansions, patterns, operators and the end of the command. -/
def special : List Char := ['$', '`', '*', '?', '[', ';', '&', '|', '<', '(', ')', '\n']

def unquoted (s : State) (c : Char) : State :=
  if c = '\'' then { s with mode := .single }
  else if c = '"' then { s with mode := .double }
  else if c = '\\' then { s with mode := .escape (s.mode = .word) }
  else if c = ' ' ∨ c = '\t' then s.close
  else if c = '>' then { s.close with items := s.close.items ++ [.output] }
  else if c ∈ special then { s with mode := .failed }
  else if s.mode = .blank ∧ c = '#' then { s with mode := .comment }
  else if s.mode = .blank ∧ c = '~' then { s with mode := .failed }
  else s.add [c] .word

def step (s : State) (c : Char) : State :=
  match s.mode with
  | .blank | .word => s.unquoted c
  | .single => if c = '\'' then { s with mode := .word } else s.add [c] .single
  | .double =>
    if c = '"' then { s with mode := .word }
    else if c = '\\' then { s with mode := .double_escape }
    else if c = '$' ∨ c = '`' then { s with mode := .failed }
    else s.add [c] .double
  | .double_escape =>
    if c = '\n' then { s with mode := .double }
    else if c = '$' ∨ c = '`' ∨ c = '"' ∨ c = '\\' then s.add [c] .double
    else s.add ['\\', c] .double
  | .escape in_word =>
    if c = '\n' then { s with mode := if in_word then .word else .blank } else s.add [c] .word
  | .comment => if c = '\n' then { s with mode := .failed } else s
  | .failed => s

def run (s : State) (line : Text) : State := line.foldl step s

def finish (s : State) : Option (List Item) :=
  match s.mode with
  | .blank | .comment => some s.items
  | .word => some (s.items ++ [.word s.text])
  | _ => none

@[simp] theorem run_nil (s : State) : s.run [] = s := rfl

@[simp] theorem run_cons (s : State) (c : Char) (cs : Text) :
    s.run (c :: cs) = (s.step c).run cs := rfl

@[simp] theorem run_append (s : State) (as bs : Text) :
    s.run (as ++ bs) = (s.run as).run bs := List.foldl_append

end State

/-- The words and redirections of a line, if it is one simple command without expansions. -/
def read (line : Text) : Option (List Item) := (({} : State).run line).finish

/-- A simple command: its words, and the files its output is redirected to. -/
structure Simple where
  argv : List Text := []
  outputs : List Text := []
  deriving DecidableEq, Repr

def simple : List Item → Option Simple
  | [] => some {}
  | .output :: .word file :: items =>
    (simple items).map fun s => { s with outputs := file :: s.outputs }
  | .output :: _ => none
  | .word text :: items => (simple items).map fun s => { s with argv := text :: s.argv }

/-! The word that a longer command line starts with, and its tilde-prefix. -/

/-- The first word that the reader comes to the end of. -/
def first_word (s : State) : Text → Option Text
  | [] =>
    match s.finish with
    | some (.word text :: _) => some text
    | _ => none
  | c :: cs =>
    match (s.step c).items with
    | .word text :: _ => some text
    | .output :: _ => none
    | [] => first_word (s.step c) cs

def name_char (c : Char) : Bool := c.isAlphanum || c = '_'

/-- The line starts with the assignment of a variable. -/
def assigns (line : Text) : Bool :=
  let name := line.takeWhile name_char
  name ≠ [] && !(name.head?.any Char.isDigit) && (line.drop name.length).head? = some '='

/-- A word; the home directory of the user comes before it where its tilde is expanded. -/
structure CommandWord where
  home : Bool
  text : Text
  deriving DecidableEq, Repr

/-- The name of the command that a line starts with. A tilde is expanded up to an unquoted slash,
unless there is a quote before that. The home of another user is none. -/
def command_word (line : Text) : Option CommandWord :=
  if assigns line then none
  else
    match line with
    | '~' :: '/' :: rest => (first_word ⟨[], ['/'], .word⟩ rest).map (⟨true, ·⟩)
    | '~' :: rest =>
      if rest.head? = some '\'' ∨ rest.head? = some '"' ∨ rest.head? = some '\\' then
        (first_word ⟨[], ['~'], .word⟩ rest).map (⟨false, ·⟩)
      else if rest = [] ∨ rest.head? = some ' ' ∨ rest.head? = some '\t' then some ⟨true, []⟩
      else none
    | line => (first_word {} line).map (⟨false, ·⟩)

/-! Word expansion. -/

/-- The words of a text that is nothing else. -/
def words (items : List Item) : Option (List Text) :=
  items.mapM fun item =>
    match item with
    | .word text => some text
    | .output => none

/-- What a text expands to that may start with a tilde. As for a command word, the tilde is expanded
up to an unquoted slash, unless there is a quote before that. -/
def expand (home text : Text) : Option (List Text) :=
  match text with
  | '~' :: '/' :: rest => ((⟨[], home ++ ['/'], .word⟩ : State).run rest).finish.bind words
  | '~' :: rest =>
    if rest.head? = some '\'' ∨ rest.head? = some '"' ∨ rest.head? = some '\\' then
      ((⟨[], ['~'], .word⟩ : State).run rest).finish.bind words
    else if rest = [] ∨ rest.head? = some ' ' ∨ rest.head? = some '\t' then
      ((⟨[], home, .word⟩ : State).run rest).finish.bind words
    else none
  | text => (read text).bind words

namespace State

/-! Text that the reader takes as it stands. -/

theorem run_single {cs : Text} (h : '\'' ∉ cs) (items : List Item) (text : Text) :
    (⟨items, text, .single⟩ : State).run cs = ⟨items, text ++ cs, .single⟩ := by
  induction cs generalizing text with
  | nil => simp
  | cons c cs ih =>
    rw [List.mem_cons, not_or] at h
    rw [run_cons, step, if_neg (Ne.symm h.1), add, ih h.2, List.append_assoc,
      List.singleton_append]

/-- A character that means nothing outside quotes. -/
def plain (c : Char) : Prop :=
  c ∉ ['\'', '"', '\\', ' ', '\t', '>', '#', '~'] ∧ c ∉ special

instance (c : Char) : Decidable (plain c) := inferInstanceAs (Decidable (_ ∧ _))

theorem step_plain {c : Char} (h : plain c) {s : State} (hs : s.mode = .blank ∨ s.mode = .word) :
    s.step c = s.add [c] .word := by
  have hstep : s.step c = s.unquoted c := by
    rcases hs with hs | hs <;> simp [step, hs]
  obtain ⟨h, hspecial⟩ := h
  simp only [List.mem_cons, List.not_mem_nil, or_false, not_or] at h
  rw [hstep, unquoted, if_neg h.1, if_neg h.2.1, if_neg h.2.2.1, if_neg, if_neg h.2.2.2.2.2.1,
    if_neg hspecial, if_neg, if_neg]
  · exact fun hc => h.2.2.2.2.2.2.2 hc.2
  · exact fun hc => h.2.2.2.2.2.2.1 hc.2
  · rintro (hc | hc)
    · exact h.2.2.2.1 hc
    · exact h.2.2.2.2.1 hc

theorem run_plain {cs : Text} (h : ∀ c ∈ cs, plain c) (items : List Item) (text : Text) :
    (⟨items, text, .word⟩ : State).run cs = ⟨items, text ++ cs, .word⟩ := by
  induction cs generalizing text with
  | nil => simp
  | cons c cs ih =>
    rw [List.forall_mem_cons] at h
    rw [run_cons, step_plain h.1 (.inr rfl), add, ih h.2, List.append_assoc,
      List.singleton_append]

theorem run_plain_blank {cs : Text} (h : ∀ c ∈ cs, plain c) (hne : cs ≠ []) (items : List Item) :
    (⟨items, [], .blank⟩ : State).run cs = ⟨items, cs, .word⟩ := by
  obtain ⟨c, cs, rfl⟩ := List.exists_cons_of_ne_nil hne
  rw [List.forall_mem_cons] at h
  rw [run_cons, step_plain h.1 (.inl rfl), add, run_plain h.2]
  rfl

/-- Text that double quotes keep as it stands: no character that ends or interrupts them, and
no backslash that would take the next character with it. -/
def keeps : Text → Bool
  | [] => true
  | c :: cs =>
    c ∉ ['"', '$', '`'] && !(c = '\\' && (cs.head? = some '\\' || cs.head? = some '\n')) &&
      keeps cs

theorem run_double {cs : Text} (h : keeps cs) (hlast : cs.getLast? ≠ some '\\')
    (items : List Item) (text : Text) :
    (⟨items, text, .double⟩ : State).run cs = ⟨items, text ++ cs, .double⟩ := by
  induction cs generalizing text with
  | nil => simp
  | cons c cs ih =>
    simp only [keeps, Bool.and_eq_true, decide_eq_true_eq, List.mem_cons, List.not_mem_nil,
      or_false, not_or, Bool.not_eq_true', Bool.and_eq_false_imp, Bool.or_eq_false_iff,
      decide_eq_false_iff_not] at h
    obtain ⟨⟨⟨hq, hd, hb⟩, hnext⟩, hcs⟩ := h
    by_cases hc : c = '\\'
    · -- the backslash stays only because of the character after it
      subst hc
      obtain ⟨h1, h2⟩ := hnext rfl
      cases cs with
      | nil => exact absurd rfl hlast
      | cons d ds =>
        rw [List.getLast?_cons_cons] at hlast
        have hih := ih hcs hlast (text ++ ['\\'])
        simp only [List.head?_cons, Option.some.injEq] at h1 h2
        simp only [keeps, Bool.and_eq_true, decide_eq_true_eq, List.mem_cons, List.not_mem_nil,
          or_false, not_or] at hcs
        have hread : (⟨items, text, .double⟩ : State).run ('\\' :: d :: ds) =
            (⟨items, text ++ ['\\'], .double⟩ : State).run (d :: ds) := by
          simp [step, add, h1, h2, hcs.1.1.1, hcs.1.1.2.1, hcs.1.1.2.2]
        rw [hread, hih, List.append_assoc, List.singleton_append]
    · have hlast : cs.getLast? ≠ some '\\' := by
        cases cs with
        | nil => simp
        | cons d ds => rwa [List.getLast?_cons_cons] at hlast
      have hstep : (⟨items, text, .double⟩ : State).step c = ⟨items, text ++ [c], .double⟩ := by
        simp [step, add, hq, hd, hb, hc]
      rw [run_cons, hstep, ih hcs hlast, List.append_assoc, List.singleton_append]

/-! Single quotes in a row. -/

theorem run_quotes_word (k : ℕ) (items : List Item) (text : Text) :
    (⟨items, text, .word⟩ : State).run (List.replicate k '\'') =
        ⟨items, text, if k % 2 = 0 then .word else .single⟩ ∧
      (⟨items, text, .single⟩ : State).run (List.replicate k '\'') =
        ⟨items, text, if k % 2 = 0 then .single else .word⟩ := by
  induction k with
  | zero => exact ⟨rfl, rfl⟩
  | succ k ih =>
    have hw : (⟨items, text, .word⟩ : State).step '\'' = ⟨items, text, .single⟩ := rfl
    have hs : (⟨items, text, .single⟩ : State).step '\'' = ⟨items, text, .word⟩ := rfl
    rw [List.replicate_succ, run_cons, run_cons, hw, hs, ih.1, ih.2]
    rcases Nat.mod_two_eq_zero_or_one k with hk | hk
    · simp [Nat.add_mod, hk]
    · simp [Nat.add_mod, hk]

theorem run_quotes_double (k : ℕ) (items : List Item) (text : Text) :
    (⟨items, text, .double⟩ : State).run (List.replicate k '\'') =
      ⟨items, text ++ List.replicate k '\'', .double⟩ := by
  induction k generalizing text with
  | zero => simp
  | succ k ih =>
    have hd : (⟨items, text, .double⟩ : State).step '\'' = ⟨items, text ++ ['\''], .double⟩ := rfl
    rw [List.replicate_succ, run_cons, hd, ih, List.append_assoc, List.singleton_append]

/-! How much a reader has taken in: the characters of its words, and one for a backslash
whose character is still to come. A character adds at most one. -/

def size (s : State) : ℕ :=
  (s.items.map Item.size).sum + s.text.length +
    match s.mode with
    | .double_escape | .escape _ => 1
    | _ => 0

theorem size_close_le (s : State) : s.close.size ≤ s.size := by
  unfold close
  split
  next hmode => simp [size, hmode, Item.size]
  next => exact le_rfl

theorem size_step_le (s : State) (c : Char) : (s.step c).size ≤ s.size + 1 := by
  have hclose := size_close_le s
  obtain ⟨items, text, mode⟩ := s
  have hunq : mode = .blank ∨ mode = .word →
      (State.unquoted ⟨items, text, mode⟩ c).size ≤ (⟨items, text, mode⟩ : State).size + 1 := by
    intro hmode
    unfold unquoted
    split_ifs
    · rcases hmode with rfl | rfl <;> simp [size]
    · rcases hmode with rfl | rfl <;> simp [size]
    · rcases hmode with rfl | rfl <;> simp [size]
    · omega
    · simp only [size, List.map_append, List.sum_append, List.map_cons, List.map_nil,
        List.sum_cons, List.sum_nil, Item.size] at hclose ⊢
      omega
    all_goals rcases hmode with rfl | rfl <;> simp [size, add] <;> omega
  cases mode with
  | blank => exact hunq (.inl rfl)
  | word => exact hunq (.inr rfl)
  | single =>
    unfold step
    dsimp only
    split_ifs
    · simp [size]
    · simp only [size, add, List.length_append, List.length_singleton]
      omega
  | double =>
    unfold step
    dsimp only
    split_ifs
    · simp [size]
    · simp [size]
    · simp [size]
    · simp only [size, add, List.length_append, List.length_singleton]
      omega
  | double_escape =>
    unfold step
    dsimp only
    split_ifs <;> simp [size, add] <;> omega
  | escape in_word =>
    unfold step
    dsimp only
    cases in_word <;> split_ifs <;> simp [size, add] <;> omega
  | comment =>
    unfold step
    dsimp only
    split_ifs <;> simp [size]
  | failed => simp [step]

theorem size_run_le (s : State) (cs : Text) : (s.run cs).size ≤ s.size + cs.length := by
  induction cs generalizing s with
  | nil => simp
  | cons c cs ih =>
    have h1 := size_step_le s c
    have h2 := ih (s.step c)
    rw [run_cons, List.length_cons]
    omega

/-- A single and a double quote next to each other add at most one character. -/
theorem size_single_double (s : State) : (s.run ['\'', '"']).size ≤ s.size + 1 := by
  obtain ⟨items, text, mode⟩ := s
  cases mode <;> simp [step, unquoted, size, add]
  all_goals omega

theorem size_double_single (s : State) : (s.run ['"', '\'']).size ≤ s.size + 1 := by
  obtain ⟨items, text, mode⟩ := s
  cases mode <;> simp [step, unquoted, size, add]
  all_goals omega

theorem size_le_of_finish {s : State} {items : List Item} (h : s.finish = some items) :
    (items.map Item.size).sum ≤ s.size := by
  obtain ⟨done, text, mode⟩ := s
  cases mode <;> simp only [finish, Option.some.injEq, reduceCtorEq] at h
  all_goals
    subst h
    simp [size, Item.size]

end State

/-- The characters of a simple command are those of its words and files. -/
theorem size_simple {items : List Item} {command : Simple} (h : simple items = some command) :
    (items.map Item.size).sum =
      (command.argv.map List.length).sum + (command.outputs.map List.length).sum := by
  induction items using simple.induct generalizing command with
  | case1 =>
    obtain rfl : {} = command := Option.some.inj h
    rfl
  | case2 file items ih =>
    rw [simple] at h
    obtain ⟨rest, hrest, rfl⟩ := Option.map_eq_some_iff.mp h
    have := ih hrest
    simp only [List.map_cons, List.sum_cons, Item.size]
    omega
  | case3 items hne =>
    rw [simple] at h
    · cases h
    · exact hne
  | case4 text items ih =>
    rw [simple] at h
    obtain ⟨rest, hrest, rfl⟩ := Option.map_eq_some_iff.mp h
    have := ih hrest
    simp only [List.map_cons, List.sum_cons, Item.size]
    omega

end Shell

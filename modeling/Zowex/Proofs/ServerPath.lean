import Zowex.Spec.ServerPath
import Zowex.Proofs.QuotePath

/-! Which server paths name one directory. A file system whose links lead everywhere tells any two
ways apart that are not the same steps. -/

namespace Zowex.sdk

open Shell State
open Paths hiding Text

/-! A quoted path is one word of the shell that reads it. -/

theorem run_quote_runs (path : Text) (items : List Item) (text : Text) :
    (⟨items, text, .single⟩ : State).run (quote_runs false path) =
      ⟨items, text ++ path, .single⟩ := by
  induction path using run_induction generalizing text with
  | hnil => simp [quote_runs]
  | hcons c cs hc ih =>
    rw [quote_runs, if_neg hc, run_cons, State.step, if_neg hc, State.add, ih, List.append_assoc,
      List.singleton_append]
  | hrun k cs hhead ih =>
    have hopen : (⟨items, text, .single⟩ : State).run ['\'', '"'] = ⟨items, text, .double⟩ := rfl
    have hclose (text : Text) : (⟨items, text, .double⟩ : State).run ['"', '\''] =
        ⟨items, text, .single⟩ := rfl
    rw [quote_runs_run hhead, sdk.run_image, run_append, run_append, run_append, hopen,
      run_quotes_double, hclose, ih, List.append_assoc]

/-- Between words there is no text yet. -/
def Fresh (s : State) : Prop := s.mode = .blank ∨ s.mode = .escape false → s.text = []

theorem Fresh.step {s : State} (h : Fresh s) (c : Char) : Fresh (s.step c) := by
  obtain ⟨items, text, mode⟩ := s
  cases mode with
  | blank =>
    obtain rfl : text = [] := h (.inl rfl)
    unfold State.step State.unquoted
    dsimp only
    split_ifs <;> simp [Fresh, State.close, State.add]
  | word =>
    unfold State.step State.unquoted
    dsimp only
    split_ifs <;> simp [Fresh, State.close, State.add]
  | single =>
    unfold State.step
    dsimp only
    split_ifs <;> simp [Fresh, State.add]
  | double =>
    unfold State.step
    dsimp only
    split_ifs <;> simp [Fresh, State.add]
  | double_escape =>
    unfold State.step
    dsimp only
    split_ifs <;> simp [Fresh, State.add]
  | escape in_word =>
    unfold State.step
    cases in_word with
    | true =>
      dsimp only
      rw [if_pos rfl]
      split_ifs <;> simp [Fresh, State.add]
    | false =>
      obtain rfl : text = [] := h (.inr rfl)
      dsimp only
      split_ifs <;> simp [Fresh, State.add]
  | comment =>
    unfold State.step
    dsimp only
    split_ifs <;> simp [Fresh]
  | failed => simp [State.step, Fresh]

theorem Fresh.run {s : State} (h : Fresh s) (cs : Text) : Fresh (s.run cs) := by
  induction cs generalizing s with
  | nil => exact h
  | cons c cs ih => exact ih (h.step c)

/-- Two quotes at the end of a word with text add nothing. -/
theorem run_strip_end {s : State} (hfresh : Fresh s) {text word : Text} {items : List Item}
    (hword : word ≠ []) (h : s.run text = ⟨items, word, .word⟩) :
    s.run (strip_end text) = ⟨items, word, .word⟩ := by
  unfold strip_end
  split
  next hsuffix =>
    obtain ⟨start, rfl⟩ := List.isSuffixOf_iff_suffix.mp hsuffix
    have hstart : (start ++ ['\'', '\'']).take ((start ++ ['\'', '\'']).length - 2) = start := by
      simp
    have hbetween := hfresh.run start
    rw [run_append] at h
    rw [hstart]
    generalize s.run start = between at h hbetween ⊢
    obtain ⟨done, between, mode⟩ := between
    cases mode <;> simp [State.step, State.unquoted, State.add] at h ⊢
    · exact hword (h.2 ▸ hbetween (.inl rfl))
    · exact h
  next => exact h

/-- A quoted path is read as the path, at the start of a word or within one. -/
theorem run_quote_path_from {before : Text} {mode : Mode}
    (hmode : mode = .blank ∧ before = [] ∨ mode = .word) {path : Text} (hnil : path ≠ [])
    (items : List Item) :
    (⟨items, before, mode⟩ : State).run (quote_path path) = ⟨items, before ++ path, .word⟩ := by
  rw [quote_path, if_neg hnil]
  by_cases hsafe : path.all safe = true
  · have hplain : ∀ c ∈ path, plain c := fun c hc =>
      (safe_plain (List.all_eq_true.mp hsafe c hc)).1
    rw [if_pos hsafe]
    obtain ⟨rfl, rfl⟩ | rfl := hmode
    · exact run_plain_blank hplain hnil items
    · exact run_plain hplain items before
  rw [if_neg hsafe]
  have hopen (q : Char) (hq : q = '\'' ∨ q = '"') : (⟨items, before, mode⟩ : State).step q =
      (⟨items, before, .word⟩ : State).step q := by
    obtain ⟨rfl, rfl⟩ | rfl := hmode
    · obtain rfl | rfl := hq <;> rfl
    · rfl
  have hfresh : Fresh ⟨items, before, mode⟩ := by
    intro h
    obtain ⟨-, rfl⟩ | rfl := hmode
    · rfl
    · simp at h
  have hwrapped : (⟨items, before, mode⟩ : State).run
      ('\'' :: quote_runs false path ++ ['\'']) = ⟨items, before ++ path, .word⟩ := by
    have hquote : (⟨items, before, .word⟩ : State).step '\'' = ⟨items, before, .single⟩ := rfl
    rw [List.cons_append, run_cons, hopen _ (.inl rfl), hquote, run_append, run_quote_runs]
    rfl
  apply run_strip_end hfresh (by simp [hnil])
  unfold strip_start
  split
  next hstart =>
    obtain ⟨c, cs, rfl⟩ := List.exists_cons_of_ne_nil hnil
    by_cases hc : c = '\''
    · rw [quote_runs, if_pos hc, List.cons_append, List.cons_append, run_cons,
        hopen _ (.inl rfl)] at hwrapped
      have hword : (⟨items, before, .word⟩ : State).run
          ('"' :: ('\'' :: quote_runs true cs ++ ['\''])) = ⟨items, before ++ c :: cs, .word⟩ :=
        hwrapped
      rw [quote_runs, if_pos hc]
      rw [run_cons, ← hopen _ (.inr rfl)] at hword
      exact hword
    · rw [quote_runs, if_neg hc] at hstart
      simp [List.isPrefixOf, Ne.symm hc] at hstart
  next => exact hwrapped

theorem run_quote_path (path : Text) (items : List Item) :
    (⟨items, [], .blank⟩ : State).run (quote_path path) = ⟨items, path, .word⟩ := by
  by_cases hnil : path = []
  · rw [hnil]
    rfl
  · exact run_quote_path_from (.inl ⟨rfl, rfl⟩) hnil items

/-- A line of three words, the last of which is a quoted path. -/
theorem operand_quote_path {start : Text} {utility flag : Text}
    (hstart : ({} : State).run start = ⟨[.word utility, .word flag], [], .blank⟩) (path : Text) :
    operand (start ++ quote_path path) =
      if utility = "test".toList then some path
      else if is_option path then none
      else if utility = "rm".toList ∧ refused_by_rm path = true then none
      else some path := by
  have hread : Shell.read (start ++ quote_path path) =
      some [.word utility, .word flag, .word path] := by
    rw [Shell.read, run_append, hstart, run_quote_path]
    rfl
  rw [operand, hread]
  simp only [Option.bind_eq_bind, Option.bind_some, simple, Option.map_some]

theorem operand_mkdir (path : Text) :
    operand (mkdir_command path) = if is_option path then none else some path := by
  have hstart : ({} : State).run "mkdir -p ".toList =
      ⟨[.word "mkdir".toList, .word "-p".toList], [], .blank⟩ := by decide +kernel
  have htest : "mkdir".toList ≠ "test".toList := by decide
  have hrm : ¬ ("mkdir".toList = "rm".toList ∧ refused_by_rm path = true) := fun h =>
    absurd h.1 (by decide)
  exact (operand_quote_path hstart path).trans ((if_neg htest).trans
    (congrArg (fun named => if is_option path = true then none else named) (if_neg hrm)))

theorem operand_test {flag : Char} (h : plain flag) (path : Text) :
    operand (test_command flag path) = some path := by
  have hdash : ({} : State).run "test -".toList = ⟨[.word "test".toList], ['-'], .word⟩ := by
    decide +kernel
  have hstart : ({} : State).run ("test -".toList ++ [flag, ' ']) =
      ⟨[.word "test".toList, .word ['-', flag]], [], .blank⟩ := by
    rw [run_append, hdash, run_cons, step_plain h (.inr rfl)]
    rfl
  exact (operand_quote_path hstart path).trans (if_pos rfl)

theorem operand_rm (path : Text) : operand (rm_command path) =
    if is_option path then none else if refused_by_rm path then none else some path := by
  have hstart : ({} : State).run "rm -rf ".toList =
      ⟨[.word "rm".toList, .word "-rf".toList], [], .blank⟩ := by decide +kernel
  have htest : "rm".toList ≠ "test".toList := by decide
  refine (operand_quote_path hstart path).trans ((if_neg htest).trans ?_)
  simp only [true_and]

/-! The word that the client starts. -/

theorem first_word_of_run {cs text : Text} {s : State} (h : s.run cs = ⟨[], text, .word⟩)
    (rest : Text) : first_word s (cs ++ ' ' :: rest) = some text := by
  induction cs generalizing s with
  | nil =>
    subst h
    rfl
  | cons c cs ih =>
    rw [run_cons] at h
    have hnil : (s.step c).items = [] := by
      have hitems : ∀ (cs : Text) (s : State), ∃ items, (s.run cs).items = s.items ++ items := by
        intro cs
        induction cs with
        | nil => exact fun s => ⟨[], by simp⟩
        | cons c cs ih =>
          intro s
          obtain ⟨first, hfirst⟩ := step_items s c
          obtain ⟨more, hmore⟩ := ih (s.step c)
          exact ⟨first ++ more, by rw [run_cons, hmore, hfirst, List.append_assoc]⟩
      obtain ⟨items, hitems⟩ := hitems cs (s.step c)
      rw [h] at hitems
      exact (List.append_eq_nil_iff.mp hitems.symm).1
    rw [List.cons_append, first_word]
    simp only [hnil]
    exact ih h

theorem start_command_eq (server_path : Text) (args : List Text) : ∃ rest,
    start_command server_path args =
      quote_remote_path (join server_path BIN_NAME) ++ ' ' :: rest := by
  rw [start_command, exec_async, List.intercalate_cons_cons, List.append_assoc, List.append_assoc,
    List.singleton_append]
  exact ⟨_, rfl⟩

theorem strip_end_head (c d e : Char) (cs : Text) :
    ∃ rest, strip_end (c :: d :: e :: cs) = c :: rest := by
  unfold strip_end
  split
  next => exact ⟨_, rfl⟩
  next => exact ⟨_, rfl⟩

/-- A path with a character that is not safe starts with a quote. -/
theorem quote_path_head {path : Text} (h : ¬ path.all safe = true) :
    ∃ rest, quote_path path = '\'' :: rest ∨ quote_path path = '"' :: rest := by
  have hnil : path ≠ [] := by
    rintro rfl
    exact h rfl
  rw [quote_path, if_neg hnil, if_neg h]
  obtain ⟨c, cs, rfl⟩ := List.exists_cons_of_ne_nil hnil
  by_cases hc : c = '\''
  · subst hc
    obtain ⟨rest, hrest⟩ : ∃ rest,
        strip_start ('\'' :: quote_runs false ('\'' :: cs) ++ ['\'']) = '"' :: '\'' :: rest :=
      ⟨_, rfl⟩
    have hmore : ∃ d more, rest = d :: more := by
      cases rest with
      | nil =>
        have := congrArg List.length hrest
        simp [strip_start, quote_runs, List.isPrefixOf] at this
      | cons d more => exact ⟨d, more, rfl⟩
    obtain ⟨d, more, rfl⟩ := hmore
    rw [hrest]
    obtain ⟨rest, hrest⟩ := strip_end_head '"' '\'' d more
    exact ⟨rest, .inr hrest⟩
  · have hstart : strip_start ('\'' :: quote_runs false (c :: cs) ++ ['\'']) =
        '\'' :: c :: (quote_runs false cs ++ ['\'']) := by
      simp [strip_start, quote_runs, hc, Ne.symm hc, List.isPrefixOf]
    rw [hstart]
    obtain ⟨d, more, hmore⟩ : ∃ d more, quote_runs false cs ++ ['\''] = d :: more :=
      List.exists_cons_of_ne_nil (by simp)
    rw [hmore]
    obtain ⟨rest, hrest⟩ := strip_end_head '\'' c d more
    exact ⟨rest, .inl hrest⟩

theorem safe_ne_tilde {c : Char} (h : safe c = true) : c ≠ '~' := by
  rintro rfl
  revert h
  decide

theorem command_word_of_head {line : Text} (h : line.head? ≠ some '~') : command_word line =
    if assigns line then none else (first_word {} line).map (⟨false, ·⟩) := by
  unfold command_word
  split
  next => rfl
  next =>
    split
    next => exact absurd rfl h
    next => exact absurd rfl h
    next => rfl

theorem assigns_append (path rest : Text) : assigns (path ++ ' ' :: rest) = assigns path := by
  have hstop : (' ' :: rest).takeWhile name_char = [] := List.takeWhile_cons_of_neg (by decide)
  unfold assigns
  rw [List.takeWhile_append]
  split
  next hall =>
    have hpath : path.takeWhile name_char = path :=
      (List.takeWhile_prefix _).eq_of_length hall
    rw [hstop, List.append_nil, hpath]
    simp
  next hsome =>
    have hlt : (path.takeWhile name_char).length < path.length :=
      lt_of_le_of_ne (List.takeWhile_prefix _).length_le hsome
    dsimp only
    rw [List.drop_append_of_le_length hlt.le, List.head?_append_of_ne_nil]
    exact fun hnil => absurd (List.drop_eq_nil_iff.mp hnil) (by omega)

/-- The command name that a path is started by. -/
theorem command_word_quote_path {path : Text} (hnil : path ≠ []) (rest : Text) :
    command_word (quote_path path ++ ' ' :: rest) =
      if path.all safe = true ∧ assigns path = true then none else some ⟨false, path⟩ := by
  have hword := first_word_of_run (run_quote_path path []) rest
  by_cases hsafe : path.all safe = true
  · have hquoted : quote_path path = path := by rw [quote_path, if_neg hnil, if_pos hsafe]
    obtain ⟨c, cs, rfl⟩ := List.exists_cons_of_ne_nil hnil
    have hc : c ≠ '~' := safe_ne_tilde (List.all_eq_true.mp hsafe c List.mem_cons_self)
    have hhead : (c :: cs ++ ' ' :: rest).head? ≠ some '~' := fun h => hc (Option.some.inj h)
    rw [hquoted] at hword ⊢
    rw [command_word_of_head hhead, assigns_append, hword]
    simp only [hsafe, true_and, Option.map_some]
  · have hhead : (quote_path path ++ ' ' :: rest).head? ≠ some '~' ∧
        assigns (quote_path path ++ ' ' :: rest) = false := by
      obtain ⟨text, htext | htext⟩ := quote_path_head hsafe
      all_goals
        rw [htext]
        exact ⟨by simp, by simp [assigns, name_char]⟩
    rw [command_word_of_head hhead.1, hhead.2, if_neg Bool.false_ne_true, hword,
      if_neg fun h => hsafe h.1, Option.map_some]

theorem assigns_tilde (line : Text) : assigns ('~' :: line) = false := by
  simp [assigns, name_char]

theorem command_word_slash (line : Text) : command_word ('~' :: '/' :: line) =
    (first_word ⟨[], ['/'], .word⟩ line).map (⟨true, ·⟩) :=
  if_neg (by rw [assigns_tilde]; exact Bool.false_ne_true)

theorem command_word_quote {c : Char} (h : c = '\'' ∨ c = '"') (line : Text) :
    command_word ('~' :: c :: line) =
      (first_word ⟨[], ['~'], .word⟩ (c :: line)).map (⟨false, ·⟩) := by
  have hassigns : ¬ assigns ('~' :: c :: line) = true := by
    rw [assigns_tilde]
    exact Bool.false_ne_true
  obtain rfl | rfl := h
  · exact (if_neg hassigns).trans (if_pos (.inl rfl))
  · exact (if_neg hassigns).trans (if_pos (.inr (.inl rfl)))

/-- After a tilde and a slash. The tilde is not expanded where the rest is quoted. -/
theorem command_word_home (path rest : Text) :
    command_word ('~' :: quote_path ('/' :: path) ++ ' ' :: rest) =
      if path.all safe = true then some ⟨true, '/' :: path⟩
      else some ⟨false, '~' :: '/' :: path⟩ := by
  have hall : ('/' :: path).all safe = path.all safe := by
    rw [List.all_cons, show safe '/' = true from by decide, Bool.true_and]
  by_cases hsafe : path.all safe = true
  · have hquoted : quote_path ('/' :: path) = '/' :: path := by
      rw [quote_path, if_neg (List.cons_ne_nil _ _), hall, if_pos hsafe]
    have hrun : (⟨[], ['/'], .word⟩ : State).run path = ⟨[], '/' :: path, .word⟩ := by
      have hplain : ∀ c ∈ path, plain c := fun c hc =>
        (safe_plain (List.all_eq_true.mp hsafe c hc)).1
      rw [run_plain hplain, List.singleton_append]
    rw [hquoted, if_pos hsafe, List.cons_append, List.cons_append]
    rw [command_word_slash, first_word_of_run hrun, Option.map_some]
  · have hrun : (⟨[], ['~'], .word⟩ : State).run (quote_path ('/' :: path)) =
        ⟨[], '~' :: '/' :: path, .word⟩ :=
      run_quote_path_from (.inr rfl) (List.cons_ne_nil _ _) []
    rw [if_neg hsafe]
    rw [← hall] at hsafe
    have hword := first_word_of_run hrun rest
    obtain ⟨text, htext | htext⟩ := quote_path_head hsafe
    all_goals
      rw [htext] at hword ⊢
      simp only [List.cons_append] at hword ⊢
      rw [command_word_quote (by simp), hword, Option.map_some]

/-! What each place names. -/

/-- A path that keeps its meaning at each place. -/
structure PlainPath (path : Text) : Prop where
  no_tilde : path.head? ≠ some '~'
  no_option : is_option path = false
  removable : refused_by_rm path = false
  /-- No name is gone back from. -/
  forward : Forward (steps path)
  no_home : ∀ rest, join path BIN_NAME = '~' :: '/' :: rest → rest.all safe = false
  no_assignment : ¬ ((join path BIN_NAME).all safe = true ∧ assigns (join path BIN_NAME) = true)

/-- An attempt that is made once more. -/
def Retried (attempt : Attempt) : Prop := ∃ result, attempt = ⟨some result, .go_on⟩ ∧
  expired result.stderr = false ∧ result.code ≠ some 0

/-- A command is refused as the password has expired, and `onError` is told of it. -/
def ReportedExpired (on_error : Bool) (attempts : List Attempt) : Prop :=
  on_error = true ∧ ∃ retried result answer later,
    attempts = retried ++ ⟨some result, answer⟩ :: later ∧ (∀ attempt ∈ retried, Retried attempt) ∧
      expired result.stderr = true ∧ result.code ≠ some 0 ∧ answer ≠ .throws

theorem pax_plain : Plain SERVER_PAX_FILE := by
  constructor <;> decide

theorem bin_plain : Plain BIN_NAME := by
  constructor <;> decide

section

variable {Dir : Type} (fs : FileSystem Dir)

theorem created_eq (path : Text) : created fs path =
    if is_option (remote_dir path) then none else fs.resolve (remote_dir path) := by
  rw [created, named_by, operand_mkdir]
  split
  next => rfl
  next => rfl

theorem named_by_test {flag : Char} (h : plain flag) (path : Text) :
    named_by fs (test_command flag path) = fs.resolve path := by
  rw [named_by, operand_test h]
  rfl

theorem named_by_rm (path : Text) : named_by fs (rm_command path) =
    if is_option path = true ∨ refused_by_rm path = true then none else fs.resolve path := by
  rw [named_by, operand_rm]
  by_cases hoption : is_option path = true
  · rw [if_pos hoption, if_pos (.inl hoption)]
    rfl
  · by_cases hrefused : refused_by_rm path = true
    · rw [if_neg hoption, if_pos hrefused, if_pos (.inr hrefused)]
      rfl
    · rw [if_neg hoption, if_neg hrefused, if_neg (not_or.mpr ⟨hoption, hrefused⟩)]
      rfl

theorem started_by_start {path : Text} (hpath : path ≠ []) (args : List Text)
    (hhome : ∀ rest, join path BIN_NAME ≠ '~' :: '/' :: rest) :
    started_by fs (start_command path args) =
      if (join path BIN_NAME).all safe = true ∧ assigns (join path BIN_NAME) = true then none
      else if '/' ∈ join path BIN_NAME then fs.directory_of (join path BIN_NAME) else none := by
  have hnil : join path BIN_NAME ≠ [] := by
    intro h
    have := (suffix_join hpath bin_plain).length_le
    rw [h] at this
    exact absurd this (by decide)
  have hquoted : quote_remote_path (join path BIN_NAME) = quote_path (join path BIN_NAME) := by
    refine if_neg (not_or.mpr ⟨fun h => ?_, fun h => ?_⟩)
    · have := suffix_join hpath bin_plain
      rw [h] at this
      exact absurd this (by decide)
    · obtain ⟨rest, hrest⟩ := h
      exact hhome rest hrest.symm
  obtain ⟨rest, hrest⟩ := start_command_eq path args
  rw [started_by, hrest, hquoted, command_word_quote_path hnil]
  by_cases hassigns : (join path BIN_NAME).all safe = true ∧ assigns (join path BIN_NAME) = true
  · rw [if_pos hassigns, if_pos hassigns]
  · rw [if_neg hassigns, if_neg hassigns]
    rfl

theorem started_by_home {path text : Text} (args : List Text)
    (hhome : join path BIN_NAME = '~' :: '/' :: text) :
    started_by fs (start_command path args) =
      if text.all safe = true then fs.walk fs.home (directory_steps ('/' :: text))
      else fs.directory_of (join path BIN_NAME) := by
  have hquoted : quote_remote_path (join path BIN_NAME) = '~' :: quote_path ('/' :: text) := by
    rw [hhome, quote_remote_path, if_pos (.inr ⟨text, rfl⟩)]
    rfl
  obtain ⟨rest, hrest⟩ := start_command_eq path args
  rw [started_by, hrest, hquoted, command_word_home]
  by_cases hsafe : text.all safe = true
  · rw [if_pos hsafe, if_pos hsafe]
    rfl
  · have hslash : '/' ∈ '~' :: '/' :: text := List.mem_cons_of_mem _ List.mem_cons_self
    rw [if_neg hsafe, if_neg hsafe, hhome]
    dsimp only
    rw [if_neg Bool.false_ne_true, if_pos hslash]

end

/-- A path that can be removed ends in a name. -/
theorem steps_of_removable {path : Text} (h : refused_by_rm path = false) :
    ∃ init last, steps path = init ++ [last] ∧ last ≠ dotdot := by
  unfold refused_by_rm at h
  split at h
  next => cases h
  next last hlast =>
    simp only [Bool.or_eq_false_iff, decide_eq_false_iff_not] at h
    obtain ⟨init, hinit⟩ := List.getLast?_eq_some_iff.mp hlast
    have hsteps : steps path = ((parts path).filter (· ≠ [])).filter (· ≠ dot) := by
      rw [steps, List.filter_filter]
      refine List.filter_congr fun part _ => ?_
      rw [is_step, Bool.and_comm]
    refine ⟨init.filter (· ≠ dot), last, ?_, h.2⟩
    rw [hsteps, hinit, List.filter_append, List.filter_singleton, decide_eq_true h.1]
    rfl

theorem remote_dir_of_head {path : Text} (h : path.head? ≠ some '~') : remote_dir path = path := by
  unfold remote_dir
  split
  next => exact absurd rfl h
  next => rfl

/-- A plain path names one directory. -/
theorem PlainPath.one_directory {path : Text} (h : PlainPath path) {Dir : Type}
    (fs : FileSystem Dir) (args : List Text) : OneDirectory fs path args := by
  obtain ⟨init, last, hsteps, hlast⟩ := steps_of_removable h.removable
  have hpath : path ≠ [] := by
    rintro rfl
    exact absurd h.removable (by decide)
  have hremote := remote_dir_of_head h.no_tilde
  have hcreated : created fs path = fs.resolve path := by
    rw [created_eq, hremote, h.no_option, if_neg Bool.false_ne_true]
  have hresolve : fs.resolve path = fs.walk (fs.start path) (steps path) := if_neg hpath
  have hjoin {file : Text} (hfile : Plain file) : fs.directory_of (join path file) =
      fs.resolve path := by
    rw [fs.directory_of_join hpath hfile, fs.walk_normal_steps path h.forward, hresolve]
  have hslash : '/' ∈ join path BIN_NAME := by
    refine slash_mem_join hpath bin_plain ?_
    obtain ⟨k, rest, hforward, hrest⟩ := h.forward
    have hne : rest ≠ [] := by
      rintro rfl
      have hmem : last ∈ List.replicate k dotdot := by
        rw [← List.append_nil (List.replicate k dotdot), ← hforward, hsteps]
        exact List.mem_append_right _ (List.mem_singleton_self _)
      exact hlast (List.eq_of_mem_replicate hmem)
    rw [hforward, normal_steps_forward _ _ hrest]
    simp [hne]
  refine ⟨?_, ?_, ?_, ?_, ?_, ?_, ?_⟩
  · rw [named_by_test fs (by decide), hremote, hcreated]
  · rw [remote_pax_path, hremote, hjoin pax_plain, hcreated]
  · rw [hremote, hcreated]
  · rw [named_by_test fs (by decide), hcreated]
  · rw [named_by_test fs (by decide), hcreated]
  · rw [hcreated]
    by_cases hhome : ∃ text, join path BIN_NAME = '~' :: '/' :: text
    · obtain ⟨text, htext⟩ := hhome
      rw [started_by_home fs args htext, h.no_home text htext, if_neg Bool.false_ne_true,
        hjoin bin_plain]
    · rw [started_by_start fs hpath args fun text htext => hhome ⟨text, htext⟩,
        if_neg h.no_assignment, if_pos hslash, hjoin bin_plain]
  · rw [named_by_rm, h.no_option, h.removable, hcreated]
    exact if_neg (by simp)

theorem remote_dir_eq_nil {path : Text} : remote_dir path = [] ↔ path = [] := by
  unfold remote_dir
  split
  next => simp
  next => rfl

theorem remote_dir_length (path : Text) : (remote_dir path).length = path.length := by
  unfold remote_dir
  split
  next => rfl
  next => rfl

section

variable {path : Text} {args : List Text}

/-- The archive is uploaded to some directory, so that one is created. -/
theorem created_spread (h : OneDirectory (spread (path.length + 4)) path args) : path ≠ [] ∧
    is_option (remote_dir path) = false ∧ Forward (steps (remote_dir path)) ∧
    (created (spread (path.length + 4)) path).isSome = true := by
  have hupload := h.uploaded
  have hpath : path ≠ [] := by
    rintro rfl
    rw [created_eq] at hupload
    revert hupload
    decide +kernel
  have hremote : remote_dir path ≠ [] := mt remote_dir_eq_nil.mp hpath
  have hwalk (names : List Text) : ∃ e, (spread (path.length + 4)).walk
      ((spread (path.length + 4)).start (remote_dir path)) names = some e := by
    have hle : ((spread (path.length + 4)).start (remote_dir path)).1 ≤ path.length + 4 := by
      rw [spread_start]
      split
      next => omega
      next => omega
    obtain ⟨e, he, -⟩ := @spread_walk_le _ _ names hle
    exact ⟨e, he⟩
  rw [remote_pax_path, FileSystem.directory_of_join _ hremote pax_plain] at hupload
  obtain ⟨e, he⟩ := hwalk (normal_steps (absolute (remote_dir path)) (steps (remote_dir path)))
  have hsome : (created (spread (path.length + 4)) path).isSome = true := by
    rw [← hupload, he]
    rfl
  have hoption : is_option (remote_dir path) = false := by
    rw [created_eq] at hsome
    split at hsome
    next => cases hsome
    next hoption => exact Bool.eq_false_iff.mpr hoption
  refine ⟨hpath, hoption, ?_, hsome⟩
  have hn : (remote_dir path).length + 2 < path.length + 4 := by
    rw [remote_dir_length]
    omega
  apply forward_of_spread hn
  rw [hupload, created_eq, hoption, if_neg Bool.false_ne_true, FileSystem.resolve, if_neg hremote]

/-- One that names one directory in these file systems is plain. -/
theorem plain_of_one_directory (h : OneDirectory (spread (path.length + 4)) path args) :
    PlainPath path := by
  obtain ⟨hpath, hoption, hforward, hsome⟩ := created_spread h
  have hresolve : (spread (path.length + 4)).resolve path =
      (spread (path.length + 4)).resolve (remote_dir path) := by
    have htested := h.exists_tested.trans h.checked.symm
    rwa [named_by_test _ (by decide), named_by_test _ (by decide)] at htested
  have htilde : path.head? ≠ some '~' := by
    intro hhead
    obtain ⟨c, rest, rfl⟩ := List.exists_cons_of_ne_nil hpath
    obtain rfl : c = '~' := Option.some.inj hhead
    have hn : rest.length + 2 < ('~' :: rest).length + 4 := by
      rw [List.length_cons]
      omega
    exact spread_first_char (by decide) (by decide) hn hforward hresolve
  have hremote := remote_dir_of_head htilde
  rw [hremote] at hoption hforward
  obtain ⟨d, hd⟩ := Option.isSome_iff_exists.mp hsome
  have hjoin : (spread (path.length + 4)).directory_of (join path BIN_NAME) = some d := by
    rw [← hd, created_eq, hremote, hoption, if_neg Bool.false_ne_true, FileSystem.resolve,
      if_neg hpath, FileSystem.directory_of_join _ hpath bin_plain,
      FileSystem.walk_normal_steps _ _ hforward]
  have hremovable : refused_by_rm path = false := by
    have hremoved := h.removed
    rw [named_by_rm, hd] at hremoved
    split at hremoved
    next => cases hremoved
    next hneither => exact Bool.eq_false_iff.mpr (not_or.mp hneither).2
  have hstarted := h.started
  rw [hd] at hstarted
  refine ⟨htilde, hoption, hremovable, hforward, fun text htext => ?_, fun hassigns => ?_⟩
  · -- an expanded tilde leaves out the first name
    rw [Bool.eq_false_iff]
    intro hsafe
    rw [started_by_home _ args htext, if_pos hsafe] at hstarted
    obtain ⟨habs, hsteps⟩ := join_steps hpath bin_plain
    have htilde_steps := @directory_steps_slash ['~'] (by decide) (by decide) text
    obtain ⟨j, rest, hnormal, hrest, -, -⟩ := normal_steps_spec (absolute path) (steps path)
    have hsplit : ['~'] :: directory_steps ('/' :: text) = List.replicate j dotdot ++ rest := by
      rw [← htilde_steps, ← hnormal, ← hsteps, htext]
      rfl
    cases j with
    | succ j =>
      have := (List.cons.inj hsplit).1
      exact absurd this (by decide)
    | zero =>
      have hnames : rest = ['~'] :: directory_steps ('/' :: text) := hsplit.symm
      have hlater : dotdot ∉ directory_steps ('/' :: text) := fun hmem =>
        hrest (hnames ▸ List.mem_cons_of_mem _ hmem)
      have hstart : (spread (path.length + 4)).start (join path BIN_NAME) = (1, []) := by
        rw [spread_start, htext]
        rfl
      rw [FileSystem.directory_of, hstart, hsteps, hnormal, List.replicate_zero, List.nil_append,
        spread_walk_names _ _ _ hrest] at hjoin
      have hhome : (spread (path.length + 4)).walk (spread (path.length + 4)).home
          (directory_steps ('/' :: text)) = some (1, [] ++ directory_steps ('/' :: text)) :=
        spread_walk_names _ _ _ hlater
      rw [hhome, ← hjoin, Option.some.injEq, hnames] at hstarted
      exact List.cons_ne_self _ _ (congrArg Prod.snd hstarted).symm
  · have hhome : ∀ text, join path BIN_NAME ≠ '~' :: '/' :: text := by
      intro text htext
      rw [htext, assigns_tilde] at hassigns
      exact Bool.false_ne_true hassigns.2
    rw [started_by_start _ hpath args hhome, if_pos hassigns] at hstarted
    cases hstarted

end

/-! The uninstall. -/

variable {on_error : Bool} {attempts : List Attempt}

theorem returned_cases {last : CommandResult}
    (h : uninstall_server on_error attempts = .returned last) :
    last.code = some 0 ∨ ReportedExpired on_error attempts := by
  induction attempts with
  | nil => cases h
  | cons attempt later ih =>
    obtain ⟨_ | result, answer⟩ := attempt
    · cases h
    unfold uninstall_server at h
    by_cases hexpired : expired result.stderr = true
    · rw [if_pos hexpired] at h
      split at h
      next hrouted =>
        obtain rfl := Uninstalled.returned.inj h
        by_cases hcode : result.code = some 0
        · exact .inl hcode
        · have hnone : ∀ attempt ∈ ([] : List Attempt), Retried attempt :=
            List.forall_mem_nil _
          exact .inr ⟨hrouted.1, [], result, answer, later, rfl, hnone, hexpired, hcode,
            hrouted.2⟩
      next => cases h
    · rw [if_neg hexpired] at h
      by_cases hcode : result.code = some 0
      · rw [if_pos hcode] at h
        obtain rfl := Uninstalled.returned.inj h
        exact .inl hcode
      · rw [if_neg hcode] at h
        split at h
        next =>
          cases answer with
          | go_on =>
            refine (ih h).imp_right ?_
            rintro ⟨hon, retried, last, answer, more, rfl, hretried, hlast⟩
            refine ⟨hon, ⟨some result, .go_on⟩ :: retried, last, answer, more, rfl, ?_, hlast⟩
            intro attempt hattempt
            obtain rfl | hattempt := List.mem_cons.mp hattempt
            · exact ⟨result, rfl, Bool.eq_false_iff.mpr hexpired, hcode⟩
            · exact hretried attempt hattempt
          | stop => cases h
          | throws => cases h
        next => cases h

theorem reported_returns (h : ReportedExpired on_error attempts) : ∃ last,
    uninstall_server on_error attempts = .returned last ∧ last.code ≠ some 0 := by
  obtain ⟨rfl, retried, result, answer, later, rfl, hretried, hexpired, hcode, hanswer⟩ := h
  induction retried with
  | nil =>
    refine ⟨result, ?_, hcode⟩
    unfold uninstall_server
    exact (if_pos hexpired).trans (if_pos ⟨rfl, hanswer⟩)
  | cons attempt retried ih =>
    obtain ⟨first, rfl, hfirst, hfailed⟩ := hretried attempt List.mem_cons_self
    have hretry : uninstall_server true
        (⟨some first, .go_on⟩ :: (retried ++ ⟨some result, answer⟩ :: later)) =
        uninstall_server true (retried ++ ⟨some result, answer⟩ :: later) := by
      conv_lhs => unfold uninstall_server
      rw [hfirst, if_neg Bool.false_ne_true, if_neg hfailed, if_pos rfl]
    rw [List.cons_append, hretry]
    exact ih fun attempt hattempt => hretried attempt (List.mem_cons_of_mem _ hattempt)

/-- One path names one directory just where it keeps its meaning at each place, and an uninstall
leaves nothing just where it has not returned for a password that has expired. -/
theorem one_name_iff (server_path : Text) (args : List Text) (on_error : Bool)
    (attempts : List Attempt) : OneName server_path args on_error attempts ↔
      PlainPath server_path ∧ ¬ ReportedExpired on_error attempts := by
  constructor
  · intro h
    have hone := h.same _ (spread (server_path.length + 4))
    refine ⟨plain_of_one_directory hone, fun hreported => ?_⟩
    obtain ⟨last, hreturned, hcode⟩ := reported_returns hreported
    have hnone := h.uninstalled last hreturned _ (spread (server_path.length + 4))
      fun hzero => absurd hzero hcode
    have hsome := (created_spread hone).2.2.2
    rw [hnone] at hsome
    cases hsome
  · rintro ⟨hplain, hreported⟩
    refine ⟨fun Dir fs => hplain.one_directory fs args, fun last hreturned Dir fs hremoved => ?_⟩
    have hzero := (returned_cases hreturned).resolve_right hreported
    rw [← (hplain.one_directory fs args).removed, hremoved hzero]

/-- A home directory with the directory of a server. -/
def one_server : FileSystem Bool where
  root := false
  home := false
  parent := fun _ => false
  enter := fun _ name => if name = ".zowe-server".toList then some true else none
  parent_root := rfl
  below_root := fun _ => ⟨1, rfl⟩

/-- The uninstall of the default path returns, and the directory of the server is still there: the
quotes keep the shell from expanding the tilde. -/
theorem tilde_not_removed :
    ¬ OneName "~/.zowe-server".toList [] false [⟨some ⟨some 0, []⟩, .stop⟩] := by
  intro h
  have hreturned : uninstall_server false [⟨some ⟨some 0, []⟩, .stop⟩] =
      .returned ⟨some 0, []⟩ := by
    unfold uninstall_server
    exact (if_neg (by decide)).trans (if_pos rfl)
  have hcreated := h.uninstalled _ hreturned _ one_server
  revert hcreated
  decide +kernel

end Zowex.sdk

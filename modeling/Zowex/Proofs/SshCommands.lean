import Mathlib.Data.List.TakeWhile
import Zowex.Spec.ConfigManager

/-! A command line for a new profile is read as it is meant where no hyphen in the host or in the
user looks like that of a flag. The scan for flags goes over the whole line. -/

namespace Zowex.sdk.ConfigManager

open Shell

variable {text front more : Text} {c : Char} {n : ℕ}

/-! Characters. -/

theorem space_cases (h : is_space c = true) :
    c ∈ [' ', '\t', '\n', '\x0b', '\x0c', '\r', '\u00a0'] ∨ 0x1680 ≤ c.toNat := by
  rw [is_space, Bool.or_eq_true, decide_eq_true_eq] at h
  rcases h with hlist | hrange
  · simp only [List.mem_cons, List.not_mem_nil, or_false] at hlist ⊢
    rcases hlist with rfl | rfl | rfl | rfl | rfl | rfl | rfl | rfl | rfl | rfl | rfl | rfl | rfl |
      rfl
    all_goals decide
  · rw [Bool.and_eq_true, decide_eq_true_eq] at hrange
    have hle : 0x2000 ≤ c.toNat := hrange.1
    exact .inr (by omega)

theorem alphanum_lt (h : c.isAlphanum = true) : c.toNat < 128 := by
  have hranges : ((decide ('A'.val ≤ c.val ∧ c.val ≤ 'Z'.val) ||
      (decide ('a'.val ≤ c.val) && decide (c.val ≤ 'z'.val))) ||
      (decide ('0'.val ≤ c.val) && decide (c.val ≤ '9'.val))) = true := h
  simp only [Bool.or_eq_true, Bool.and_eq_true, decide_eq_true_eq, UInt32.le_iff_toNat_le]
    at hranges
  have hlt : c.val.toNat < 128 := by
    rcases hranges with (⟨-, hle⟩ | ⟨-, hle⟩) | ⟨-, hle⟩
    all_goals exact hle.trans_lt (by decide)
  exact hlt

/-- A character of a name, an address or a flag is no blank. -/
theorem no_space (h : c.isAlphanum = true ∨ c ∈ ['_', '-', '.', '@', '"', '\'']) :
    is_space c = false := by
  by_contra hspace
  have hcases := space_cases (Bool.eq_true_of_not_eq_false hspace)
  rcases h with halpha | hmem
  · rcases hcases with hlist | hlarge
    · have hnone : ∀ c ∈ [' ', '\t', '\n', '\x0b', '\x0c', '\r', '\u00a0'],
          c.isAlphanum = false := by decide
      rw [hnone c hlist] at halpha
      cases halpha
    · have hlt := alphanum_lt halpha
      omega
  · have hnone : ∀ c ∈ ['_', '-', '.', '@', '"', '\''], is_space c = false := by decide
    exact hspace (hnone c hmem)

theorem word_no_space (h : is_word_char c = true) : is_space c = false := by
  rw [is_word_char, Bool.or_eq_true, decide_eq_true_eq] at h
  rcases h with halpha | rfl
  · exact no_space (.inl halpha)
  · decide

theorem space_not_word (h : is_space c = true) : is_word_char c = false := by
  by_contra hword
  rw [word_no_space (Bool.eq_true_of_not_eq_false hword)] at h
  cases h

theorem user_no_space (h : is_user_char c = true) : is_space c = false := by
  rw [is_user_char, Bool.or_eq_true, decide_eq_true_eq] at h
  rcases h with hword | rfl
  · exact word_no_space hword
  · decide

theorem host_no_space (h : is_host_char c = true) : is_space c = false := by
  rw [is_host_char, Bool.or_eq_true, Bool.or_eq_true, decide_eq_true_eq, decide_eq_true_eq] at h
  rcases h with (halpha | rfl) | rfl
  · exact no_space (.inl halpha)
  · decide
  · decide

/-- What follows a part of a command: nothing, or a blank. -/
def Apart (text : Text) : Prop := ∀ c, text.head? = some c → is_space c = true

theorem takeWhile_apart {p : Char → Bool} (hfront : ∀ c ∈ front, p c = true)
    (hmore : ∀ c, more.head? = some c → p c = false) : (front ++ more).takeWhile p = front := by
  rw [List.takeWhile_append_of_pos hfront]
  cases more with
  | nil => rw [List.takeWhile_nil, List.append_nil]
  | cons c more => rw [List.takeWhile_cons_of_neg (by simp [hmore c rfl]), List.append_nil]

/-! The host. -/

theorem drop_takeWhile (p : Char → Bool) (text : Text) :
    text.drop (text.takeWhile p).length = text.dropWhile p := by
  calc text.drop (text.takeWhile p).length
      = (text.takeWhile p ++ text.dropWhile p).drop (text.takeWhile p).length := by
        rw [List.takeWhile_append_dropWhile]
    _ = text.dropWhile p := List.drop_left' rfl

theorem head_dropWhile {p : Char → Bool} {d : Char}
    (hmore : ∀ c, more.head? = some c → p c = false)
    (h : ((front ++ more).dropWhile p).head? = some d) : d ∈ front ∨ more.head? = some d := by
  induction front with
  | nil =>
    right
    cases more with
    | nil => cases h
    | cons c more =>
      rwa [List.nil_append, List.dropWhile_cons_of_neg (by simp [hmore c rfl])] at h
  | cons c front ih =>
    by_cases hc : p c = true
    · rw [List.cons_append, List.dropWhile_cons_of_pos hc] at h
      exact (ih h).imp_left (List.mem_cons_of_mem c)
    · rw [List.cons_append, List.dropWhile_cons_of_neg hc] at h
      exact .inl (Option.some.inj h ▸ List.mem_cons_self)

theorem match_host_target (command : SshCommand) (hmore : Apart more) :
    (match_host (command.target ++ more)).map (fun found => (found.user, found.host)) =
      some (command.user, command.host) := by
  have hhost : (command.host ++ more).takeWhile is_host_char = command.host :=
    takeWhile_apart command.host_char fun c hc => by
      by_contra hchar
      have hspace := host_no_space (Bool.eq_true_of_not_eq_false hchar)
      exact Bool.false_ne_true (hspace.symm.trans (hmore c hc))
  have huser (c : Char) (hc : more.head? = some c) : is_user_char c = false := by
    by_contra hchar
    have hspace := user_no_space (Bool.eq_true_of_not_eq_false hchar)
    exact Bool.false_ne_true (hspace.symm.trans (hmore c hc))
  rw [match_host, SshCommand.target, drop_takeWhile]
  cases hname : command.user with
  | none =>
    have hat : ((command.host ++ more).dropWhile is_user_char).head? ≠ some '@' := by
      intro hat
      rcases head_dropWhile huser hat with hmem | hhead
      · have hchar := command.host_char '@' hmem
        revert hchar
        decide
      · have hspace := hmore '@' hhead
        revert hspace
        decide
    rw [Option.elim_none, List.nil_append, if_neg fun h => hat h.2.1, hhost,
      if_pos command.host_ne_nil]
    rfl
  | some name =>
    have hchars := command.user_char name hname
    have hat : is_user_char '@' = false := by decide
    have htext : (name ++ ['@'] ++ command.host) ++ more = name ++ '@' :: (command.host ++ more) := by
      simp
    have hfront : ∀ c, ('@' :: (command.host ++ more)).head? = some c → is_user_char c = false := by
      intro c hc
      rw [← Option.some.inj hc]
      exact hat
    rw [Option.elim_some, htext, takeWhile_apart hchars hfront,
      List.dropWhile_append_of_pos hchars, List.dropWhile_cons_of_neg (by simp [hat]),
      List.drop_succ_cons, List.drop_zero, hhost,
      if_pos ⟨command.user_ne_nil name hname, rfl, command.host_ne_nil⟩]
    rfl

theorem target_no_space (command : SshCommand) :
    ∀ c, (command.target ++ more).head? = some c → is_space c = false := by
  intro c hc
  rw [SshCommand.target] at hc
  cases hname : command.user with
  | none =>
    obtain ⟨d, host, hhost⟩ := List.exists_cons_of_ne_nil command.host_ne_nil
    rw [hname, Option.elim_none, List.nil_append, hhost, List.cons_append] at hc
    obtain rfl := Option.some.inj hc
    exact host_no_space (command.host_char d (hhost ▸ List.mem_cons_self))
  | some name =>
    obtain ⟨d, rest, hcons⟩ := List.exists_cons_of_ne_nil (command.user_ne_nil name hname)
    rw [hname, Option.elim_some, hcons, List.cons_append] at hc
    obtain rfl := Option.some.inj hc
    exact user_no_space (command.user_char name hname d (hcons ▸ List.mem_cons_self))

theorem sshRegex_text (command : SshCommand) (hmore : Apart more) :
    (sshRegex ("ssh".toList ++ command.blanks.text ++ command.target ++ more)).map
      (fun found => (found.user, found.host)) = some (command.user, command.host) := by
  have htext : "ssh".toList ++ command.blanks.text ++ command.target ++ more =
      's' :: 's' :: 'h' :: (command.blanks.text ++ (command.target ++ more)) := by simp
  have hdrop : ('s' :: 's' :: 'h' :: (command.blanks.text ++ (command.target ++ more))).drop 3 =
      command.blanks.text ++ (command.target ++ more) := rfl
  rw [htext, sshRegex, hdrop, takeWhile_apart command.blanks.blank (target_no_space command),
    if_pos ⟨rfl, command.blanks.ne_nil⟩, List.drop_left' rfl, Option.map_map]
  exact match_host_target command hmore

/-! Flags. -/

theorem hasFlag_cons (h : HasFlag text) : HasFlag (c :: text) := by
  obtain ⟨front, d, rest, rfl, hd⟩ := h
  exact ⟨c :: front, d, rest, rfl, hd⟩

/-- The scan goes past what has no flag in it. -/
theorem flag_matches_skip (hfront : ¬ HasFlag front)
    (hmore : ∀ c, more.head? = some c → is_word_char c = false) (hn : front.length ≤ n) :
    flag_matches n (front ++ more) = flag_matches (n - front.length) more := by
  induction front generalizing n with
  | nil => rfl
  | cons c front ih =>
    obtain ⟨n, rfl⟩ := Nat.exists_eq_succ_of_ne_zero (show n ≠ 0 by
      rintro rfl
      simp at hn)
    have hno : ¬ (c = '-' ∧ (front ++ more).takeWhile is_word_char ≠ []) := by
      rintro ⟨rfl, hword⟩
      cases front with
      | nil =>
        cases more with
        | nil => exact hword rfl
        | cons d more =>
          rw [List.nil_append, List.takeWhile_cons_of_neg (by simp [hmore d rfl])] at hword
          exact hword rfl
      | cons d front =>
        by_cases hd : is_word_char d = true
        · exact hfront ⟨[], d, front, rfl, hd⟩
        · rw [List.cons_append, List.takeWhile_cons_of_neg hd] at hword
          exact hword rfl
    rw [List.cons_append, flag_matches, if_neg hno, ih (mt hasFlag_cons hfront)
      (by simpa using hn), List.length_cons, Nat.succ_sub_succ]

theorem blanks_no_flag (blanks : Blanks) : ¬ HasFlag blanks.text := by
  rintro ⟨front, c, rest, htext, -⟩
  have hhyphen := blanks.blank '-' (htext ▸ by simp)
  revert hhyphen
  decide

theorem Value.ne_nil (value : Value) : value.text ≠ [] := by
  cases value with
  | plain word => exact word.ne_nil
  | quoted q => exact List.cons_ne_nil _ _

theorem quote_cases (h : is_quote c = true) : c = '"' ∨ c = '\'' := by
  simpa [is_quote] using h

theorem quoted_value_of_ne {quote : Char} (h : text.head? ≠ some quote) :
    quoted_value quote text = none := if_neg fun hquoted => h hquoted.1

theorem quoted_value_text (q : Quoted) (more : Text) :
    quoted_value q.quote ((q.quote :: q.inner ++ [q.quote]) ++ more) =
      some (q.quote :: q.inner ++ [q.quote]) := by
  have hinner : (((q.quote :: q.inner ++ [q.quote]) ++ more).drop 1).takeWhile (· ≠ q.quote) =
      q.inner := by
    have hdrop : ((q.quote :: q.inner ++ [q.quote]) ++ more).drop 1 =
        q.inner ++ q.quote :: more := by simp
    rw [hdrop]
    apply takeWhile_apart
    · exact fun c hc => decide_eq_true fun heq => q.no_quote (heq ▸ hc)
    · intro c hc
      rw [← Option.some.inj hc]
      simp
  rw [quoted_value, hinner, if_pos ⟨rfl, q.ne_nil, by simp⟩]
  rw [List.take_append_of_le_length (by simp)]
  exact congrArg some (List.take_of_length_le (by simp))

/-- A value is read up to the blanks behind it. -/
theorem flag_value_text (between : Blanks) (value : Value) (hmore : Apart more) :
    flag_value (between.text ++ value.text ++ more) = (some value.text, more) := by
  have hfirst : ∀ c, (value.text ++ more).head? = some c → is_space c = false := by
    intro c hc
    rw [List.head?_append_of_ne_nil _ value.ne_nil] at hc
    cases value with
    | plain word => exact word.no_blank c (List.mem_of_head? hc)
    | quoted q =>
      obtain rfl : q.quote = c := Option.some.inj hc
      rcases quote_cases q.is_quote with hquote | hquote
      · rw [hquote]
        decide
      · rw [hquote]
        decide
  have hvalue : (quoted_value '"' (value.text ++ more) <|>
      quoted_value '\'' (value.text ++ more) <|> plain_value (value.text ++ more)) =
        some value.text := by
    cases value with
    | plain word =>
      have hquote (quote : Char) (hquote : is_quote quote = true) :
          ((Value.plain word).text ++ more).head? ≠ some quote := by
        intro hhead
        rw [List.head?_append_of_ne_nil _ (Value.ne_nil _)] at hhead
        have hfirst := word.first
        rw [show word.text.head? = some quote from hhead, Option.any_some, hquote] at hfirst
        cases hfirst
      have hword : ((Value.plain word).text ++ more).takeWhile (!is_space ·) = word.text := by
        apply takeWhile_apart
        · exact fun c hc => by simp [word.no_blank c hc]
        · exact fun c hc => by simp [hmore c hc]
      rw [quoted_value_of_ne (hquote '"' rfl), quoted_value_of_ne (hquote '\'' rfl), plain_value,
        hword, if_pos word.ne_nil]
      rfl
    | quoted q =>
      have hread := quoted_value_text q more
      rcases quote_cases q.is_quote with hquote | hquote
      · rw [hquote] at hread
        rw [Value.text, hquote, hread]
        rfl
      · rw [hquote] at hread
        rw [Value.text, hquote, quoted_value_of_ne (by simp), hread]
        rfl
  rw [flag_value, List.append_assoc, takeWhile_apart between.blank hfirst, List.drop_left' rfl,
    if_neg between.ne_nil, hvalue]
  dsimp only
  rw [List.drop_left' rfl]

theorem unquoted_text (value : Value) : unquoted value.text = value.meaning := by
  cases value with
  | plain word =>
    rw [unquoted, Value.text, word.first, if_neg Bool.false_ne_true, word.last,
      if_neg Bool.false_ne_true]
    rfl
  | quoted q =>
    have hfirst : (q.quote :: q.inner ++ [q.quote]).head?.any is_quote = true := q.is_quote
    rw [unquoted, Value.text, hfirst, if_pos rfl, List.cons_append, List.drop_succ_cons, List.drop_zero, List.getLast?_concat,
      Option.any_some, q.is_quote, if_pos rfl, List.dropLast_concat]
    rfl

theorem quotes_fit (value : Value) :
    (value.meaning.any is_space && !between_quotes value.text) = false := by
  cases value with
  | plain word =>
    have hnone : word.text.any is_space = false := by
      simpa using word.no_blank
    rw [Value.meaning, hnone, Bool.false_and]
  | quoted q =>
    have hbetween : between_quotes (Value.quoted q).text = true := by
      have hline : q.inner.any is_line_end = false := by simpa using q.one_line
      have hlast : (q.quote :: (q.inner ++ [q.quote])).getLast? = some q.quote := by
        rw [← List.cons_append]
        exact List.getLast?_concat
      simp [between_quotes, Value.text, q.is_quote, hline, hlast]
    rw [hbetween, Bool.not_true, Bool.and_false]

/-! The scan. -/

theorem flag_value_length (text : Text) : (flag_value text).2.length ≤ text.length := by
  rw [flag_value]
  split
  · rw [List.length_append, List.length_drop]
    have hle := (List.takeWhile_prefix is_space (l := text)).length_le
    omega
  · rw [List.length_drop, List.length_drop]
    omega

/-- All that a scan finds. -/
def scan (text : Text) : List (Text × Option Text) := flag_matches text.length text

theorem flag_matches_eq (hn : text.length ≤ n) : flag_matches n text = scan text := by
  induction hlength : text.length using Nat.strong_induction_on generalizing text n with
  | h length ih =>
    subst hlength
    rw [scan]
    cases text with
    | nil =>
      cases n with
      | zero => rfl
      | succ n => rfl
    | cons c text =>
      obtain ⟨n, rfl⟩ := Nat.exists_eq_succ_of_ne_zero (show n ≠ 0 by
        rintro rfl
        simp at hn)
      rw [List.length_cons] at hn ih ⊢
      rw [flag_matches, flag_matches]
      dsimp only
      split_ifs with hflag
      · have hle : (flag_value (text.drop (text.takeWhile is_word_char).length)).2.length ≤
            text.length := by
          apply (flag_value_length _).trans
          rw [List.length_drop]
          exact Nat.sub_le _ _
        rw [ih _ (Nat.lt_succ_of_le hle) (hle.trans (Nat.le_of_succ_le_succ hn)) rfl,
          ih _ (Nat.lt_succ_of_le hle) hle rfl]
      · rw [ih _ (Nat.lt_succ_self _) (Nat.le_of_succ_le_succ hn) rfl,
          ih _ (Nat.lt_succ_self _) (Nat.le_refl _) rfl]

theorem scan_skip (hfront : ¬ HasFlag front)
    (hmore : ∀ c, more.head? = some c → is_word_char c = false) :
    scan (front ++ more) = scan more := by
  have hle : front.length ≤ (front ++ more).length := by simp
  rw [scan, flag_matches_skip hfront hmore hle]
  exact flag_matches_eq (by simp)

theorem apart_not_word (hmore : Apart more) (c : Char) (hc : more.head? = some c) :
    is_word_char c = false := space_not_word (hmore c hc)

theorem scan_hyphen {name : Text} (hname : name ≠ []) (hword : ∀ c ∈ name, is_word_char c = true)
    (hmore : ∀ c, more.head? = some c → is_word_char c = false) :
    scan ('-' :: (name ++ more)) = (name, (flag_value more).1) :: scan (flag_value more).2 := by
  have hle : (flag_value more).2.length ≤ (name ++ more).length := by
    have hlength := flag_value_length more
    rw [List.length_append]
    omega
  rw [scan, List.length_cons, flag_matches, takeWhile_apart hword hmore]
  dsimp only
  rw [if_pos ⟨rfl, hname⟩, List.drop_left' rfl, flag_matches_eq hle]

/-- A flag is found behind its blanks. -/
theorem scan_flag (flag : FlagName) (hmore : Apart more) :
    scan (flag.text ++ more) = (flag.name, (flag_value more).1) :: scan (flag_value more).2 := by
  have hhyphen : is_word_char '-' = false := by decide
  have hname := scan_hyphen flag.ne_nil flag.word (apart_not_word hmore)
  have hdashes : scan ((if flag.long then ['-', '-'] else ['-']) ++ (flag.name ++ more)) =
      scan ('-' :: (flag.name ++ more)) := by
    cases flag.long with
    | false => rfl
    | true =>
      have hnone : ¬ HasFlag ['-'] := by
        rintro ⟨front, c, rest, htext, -⟩
        have hlength := congrArg List.length htext
        simp at hlength
        omega
      apply @scan_skip ['-'] ('-' :: (flag.name ++ more)) hnone
      intro c hc
      rw [← Option.some.inj hc]
      exact hhyphen
  rw [FlagName.text, List.append_assoc, List.append_assoc, scan_skip (blanks_no_flag flag.before),
    hdashes, hname]
  intro c hc
  cases hlong : flag.long with
  | false =>
    rw [hlong] at hc
    rw [← Option.some.inj hc]
    exact hhyphen
  | true =>
    rw [hlong] at hc
    rw [← Option.some.inj hc]
    exact hhyphen

theorem apart_flag (flag : FlagName) : Apart (flag.text ++ more) := by
  intro c hc
  obtain ⟨d, rest, hblanks⟩ := List.exists_cons_of_ne_nil flag.before.ne_nil
  rw [FlagName.text, hblanks] at hc
  rw [← Option.some.inj hc]
  exact flag.before.blank d (hblanks ▸ List.mem_cons_self)

theorem flag_text_append (flag : Flag) (more : Text) : flag.text ++ more =
    flag.toFlagName.text ++ (flag.between.text ++ flag.value.text ++ more) := by
  simp only [Flag.text, List.append_assoc]

theorem apart_flags (flags : List Flag) (hmore : Apart more) :
    Apart (flags.flatMap Flag.text ++ more) := by
  cases flags with
  | nil => exact hmore
  | cons flag flags =>
    rw [List.flatMap_cons, List.append_assoc, flag_text_append]
    exact apart_flag _

theorem apart_blanks (between : Blanks) : Apart (between.text ++ more) := by
  intro c hc
  obtain ⟨d, rest, hblanks⟩ := List.exists_cons_of_ne_nil between.ne_nil
  rw [hblanks] at hc
  rw [← Option.some.inj hc]
  exact between.blank d (hblanks ▸ List.mem_cons_self)

theorem scan_flags (flags : List Flag) (hmore : Apart more) :
    scan (flags.flatMap Flag.text ++ more) =
      flags.map (fun flag => (flag.name, some flag.value.text)) ++ scan more := by
  induction flags with
  | nil => rfl
  | cons flag flags ih =>
    rw [List.flatMap_cons, List.append_assoc, flag_text_append, scan_flag flag.toFlagName (by
      rw [List.append_assoc]
      exact apart_blanks _), flag_value_text flag.between flag.value (apart_flags flags hmore), ih]
    rfl

theorem hasFlag_of_append {before : Text} (hbefore : '-' ∉ before) (h : HasFlag (before ++ text)) :
    HasFlag text := by
  induction before with
  | nil => exact h
  | cons c before ih =>
    rw [List.mem_cons, not_or] at hbefore
    apply ih hbefore.2
    obtain ⟨front, d, rest, htext, hd⟩ := h
    cases front with
    | nil => exact absurd (List.cons.inj htext).1.symm hbefore.1
    | cons e front => exact ⟨front, d, rest, (List.cons.inj htext).2, hd⟩

theorem scan_text (command : SshCommand) (hflag : ¬ HasFlag command.target) (hmore : Apart more) :
    scan (command.text ++ more) =
      command.flags.map (fun flag => (flag.name, some flag.value.text)) ++ scan more := by
  have hfront : ¬ HasFlag (("ssh".toList ++ command.blanks.text) ++ command.target) := by
    refine mt (hasFlag_of_append fun hmem => ?_) hflag
    rcases List.mem_append.mp hmem with hssh | hblank
    · revert hssh
      decide
    · have hspace := command.blanks.blank '-' hblank
      revert hspace
      decide
  have happart := apart_flags command.flags hmore
  rw [SshCommand.text, SshCommand.flags_text, List.append_assoc, scan_skip hfront
    (apart_not_word happart), scan_flags command.flags hmore]

/-! The profile. -/

/-- A flag sets its property to the value that is meant. -/
theorem set_flag_text (profile : ISshConfigExt) (flag : Flag) :
    set_flag profile (flag.name, some flag.value.text) =
      flag_property profile flag.name flag.value.meaning := by
  rw [set_flag]
  dsimp only [bind, Option.bind_some]
  rw [unquoted_text]
  cases flag_property profile flag.name flag.value.meaning with
  | none => rfl
  | some changed =>
    rw [Option.bind_some, quotes_fit, if_neg Bool.false_ne_true]

theorem flag_property_eq (profile : ISshConfigExt) (name value : Text) :
    flag_property profile name value =
      if is_port name then (parseInt value).map fun port => { profile with port := some port }
      else if is_key name then some { profile with privateKey := some value }
      else some profile := by
  simp only [flag_property, is_port, is_key, decide_eq_true_eq]

theorem last_value_concat (kind : Text → Bool) (flags : List Flag) (flag : Flag) :
    last_value kind (flags ++ [flag]) =
      if kind flag.name then some flag.value.meaning else last_value kind flags := by
  rw [last_value, List.filter_append]
  by_cases hkind : kind flag.name = true
  · simp [hkind]
  · simp [hkind, last_value]

theorem not_key_of_port {name : Text} (h : is_port name = true) : is_key name = false := by
  rw [is_port, decide_eq_true_eq] at h
  rcases h with rfl | hname
  · decide
  · have hne : name ≠ ['i'] := by
      rintro rfl
      revert hname
      decide
    simp [is_key, hne, hname]

theorem foldlM_single (profile : ISshConfigExt) (flag : Text × Option Text) :
    [flag].foldlM set_flag profile = set_flag profile flag := by
  rw [List.foldlM_cons]
  exact bind_pure _

/-- The last value of a kind is the one that counts. -/
theorem set_flags_text (profile : ISshConfigExt) (hport : profile.port = none)
    (hkey : profile.privateKey = none) (flags : List Flag) :
    (flags.map fun flag => (flag.name, some flag.value.text)).foldlM set_flag profile =
      if flags.any bad_port then none
      else some { profile with
        port := (last_value is_port flags).bind parseInt
        privateKey := last_value is_key flags } := by
  induction flags using List.reverseRecOn with
  | nil =>
    obtain ⟨⟩ := profile
    subst hport hkey
    rfl
  | append_singleton flags flag ih =>
    rw [List.map_append, List.foldlM_append, ih, List.any_append, List.map_singleton]
    by_cases hbad : flags.any bad_port = true
    · rw [if_pos hbad, hbad, Bool.true_or, if_pos rfl]
      rfl
    rw [if_neg hbad, Bool.eq_false_of_not_eq_true hbad, Bool.false_or, List.any_cons,
      List.any_nil, Bool.or_false, last_value_concat, last_value_concat]
    rw [Option.bind_eq_bind, Option.bind_some, foldlM_single, set_flag_text, flag_property_eq,
      bad_port]
    by_cases hname : is_port flag.name = true
    · rw [if_pos hname, if_pos hname, not_key_of_port hname, hname, Bool.true_and,
        Option.bind_some]
      cases parseInt flag.value.meaning with
      | none => rfl
      | some port => rfl
    · rw [if_neg hname, if_neg hname, Bool.eq_false_of_not_eq_true hname, Bool.false_and]
      by_cases hkey : is_key flag.name = true
      · rw [if_pos hkey, if_pos hkey]
        rfl
      · rw [if_neg hkey, if_neg hkey]
        rfl

theorem new_profile_eq (m : Manager) (command : SshCommand) (hindex : m.lastIndex = 0)
    (hflag : ¬ HasFlag command.target) (hmore : Apart more) :
    new_profile m none (command.text ++ more) =
      (command.flags.map (fun flag => (flag.name, some flag.value.text)) ++ scan more).foldlM
        set_flag
        { user := command.user <|> some m.env.username, hostname := some command.host } := by
  have hregex := sshRegex_text command (apart_flags command.flags hmore)
  rw [← List.append_assoc] at hregex
  obtain ⟨found, hfound, hsame⟩ := Option.map_eq_some_iff.mp hregex
  obtain ⟨huser, hhost⟩ := Prod.mk.inj hsame
  rw [new_profile, SshCommand.text, SshCommand.flags_text, hfound]
  dsimp only [bind, Option.bind_some]
  rw [if_neg (by decide), hindex, List.drop_zero, huser, hhost, flag_matches_eq (Nat.le_refl _)]
  rw [← scan_text command hflag hmore, SshCommand.text, SshCommand.flags_text]

/-- A command line stands for its user and its host, and for the last port and the last key file
that are given. A port that is no number is refused, and so is a flag at the end without a value. -/
theorem new_profile_text (m : Manager) (command : SshCommand) (hindex : m.lastIndex = 0)
    (hflag : ¬ HasFlag command.target) :
    new_profile m none command.text = command.profile m.env.username ∧
      ∀ (flag : FlagName) (after : Text), (∀ c ∈ after, is_space c = true) →
        new_profile m none (command.text ++ flag.text ++ after) = none := by
  have hnil : Apart [] := fun c hc => by cases hc
  constructor
  · have htext := new_profile_eq m command hindex hflag hnil
    rw [List.append_nil, show scan [] = [] from rfl, List.append_nil,
      set_flags_text _ rfl rfl] at htext
    exact htext
  · intro flag after hafter
    have happart : Apart after := fun c hc => hafter c (List.mem_of_head? hc)
    have hvalue : flag_value after = (none, after) := by
      have htake : after.takeWhile is_space = after := List.takeWhile_eq_self_iff.mpr hafter
      rw [flag_value, htake, List.drop_length, List.append_nil]
      split_ifs
      · rfl
      · rfl
    have hnone : scan after = [] := by
      have hblank : ¬ HasFlag after := by
        rintro ⟨front, c, rest, htext, -⟩
        have hhyphen := hafter '-' (htext ▸ by simp)
        revert hhyphen
        decide
      have hskip := @scan_skip after [] hblank fun c hc => by cases hc
      rwa [List.append_nil] at hskip
    have hscan : scan (flag.text ++ after) = [(flag.name, none)] := by
      rw [scan_flag flag happart, hvalue, hnone]
    have htext := @new_profile_eq (flag.text ++ after) m command hindex hflag (apart_flag flag)
    rw [hscan, List.foldlM_append] at htext
    rw [List.append_assoc, htext]
    apply Option.bind_eq_none_iff.mpr
    intro profile _
    rw [foldlM_single]
    rfl

theorem blank_is_space : ∀ c ∈ [' '], is_space c = true := by decide

def one_blank : Blanks := ⟨[' '], List.cons_ne_nil _ _, blank_is_space⟩

theorem digits_no_space : ∀ c ∈ ['2', '2'], is_space c = false := by decide

theorem digits_first : (['2', '2'] : Text).head?.any is_quote = false := by decide

theorem digits_last : (['2', '2'] : Text).getLast?.any is_quote = false := by decide

theorem p_is_word : ∀ c ∈ ['p'], is_word_char c = true := by decide

/-- ` -p 22` -/
def port_22 : Flag where
  before := one_blank
  long := false
  name := ['p']
  ne_nil := List.cons_ne_nil _ _
  word := p_is_word
  between := one_blank
  value := .plain ⟨['2', '2'], List.cons_ne_nil _ _, digits_no_space, digits_first, digits_last⟩

theorem host_is_host : ∀ c ∈ ['h'], is_host_char c = true := by decide

theorem no_user_ne : ∀ name ∈ (none : Option Text), name ≠ [] := by simp

theorem no_user_char : ∀ name ∈ (none : Option Text), ∀ c ∈ name, is_user_char c = true := by simp

/-- `ssh h -p 22` -/
def ssh_h : SshCommand where
  blanks := one_blank
  user := none
  host := ['h']
  flags := [port_22]
  user_ne_nil := no_user_ne
  user_char := no_user_char
  host_ne_nil := List.cons_ne_nil _ _
  host_char := host_is_host

theorem ssh_h_no_flag : ¬ HasFlag ssh_h.target := by
  rintro ⟨front, c, rest, htext, -⟩
  have hlength := congrArg List.length htext
  simp [SshCommand.target, ssh_h] at hlength
  omega

/-- Nothing has been asked so far. -/
def fresh_manager : Manager where
  env :=
    { SSH_AUTH_SOCK := none
      username := ['m', 'e']
      found_keys := []
      profiles := []
      showInputBox := fun _ => none
      showMenu := fun _ => none
      showCustomMenu := fun _ => none
      connect := fun _ _ => .failed NOT_CONNECTED
      handleInvalidPrivateKey := fun _ => false }
  lastIndex := 0
  sshProfiles := []
  sections := []
  path_of := id

theorem new_profile_ssh_h :
    new_profile fresh_manager none ssh_h.text = ssh_h.profile fresh_manager.env.username ∧
      ∀ (flag : FlagName) (after : Text), (∀ c ∈ after, is_space c = true) →
        new_profile fresh_manager none (ssh_h.text ++ flag.text ++ after) = none :=
  new_profile_text fresh_manager ssh_h rfl ssh_h_no_flag

example : ssh_h.profile ['m', 'e'] =
    some { user := some ['m', 'e'], hostname := some ['h'], port := some 22 } := by
  decide +kernel

end Zowex.sdk.ConfigManager

import Mathlib.Data.List.TakeWhile
import Zowex.Spec.RpcStreamManager

/-! Which pipe paths survive the two shells. `quote_path` protects a path from one shell, but
the commands put its result between double quotes of another, where the quotes it adds do not
quote. The reading is measured by how much the second shell takes in: never more than the
path has, and less as soon as the first shell has removed one character. -/

namespace Zowex.sdk

open Shell State

/-- A path the double quotes of the command and the single quotes of `quote_path` keep. -/
def kept (path : Text) : Bool := '\'' ∉ path && keeps path

/-! `quote_path` as the command embeds it: what a path reads as from its first character that
is not a quote on, with the quote that ends the script. -/

theorem quote_runs_of_not_mem {cs : Text} (h : '\'' ∉ cs) : quote_runs false cs = cs := by
  induction cs with
  | nil => rfl
  | cons c cs ih =>
    rw [List.mem_cons, not_or] at h
    rw [quote_runs, if_neg (Ne.symm h.1), ih h.2]

theorem quote_runs_quotes (k : ℕ) (cs : Text) :
    quote_runs true (List.replicate k '\'' ++ cs) =
      List.replicate k '\'' ++ quote_runs true cs := by
  induction k with
  | zero => rfl
  | succ k ih => rw [List.replicate_succ, List.cons_append, quote_runs, if_pos rfl, ih]; rfl

/-- A run of quotes as it stands in the quoted path. -/
def run_image (k : ℕ) : Text := ['\'', '"'] ++ List.replicate k '\'' ++ ['"', '\'']

theorem quote_runs_run {cs : Text} (h : cs.head? ≠ some '\'') (k : ℕ) :
    quote_runs false (List.replicate (k + 1) '\'' ++ cs) =
      run_image (k + 1) ++ quote_runs false cs := by
  rw [List.replicate_succ, List.cons_append, quote_runs, if_pos rfl, quote_runs_quotes]
  cases cs with
  | nil => simp [run_image, quote_runs, List.replicate_succ]
  | cons c cs =>
    have hc : c ≠ '\'' := fun hc => h (by rw [hc]; rfl)
    simp [run_image, quote_runs, hc, List.replicate_succ]

/-- The end of a quoted path that ends in `k` quotes, and of the script. -/
def ending (k : ℕ) : Text :=
  if k = 0 then ['\'', '"'] else ['\'', '"'] ++ List.replicate k '\'' ++ ['"', '"']

/-- Every path is its runs of quotes and the characters between them. -/
theorem run_induction {P : Text → Prop} (hnil : P [])
    (hcons : ∀ c cs, c ≠ '\'' → P cs → P (c :: cs))
    (hrun : ∀ k cs, cs.head? ≠ some '\'' → P cs → P (List.replicate (k + 1) '\'' ++ cs))
    (path : Text) : P path := by
  have key : ∀ n cs, cs.length ≤ n → P cs := by
    intro n
    induction n with
    | zero =>
      intro cs hcs
      rw [List.length_eq_zero_iff.mp (Nat.le_zero.mp hcs)]
      exact hnil
    | succ n ih =>
      intro cs hcs
      cases cs with
      | nil => exact hnil
      | cons c cs =>
        rw [List.length_cons] at hcs
        by_cases hc : c = '\''
        · subst hc
          have hsplit := List.takeWhile_append_dropWhile (p := (· == '\'')) (l := cs)
          have htake : cs.takeWhile (· == '\'') =
              List.replicate (cs.takeWhile (· == '\'')).length '\'' := by
            rw [List.eq_replicate_iff]
            exact ⟨rfl, fun b hb => by simpa using List.mem_takeWhile_imp hb⟩
          have hdrop : (cs.dropWhile (· == '\'')).length ≤ n :=
            (List.dropWhile_sublist _).length_le.trans (by omega)
          have hhead : (cs.dropWhile (· == '\'')).head? ≠ some '\'' := by
            intro h
            have := List.head?_dropWhile_not (· == '\'') cs
            rw [h] at this
            simp at this
          have := hrun (cs.takeWhile (· == '\'')).length _ hhead (ih _ hdrop)
          rwa [List.replicate_succ, ← htake, List.cons_append, hsplit] at this
        · exact hcons c cs hc (ih cs (by omega))
  exact key path.length path le_rfl

/-! The second shell reads what the first one makes of the script. -/

/-- The second shell after the first characters of its script. -/
def script (text : Text) : State := ({} : State).run text

theorem script_append (text cs : Text) : script (text ++ cs) = (script text).run cs :=
  run_append _ _ _

/-- A mode inside a word. -/
def in_word : Mode → Prop
  | .word | .single | .double | .double_escape | .escape true => True
  | _ => False

def pending : Mode → ℕ
  | .double_escape | .escape _ => 1
  | _ => 0

/-- The login shell `s` has read the words `base` and gives the second shell at most `n`
characters to take in, up to now: it is still in the script, or past it, or has failed. -/
inductive Gives (base : List Item) (n : ℕ) (s : State) : Prop
  | inside (hitems : s.items = base) (hmode : in_word s.mode)
      (hsize : (script s.text).size + pending s.mode ≤ n)
  | past {text : Text} {items : List Item} (hitems : s.items = base ++ .word text :: items)
      (hsize : (script text).size ≤ n)
  | failed (hmode : s.mode = .failed)

variable {base : List Item} {n : ℕ}

theorem Gives.mono {m : ℕ} {s : State} (h : Gives base n s) (hle : n ≤ m) : Gives base m s := by
  cases h with
  | inside hitems hmode hsize => exact .inside hitems hmode (hsize.trans hle)
  | past hitems hsize => exact .past hitems (hsize.trans hle)
  | failed hmode => exact .failed hmode

/-- The words that are read stay. -/
theorem step_items (s : State) (c : Char) : ∃ items, (s.step c).items = s.items ++ items := by
  obtain ⟨items, text, mode⟩ := s
  have hclose : ∃ more, (⟨items, text, mode⟩ : State).close.items = items ++ more := by
    unfold close
    split
    · exact ⟨_, rfl⟩
    · exact ⟨[], by simp⟩
  have hunq : ∃ more, (State.unquoted ⟨items, text, mode⟩ c).items = items ++ more := by
    unfold unquoted
    obtain ⟨more, hmore⟩ := hclose
    split_ifs
    · exact ⟨[], by simp⟩
    · exact ⟨[], by simp⟩
    · exact ⟨[], by simp⟩
    · exact ⟨more, hmore⟩
    · exact ⟨more ++ [.output], by simp [hmore]⟩
    all_goals exact ⟨[], by simp [add]⟩
  cases mode with
  | blank => exact hunq
  | word => exact hunq
  | failed => exact ⟨[], by simp [step]⟩
  | _ =>
    unfold step
    dsimp only
    split_ifs <;> exact ⟨[], by simp [add]⟩

/-- A character of the login shell gives the second shell at most one more. -/
theorem Gives.step {s : State} (h : Gives base n s) (c : Char) : Gives base (n + 1) (s.step c) := by
  cases h with
  | failed hmode =>
    refine .failed ?_
    simp only [State.step, hmode]
  | past hitems hsize =>
    obtain ⟨more, hmore⟩ := step_items s c
    rw [hitems, List.append_assoc, List.cons_append] at hmore
    exact .past hmore (hsize.trans (Nat.le_succ n))
  | inside hitems hmode hsize =>
    obtain ⟨items, text, mode⟩ := s
    obtain rfl : items = base := hitems
    have hone : (script (text ++ [c])).size ≤ (script text).size + 1 := by
      rw [script_append]
      exact size_run_le _ [c]
    have htwo : (script (text ++ ['\\', c])).size ≤ (script text).size + 2 := by
      rw [script_append]
      exact size_run_le _ ['\\', c]
    have hkeep {more : Mode} (hmore : in_word more) (hp : pending more ≤ pending mode + 1) :
        Gives items (n + 1) ⟨items, text, more⟩ :=
      .inside rfl hmore (by dsimp only at hsize ⊢; omega)
    have hput {more : Mode} (hmore : in_word more) (hp : pending more = 0) :
        Gives items (n + 1) ⟨items, text ++ [c], more⟩ :=
      .inside rfl hmore (by dsimp only at hsize ⊢; omega)
    cases mode with
    | blank | comment | failed => exact hmode.elim
    | word =>
      simp only [State.step, unquoted, close]
      split_ifs
      · exact hkeep trivial (by decide)
      · exact hkeep trivial (by decide)
      · exact hkeep trivial (by decide)
      · exact .past rfl (by dsimp only [pending] at hsize; omega)
      · exact .past (List.append_assoc _ _ _) (by dsimp only [pending] at hsize; omega)
      · exact .failed rfl
      · next h => exact absurd h.1 (by simp)
      · next h => exact absurd h.1 (by simp)
      · exact hput trivial rfl
    | single =>
      simp only [State.step]
      split_ifs
      · exact hkeep trivial (by decide)
      · exact hput trivial rfl
    | double =>
      simp only [State.step]
      split_ifs
      · exact hkeep trivial (by decide)
      · exact hkeep trivial (by decide)
      · exact .failed rfl
      · exact hput trivial rfl
    | double_escape =>
      simp only [State.step]
      split_ifs
      · exact hkeep trivial (by decide)
      · exact hput trivial rfl
      · exact .inside rfl trivial (by dsimp only [pending, add] at hsize ⊢; omega)
    | escape begun =>
      cases begun with
      | false => exact hmode.elim
      | true =>
        simp only [State.step, if_true]
        split_ifs
        · exact hkeep trivial (by decide)
        · exact hput trivial rfl

/-! What the login shell makes of a run of quotes: an even run vanishes, an odd one leaves it
on the other side of the quotes. -/

theorem run_image_double (k : ℕ) (items : List Item) (text : Text) :
    (⟨items, text, .double⟩ : State).run (run_image k) =
      if k % 2 = 0 then ⟨items, text ++ ['\'', '\''], .double⟩
      else ⟨items, text ++ ['\'', '"'], .word⟩ := by
  have hopen : (⟨items, text, .double⟩ : State).run ['\'', '"'] =
      ⟨items, text ++ ['\''], .word⟩ := rfl
  rw [run_image, run_append, run_append, hopen, (run_quotes_word k _ _).1]
  split_ifs <;> simp [State.step, unquoted, add]

theorem run_image_single (k : ℕ) (items : List Item) (text : Text) :
    (⟨items, text, .single⟩ : State).run (run_image k) =
      ⟨items, text ++ List.replicate k '\'', .single⟩ := by
  have hopen : (⟨items, text, .single⟩ : State).run ['\'', '"'] = ⟨items, text, .double⟩ := rfl
  rw [run_image, run_append, run_append, hopen, run_quotes_double]
  rfl

theorem run_image_word (k : ℕ) (items : List Item) (text : Text) :
    (⟨items, text, .word⟩ : State).run (run_image k) =
      if k % 2 = 0 then ⟨items, text ++ ['"', '"'], .word⟩
      else ⟨items, text ++ ['"', '\''], .double⟩ := by
  have hopen : (⟨items, text, .word⟩ : State).run ['\'', '"'] =
      ⟨items, text ++ ['"'], .single⟩ := rfl
  rw [run_image, run_append, run_append, hopen, (run_quotes_word k _ _).2]
  split_ifs <;> simp [State.step, unquoted, add]

theorem run_image_escape (k : ℕ) (items : List Item) (text : Text) :
    (⟨items, text, .escape true⟩ : State).run (run_image k) =
      ⟨items, text ++ '\'' :: List.replicate k '\'', .single⟩ := by
  have hopen : (⟨items, text, .escape true⟩ : State).run ['\'', '"'] =
      ⟨items, text ++ ['\''], .double⟩ := rfl
  rw [run_image, run_append, run_append, hopen, run_quotes_double, List.append_assoc]
  rfl

/-- A backslash is kept before a character it does not protect. -/
theorem step_double_escape {c : Char} (h : c ∉ ['\n', '$', '`', '"', '\\']) (items : List Item)
    (text : Text) : (⟨items, text, .double_escape⟩ : State).step c =
      (⟨items, text ++ ['\\'], .double⟩ : State).step c := by
  simp only [List.mem_cons, List.not_mem_nil, or_false, not_or] at h
  simp [State.step, add, h]

theorem run_double_escape {cs : Text}
    (h : ∃ c, cs.head? = some c ∧ c ∉ ['\n', '$', '`', '"', '\\']) (items : List Item)
    (text : Text) : (⟨items, text, .double_escape⟩ : State).run cs =
      (⟨items, text ++ ['\\'], .double⟩ : State).run cs := by
  obtain ⟨c, hhead, hc⟩ := h
  cases cs with
  | nil => cases hhead
  | cons d ds =>
    obtain rfl : d = c := Option.some.inj hhead
    rw [run_cons, run_cons, step_double_escape hc]

theorem run_failed (cs : Text) {s : State} (h : s.mode = .failed) : (s.run cs).mode = .failed := by
  induction cs generalizing s with
  | nil => exact h
  | cons c cs ih =>
    refine ih ?_
    simp only [State.step, h]

theorem Gives.run {s : State} (h : Gives base n s) (cs : Text) :
    Gives base (n + cs.length) (s.run cs) := by
  induction cs generalizing s n with
  | nil => exact h
  | cons c cs ih =>
    rw [List.length_cons, Nat.add_comm cs.length, ← Nat.add_assoc]
    exact ih (h.step c)

theorem run_past {s : State} {text : Text} {items : List Item}
    (h : s.items = base ++ .word text :: items) (cs : Text) :
    ∃ more, (s.run cs).items = base ++ .word text :: more := by
  induction cs generalizing s items with
  | nil => exact ⟨items, h⟩
  | cons c cs ih =>
    obtain ⟨extra, hextra⟩ := step_items s c
    rw [h, List.append_assoc, List.cons_append] at hextra
    exact ih hextra

/-- A run of quotes gives the second shell at most its length. -/
theorem Gives.run_image {s : State} (h : Gives base n s) {k : ℕ} (hk : k ≠ 0) :
    Gives base (n + k) (s.run (run_image k)) := by
  have hgrow (text cs : Text) : (script (text ++ cs)).size ≤ (script text).size + cs.length := by
    rw [script_append]
    exact size_run_le _ cs
  cases h with
  | failed hmode => exact .failed (run_failed _ hmode)
  | past hitems hsize =>
    obtain ⟨more, hmore⟩ := run_past hitems (sdk.run_image k)
    exact .past hmore (hsize.trans (Nat.le_add_right n k))
  | inside hitems hmode hsize =>
    obtain ⟨items, text, mode⟩ := s
    obtain rfl : items = base := hitems
    dsimp only at hsize
    -- a run that is not odd has two quotes at least
    have htwo (heven : k % 2 = 0) : 2 ≤ k := by omega
    have hsd : (script (text ++ ['\'', '"'])).size ≤ (script text).size + 1 := by
      rw [script_append]
      exact size_single_double _
    have hds : (script (text ++ ['"', '\''])).size ≤ (script text).size + 1 := by
      rw [script_append]
      exact size_double_single _
    cases mode with
    | blank | comment | failed => exact hmode.elim
    | word =>
      rw [run_image_word]
      have := hgrow text ['"', '"']
      simp only [List.length_cons, List.length_nil] at this
      split_ifs with heven
      · exact .inside rfl trivial (by dsimp only [pending] at hsize ⊢; have := htwo heven; omega)
      · exact .inside rfl trivial (by dsimp only [pending] at hsize ⊢; omega)
    | single =>
      rw [run_image_single]
      have := hgrow text (List.replicate k '\'')
      rw [List.length_replicate] at this
      exact .inside rfl trivial (by dsimp only [pending] at hsize ⊢; omega)
    | double =>
      rw [run_image_double]
      have := hgrow text ['\'', '\'']
      simp only [List.length_cons, List.length_nil] at this
      split_ifs with heven
      · exact .inside rfl trivial (by dsimp only [pending] at hsize ⊢; have := htwo heven; omega)
      · exact .inside rfl trivial (by dsimp only [pending] at hsize ⊢; omega)
    | double_escape =>
      rw [run_double_escape ⟨'\'', rfl, by decide⟩, run_image_double]
      have hone := hgrow text ['\\']
      have hthree := hgrow (text ++ ['\\']) ['\'', '\'']
      have hodd : (script (text ++ ['\\'] ++ ['\'', '"'])).size ≤
          (script (text ++ ['\\'])).size + 1 := by
        rw [script_append]
        exact size_single_double _
      simp only [List.length_cons, List.length_nil] at hone hthree
      split_ifs with heven
      · exact .inside rfl trivial (by dsimp only [pending] at hsize ⊢; have := htwo heven; omega)
      · exact .inside rfl trivial (by dsimp only [pending] at hsize ⊢; omega)
    | escape begun =>
      cases begun with
      | false => exact hmode.elim
      | true =>
        rw [run_image_escape]
        have := hgrow text ('\'' :: List.replicate k '\'')
        rw [List.length_cons, List.length_replicate] at this
        exact .inside rfl trivial (by dsimp only [pending] at hsize ⊢; omega)

/-- A quoted path gives the second shell at most as many characters as the path has. -/
theorem Gives.quote_runs {s : State} (h : Gives base n s) (path : Text) :
    Gives base (n + path.length) (s.run (quote_runs false path)) := by
  induction path using run_induction generalizing s n with
  | hnil => exact h
  | hcons c cs hc ih =>
    rw [sdk.quote_runs, if_neg hc, List.length_cons, Nat.add_comm cs.length, ← Nat.add_assoc]
    exact ih (h.step c)
  | hrun k cs hhead ih =>
    rw [quote_runs_run hhead, run_append, List.length_append, List.length_replicate,
      ← Nat.add_assoc]
    exact ih (h.run_image (Nat.succ_ne_zero k))

/-! The end of the script. -/

/-- If the login shell accepts the line, the second shell has a script, and if it accepts
that, it has taken in at most `n` characters. -/
def Ends (base : List Item) (n : ℕ) (s : State) : Prop :=
  ∀ items, s.finish = some items → ∃ text rest, items = base ++ .word text :: rest ∧
    ((script text).finish.isSome → (script text).size ≤ n)

theorem Ends.mono {m : ℕ} {s : State} (h : Ends base n s) (hle : n ≤ m) : Ends base m s := by
  intro items hitems
  obtain ⟨text, rest, hrest, hsize⟩ := h items hitems
  exact ⟨text, rest, hrest, fun hfinish => (hsize hfinish).trans hle⟩

theorem Ends.of_finish_none {s : State} (h : s.finish = none) : Ends base n s := by
  intro items hitems
  rw [h] at hitems
  cases hitems

theorem Ends.of_word {text : Text} (h : (script text).finish.isSome → (script text).size ≤ n) :
    Ends base n ⟨base, text, .word⟩ := by
  intro items hitems
  exact ⟨text, [], (Option.some.inj hitems).symm, h⟩

/-- A second shell that ends well after a single quote has closed one with it. -/
theorem size_step_single {s : State} (h : (s.step '\'').finish.isSome) :
    (s.step '\'').size ≤ s.size := by
  obtain ⟨items, text, mode⟩ := s
  cases mode with
  | escape begun =>
    simp [State.step, add, size]
    omega
  | single | comment | failed => exact le_rfl
  | blank | word | double | double_escape => cases h

theorem run_ending_double (k : ℕ) (items : List Item) (text : Text) :
    (⟨items, text, .double⟩ : State).run (ending k) =
      if k % 2 = 0 then ⟨items, text ++ ['\''], .word⟩
      else ⟨items, text ++ ['\'', '"', '"'], .single⟩ := by
  have hopen : (⟨items, text, .double⟩ : State).run ['\'', '"'] =
      ⟨items, text ++ ['\''], .word⟩ := rfl
  unfold ending
  split_ifs with hk hk'
  · exact hopen
  · omega
  · rw [run_append, run_append, hopen, (run_quotes_word k _ _).1, if_pos]
    · rfl
    · assumption
  · rw [run_append, run_append, hopen, (run_quotes_word k _ _).1, if_neg]
    · simp [State.step, add]
    · assumption

theorem Gives.ending {s : State} (h : Gives base n s) (k : ℕ) :
    Ends base (n + k) (s.run (ending k)) := by
  cases h with
  | failed hmode =>
    refine .of_finish_none ?_
    simp only [finish, run_failed _ hmode]
  | past hitems hsize =>
    obtain ⟨more, hmore⟩ := run_past hitems (sdk.ending k)
    intro items hfinish
    have hkeep : ∃ extra, items = (s.run (sdk.ending k)).items ++ extra := by
      unfold finish at hfinish
      split at hfinish
      · exact ⟨[], by simpa using hfinish.symm⟩
      · exact ⟨[], by simpa using hfinish.symm⟩
      · exact ⟨_, (Option.some.inj hfinish).symm⟩
      · cases hfinish
    obtain ⟨extra, rfl⟩ := hkeep
    rw [hmore]
    exact ⟨_, more ++ extra, by simp, fun _ => hsize.trans (Nat.le_add_right n k)⟩
  | inside hitems hmode hsize =>
    obtain ⟨items, text, mode⟩ := s
    obtain rfl : items = base := hitems
    dsimp only at hsize
    have hdouble (text : Text) (m : ℕ) (hsize : (script text).size ≤ m) :
        Ends items m ((⟨items, text, .double⟩ : State).run (sdk.ending k)) := by
      rw [run_ending_double]
      split_ifs
      · refine .of_word ?_
        rw [script_append]
        exact fun h => (size_step_single h).trans hsize
      · exact .of_finish_none rfl
    cases mode with
    | blank | comment | failed => exact hmode.elim
    | double => exact hdouble text _ (by dsimp only [pending] at hsize; omega)
    | double_escape =>
      have hhead : ∃ c, (sdk.ending k).head? = some c ∧ c ∉ ['\n', '$', '`', '"', '\\'] := by
        refine ⟨'\'', ?_, by decide⟩
        unfold sdk.ending
        split_ifs <;> rfl
      rw [run_double_escape hhead]
      refine hdouble _ _ ?_
      have := size_run_le (script text) ['\\']
      rw [← script_append, List.length_singleton] at this
      dsimp only [pending] at hsize
      omega
    | single =>
      have hopen : (⟨items, text, .single⟩ : State).run ['\'', '"'] = ⟨items, text, .double⟩ := rfl
      refine .of_finish_none ?_
      unfold sdk.ending
      split_ifs
      · rfl
      · rw [run_append, run_append, hopen, run_quotes_double]
        rfl
    | word =>
      have hopen : (⟨items, text, .word⟩ : State).run ['\'', '"'] =
          ⟨items, text ++ ['"'], .single⟩ := rfl
      unfold sdk.ending
      split_ifs with hk
      · exact .of_finish_none rfl
      · rw [run_append, run_append, hopen, (run_quotes_word k _ _).2]
        split_ifs
        · exact .of_finish_none rfl
        · change Ends items (n + k) ⟨items, text ++ ['"'], .word⟩
          refine .of_word fun _ => ?_
          have := size_run_le (script text) ['"']
          rw [← script_append, List.length_singleton] at this
          dsimp only [pending] at hsize
          omega
    | escape begun =>
      cases begun with
      | false => exact hmode.elim
      | true =>
        have hopen : (⟨items, text, .escape true⟩ : State).run ['\'', '"'] =
            ⟨items, text ++ ['\''], .double⟩ := rfl
        refine .of_finish_none ?_
        unfold sdk.ending
        split_ifs
        · rfl
        · rw [run_append, run_append, hopen, run_quotes_double]
          rfl

/-- What a path ending in `k` quotes gives the second shell, from any state. -/
theorem Gives.path {s : State} (h : Gives base n s) (path : Text) (k : ℕ) :
    Ends base (n + path.length + k) (s.run (sdk.quote_runs false path ++ sdk.ending k)) := by
  rw [run_append]
  exact (h.quote_runs path).ending k

/-! The beginning: both shells are inside their quotes until a character of the path takes one
of them out, and that character is lost. -/

theorem keeps_cons {c : Char} {cs : Text} : keeps (c :: cs) = true ↔
    (c ≠ '"' ∧ c ≠ '$' ∧ c ≠ '`') ∧
      (c = '\\' → cs.head? ≠ some '\\' ∧ cs.head? ≠ some '\n') ∧ keeps cs = true := by
  simp only [keeps, Bool.and_eq_true, decide_eq_true_eq, List.mem_cons, List.not_mem_nil,
    or_false, not_or, Bool.not_eq_true', Bool.and_eq_false_imp, Bool.or_eq_false_iff,
    decide_eq_false_iff_not, and_assoc, ne_eq]

theorem kept_cons {c : Char} {cs : Text} : kept (c :: cs) = true ↔
    c ≠ '\'' ∧ (c ≠ '"' ∧ c ≠ '$' ∧ c ≠ '`') ∧
      (c = '\\' → cs.head? ≠ some '\\' ∧ cs.head? ≠ some '\n') ∧ kept cs = true := by
  simp only [kept, Bool.and_eq_true, decide_eq_true_eq, List.mem_cons, not_or, keeps_cons]
  constructor
  · rintro ⟨⟨hne, hmem⟩, hq, hb, hk⟩
    exact ⟨Ne.symm hne, hq, hb, hmem, hk⟩
  · rintro ⟨hne, hq, hb, hmem, hk⟩
    exact ⟨⟨Ne.symm hne, hmem⟩, hq, hb, hk⟩

theorem script_single_append {text cs : Text} {items : List Item} {word : Text}
    (h : script text = ⟨items, word, .single⟩) (hcs : '\'' ∉ cs) :
    script (text ++ cs) = ⟨items, word ++ cs, .single⟩ := by
  rw [script_append, h, run_single hcs]

/-- From inside both quotes, a path that is not kept loses a character. -/
theorem Ends.of_not_kept {path : Text} {k : ℕ} (hbad : ¬ (k = 0 ∧ kept path = true))
    {text word : Text} {items : List Item} (hscript : script text = ⟨items, word, .single⟩)
    (hm : (script text).size + path.length + k ≤ n + 1) :
    Ends base n ((⟨base, text, .double⟩ : State).run
      (sdk.quote_runs false path ++ sdk.ending k)) := by
  induction path using run_induction generalizing text word n with
  | hnil =>
    have hk : k ≠ 0 := fun hk => hbad ⟨hk, rfl⟩
    rw [sdk.quote_runs, List.nil_append, run_ending_double]
    split_ifs
    · refine .of_word fun _ => ?_
      have hquote : (script (text ++ ['\''])).size = (script text).size := by
        rw [script_append, hscript]
        rfl
      rw [List.length_nil] at hm
      omega
    · exact .of_finish_none rfl
  | hrun j cs hhead ih =>
    rw [quote_runs_run hhead, List.append_assoc, run_append, run_image_double]
    rw [List.length_append, List.length_replicate] at hm
    have hsize (c : Char) (hc : c = '\'' ∨ c = '"') :
        (script (text ++ ['\'', c])).size = (script text).size := by
      rw [script_append, hscript]
      rcases hc with rfl | rfl <;> rfl
    split_ifs
    · have hgives : Gives base (script text).size ⟨base, text ++ ['\'', '\''], .double⟩ :=
        .inside rfl trivial (hsize '\'' (.inl rfl)).le
      exact (hgives.path cs k).mono (by omega)
    · have hgives : Gives base (script text).size ⟨base, text ++ ['\'', '"'], .word⟩ :=
        .inside rfl trivial (hsize '"' (.inr rfl)).le
      exact (hgives.path cs k).mono (by omega)
  | hcons c cs hc ih =>
    rw [sdk.quote_runs, if_neg hc, List.cons_append, run_cons]
    rw [List.length_cons] at hm
    have hgrow (d : Char) (hd : d ≠ '\'') : script (text ++ [d]) = ⟨items, word ++ [d], .single⟩ :=
      script_single_append hscript (by simpa using Ne.symm hd)
    have hsize (d : Char) (hd : d ≠ '\'') :
        (script (text ++ [d])).size = (script text).size + 1 := by
      rw [hgrow d hd, hscript]
      simp [size, Nat.add_assoc]
    by_cases hq : c = '"'
    · subst hq
      have hgives : Gives base (script text).size ⟨base, text, .word⟩ :=
        .inside rfl trivial le_rfl
      exact (hgives.path cs k).mono (by omega)
    by_cases hd : c = '$' ∨ c = '`'
    · refine .of_finish_none ?_
      have hfail : ((⟨base, text, .double⟩ : State).step c).mode = .failed := by
        rcases hd with rfl | rfl <;> rfl
      simp only [finish, run_failed _ hfail]
    rw [not_or] at hd
    by_cases hb : c = '\\'
    swap
    · have hstep : (⟨base, text, .double⟩ : State).step c = ⟨base, text ++ [c], .double⟩ := by
        simp [State.step, add, hq, hd, hb]
      rw [hstep]
      refine ih (fun h => hbad ⟨h.1, ?_⟩) (hgrow c hc) (by rw [hsize c hc]; omega)
      exact kept_cons.mpr ⟨hc, ⟨hq, hd⟩, fun h => absurd h hb, h.2⟩
    subst hb
    change Ends base n ((⟨base, text, .double_escape⟩ : State).run _)
    -- the backslash stays unless the next character is one it protects
    by_cases hnext : ∃ d ds, cs = d :: ds ∧ d ∈ ['\n', '$', '`', '"', '\\']
    · obtain ⟨d, ds, rfl, hmem⟩ := hnext
      have hd' : d ≠ '\'' := by
        rintro rfl
        revert hmem
        decide
      rw [sdk.quote_runs, if_neg hd', List.cons_append, run_cons]
      rw [List.length_cons] at hm
      have hgives : Gives base ((script text).size + 1)
          ((⟨base, text, .double_escape⟩ : State).step d) := by
        by_cases hnl : d = '\n'
        · subst hnl
          exact .inside rfl trivial (Nat.le_succ _)
        · simp only [List.mem_cons, List.not_mem_nil, or_false, hnl, false_or] at hmem
          simp only [State.step, if_neg hnl, if_pos hmem]
          exact .inside rfl trivial (hsize d hd').le
      exact (hgives.path ds k).mono (by omega)
    · have hhead : ∃ d, (sdk.quote_runs false cs ++ sdk.ending k).head? = some d ∧
          d ∉ ['\n', '$', '`', '"', '\\'] := by
        cases cs with
        | nil =>
          refine ⟨'\'', ?_, by decide⟩
          unfold sdk.ending
          split_ifs <;> rfl
        | cons d ds =>
          by_cases hd' : d = '\''
          · subst hd'
            exact ⟨'\'', rfl, by decide⟩
          · refine ⟨d, ?_, fun h => hnext ⟨d, ds, rfl, h⟩⟩
            rw [sdk.quote_runs, if_neg hd']
            rfl
      rw [run_double_escape hhead]
      refine ih (fun h => hbad ⟨h.1, ?_⟩) (hgrow _ (by decide)) (by rw [hsize _ (by decide)]; omega)
      refine kept_cons.mpr ⟨by decide, by decide, fun _ => ?_, h.2⟩
      cases cs with
      | nil => simp
      | cons d ds =>
        constructor
        · intro hd'
          exact hnext ⟨d, ds, rfl, by rw [Option.some.inj hd']; decide⟩
        · intro hd'
          exact hnext ⟨d, ds, rfl, by rw [Option.some.inj hd']; decide⟩

/-! `quote_path` on the characters of the path. -/

theorem exists_quotes (path : Text) : ∃ start k, path = start ++ List.replicate k '\'' ∧
    start.getLast? ≠ some '\'' := by
  induction path using List.reverseRecOn with
  | nil => exact ⟨[], 0, rfl, by simp⟩
  | append_singleton cs c ih =>
    by_cases hc : c = '\''
    · obtain ⟨start, k, rfl, hlast⟩ := ih
      subst hc
      exact ⟨start, k + 1, by rw [List.replicate_succ', List.append_assoc], hlast⟩
    · exact ⟨cs ++ [c], 0, by simp, by simpa using hc⟩

theorem quote_runs_append {start : Text} (hlast : start.getLast? ≠ some '\'') {k : ℕ} (hk : k ≠ 0) :
    quote_runs false (start ++ List.replicate k '\'') =
      quote_runs false start ++ sdk.run_image k := by
  obtain ⟨m, rfl⟩ := Nat.exists_eq_succ_of_ne_zero hk
  induction start using run_induction with
  | hnil =>
    have hruns := quote_runs_run (by simp : ([] : Text).head? ≠ some '\'') m
    rwa [List.append_nil, sdk.quote_runs, List.append_nil] at hruns
  | hcons c cs hc ih =>
    have hcs : cs.getLast? ≠ some '\'' := by
      cases cs with
      | nil => simp
      | cons d ds => rwa [List.getLast?_cons_cons] at hlast
    rw [List.cons_append, sdk.quote_runs, if_neg hc, ih hcs, sdk.quote_runs, if_neg hc,
      List.cons_append]
  | hrun j cs hhead ih =>
    cases cs with
    | nil =>
      rw [List.append_nil, List.replicate_succ', List.getLast?_concat] at hlast
      exact absurd rfl hlast
    | cons d ds =>
      have hcs : (d :: ds).getLast? ≠ some '\'' := by
        rwa [List.getLast?_append_of_ne_nil _ (List.cons_ne_nil d ds)] at hlast
      rw [List.append_assoc, quote_runs_run (by simpa using hhead), ih hcs, quote_runs_run hhead,
        List.append_assoc]

theorem quote_runs_getLast {c : Char} (hc : c ≠ '\'') (cs : Text) (open_run : Bool) :
    ∃ rest, quote_runs open_run (cs ++ [c]) = rest ++ [c] := by
  induction cs generalizing open_run with
  | nil =>
    cases open_run with
    | false => exact ⟨[], by simp [sdk.quote_runs, hc]⟩
    | true => exact ⟨['"', '\''], by simp [sdk.quote_runs, hc]⟩
  | cons d ds ih =>
    obtain ⟨rest, hrest⟩ := ih true
    obtain ⟨rest', hrest'⟩ := ih false
    by_cases hd : d = '\''
    · cases open_run with
      | false => exact ⟨'\'' :: '"' :: '\'' :: rest, by simp [sdk.quote_runs, hd, hrest]⟩
      | true => exact ⟨'\'' :: rest, by simp [sdk.quote_runs, hd, hrest]⟩
    · cases open_run with
      | false => exact ⟨d :: rest', by simp [sdk.quote_runs, hd, hrest']⟩
      | true => exact ⟨'"' :: '\'' :: d :: rest', by simp [sdk.quote_runs, hd, hrest']⟩

theorem strip_end_quotes (text : Text) : strip_end (text ++ ['\'', '\'']) = text := by
  have hsuffix : ['\'', '\''].isSuffixOf (text ++ ['\'', '\'']) = true := by
    rw [List.isSuffixOf_iff_suffix]
    exact List.suffix_append _ _
  rw [strip_end, if_pos hsuffix]
  simp

theorem strip_end_other {c : Char} (hc : c ≠ '\'') (text : Text) :
    strip_end (text ++ [c, '\'']) = text ++ [c, '\''] := by
  rw [strip_end, if_neg]
  rw [List.isSuffixOf_iff_suffix]
  rintro ⟨rest, hrest⟩
  have := List.append_inj_right' hrest rfl
  simp only [List.cons.injEq, and_true] at this
  exact hc this.symm

/-- The end of the wrapped path, with the double quote of the command. -/
theorem strip_end_ending {start : Text} (hne : start ≠ []) (hlast : start.getLast? ≠ some '\'')
    (pre : Text) (k : ℕ) :
    strip_end (pre ++ quote_runs false (start ++ List.replicate k '\'') ++ ['\'']) ++ ['"'] =
      pre ++ (quote_runs false start ++ sdk.ending k) := by
  by_cases hk : k = 0
  · subst hk
    obtain ⟨cs, c, rfl⟩ := List.eq_nil_or_concat start |>.resolve_left hne
    rw [List.concat_eq_append] at hlast ⊢
    rw [List.getLast?_concat] at hlast
    have hc : c ≠ '\'' := fun h => hlast (congrArg some h)
    obtain ⟨rest, hrest⟩ := quote_runs_getLast hc cs false
    have := strip_end_other hc (pre ++ rest)
    simp only [List.replicate_zero, List.append_nil, hrest, List.append_assoc, List.cons_append,
      List.nil_append, sdk.ending, if_true] at this ⊢
    rw [this]
    simp
  · have := strip_end_quotes (pre ++ (quote_runs false start ++
      (['\'', '"'] ++ List.replicate k '\'' ++ ['"'])))
    rw [quote_runs_append hlast hk]
    simp only [sdk.run_image, sdk.ending, if_neg hk, List.append_assoc, List.cons_append,
      List.nil_append] at this ⊢
    rw [this]
    simp

/-! The two commands. They differ in the words `pre` before the path. -/

/-- The words of the login shell before the script. -/
def login : List Item := ["exec", "/bin/sh", "-c"].map fun word => .word word.toList

def login_text : Text := "exec /bin/sh -c \"".toList

/-- The command line with `pre` before the path. -/
def command (pre path : Text) : Text := login_text ++ pre ++ quote_path path ++ ['"']

theorem upload_command_eq (path : Text) : upload_command path = command "cat > ".toList path := by
  have h : "exec /bin/sh -c \"cat > ".toList = login_text ++ "cat > ".toList := by
    decide +kernel
  exact congrArg (· ++ quote_path path ++ ['"']) h

theorem download_command_eq (path : Text) :
    download_command path = command "cat ".toList path := by
  have h : "exec /bin/sh -c \"cat ".toList = login_text ++ "cat ".toList := by
    decide +kernel
  exact congrArg (· ++ quote_path path ++ ['"']) h

theorem safe_plain {c : Char} (h : safe c = true) : plain c ∧ c ≠ '`' ∧ c ≠ '$' := by
  have hne {d : Char} (hd : safe d = false) : c ≠ d := by
    rintro rfl
    rw [h] at hd
    cases hd
  refine ⟨⟨?_, ?_⟩, hne (by decide), hne (by decide)⟩
  · simp only [List.mem_cons, List.not_mem_nil, or_false, not_or]
    exact ⟨hne (by decide), hne (by decide), hne (by decide), hne (by decide), hne (by decide),
      hne (by decide), hne (by decide), hne (by decide)⟩
  · simp only [special, List.mem_cons, List.not_mem_nil, or_false, not_or]
    exact ⟨hne (by decide), hne (by decide), hne (by decide), hne (by decide), hne (by decide),
      hne (by decide), hne (by decide), hne (by decide), hne (by decide), hne (by decide),
      hne (by decide), hne (by decide)⟩

theorem kept_of_safe {path : Text} (h : ∀ c ∈ path, safe c = true) : kept path = true := by
  induction path with
  | nil => rfl
  | cons c cs ih =>
    rw [List.forall_mem_cons] at h
    obtain ⟨⟨hquotes, -⟩, hback, hdollar⟩ := safe_plain h.1
    simp only [List.mem_cons, List.not_mem_nil, or_false, not_or] at hquotes
    exact kept_cons.mpr ⟨hquotes.1, ⟨hquotes.2.1, hdollar, hback⟩,
      fun hc => absurd hc hquotes.2.2.1, ih h.2⟩

section

variable {pre : Text} {done : List Item}

/-- Reading `pre` puts the login shell inside double quotes, and the second one at the place
of the path. -/
structure Before (pre : Text) (done : List Item) : Prop where
  outer : ({} : State).run (login_text ++ pre) = ⟨login, pre, .double⟩
  inner : script pre = ⟨done, [], .blank⟩

theorem before_upload : Before "cat > ".toList [.word "cat".toList, .output] := by
  constructor
  · decide +kernel
  · decide +kernel

theorem before_download : Before "cat ".toList [.word "cat".toList] :=
  ⟨by decide +kernel, by decide +kernel⟩

theorem Before.run (h : Before pre done) (path : Text) : ({} : State).run (command pre path) =
    (⟨login, pre, .double⟩ : State).run (quote_path path ++ ['"']) := by
  rw [command, List.append_assoc _ (quote_path path), run_append, h.outer]

/-- A path that is kept becomes one word of the script. -/
theorem read_kept (h : Before pre done) {path : Text} (hkept : kept path = true) :
    ∃ text, Shell.read (command pre path) = some (login ++ [.word text]) ∧
      Shell.read text = some (done ++ [.word path]) := by
  have hkept' := hkept
  simp only [kept, Bool.and_eq_true, decide_eq_true_eq] at hkept'
  obtain ⟨hquote, hkeeps⟩ := hkept'
  have hscript (text : Text) : Shell.read text = (script text).finish := rfl
  unfold Shell.read at hscript ⊢
  rw [h.run]
  by_cases hnil : path = []
  · subst hnil
    refine ⟨pre ++ ['\'', '\''], ?_, ?_⟩
    · rw [quote_path, if_pos rfl]
      simp [State.step, add, finish]
    · rw [hscript, script_append, h.inner]
      rfl
  by_cases hsafe : path.all safe = true
  · rw [quote_path, if_neg hnil, if_pos hsafe]
    rw [List.all_eq_true] at hsafe
    have hlast : path.getLast? ≠ some '\\' := by
      intro hc
      have := hsafe _ (List.mem_of_getLast? hc)
      revert this
      decide
    refine ⟨pre ++ path, ?_, ?_⟩
    · rw [run_append, run_double hkeeps hlast]
      rfl
    · rw [hscript, script_append, h.inner,
        run_plain_blank (fun c hc => (safe_plain (hsafe c hc)).1) hnil]
      rfl
  · have hhead : ['\'', '\''].isPrefixOf ('\'' :: quote_runs false path ++ ['\'']) = false := by
      rw [quote_runs_of_not_mem hquote]
      cases path with
      | nil => exact absurd rfl hnil
      | cons c cs =>
        rw [List.mem_cons, not_or] at hquote
        simp [List.isPrefixOf, hquote.1]
    have hlast : path.getLast? ≠ some '\'' := fun hc => hquote (List.mem_of_getLast? hc)
    have himage := strip_end_ending hnil hlast ['\''] 0
    simp only [List.replicate_zero, List.append_nil, quote_runs_of_not_mem hquote, sdk.ending,
      if_true, List.cons_append, List.nil_append] at himage
    have hquoted : quote_path path ++ ['"'] = ('\'' :: path ++ ['\'']) ++ ['"'] := by
      rw [quote_path, if_neg hnil, if_neg hsafe, strip_start, hhead, if_neg Bool.false_ne_true,
        quote_runs_of_not_mem hquote, List.cons_append, himage]
      simp
    have hwrapped : keeps ('\'' :: path ++ ['\'']) = true := by
      have hend : ∀ cs : Text, keeps cs = true → keeps (cs ++ ['\'']) = true := by
        intro cs
        induction cs with
        | nil => exact fun _ => rfl
        | cons c cs ih =>
          intro hcs
          rw [keeps_cons] at hcs
          refine keeps_cons.mpr ⟨hcs.1, fun hc => ?_, ih hcs.2.2⟩
          cases cs with
          | nil => simp
          | cons d ds => exact hcs.2.1 hc
      exact keeps_cons.mpr ⟨by decide, fun hc => absurd hc (by decide), hend path hkeeps⟩
    refine ⟨pre ++ ('\'' :: path ++ ['\'']), ?_, ?_⟩
    · rw [hquoted, run_append, run_double hwrapped (by
        rw [List.getLast?_concat]; decide)]
      rfl
    · have hopen : (⟨done, [], .blank⟩ : State).step '\'' = ⟨done, [], .single⟩ := rfl
      rw [hscript, script_append, h.inner, List.cons_append, run_cons, hopen, run_append,
        run_single hquote]
      rfl

/-- One that is not kept leaves the second shell less than the path. -/
theorem Before.not_kept (h : Before pre done) {path : Text} (hbad : kept path = false) :
    Ends login ((script pre).size + path.length - 1) (({} : State).run (command pre path)) := by
  have hnil : path ≠ [] := by
    rintro rfl
    cases hbad
  have hsafe : ¬ path.all safe = true := by
    intro hsafe
    rw [kept_of_safe (List.all_eq_true.mp hsafe)] at hbad
    cases hbad
  rw [h.run, quote_path, if_neg hnil, if_neg hsafe]
  have hsingle : script (pre ++ ['\'']) = ⟨done, [], .single⟩ := by
    rw [script_append, h.inner]
    rfl
  have hdouble : script (pre ++ ['"']) = ⟨done, [], .double⟩ := by
    rw [script_append, h.inner]
    rfl
  have hsizes : (script (pre ++ ['\''])).size = (script pre).size ∧
      (script (pre ++ ['"'])).size = (script pre).size := by
    rw [hsingle, hdouble, h.inner]
    exact ⟨rfl, rfl⟩
  obtain ⟨start, k, rfl, hlast⟩ := exists_quotes path
  rw [List.length_append, List.length_replicate]
  cases start using run_induction with
  | hnil =>
    obtain ⟨m, rfl⟩ : ∃ m, k = m + 1 := by
      refine Nat.exists_eq_succ_of_ne_zero fun hk => hnil ?_
      rw [hk]
      rfl
    have hruns := quote_runs_run (by simp : ([] : Text).head? ≠ some '\'') m
    rw [List.append_nil, sdk.quote_runs, List.append_nil] at hruns
    have hstart : strip_start ('\'' :: sdk.run_image (m + 1) ++ ['\'']) =
        (['"'] ++ List.replicate (m + 1) '\'' ++ ['"']) ++ ['\'', '\''] := by
      simp [strip_start, sdk.run_image, List.isPrefixOf]
    rw [List.nil_append, hruns, hstart, strip_end_quotes]
    have hopen : (⟨login, pre, .double⟩ : State).run ['"'] = ⟨login, pre, .word⟩ := rfl
    rw [List.append_assoc, List.append_assoc, run_append, hopen, run_append,
      (run_quotes_word (m + 1) _ _).1]
    split_ifs
    · change Ends login _ ⟨login, pre, .word⟩
      exact .of_word fun _ => by omega
    · exact .of_finish_none rfl
  | hcons c cs hc _ =>
    have hstart : strip_start ('\'' :: sdk.quote_runs false (c :: cs ++ List.replicate k '\'') ++
        ['\'']) = ['\''] ++ sdk.quote_runs false (c :: cs ++ List.replicate k '\'') ++ ['\''] := by
      simp [strip_start, sdk.quote_runs, hc, List.isPrefixOf, Ne.symm hc]
    rw [hstart, strip_end_ending (List.cons_ne_nil c cs) hlast, run_append]
    refine Ends.of_not_kept ?_ hsingle ?_
    · rintro ⟨rfl, hk⟩
      rw [List.replicate_zero, List.append_nil, hk] at hbad
      cases hbad
    · rw [hsizes.1, List.length_cons]
      omega
  | hrun j cs hhead _ =>
    have hcs : cs ≠ [] := by
      rintro rfl
      rw [List.append_nil, List.replicate_succ', List.getLast?_concat] at hlast
      exact hlast rfl
    have hlast' : cs.getLast? ≠ some '\'' := by
      rwa [List.getLast?_append_of_ne_nil _ hcs] at hlast
    have hhead' : (cs ++ List.replicate k '\'').head? ≠ some '\'' := by
      rwa [List.head?_append_of_ne_nil _ hcs]
    have hstart : strip_start ('\'' :: sdk.quote_runs false (List.replicate (j + 1) '\'' ++ cs ++
        List.replicate k '\'') ++ ['\'']) = (['"'] ++ List.replicate (j + 1) '\'' ++ ['"', '\'']) ++
          sdk.quote_runs false (cs ++ List.replicate k '\'') ++ ['\''] := by
      rw [List.append_assoc, quote_runs_run hhead']
      simp [strip_start, sdk.run_image, List.isPrefixOf]
    rw [hstart, strip_end_ending hcs hlast']
    have hopen : (⟨login, pre, .double⟩ : State).run ['"'] = ⟨login, pre, .word⟩ := rfl
    rw [run_append, run_append, run_append, run_append, hopen, (run_quotes_word (j + 1) _ _).1,
      ← run_append _ (sdk.quote_runs false cs), List.length_append, List.length_replicate]
    split_ifs
    · have hgives : Gives login (script pre).size
          ((⟨login, pre, .word⟩ : State).run ['"', '\'']) := .inside rfl trivial hsizes.1.le
      exact (hgives.path cs k).mono (by omega)
    · have hgives : Gives login (script pre).size
          ((⟨login, pre, .single⟩ : State).run ['"', '\'']) := .inside rfl trivial hsizes.2.le
      exact (hgives.path cs k).mono (by omega)

theorem exec_script_login (text : Text) (command : Simple) (houtputs : command.outputs = []) :
    exec_script { command with
      argv := "exec".toList :: "/bin/sh".toList :: "-c".toList :: text :: command.argv } =
      some text :=
  if_pos ⟨rfl, rfl, rfl, houtputs⟩

theorem simple_login (text : Text) (rest : List Item) : simple (login ++ .word text :: rest) =
    (simple rest).map fun s =>
      { s with argv := "exec".toList :: "/bin/sh".toList :: "-c".toList :: text :: s.argv } := by
  simp only [login, List.map_cons, List.map_nil, List.cons_append, List.nil_append, simple,
    Option.map_map]
  rfl

/-- The script of a line that opens something is the fourth word of the login shell. -/
theorem opens_eq_some {line text : Text} {rest : List Item} {opened : List Opened}
    (hline : Shell.read line = some (login ++ .word text :: rest))
    (h : opens line = some opened) : ∃ items command, Shell.read text = some items ∧
      simple items = some command ∧ cat_opens command = some opened := by
  simp only [opens, hline, Option.bind_eq_bind, Option.bind_some] at h
  rw [simple_login] at h
  obtain ⟨outer, houter, h⟩ := Option.bind_eq_some_iff.mp h
  obtain ⟨command, -, rfl⟩ := Option.map_eq_some_iff.mp houter
  obtain ⟨script, hscript, h⟩ := Option.bind_eq_some_iff.mp h
  obtain rfl : text = script := by
    simp only [exec_script] at hscript
    split_ifs at hscript
    exact Option.some.inj hscript
  obtain ⟨items, hitems, h⟩ := Option.bind_eq_some_iff.mp h
  obtain ⟨inner, hinner, h⟩ := Option.bind_eq_some_iff.mp h
  exact ⟨items, inner, hitems, hinner, h⟩

theorem opens_script {line text : Text} {items : List Item}
    (hline : Shell.read line = some (login ++ [.word text]))
    (htext : Shell.read text = some items) : opens line = (simple items).bind cat_opens := by
  have hexec := exec_script_login text {} rfl
  simp only [opens, hline, Option.bind_eq_bind, Option.bind_some]
  rw [simple_login, simple, Option.map_some, Option.bind_some, hexec, Option.bind_some, htext,
    Option.bind_some]

/-- The characters of what a command opens are those of its words after `cat`. -/
theorem size_cat_opens {inner : Simple} {opened : List Opened} {file : Text}
    (h : cat_opens inner = some opened)
    (hopened : opened = [.writes file] ∨ opened = [.reads file]) :
    (inner.argv.map List.length).sum + (inner.outputs.map List.length).sum = 3 + file.length := by
  unfold cat_opens at h
  split at h
  · cases h
  next name operands hargv =>
    split_ifs at h with hcat
    rw [hargv, hcat.1]
    have h := Option.some.inj h
    rcases hopened with rfl | rfl
    · cases hout : inner.outputs with
      | nil => cases operands <;> simp [hout] at h
      | cons f fs =>
        rw [hout] at h
        simp only [List.map_cons, List.cons_append, List.cons.injEq, List.append_eq_nil_iff,
          List.map_eq_nil_iff, Opened.writes.injEq] at h
        simp [h]
    · cases hout : inner.outputs with
      | nil =>
        rw [hout] at h
        cases operands with
        | nil => simp at h
        | cons f fs =>
          simp only [List.map_cons, List.map_nil, List.nil_append, List.cons.injEq,
            List.map_eq_nil_iff, Opened.reads.injEq] at h
          simp [h]
      | cons f fs =>
        rw [hout] at h
        simp at h

theorem kept_of_opens (h : Before pre done) (hsize : (script pre).size = 3) {path : Text}
    {opened : List Opened} (hopens : opens (command pre path) = some opened)
    (hopened : opened = [.writes path] ∨ opened = [.reads path]) : kept path = true := by
  by_contra hbad
  have hends := h.not_kept (Bool.eq_false_iff.mpr hbad)
  have hread : ∃ items, Shell.read (command pre path) = some items := by
    cases hitems : Shell.read (command pre path) with
    | some items => exact ⟨items, rfl⟩
    | none => simp [opens, hitems] at hopens
  obtain ⟨items, hitems⟩ := hread
  obtain ⟨text, rest, rfl, hle⟩ := hends items hitems
  obtain ⟨inner_items, inner, hinner, hsimple, hcat⟩ := opens_eq_some hitems hopens
  have hpath : 0 < path.length := by
    refine List.length_pos_iff.mpr ?_
    rintro rfl
    exact hbad rfl
  have htaken := size_le_of_finish hinner
  rw [size_simple hsimple, size_cat_opens hcat hopened] at htaken
  have := hle (by rw [show (script text).finish = some inner_items from hinner]; rfl)
  unfold script at this hsize
  omega

end

/-- The file of an upload is opened exactly if its path is kept. -/
theorem upload_opens_iff (path : Text) :
    opens (upload_command path) = some [.writes path] ↔ kept path = true := by
  rw [upload_command_eq]
  refine ⟨fun h => kept_of_opens before_upload (by decide +kernel) h (.inl rfl), fun h => ?_⟩
  obtain ⟨text, hline, htext⟩ := read_kept before_upload h
  rw [opens_script hline htext]
  rfl

theorem download_opens (path : Text) (h : kept path = true) :
    opens (download_command path) =
      if path.head? ≠ some '-' then some [.reads path] else none := by
  obtain ⟨text, hline, htext⟩ := read_kept before_download h
  rw [download_command_eq, opens_script hline htext]
  simp only [List.cons_append, List.nil_append, simple, Option.map_some, Option.bind_some,
    cat_opens, List.map_nil, List.map_cons, List.all_cons, List.all_nil, Bool.and_true, true_and,
    decide_eq_true_eq]

/-- The file of a download is opened exactly if, besides, `cat` takes its path for a file. -/
theorem download_opens_iff (path : Text) :
    opens (download_command path) = some [.reads path] ↔
      kept path = true ∧ path.head? ≠ some '-' := by
  constructor
  · intro h
    have hkept : kept path = true := by
      rw [download_command_eq] at h
      exact kept_of_opens before_download (by decide +kernel) h (.inr rfl)
    refine ⟨hkept, fun hdash => ?_⟩
    rw [download_opens path hkept, if_neg (not_not_intro hdash)] at h
    cases h
  · rintro ⟨hkept, hdash⟩
    rw [download_opens path hkept, if_pos hdash]

/-- The file of each command is the announced one exactly for these paths. -/
theorem pipe_path_opened_iff (path : Text) :
    (opens (upload_command path) = some [.writes path] ↔ kept path = true) ∧
      (opens (download_command path) = some [.reads path] ↔
        kept path = true ∧ path.head? ≠ some '-') :=
  ⟨upload_opens_iff path, download_opens_iff path⟩

/-- A temporary directory with quotes in its name leads to another file, one with a dollar sign
to an expansion. -/
theorem pipe_path_not_opened :
    opens (download_command "/tmp/a'b'c/zowex_0_1_1_fifo".toList) =
        some [.reads "/tmp/abc/zowex_0_1_1_fifo".toList] ∧
      opens (upload_command "/tmp/$USER/zowex_0_1_1_fifo".toList) = none := by
  constructor
  · decide +kernel
  · decide +kernel

end Zowex.sdk

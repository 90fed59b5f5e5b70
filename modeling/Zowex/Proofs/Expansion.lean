import Zowex.Proofs.ServerPath

/-! What the shell makes of a quoted path. A tilde is expanded only where nothing before the first
slash is quoted, nor the slash itself. -/

namespace Zowex.sdk

open Shell Shell.State

theorem expand_of_head {text : Text} (h : text.head? ≠ some '~') (home : Text) :
    expand home text = (read text).bind words := by
  unfold expand
  split
  next => exact absurd rfl h
  next => exact absurd rfl h
  next => rfl

theorem expand_quote {c : Char} (h : c = '\'' ∨ c = '"') (home text : Text) :
    expand home ('~' :: c :: text) =
      ((⟨[], ['~'], .word⟩ : State).run (c :: text)).finish.bind words := by
  have hquote : (c :: text).head? = some '\'' ∨ (c :: text).head? = some '"' ∨
      (c :: text).head? = some '\\' := by
    rcases h with rfl | rfl
    · exact .inl rfl
    · exact .inr (.inl rfl)
  have hslash : c ≠ '/' := by
    rintro rfl
    simp at h
  rw [expand]
  · exact if_pos hquote
  · rintro rest hrest
    exact hslash (List.cons.inj hrest).1

theorem quote_path_no_tilde (path : Text) : (quote_path path).head? ≠ some '~' := by
  by_cases hsafe : path.all safe = true
  · by_cases hnil : path = []
    · rw [hnil]
      decide
    · rw [quote_path, if_neg hnil, if_pos hsafe]
      intro hhead
      obtain ⟨rest, rfl⟩ := List.head?_eq_some_iff.mp hhead
      exact safe_ne_tilde (List.all_eq_true.mp hsafe '~' List.mem_cons_self) rfl
  · obtain ⟨rest, hrest | hrest⟩ := quote_path_head hsafe
    · rw [hrest]
      simp
    · rw [hrest]
      simp

theorem words_quote_path (path : Text) : (read (quote_path path)).bind words = some [path] := by
  rw [Shell.read, run_quote_path]
  rfl

/-- A quoted path is one word, and that is the path. -/
theorem quote_path_expands (home path : Text) : expand home (quote_path path) = some [path] := by
  rw [expand_of_head (quote_path_no_tilde path)]
  exact words_quote_path path

/-- What a remote path stands for. -/
def remote_word (home : Text) : Text → Text
  | '~' :: '/' :: rest => home ++ '/' :: rest
  | path => path

theorem remote_word_other {path : Text} (h : ¬ ['~', '/'] <+: path) (home : Text) :
    remote_word home path = path := by
  unfold remote_word
  split
  next => exact absurd ⟨_, rfl⟩ h
  next => rfl

theorem expand_safe {rest : Text} (hsafe : rest.all safe = true) (home : Text) :
    expand home (quote_remote_path ('~' :: '/' :: rest)) = some [home ++ '/' :: rest] := by
  have hplain : ∀ c ∈ rest, plain c := fun c hc => (safe_plain (List.all_eq_true.mp hsafe c hc)).1
  have hall : ('/' :: rest).all safe = true := by
    rw [List.all_cons, hsafe]
    rfl
  have hquoted : quote_remote_path ('~' :: '/' :: rest) = '~' :: '/' :: rest := by
    rw [quote_remote_path, if_pos (.inr ⟨rest, rfl⟩), List.drop_one, List.tail_cons, quote_path,
      if_neg (List.cons_ne_nil _ _), if_pos hall]
  rw [hquoted, expand, run_plain hplain, List.append_assoc]
  rfl

/-- The slash is quoted along with the rest. -/
theorem expand_special {rest : Text} (hspecial : ¬ rest.all safe = true) (home : Text) :
    expand home (quote_remote_path ('~' :: '/' :: rest)) = some ['~' :: '/' :: rest] := by
  have hall : ¬ ('/' :: rest).all safe = true := by
    rw [List.all_cons, Bool.and_eq_true]
    exact fun h => hspecial h.2
  have hrun : (⟨[], ['~'], .word⟩ : State).run (quote_path ('/' :: rest)) =
      ⟨[], '~' :: '/' :: rest, .word⟩ :=
    run_quote_path_from (.inr rfl) (List.cons_ne_nil _ _) []
  rw [quote_remote_path, if_pos (.inr ⟨rest, rfl⟩), List.drop_one, List.tail_cons]
  obtain ⟨text, htext | htext⟩ := quote_path_head hall
  · rw [htext] at hrun ⊢
    rw [expand_quote (.inl rfl), hrun]
    rfl
  · rw [htext] at hrun ⊢
    rw [expand_quote (.inr rfl), hrun]
    rfl

theorem expand_other {path : Text} (h : ¬ ['~', '/'] <+: path) (home : Text) :
    expand home (quote_remote_path path) = some [path] := by
  by_cases htilde : path = ['~']
  · rw [htilde]
    rfl
  · rw [quote_remote_path, if_neg (not_or.mpr ⟨htilde, h⟩),
      expand_of_head (quote_path_no_tilde path)]
    exact words_quote_path path

/-- A remote path is expanded to what it stands for unless it is below the home directory and has a
character there that is quoted. -/
theorem remote_path_expands_iff (path : Text) :
    (∀ home, expand home (quote_remote_path path) = some [remote_word home path]) ↔
      ¬ ['~', '/'] <+: path ∨ (path.drop 2).all safe = true := by
  constructor
  · intro hexpands
    by_contra hnot
    rw [not_or, not_not] at hnot
    obtain ⟨⟨rest, rfl⟩, hspecial⟩ := hnot
    have hliteral := (expand_special hspecial []).symm.trans (hexpands [])
    rw [Option.some.injEq, List.cons.injEq] at hliteral
    exact absurd hliteral.1 (by simp [remote_word])
  · intro hwhen home
    by_cases htilde : ['~', '/'] <+: path
    · obtain ⟨rest, rfl⟩ := htilde
      exact expand_safe (hwhen.resolve_left (not_not.mpr ⟨rest, rfl⟩)) home
    · rw [remote_word_other htilde]
      exact expand_other htilde home

/-- The space keeps the tilde from being expanded. -/
theorem home_not_expanded :
    ¬ ∀ home path, expand home (quote_remote_path path) = some [remote_word home path] := by
  intro hall
  have hexpands := hall "/u/ibmuser".toList "~/my dir".toList
  revert hexpands
  decide +kernel

end Zowex.sdk

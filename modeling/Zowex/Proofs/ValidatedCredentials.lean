import Zowex.Proofs.ConfigManager

/-! What a validation ends with: each kind of credential is tried once, and only the prompts of the
last one try again. -/

namespace Zowex.sdk.ConfigManager

open Dialogues Shell

variable {env : Environment} {config : ISshConfigExt} {askForPassword : Bool} {α : Type}

/-! How many attempts there are. -/

/-- No more than so many attempts, whatever has happened before. -/
def AtMost (n : ℕ) (m : Dialogue Event α) : Prop := Yields m fun _ added => attempts added ≤ n

theorem attempts_append (log log' : List Event) :
    attempts (log ++ log') = attempts log + attempts log' := List.countP_append

namespace AtMost

variable {n k : ℕ}

theorem pure (a : α) : AtMost n (Pure.pure a : Dialogue Event α) := Yields.pure a (Nat.zero_le n)

theorem mono {m : Dialogue Event α} (h : AtMost n m) (hle : n ≤ k) : AtMost k m :=
  Yields.mono h fun _ _ hn => hn.trans hle

theorem bind {β : Type} {m : Dialogue Event β} {f : β → Dialogue Event α} (hm : AtMost n m)
    (hf : ∀ b, AtMost k (f b)) : AtMost (n + k) (m >>= f) := by
  refine Yields.bind hm fun b added hadded => ?_
  refine Yields.mono (hf b) fun _ more hmore => ?_
  rw [attempts_append]
  exact Nat.add_le_add hadded hmore

theorem input {f : Option Text → Dialogue Event α} (h : ∀ answer, AtMost n (f answer)) :
    AtMost n (input_box env >>= f) := Yields.ask_bind fun answer => h answer

theorem invalid_key {f : Bool → Dialogue Event α} (h : ∀ go, AtMost n (f go)) :
    AtMost n (invalid_key env >>= f) := Yields.ask_bind fun go => h go

theorem attempt {f : Option Text → Dialogue Event α} (h : ∀ error, AtMost n (f error)) :
    AtMost (n + 1) (attemptConnection env config >>= f) := by
  refine Yields.ask_bind fun error => ?_
  refine Yields.mono (h error) fun _ added hadded => ?_
  rw [← List.singleton_append, attempts_append, Nat.add_comm]
  exact Nat.add_le_add_right hadded 1

theorem ite {c : Prop} [Decidable c] {m m' : Dialogue Event α} (h : AtMost n m)
    (h' : AtMost n m') : AtMost n (if c then m else m') := by
  split
  · exact h
  · exact h'

end AtMost

theorem password_attempts (modifications : Patch) (attempts : ℕ) :
    AtMost attempts (promptForPassword env config modifications attempts) := by
  induction attempts with
  | zero => exact AtMost.pure none
  | succ attempts ih =>
    rw [promptForPassword]
    refine AtMost.input fun password => ?_
    apply AtMost.ite
    · apply AtMost.attempt
      intro error
      cases error with
      | none => exact AtMost.pure _
      | some error => exact AtMost.ite (AtMost.pure none) ih
    · exact AtMost.pure none

theorem passphrase_attempts (attempts : ℕ) :
    AtMost attempts (promptForPassphrase env config attempts) := by
  induction attempts with
  | zero => exact AtMost.pure none
  | succ attempts ih =>
    rw [promptForPassphrase]
    refine AtMost.input fun keyPassphrase => ?_
    apply AtMost.attempt
    intro error
    cases error with
    | none => exact AtMost.pure _
    | some error => exact AtMost.ite ih (AtMost.pure none)

theorem user_attempts : AtMost 1 (promptForUser env config) := by
  unfold promptForUser
  refine AtMost.input fun user => ?_
  apply AtMost.ite
  · apply AtMost.attempt
    exact fun error => AtMost.pure _
  · exact AtMost.pure none

/-- What needs no attempt of its own. -/
theorem AtMost.then_pure {β : Type} {n : ℕ} {m : Dialogue Event β} {f : β → Dialogue Event α}
    (hm : AtMost n m) (hf : ∀ b, AtMost 0 (f b)) : AtMost n (m >>= f) := AtMost.bind hm hf

/-- One attempt for each credential, and the three of a prompt. -/
theorem types_attempts (types : List AuthType) (modifications : Patch) :
    AtMost (types.length + 3) (validate_types env config askForPassword types modifications) := by
  induction types generalizing modifications with
  | nil => exact AtMost.pure none
  | cons type types ih =>
    have hpassword (changes : Patch) : AtMost 3 (do
        let password ← promptForPassword env (auth_config config modifications type)
          modifications 3
        return with_password changes password) :=
      (password_attempts modifications 3).then_pure fun _ => AtMost.pure _
    have hinvalid : AtMost (types.length + 3) (do
        let _ ← invalid_key env
        return (none : Option Patch)) := AtMost.invalid_key fun _ => AtMost.pure none
    rw [List.length_cons, Nat.add_right_comm]
    unfold validate_types
    apply AtMost.ite
    · exact (hpassword modifications).mono (by omega)
    · apply AtMost.attempt
      intro error
      cases error with
      | none => exact AtMost.pure _
      | some error =>
        apply AtMost.ite
        · -- another user
          refine (user_attempts.then_pure fun user => ?_).mono (by omega)
          cases user with
          | none => exact AtMost.pure none
          | some user => exact AtMost.pure _
        · apply AtMost.ite
          · refine ((passphrase_attempts 3).then_pure fun keyPassphrase => ?_).mono (by omega)
            cases keyPassphrase with
            | none => exact AtMost.invalid_key fun _ => AtMost.pure none
            | some keyPassphrase => exact AtMost.pure _
          · apply AtMost.ite
            · -- the next credential
              cases type with
              | agent => exact ih _
              | privateKey => exact AtMost.invalid_key fun _ => AtMost.ite (ih _) (AtMost.pure none)
              | password => exact AtMost.ite ((hpassword modifications).mono (by omega)) (ih _)
            · exact AtMost.ite hinvalid (AtMost.pure none)

theorem length_auth_types : (auth_types env config askForPassword).length ≤ 3 := by
  unfold auth_types
  simp only [List.length_append]
  split_ifs <;> simp

theorem validate_attempts : AtMost 6 (validateConfig env config askForPassword) := by
  unfold validateConfig ask_user
  have htypes (modifications : Patch) : AtMost 6 (validate_types env config askForPassword
      (auth_types env config askForPassword) modifications) :=
    (types_attempts _ modifications).mono (Nat.add_le_add_right length_auth_types 3)
  by_cases hgiven : given config.user = true
  · rw [if_pos hgiven]
    exact htypes {}
  · rw [if_neg hgiven]
    exact AtMost.input fun user => htypes { user := some user }

/-- Whatever the user and the remote side do. -/
theorem working_credentials (env : Environment) (config : ISshConfigExt) (askForPassword : Bool) :
    WorkingCredentials env config askForPassword := by
  refine ⟨?_, ?_⟩
  · obtain ⟨added, hlog, hadded⟩ := @validate_attempts env config askForPassword []
    rw [hlog]
    exact hadded
  · intro changes hchanges
    obtain ⟨added, hlog, hfound⟩ := @validateConfig_changes env config askForPassword []
    rw [hchanges] at hfound
    obtain ⟨-, haccepted⟩ := hfound
    have hattempted : Attempted (validateConfig env config askForPassword []).2
        (target env.SSH_AUTH_SOCK (config.spread changes)) := by
      rw [attempted_iff, hlog, List.nil_append, haccepted]
      exact List.mem_singleton.mpr rfl
    obtain ⟨connection, hmem, htarget⟩ := hattempted
    exact ⟨connection, hmem, congrArg Target.user htarget.symm,
      congrArg Target.credential htarget.symm⟩

end Zowex.sdk.ConfigManager

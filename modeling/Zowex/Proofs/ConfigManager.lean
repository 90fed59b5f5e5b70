import Zowex.Spec.ConfigManager

/-! Which validation a new profile has been through: what the attempts of `validateConfig` connect
with, and when the profile that is stored leads there. -/

namespace Zowex.sdk.ConfigManager

open Dialogues Shell

theorem given_none : given none = false := rfl

section

variable (sock : Option Text)

/-- What a connection with the configuration proves itself with. -/
def credential (config : ISshConfigExt) : Credential :=
  if given (resolved_agent sock config.identityAgent) then
    .agent (resolved_agent sock config.identityAgent)
  else if given config.privateKey then .privateKey config.privateKey config.keyPassphrase
  else if given config.password then .password config.password
  else .none

def target (config : ISshConfigExt) : Target := (buildSshConfig sock config.session).target

theorem target_eq (config : ISshConfigExt) : target sock config =
    ⟨config.hostname, effective_port config.port, config.user, credential sock config⟩ := by
  unfold target buildSshConfig ConnectConfig.target credential
  cases ha : given (resolved_agent sock config.identityAgent) <;>
    cases hk : given config.privateKey <;>
    simp [ISshConfigExt.session, ha, hk, given_none]

theorem effective_port_some {port : ℤ} (h : port ≠ 0) : effective_port (some port) = port := by
  simp [effective_port, Option.filter, h]

theorem effective_port_ne_zero (port : Option ℤ) : effective_port port ≠ 0 := by
  cases port with
  | none => decide
  | some n =>
    by_cases hn : n = 0
    · subst hn
      decide
    · rwa [effective_port_some hn]

theorem effective_port_stored (port : Option ℤ) :
    effective_port (some (effective_port port)) = effective_port port :=
  effective_port_some (effective_port_ne_zero port)

/-- A stored profile leads to what its configuration does. -/
theorem leads_to_stored (config : ISshConfigExt) :
    leads_to sock (stored_profile config) = target sock config := by
  rw [target_eq]
  unfold leads_to buildSshConfig ConnectConfig.target credential
  cases ha : given (resolved_agent sock config.identityAgent) <;>
    cases hk : given config.privateKey <;>
    simp [buildSession, stored_profile, effective_port_stored, ha, hk, given_none]

theorem resolved_agent_none : given (resolved_agent sock none) = false := by
  simp [resolved_agent, given]

variable {sock}

theorem credential_agent {config : ISshConfigExt}
    (ha : given (resolved_agent sock config.identityAgent) = true) :
    credential sock config = .agent (resolved_agent sock config.identityAgent) := by
  simp [credential, ha]

theorem credential_key {config : ISshConfigExt}
    (ha : given (resolved_agent sock config.identityAgent) = false)
    (hk : given config.privateKey = true) :
    credential sock config = .privateKey config.privateKey config.keyPassphrase := by
  simp [credential, ha, hk]

theorem credential_password {config : ISshConfigExt}
    (ha : given (resolved_agent sock config.identityAgent) = false)
    (hk : given config.privateKey = false) (hp : given config.password = true) :
    credential sock config = .password config.password := by
  simp [credential, ha, hk, hp]

end

/-! The attempts that succeed. -/

def Event.accepted : Event → Option Target
  | .attempt connection none => some connection.target
  | _ => none

def accepted (log : List Event) : List Target := log.filterMap Event.accepted

theorem attempted_iff (log : List Event) (target : Target) :
    Attempted log target ↔ target ∈ accepted log := by
  unfold Attempted accepted
  rw [List.mem_filterMap]
  constructor
  · rintro ⟨connection, hmem, rfl⟩
    exact ⟨_, hmem, rfl⟩
  · rintro ⟨event, hmem, hevent⟩
    cases event with
    | attempt connection error =>
      cases error with
      | none => exact ⟨connection, hmem, by simpa [Event.accepted] using hevent⟩
      | some error => simp [Event.accepted] at hevent
    | input answer => simp [Event.accepted] at hevent
    | menu choice => simp [Event.accepted] at hevent
    | invalid_key should_continue => simp [Event.accepted] at hevent

theorem accepted_append (log log' : List Event) :
    accepted (log ++ log') = accepted log ++ accepted log' := List.filterMap_append

variable {env : Environment} {α β : Type}

/-- What a dialogue ends with, and where its attempts have succeeded. -/
def Ends (m : Dialogue Event α) (Q : α → List Target → Prop) : Prop :=
  Yields m fun a added => Q a (accepted added)

namespace Ends

variable {Q : α → List Target → Prop}

theorem pure {a : α} (h : Q a []) : Ends (Pure.pure a) Q := Yields.pure a h

theorem bind {m : Dialogue Event β} {P : β → List Target → Prop} {f : β → Dialogue Event α}
    (hm : Ends m P) (hf : ∀ b found, P b found → Ends (f b) fun a more => Q a (found ++ more)) :
    Ends (m >>= f) Q := by
  refine Yields.bind hm fun b added hP => ?_
  refine (hf b _ hP).mono fun a more hQ => ?_
  rw [accepted_append]
  exact hQ

theorem input {f : Option Text → Dialogue Event α} (h : ∀ answer, Ends (f answer) Q) :
    Ends (input_box env >>= f) Q := Yields.ask_bind fun answer => h answer

theorem menu {f : Option Text → Dialogue Event α} (h : ∀ choice, Ends (f choice) Q) :
    Ends (menu env >>= f) Q := Yields.ask_bind fun choice => h choice

theorem custom_menu {f : Option QpItem → Dialogue Event α} (h : ∀ item, Ends (f item) Q) :
    Ends (custom_menu env >>= f) Q := Yields.ask_bind fun item => h item

theorem invalid_key {f : Bool → Dialogue Event α} (h : ∀ go, Ends (f go) Q) :
    Ends (invalid_key env >>= f) Q := Yields.ask_bind fun go => h go

theorem attempt {config : ISshConfigExt} {f : Option Text → Dialogue Event α}
    (hnone : Ends (f none) fun a more => Q a (target env.SSH_AUTH_SOCK config :: more))
    (hsome : ∀ error, Ends (f (some error)) Q) : Ends (attemptConnection env config >>= f) Q := by
  refine Yields.ask_bind fun error => ?_
  cases error with
  | none => exact hnone
  | some error => exact hsome error

theorem ite {c : Prop} [Decidable c] {m m' : Dialogue Event α} (h : c → Ends m Q)
    (h' : ¬c → Ends m' Q) : Ends (if c then m else m') Q := by
  by_cases hc : c
  · rw [if_pos hc]
    exact h hc
  · rw [if_neg hc]
    exact h' hc

end Ends

/-- A result, and the one attempt that it comes from. -/
def Found (ok : β → Prop) (at_target : β → Target) : Option β → List Target → Prop
  | none, found => found = []
  | some b, found => ok b ∧ found = [at_target b]

theorem Ends.found {ok : β → Prop} {at_target : β → Target} {m : Dialogue Event (Option β)}
    {f : Option β → Dialogue Event α} {Q : α → List Target → Prop}
    (hm : Ends m (Found ok at_target)) (hnone : Ends (f none) Q)
    (hsome : ∀ b, ok b → Ends (f (some b)) fun a more => Q a (at_target b :: more)) :
    Ends (m >>= f) Q := by
  refine Ends.bind hm fun b found hfound => ?_
  cases b with
  | none =>
    obtain rfl : found = [] := hfound
    exact hnone
  | some b =>
    obtain ⟨hok, rfl⟩ := hfound
    exact hsome b hok

theorem target_congr {sock : Option Text} {config config' : ISshConfigExt}
    (hhost : config.hostname = config'.hostname)
    (hport : effective_port config.port = effective_port config'.port)
    (huser : config.user = config'.user)
    (hcredential : credential sock config = credential sock config') :
    target sock config = target sock config' := by
  rw [target_eq, target_eq, hhost, hport, huser, hcredential]

/-! The prompts. -/

section

variable (config : ISshConfigExt) (modifications : Patch)

/-- What a password is tried with. -/
def password_config (password : Option Text) : ISshConfigExt :=
  { config.spread modifications with
    password := password, identityAgent := none, privateKey := none, keyPassphrase := none }

theorem password_prompt (attempts : ℕ) :
    Ends (promptForPassword env config modifications attempts)
      (Found (fun password => given password = true) fun password =>
        target env.SSH_AUTH_SOCK (password_config config modifications password)) := by
  induction attempts with
  | zero => exact Ends.pure rfl
  | succ attempts ih =>
    rw [promptForPassword]
    refine Ends.input fun password => ?_
    apply Ends.ite
    · intro hpassword
      apply Ends.attempt
      · exact Ends.pure ⟨hpassword, rfl⟩
      · exact fun error => Ends.ite (fun _ => Ends.pure rfl) fun _ => ih
    · exact fun _ => Ends.pure rfl

theorem passphrase_prompt (attempts : ℕ) :
    Ends (promptForPassphrase env config attempts)
      (Found (fun _ => True) fun keyPassphrase =>
        target env.SSH_AUTH_SOCK { config with keyPassphrase := keyPassphrase }) := by
  induction attempts with
  | zero => exact Ends.pure rfl
  | succ attempts ih =>
    rw [promptForPassphrase]
    refine Ends.input fun keyPassphrase => ?_
    apply Ends.attempt
    · exact Ends.pure ⟨trivial, rfl⟩
    · exact fun error => Ends.ite (fun _ => ih) fun _ => Ends.pure rfl

theorem user_prompt : Ends (promptForUser env config)
    (Found (fun _ => True) fun user => target env.SSH_AUTH_SOCK { config with user := user }) := by
  unfold promptForUser
  refine Ends.input fun user => ?_
  apply Ends.ite
  · intro _
    apply Ends.attempt
    · exact Ends.pure ⟨trivial, rfl⟩
    · exact fun error => Ends.pure rfl
  · exact fun _ => Ends.pure rfl

end

/-! `validateConfig`. -/

/-- What is known of the changes that a validation asks for. -/
structure Kept (config : ISshConfigExt) (askForPassword : Bool) (changes : Patch) : Prop where
  agent : changes.identityAgent = none ∨ changes.identityAgent = some none
  key : changes.privateKey = none ∨ changes.privateKey = some none ∨
    changes.privateKey = some config.privateKey
  password : askForPassword = false → given config.password = false →
    changes.password = none ∧ changes.privateKey ≠ some none

/-- The changes, and the attempt that they come from. -/
def Changes (sock : Option Text) (config : ISshConfigExt) (askForPassword : Bool) :
    Option Patch → List Target → Prop :=
  Found (Kept config askForPassword) fun changes => target sock (config.spread changes)

section

variable {config : ISshConfigExt} {askForPassword : Bool} {modifications : Patch}

theorem Kept.set_user (h : Kept config askForPassword modifications) (user : Option (Option Text)) :
    Kept config askForPassword { modifications with user := user } := ⟨h.agent, h.key, h.password⟩

/-- An attempt succeeds at once. -/
theorem first_attempt {type : AuthType} (h : Kept config askForPassword modifications)
    (hcredential : credential env.SSH_AUTH_SOCK (auth_config config modifications type) =
      credential env.SSH_AUTH_SOCK (config.spread modifications)) :
    Changes env.SSH_AUTH_SOCK config askForPassword (some modifications)
      [target env.SSH_AUTH_SOCK (auth_config config modifications type)] :=
  ⟨h, congrArg (fun t => [t]) (target_congr rfl rfl rfl hcredential)⟩

/-- An attempt succeeds with another user. -/
theorem user_retry {type : AuthType} (h : Kept config askForPassword modifications)
    (hcredential : credential env.SSH_AUTH_SOCK (auth_config config modifications type) =
      credential env.SSH_AUTH_SOCK (config.spread modifications)) (user : Option Text) :
    Changes env.SSH_AUTH_SOCK config askForPassword (some { modifications with user := some user })
      [target env.SSH_AUTH_SOCK { auth_config config modifications type with user := user }] :=
  ⟨h.set_user _, congrArg (fun t => [t]) (target_congr rfl rfl rfl hcredential)⟩

/-- A password takes the place of an agent and a key that are gone. -/
theorem password_retry {type : AuthType} (h : Kept config askForPassword modifications)
    (hask : askForPassword = false → given config.password = true)
    (hagent : given (resolved_agent env.SSH_AUTH_SOCK (config.spread modifications).identityAgent) =
      false) (hkey : given (config.spread modifications).privateKey = false) :
    Ends (do
        let password ← promptForPassword env (auth_config config modifications type) modifications 3
        return with_password modifications password)
      (Changes env.SSH_AUTH_SOCK config askForPassword) := by
  refine Ends.found (password_prompt _ _ 3) (Ends.pure rfl) fun password hpassword => ?_
  refine Ends.pure ⟨⟨h.agent, h.key, fun hfalse hnone => ?_⟩, congrArg (fun t => [t]) ?_⟩
  · rw [hask hfalse] at hnone
    cases hnone
  · apply target_congr
    · rfl
    · rfl
    · cases huser : modifications.user <;>
        simp [password_config, auth_config, ISshConfigExt.spread, huser]
    · have hafter : credential env.SSH_AUTH_SOCK
          (config.spread { modifications with password := some password }) = .password password :=
        credential_password hagent hkey hpassword
      rw [hafter]
      exact credential_password (resolved_agent_none _) given_none hpassword

theorem password_stage
    (h : (given config.password || askForPassword) = true →
      Kept config askForPassword modifications)
    (hagent : given (resolved_agent env.SSH_AUTH_SOCK (config.spread modifications).identityAgent) =
      false) (hkey : given (config.spread modifications).privateKey = false)
    (hpassword : modifications.password = none) :
    Ends (validate_types env config askForPassword
        (if given config.password || askForPassword then [.password] else []) modifications)
      (Changes env.SSH_AUTH_SOCK config askForPassword) := by
  by_cases htypes : (given config.password || askForPassword) = true
  · have h := h htypes
    rw [if_pos htypes, validate_types]
    have hask (hfalse : askForPassword = false) : given config.password = true := by
      simpa [hfalse] using htypes
    apply Ends.ite
    · exact fun _ => password_retry h hask hagent hkey
    · intro hgiven
      have hgiven : given config.password = true := by simpa [auth_config] using hgiven
      have hcredential : credential env.SSH_AUTH_SOCK (auth_config config modifications .password) =
          credential env.SSH_AUTH_SOCK (config.spread modifications) := by
        have hsame : (config.spread modifications).password = config.password := by
          simp [ISshConfigExt.spread, hpassword]
        rw [credential_password hagent hkey (hsame ▸ hgiven), hsame]
        exact credential_password (resolved_agent_none _) given_none hgiven
      apply Ends.attempt
      · exact Ends.pure (first_attempt h hcredential)
      · intro error
        apply Ends.ite
        · intro _
          exact Ends.found (user_prompt _) (Ends.pure rfl) fun user _ =>
            Ends.pure (user_retry h hcredential user)
        · intro _
          apply Ends.ite
          · intro hfalse
            simp at hfalse
          · intro _
            apply Ends.ite
            · intro _
              apply Ends.ite
              · exact fun _ => password_retry h hask hagent hkey
              · exact fun _ => Ends.pure rfl
            · intro _
              apply Ends.ite
              · intro hfalse
                simp at hfalse
              · exact fun _ => Ends.pure rfl
  · rw [if_neg htypes]
    exact Ends.pure rfl

/-- A passphrase for the key is kept with it. -/
theorem passphrase_retry (h : Kept config askForPassword modifications)
    (hagent : given (resolved_agent env.SSH_AUTH_SOCK (config.spread modifications).identityAgent) =
      false) (hkey : given config.privateKey = true) (hpassword : modifications.password = none)
    (keyPassphrase : Option Text) :
    Changes env.SSH_AUTH_SOCK config askForPassword
      (some { modifications with
        privateKey := some config.privateKey, keyPassphrase := some keyPassphrase })
      [target env.SSH_AUTH_SOCK
        { auth_config config modifications .privateKey with keyPassphrase := keyPassphrase }] := by
  refine ⟨⟨h.agent, .inr (.inr rfl), fun _ _ => ⟨hpassword, fun hnone => ?_⟩⟩,
    congrArg (fun t => [t]) (target_congr rfl rfl rfl ?_)⟩
  · rw [Option.some.inj hnone] at hkey
    cases hkey
  · have hafter : credential env.SSH_AUTH_SOCK (config.spread { modifications with
        privateKey := some config.privateKey, keyPassphrase := some keyPassphrase }) =
        .privateKey config.privateKey keyPassphrase := credential_key hagent hkey
    rw [hafter]
    exact credential_key (resolved_agent_none _) hkey

theorem key_stage (h : Kept config askForPassword modifications)
    (hagent : given (resolved_agent env.SSH_AUTH_SOCK (config.spread modifications).identityAgent) =
      false) (hkey : modifications.privateKey = none) (hpass : modifications.keyPassphrase = none)
    (hpassword : modifications.password = none) :
    Ends (validate_types env config askForPassword
        ((if given config.privateKey then [.privateKey] else []) ++
          (if given config.password || askForPassword then [.password] else [])) modifications)
      (Changes env.SSH_AUTH_SOCK config askForPassword) := by
  by_cases hgiven : given config.privateKey = true
  · rw [if_pos hgiven, List.singleton_append, validate_types]
    have hcredential : credential env.SSH_AUTH_SOCK (auth_config config modifications .privateKey) =
        credential env.SSH_AUTH_SOCK (config.spread modifications) := by
      have hsame : (config.spread modifications).privateKey = config.privateKey := by
        simp [ISshConfigExt.spread, hkey]
      rw [credential_key hagent (hsame ▸ hgiven), hsame]
      have hbefore : credential env.SSH_AUTH_SOCK (auth_config config modifications .privateKey) =
          .privateKey config.privateKey config.keyPassphrase :=
        credential_key (resolved_agent_none _) hgiven
      simpa [ISshConfigExt.spread, hpass] using hbefore
    apply Ends.ite
    · intro hfalse
      simp at hfalse
    · intro _
      apply Ends.attempt
      · exact Ends.pure (first_attempt h hcredential)
      · intro error
        apply Ends.ite
        · intro _
          exact Ends.found (user_prompt _) (Ends.pure rfl) fun user _ =>
            Ends.pure (user_retry h hcredential user)
        · intro _
          apply Ends.ite
          · intro _
            refine Ends.found (passphrase_prompt _ 3) ?_ fun keyPassphrase _ =>
              Ends.pure (passphrase_retry h hagent hgiven hpassword keyPassphrase)
            exact Ends.invalid_key fun _ => Ends.pure rfl
          · intro _
            apply Ends.ite
            · intro _
              refine Ends.invalid_key fun go => ?_
              apply Ends.ite
              · intro _
                refine password_stage (fun htypes => ?_) hagent given_none hpassword
                refine ⟨h.agent, .inr (.inl rfl), fun hask hnone => ?_⟩
                simp [hask, hnone] at htypes
              · exact fun _ => Ends.pure rfl
            · intro _
              apply Ends.ite
              · exact fun _ => Ends.invalid_key fun _ => Ends.pure rfl
              · exact fun _ => Ends.pure rfl
  · rw [if_neg hgiven, List.nil_append]
    have hgiven : given config.privateKey = false := by simpa using hgiven
    refine password_stage (fun _ => h) hagent ?_ hpassword
    simpa [ISshConfigExt.spread, hkey] using hgiven

theorem agent_stage (user : Option (Option Text)) :
    Ends (validate_types env config askForPassword (auth_types env config askForPassword)
      { user := user }) (Changes env.SSH_AUTH_SOCK config askForPassword) := by
  have h : Kept config askForPassword { user := user } :=
    ⟨.inl rfl, .inl rfl, fun _ _ => ⟨rfl, by simp⟩⟩
  unfold auth_types
  by_cases hgiven : given (resolved_agent env.SSH_AUTH_SOCK config.identityAgent) = true
  · rw [if_pos hgiven, List.append_assoc, List.singleton_append, validate_types]
    have hcredential : credential env.SSH_AUTH_SOCK (auth_config config { user := user } .agent) =
        credential env.SSH_AUTH_SOCK (config.spread { user := user }) := by
      have hafter : credential env.SSH_AUTH_SOCK (config.spread { user := user }) =
          .agent (resolved_agent env.SSH_AUTH_SOCK config.identityAgent) := credential_agent hgiven
      rw [hafter]
      exact credential_agent hgiven
    apply Ends.ite
    · intro hfalse
      simp at hfalse
    · intro _
      apply Ends.attempt
      · exact Ends.pure (first_attempt h hcredential)
      · intro error
        apply Ends.ite
        · intro _
          exact Ends.found (user_prompt _) (Ends.pure rfl) fun user _ =>
            Ends.pure (user_retry h hcredential user)
        · intro _
          apply Ends.ite
          · intro hfalse
            simp at hfalse
          · intro _
            apply Ends.ite
            · exact fun _ => key_stage ⟨.inr rfl, .inl rfl, h.password⟩ (resolved_agent_none _) rfl
                rfl rfl
            · intro _
              apply Ends.ite
              · intro hfalse
                simp at hfalse
              · exact fun _ => Ends.pure rfl
  · rw [if_neg hgiven, List.nil_append]
    refine key_stage h ?_ rfl rfl rfl
    simpa [ISshConfigExt.spread] using hgiven

theorem validateConfig_changes (config : ISshConfigExt) (askForPassword : Bool) :
    Ends (validateConfig env config askForPassword)
      (Changes env.SSH_AUTH_SOCK config askForPassword) := by
  unfold validateConfig ask_user
  have hmods (user : Option (Option Text)) : Ends (validate_types env config askForPassword
      (auth_types env config askForPassword) { user := user })
      (Changes env.SSH_AUTH_SOCK config askForPassword) := agent_stage user
  by_cases hgiven : given config.user = true
  · rw [if_pos hgiven]
    exact hmods none
  · rw [if_neg hgiven]
    exact Ends.input fun user => hmods (some user)

end

/-! The validations of a new host. -/

theorem credential_congr {sock : Option Text} {config config' : ISshConfigExt}
    (hagent : config.identityAgent = config'.identityAgent)
    (hkey : config.privateKey = config'.privateKey)
    (hpass : config.keyPassphrase = config'.keyPassphrase)
    (hpassword : config.password = config'.password) :
    credential sock config = credential sock config' := by
  unfold credential
  rw [hagent, hkey, hpass, hpassword]

/-- Without an agent and a key, a password is what is left. -/
theorem credential_no_key {sock : Option Text} {config config' : ISshConfigExt}
    (hagent : config.identityAgent = none) (hkey : config.privateKey = none)
    (hagent' : config'.identityAgent = none) (hkey' : config'.privateKey = none)
    (hpassword : config.password = config'.password) :
    credential sock config = credential sock config' := by
  unfold credential
  rw [hagent, hkey, hagent', hkey', hpassword, resolved_agent_none, given_none]
  rfl

namespace Validated

/-- Where the attempt led that has succeeded. -/
def reached (sock : Option Text) (config : ISshConfigExt) : Validated → Target
  | .migrated attempt changes => target sock ((without_agent attempt).spread changes)
  | validated => target sock (validated.profile config)

/-- What is known of a section that was tried. -/
def known (config : ISshConfigExt) : Validated → Prop
  | .migrated attempt changes => attempt.hostname = config.hostname ∧ attempt.password = none ∧
      given attempt.privateKey = true ∧ Kept (without_agent attempt) false changes
  | _ => True

end Validated

/-- A validation, and the one attempt that succeeded in it. -/
def Tested (sock : Option Text) (config : ISshConfigExt) :
    Option Validated → List Target → Prop :=
  Found (Validated.known config) (Validated.reached sock config)

section

variable {m : Manager} {config : ISshConfigExt}

theorem configured_tested :
    Ends (validate_configured m config) (Tested m.env.SSH_AUTH_SOCK config) := by
  unfold validate_configured
  apply Ends.ite
  · intro _
    exact Ends.found (validateConfig_changes config false) (Ends.pure rfl) fun changes _ =>
      Ends.pure ⟨trivial, rfl⟩
  · exact fun _ => Ends.pure rfl

theorem found_key_reached {key : Text} {changes : Patch} (hpassword : config.password = none)
    (h : Kept (with_found_key config key) false changes) :
    target m.env.SSH_AUTH_SOCK ((with_found_key config key).spread changes) =
      target m.env.SSH_AUTH_SOCK ((Validated.found_key key changes).profile config) := by
  have hgiven : given (with_found_key config key).password = false := by
    simp [with_found_key, hpassword, given_none]
  have hkey : changes.privateKey.getD (some key) = some key := by
    rcases h.key with hkey | hkey | hkey
    · rw [hkey]
      rfl
    · exact absurd hkey (h.password rfl hgiven).2
    · rw [hkey]
      rfl
  exact target_congr rfl rfl rfl (credential_congr rfl hkey rfl rfl)

theorem found_keys_tested (hpassword : config.password = none) (keys : List Text) :
    Ends (validate_found_keys m config keys) (Tested m.env.SSH_AUTH_SOCK config) := by
  induction keys with
  | nil => exact Ends.pure rfl
  | cons key keys ih =>
    rw [validate_found_keys]
    exact Ends.found (validateConfig_changes _ false) ih fun changes hkept =>
      Ends.pure ⟨trivial, congrArg (fun t => [t]) (found_key_reached hpassword hkept)⟩

theorem migrated_tested (attempts : List ISshConfigExt)
    (h : ∀ attempt ∈ attempts, attempt.hostname = config.hostname ∧ attempt.password = none) :
    Ends (validate_migrated m attempts) (Tested m.env.SSH_AUTH_SOCK config) := by
  induction attempts with
  | nil => exact Ends.pure rfl
  | cons attempt attempts ih =>
    have ih := ih fun a ha => h a (List.mem_cons_of_mem _ ha)
    obtain ⟨hhost, hpassword⟩ := h attempt List.mem_cons_self
    rw [validate_migrated]
    apply Ends.ite
    · intro hgiven
      exact Ends.found (validateConfig_changes _ false) ih fun changes hkept =>
        Ends.pure ⟨⟨hhost, hpassword, hgiven, hkept⟩, rfl⟩
    · exact fun _ => ih

theorem password_reached {changes : Patch} (h : Kept (without_keys config) true changes) :
    target m.env.SSH_AUTH_SOCK ((without_keys config).spread changes) =
      target m.env.SSH_AUTH_SOCK ((Validated.password changes).profile config) := by
  refine target_congr rfl rfl rfl (credential_no_key ?_ ?_ rfl rfl rfl)
  · rcases h.agent with hagent | hagent <;> simp [ISshConfigExt.spread, without_keys, hagent]
  · rcases h.key with hkey | hkey | hkey <;> simp [ISshConfigExt.spread, without_keys, hkey]

theorem password_tested :
    Ends (validate_password m config) (Tested m.env.SSH_AUTH_SOCK config) := by
  unfold validate_password
  exact Ends.found (validateConfig_changes _ true) (Ends.pure rfl) fun changes hkept =>
    Ends.pure ⟨trivial, congrArg (fun t => [t]) (password_reached hkept)⟩

theorem set_directive_password (path_of : Text → Text) (session : ISshConfigExt)
    (directive : Text × Text) :
    (set_directive path_of session directive).password = session.password := by
  unfold set_directive
  dsimp only
  split_ifs <;> rfl

theorem migrated_password {path_of : Text → Text} {sections : List Section}
    (h : config ∈ migrateSshConfig path_of sections) : config.password = none := by
  obtain ⟨part, -, rfl⟩ := List.mem_map.mp h
  generalize part.directives = directives
  have hstart : ({ name := some part.name } : ISshConfigExt).password = none := rfl
  generalize ({ name := some part.name } : ISshConfigExt) = session at hstart
  induction directives generalizing session with
  | nil => exact hstart
  | cons directive directives ih =>
    exact ih _ ((set_directive_password path_of session directive).trans hstart)

theorem validation_attempts_spec {attempt : ISshConfigExt}
    (h : attempt ∈ validation_attempts m config) :
    attempt.hostname = config.hostname ∧ attempt.password = none := by
  have hmem : attempt ∈ (migratedConfigs m).filter (·.hostname = config.hostname) := by
    unfold validation_attempts at h
    dsimp only at h
    split_ifs at h
    · exact List.mem_of_mem_filter h
    · exact List.mem_of_mem_filter h
  exact ⟨by simpa using List.of_mem_filter hmem, migrated_password (List.mem_of_mem_filter hmem)⟩

theorem validate_tested (hpassword : config.password = none) :
    Ends (validate m config) (Tested m.env.SSH_AUTH_SOCK config) := by
  unfold validate
  refine Ends.found configured_tested ?_ fun validated h => Ends.pure ⟨h, rfl⟩
  refine Ends.found (found_keys_tested hpassword _) ?_ fun validated h => Ends.pure ⟨h, rfl⟩
  refine Ends.found (migrated_tested _ fun _ => validation_attempts_spec) ?_
    fun validated h => Ends.pure ⟨h, rfl⟩
  exact password_tested

/-! The choice of a host. -/

theorem flag_property_password {flag value : Text} {config' : ISshConfigExt}
    (h : flag_property config flag value = some config') : config'.password = config.password := by
  unfold flag_property at h
  split_ifs at h
  · obtain ⟨port, -, rfl⟩ := Option.map_eq_some_iff.mp h
    rfl
  · rw [← Option.some.inj h]
  · rw [← Option.some.inj h]

theorem set_flag_password {flag : Text × Option Text} {config' : ISshConfigExt}
    (h : set_flag config flag = some config') : config'.password = config.password := by
  obtain ⟨value, -, h⟩ := Option.bind_eq_some_iff.mp h
  obtain ⟨changed, hchanged, h⟩ := Option.bind_eq_some_iff.mp h
  split_ifs at h
  rw [← Option.some.inj h, flag_property_password hchanged]

theorem set_flags_password {flags : List (Text × Option Text)} {config' : ISshConfigExt}
    (h : flags.foldlM set_flag config = some config') : config'.password = config.password := by
  induction flags generalizing config with
  | nil => rw [Option.some.inj h]
  | cons flag flags ih =>
    obtain ⟨changed, hchanged, h⟩ := Option.bind_eq_some_iff.mp h
    rw [ih h, set_flag_password hchanged]

theorem new_profile_password {known : Option Text} {response : Text}
    (h : new_profile m known response = some config) : config.password = none := by
  obtain ⟨found, -, h⟩ := Option.bind_eq_some_iff.mp h
  split_ifs at h
  · rw [← Option.some.inj h]
  · rw [set_flags_password h]

/-- For a new host no attempt has been made so far, and it has no password; else none is stored. -/
def Untried : Choice → List Target → Prop
  | .done result, _ => ∀ profile, result ≠ .created profile
  | .new config, found => found = [] ∧ config.password = none

def Selected : Selection → List Target → Prop
  | .host config, found => found = [] ∧ config.password = none
  | _, found => found = []

theorem createNewProfile_spec (known : Option Text) : Ends (createNewProfile m known)
    fun config found => found = [] ∧ ∀ c, config = some c → c.password = none := by
  unfold createNewProfile ssh_response
  have hresponse (response : Option Text) : Ends (pure (response.bind (new_profile m known)))
      fun config found => found = [] ∧ ∀ c, config = some c → c.password = none := by
    refine Ends.pure ⟨rfl, fun c hc => ?_⟩
    obtain ⟨response, rfl, hc⟩ := Option.bind_eq_some_iff.mp hc
    exact new_profile_password hc
  by_cases hknown : given known = true
  · rw [if_pos hknown]
    exact hresponse _
  · rw [if_neg hknown]
    exact Ends.input hresponse

theorem new_host_spec (known : Option Text) : Ends (do
      let config ← createNewProfile m known
      return (config.map Selection.host).getD .nothing) Selected := by
  refine Ends.bind (createNewProfile_spec known) fun config found hspec => ?_
  obtain ⟨rfl, hpassword⟩ := hspec
  cases config with
  | none => exact Ends.pure rfl
  | some config => exact Ends.pure ⟨rfl, hpassword config rfl⟩

theorem select_item_spec (item : Option QpItem) : Ends (select_item m item) Selected := by
  cases item with
  | none => exact Ends.pure rfl
  | some item =>
    unfold select_item
    refine Ends.ite (fun _ => new_host_spec _) fun _ => ?_
    refine Ends.ite (fun _ => new_host_spec _) fun _ => ?_
    cases hfind : (filteredMigratedConfigs m).find? fun config =>
        some item.label = config.name && item.description = config.hostname with
    | some config =>
      have hmem := List.mem_of_mem_filter (List.mem_of_find?_eq_some hfind)
      exact Ends.pure ⟨rfl, migrated_password hmem⟩
    | none =>
      cases m.sshProfiles.find? (·.1 = item.label) with
      | some profile => exact Ends.pure rfl
      | none => exact Ends.pure rfl

theorem select_host_spec (options : PromptForProfileOptions) :
    Ends (select_host m options) Selected := by
  unfold select_host
  apply Ends.ite
  · exact fun _ => Ends.menu fun label => select_item_spec _
  · exact fun _ => Ends.custom_menu select_item_spec

/-- A name changes nothing else, and takes no attempt. -/
def Named (config : ISshConfigExt) :
    Option (Option ISshConfigExt) → List Target → Prop :=
  fun named found => found = [] ∧ ∀ c, named = some (some c) → c.password = config.password

theorem name_accepted_spec (name : Text) :
    Ends (name_accepted m name) fun _ found => found = [] := by
  unfold name_accepted
  exact Ends.ite (fun _ => Ends.menu fun _ => Ends.pure rfl) fun _ => Ends.pure rfl

theorem ask_name_spec (times : ℕ) : Ends (ask_name m config times) (Named config) := by
  induction times with
  | zero => exact Ends.pure ⟨rfl, by simp⟩
  | succ times ih =>
    rw [ask_name]
    refine Ends.input fun name => ?_
    cases name.filter (· ≠ []) with
    | none => exact Ends.pure ⟨rfl, by simp⟩
    | some name =>
      refine Ends.bind (name_accepted_spec name) fun taken found hfound => ?_
      subst hfound
      apply Ends.ite
      · refine fun _ => Ends.pure ⟨rfl, fun c hc => ?_⟩
        rw [← Option.some.inj (Option.some.inj hc)]
      · exact fun _ => ih

theorem getNewProfileName_spec (times : ℕ) :
    Ends (getNewProfileName m times config) (Named config) := by
  unfold getNewProfileName
  apply Ends.ite
  · exact fun _ => ask_name_spec times
  · intro _
    refine Ends.bind (name_accepted_spec _) fun taken found hfound => ?_
    subst hfound
    apply Ends.ite
    · refine fun _ => Ends.pure ⟨rfl, fun c hc => ?_⟩
      rw [← Option.some.inj (Option.some.inj hc)]
    · exact fun _ => ask_name_spec times

theorem use_existing_ends (options : PromptForProfileOptions) (name : Text) (profile : IProfile) :
    Ends (use_existing m options name profile)
      fun result _ => ∀ profile, result ≠ .created profile := by
  unfold use_existing
  refine Ends.found (validateConfig_changes _ true) (Ends.pure (by simp)) fun changes _ => ?_
  exact Ends.ite (fun _ => Ends.pure (by simp)) fun _ => Ends.pure (by simp)

theorem choose_untried (times : ℕ) (options : PromptForProfileOptions)
    (profileName : Option Text) : Ends (choose m times options profileName) Untried := by
  have hdone {result : PromptResult} (h : ∀ profile, result ≠ .created profile) :
      Ends (pure (.done result)) Untried := Ends.pure h
  unfold choose
  apply Ends.ite
  · exact fun _ => hdone (by simp)
  · intro _
    refine Ends.bind (select_host_spec options) fun selection found hselected => ?_
    cases selection with
    | nothing => exact hdone (by simp)
    | threw => exact hdone (by simp)
    | existing name profile =>
      exact Ends.bind (use_existing_ends options name profile) fun _ _ h => hdone h
    | host config =>
      obtain ⟨rfl, hpassword⟩ := hselected
      refine Ends.bind (getNewProfileName_spec times) fun named found hnamed => ?_
      obtain ⟨rfl, hnamed⟩ := hnamed
      match named with
      | none => exact hdone (by simp)
      | some none => exact hdone (by simp)
      | some (some named) => exact Ends.pure ⟨rfl, (hnamed named rfl).trans hpassword⟩

/-! The profile that is stored. -/

/-- With the key of a section, the profile leads where the attempt did if the section has its port
and its user. -/
theorem migrated_reached_iff {attempt : ISshConfigExt} {changes : Patch}
    (h : (Validated.migrated attempt changes).known config) :
    target m.env.SSH_AUTH_SOCK ((Validated.migrated attempt changes).profile config) =
        (Validated.migrated attempt changes).reached m.env.SSH_AUTH_SOCK config ↔
      Validated.agrees config (some (.migrated attempt changes)) := by
  obtain ⟨hhost, hpassword, -, hkept⟩ := h
  have hcredential : credential m.env.SSH_AUTH_SOCK
      ((Validated.migrated attempt changes).profile config) =
        credential m.env.SSH_AUTH_SOCK ((without_agent attempt).spread changes) := by
    apply credential_congr
    · rfl
    · rfl
    · rfl
    · have hnone : (without_agent attempt).password = none := hpassword
      simp [Validated.profile, ISshConfigExt.spread, hnone]
  have huser : changes.user.getD config.user = changes.user.getD attempt.user ↔
      (changes.user = none → attempt.user = config.user) := by
    cases changes.user with
    | none => simp [eq_comm]
    | some user => simp
  have hagrees : Validated.agrees config (some (.migrated attempt changes)) ↔
      effective_port attempt.port = effective_port config.port ∧
        (changes.user = none → attempt.user = config.user) := Iff.rfl
  rw [show (Validated.migrated attempt changes).reached m.env.SSH_AUTH_SOCK config =
      target m.env.SSH_AUTH_SOCK ((without_agent attempt).spread changes) from rfl, hagrees,
    target_eq, target_eq, hcredential, Target.mk.injEq, ← huser, eq_comm (a := effective_port _)]
  constructor
  · rintro ⟨-, hport, hsame, -⟩
    exact ⟨hport, hsame⟩
  · rintro ⟨hport, hsame⟩
    exact ⟨hhost.symm, hport, hsame, rfl⟩

/-- The profile leads where the attempt did. -/
theorem reached_iff {validated : Validated} (h : validated.known config) :
    target m.env.SSH_AUTH_SOCK (validated.profile config) =
        validated.reached m.env.SSH_AUTH_SOCK config ↔
      Validated.agrees config (some validated) := by
  cases validated with
  | migrated attempt changes => exact migrated_reached_iff h
  | configured changes => exact iff_of_true rfl trivial
  | found_key key changes => exact iff_of_true rfl trivial
  | password changes => exact iff_of_true rfl trivial

/-- A section that was tried has a key, and the profile gets one. -/
theorem migrated_has_credential {attempt : ISshConfigExt} {changes : Patch}
    (h : (Validated.migrated attempt changes).known config) :
    has_credential ((Validated.migrated attempt changes).profile config) = true := by
  obtain ⟨-, hpassword, hgiven, hkept⟩ := h
  have hkey : changes.privateKey.getD attempt.privateKey = attempt.privateKey := by
    rcases hkept.key with hkey | hkey | hkey
    · rw [hkey]
      rfl
    · refine absurd hkey (hkept.password rfl ?_).2
      simp [without_agent, hpassword, given_none]
    · rw [hkey]
      rfl
  simp [has_credential, Validated.profile, ISshConfigExt.spread, hkey, hgiven]

/-- The result of `create_profile` after its validations. -/
theorem create_profile_apply (log : List Event) : create_profile m config log =
    (if has_credential (validated_profile config (validate m config log).1) then
      PromptResult.created (validated_profile config (validate m config log).1) else .nothing,
      (validate m config log).2) := by
  unfold create_profile
  rw [bind_apply]
  split_ifs <;> rfl

theorem promptForProfile_apply (times : ℕ) (options : PromptForProfileOptions)
    (profileName : Option Text) {config : ISshConfigExt} {log : List Event}
    (h : choose m times options profileName [] = (.new config, log)) :
    promptForProfile m times options profileName [] = create_profile m config log := by
  unfold promptForProfile
  rw [bind_apply, h]

/-- A new host is stored as validated where the validations agree with it. -/
theorem create_profile_validated {log : List Event} (hlog : accepted log = [])
    (hpassword : config.password = none) :
    (∀ profile, (create_profile m config log).1 = .created profile →
      Attempted (create_profile m config log).2
        (leads_to m.env.SSH_AUTH_SOCK (stored_profile profile))) ↔
      Validated.agrees config (validate m config log).1 := by
  obtain ⟨added, hadded, htested⟩ := validate_tested (m := m) hpassword log
  rw [create_profile_apply]
  simp only [leads_to_stored, attempted_iff]
  rw [hadded, accepted_append, hlog, List.nil_append]
  cases hvalidated : (validate m config log).1 with
  | none =>
    rw [hvalidated] at htested
    have hnone : accepted added = [] := htested
    rw [hnone]
    show _ ↔ has_credential config = false
    by_cases hcredential : has_credential config = true
    · simp [validated_profile, hcredential]
    · simp [validated_profile, hcredential]
  | some validated =>
    rw [hvalidated] at htested
    obtain ⟨hknown, hfound⟩ := htested
    rw [hfound, ← reached_iff (m := m) hknown]
    simp only [validated_profile, List.mem_singleton]
    by_cases hcredential : has_credential (validated.profile config) = true
    · simp [hcredential]
    · cases validated with
      | migrated attempt changes => exact absurd (migrated_has_credential hknown) hcredential
      | configured changes => simp [hcredential, Validated.reached]
      | found_key key changes => simp [hcredential, Validated.reached]
      | password changes => simp [hcredential, Validated.reached]

theorem promptForProfile_done (times : ℕ) (options : PromptForProfileOptions)
    (profileName : Option Text) {result : PromptResult}
    (h : (choose m times options profileName []).1 = .done result) :
    (promptForProfile m times options profileName []).1 = result := by
  unfold promptForProfile
  rw [bind_apply, h]
  rfl

/-- Every profile that a run stores has been validated in it just where the validations of the new
host, if it comes to one, agree with it. -/
theorem stores_validated_iff (m : Manager) (times : ℕ) (options : PromptForProfileOptions)
    (profileName : Option Text) : StoresValidated m times options profileName ↔
      ∀ config log, choose m times options profileName [] = (.new config, log) →
        Validated.agrees config (validate m config log).1 := by
  obtain ⟨added, hadded, huntried⟩ := choose_untried (m := m) times options profileName []
  cases hchoice : (choose m times options profileName []).1 with
  | done result =>
    rw [hchoice] at huntried
    have hchoose : choose m times options profileName [] = (.done result, added) :=
      Prod.ext hchoice (by simpa using hadded)
    unfold StoresValidated
    rw [promptForProfile_done times options profileName hchoice, hchoose]
    exact iff_of_true (fun profile hcreated => absurd hcreated (huntried profile))
      fun config log hnew => by cases hnew
  | new config =>
    rw [hchoice] at huntried
    obtain ⟨haccepted, hpassword⟩ := huntried
    have hnew : choose m times options profileName [] = (.new config, added) :=
      Prod.ext hchoice (by simpa using hadded)
    unfold StoresValidated
    rw [promptForProfile_apply times options profileName hnew, hnew,
      create_profile_validated haccepted hpassword]
    simp

end

/-- A new host is typed in with a key, no attempt succeeds and no password is given. -/
def refused_host : Manager where
  env :=
    { SSH_AUTH_SOCK := none
      username := "me".toList
      found_keys := []
      profiles := []
      showInputBox := fun log =>
        if log.length = 1 then some "ssh ibmuser@zos.example -i id_old".toList else none
      showMenu := fun _ => none
      showCustomMenu := fun _ => some ⟨"$(plus) Add New SSH Host...".toList, none⟩
      connect := fun _ _ => .failed NOT_CONNECTED
      handleInvalidPrivateKey := fun _ => true }
  lastIndex := 0
  sshProfiles := []
  sections := []
  path_of := id

def refused_config : ISshConfigExt where
  name := some "zos_example".toList
  hostname := some "zos.example".toList
  user := some "ibmuser".toList
  privateKey := some "id_old".toList

/-- The profile is stored with the key that was refused. -/
theorem refused_key_stored : ¬ StoresValidated refused_host 1 ⟨true, false⟩ none := by
  intro h
  have hattempted := h refused_config (by decide +kernel)
  rw [attempted_iff] at hattempted
  have hnone : accepted (promptForProfile refused_host 1 ⟨true, false⟩ none []).2 = [] := by
    decide +kernel
  rw [hnone] at hattempted
  exact List.not_mem_nil hattempted

end Zowex.sdk.ConfigManager

import Zowex.Lib.Dialogues
import Zowex.Lib.Shell

/-! `promptForProfile` of `AbstractConfigManager.ts`: how a host is chosen, the validations it goes
through, and the profile that is stored for it. -/

namespace Zowex.sdk.ConfigManager

open Dialogues Shell

/-- A string that is neither undefined nor empty. -/
def given (text : Option Text) : Bool := text.any (· ≠ [])

/-- A port that is no number is none. -/
structure ISshConfigExt where
  name : Option Text := none
  hostname : Option Text := none
  port : Option ℤ := none
  user : Option Text := none
  privateKey : Option Text := none
  keyPassphrase : Option Text := none
  password : Option Text := none
  identityAgent : Option Text := none
  deriving DecidableEq

/-- The properties of an object of changes; one that is there may be undefined. -/
structure Patch where
  user : Option (Option Text) := none
  privateKey : Option (Option Text) := none
  keyPassphrase : Option (Option Text) := none
  password : Option (Option Text) := none
  identityAgent : Option (Option Text) := none
  deriving DecidableEq

/-- `{ ...config, ...patch }`. -/
def ISshConfigExt.spread (config : ISshConfigExt) (patch : Patch) : ISshConfigExt :=
  { config with
    user := patch.user.getD config.user
    privateKey := patch.privateKey.getD config.privateKey
    keyPassphrase := patch.keyPassphrase.getD config.keyPassphrase
    password := patch.password.getD config.password
    identityAgent := patch.identityAgent.getD config.identityAgent }

structure ISshSession where
  hostname : Option Text
  port : Option ℤ
  user : Option Text
  privateKey : Option Text
  keyPassphrase : Option Text
  password : Option Text
  identityAgent : Option Text

/-- The private key is the file it is read from. -/
structure ConnectConfig where
  host : Option Text
  port : Option ℤ
  username : Option Text
  password : Option Text
  privateKey : Option Text
  passphrase : Option Text
  agent : Option Text

/-- An SSH profile, with its properties. -/
structure IProfile where
  user : Option Text
  host : Option Text
  privateKey : Option Text
  port : Option ℤ
  keyPassphrase : Option Text
  password : Option Text
  identityAgent : Option Text
  deriving DecidableEq

def ISshConfigExt.session (config : ISshConfigExt) : ISshSession where
  hostname := config.hostname
  port := config.port
  user := config.user
  privateKey := config.privateKey
  keyPassphrase := config.keyPassphrase
  password := config.password
  identityAgent := config.identityAgent

def buildSession (args : IProfile) : ISshSession where
  hostname := args.host
  port := some (args.port.getD 22)
  user := args.user
  privateKey := args.privateKey
  keyPassphrase := if given args.privateKey then args.keyPassphrase else none
  password := if given args.privateKey then none else args.password
  identityAgent := args.identityAgent

/-- The agent of the environment variable, where that is meant. -/
def resolved_agent (SSH_AUTH_SOCK identityAgent : Option Text) : Option Text :=
  if identityAgent = some "SSH_AUTH_SOCK".toList then SSH_AUTH_SOCK else identityAgent

def buildSshConfig (SSH_AUTH_SOCK : Option Text) (session : ISshSession) : ConnectConfig :=
  let agent := resolved_agent SSH_AUTH_SOCK session.identityAgent
  { host := session.hostname
    port := session.port
    username := session.user
    password := if given agent then none else session.password
    privateKey := if !given agent && given session.privateKey then session.privateKey else none
    passphrase := if given agent then none else session.keyPassphrase
    agent := agent }

/-! What a connection is made with. -/

inductive Credential
  | agent (socket : Option Text)
  | privateKey (path passphrase : Option Text)
  | password (password : Option Text)
  | none
  deriving DecidableEq

structure Target where
  host : Option Text
  port : ℤ
  user : Option Text
  credential : Credential
  deriving DecidableEq

/-- No port, and port 0, is the port of SSH. -/
def effective_port (port : Option ℤ) : ℤ := (port.filter (· ≠ 0)).getD 22

/-- An agent goes before a private key, a private key before a password. -/
def ConnectConfig.target (connection : ConnectConfig) : Target where
  host := connection.host
  port := effective_port connection.port
  user := connection.username
  credential :=
    if given connection.agent then .agent connection.agent
    else if given connection.privateKey then
      .privateKey connection.privateKey connection.passphrase
    else if given connection.password then .password connection.password
    else .none

/-- The profile that `setProfile` stores. -/
def stored_profile (config : ISshConfigExt) : IProfile where
  user := config.user
  host := config.hostname
  privateKey := config.privateKey
  port := some (effective_port config.port)
  keyPassphrase := config.keyPassphrase
  password := config.password
  identityAgent := config.identityAgent

/-! What the user and the remote side do. -/

/-- An attempt ends before there is a connection, or with the error output of the command that is
run on it. -/
inductive Connecting
  | failed (error : Text)
  | connected (is_connected : Bool) (stderr : Text)

def NOT_CONNECTED : Text :=
  "Error: Failed to connect to SSH: All configured authentication methods failed".toList

/-- The error that `attemptConnection` throws, if any. -/
def Connecting.error : Connecting → Option Text
  | .failed error => some error
  | .connected false _ => some NOT_CONNECTED
  | .connected true stderr =>
    if "FOTS1668".toList <+: stderr then some ("Error: ".toList ++ stderr) else none

inductive Event
  | attempt (connection : ConnectConfig) (error : Option Text)
  | input (answer : Option Text)
  | menu (choice : Option Text)
  | invalid_key (should_continue : Bool)

/-- An item of a menu. -/
structure QpItem where
  label : Text
  description : Option Text

structure Environment where
  SSH_AUTH_SOCK : Option Text
  /-- The name of the local user. -/
  username : Text
  /-- The keys of `findPrivateKeys`. -/
  found_keys : List Text
  /-- The names of the profiles in the active layer. -/
  profiles : List Text
  showInputBox : List Event → Option Text
  showMenu : List Event → Option Text
  showCustomMenu : List Event → Option QpItem
  connect : List Event → ConnectConfig → Connecting
  handleInvalidPrivateKey : List Event → Bool

section

variable (env : Environment)

def input_box : Dialogue Event (Option Text) := ask env.showInputBox .input

def menu : Dialogue Event (Option Text) := ask env.showMenu .menu

def custom_menu : Dialogue Event (Option QpItem) :=
  ask env.showCustomMenu fun item => .menu (item.map (·.label))

def invalid_key : Dialogue Event Bool := ask env.handleInvalidPrivateKey .invalid_key

/-- The error of `attemptConnection`, if any. -/
def attemptConnection (config : ISshConfigExt) : Dialogue Event (Option Text) :=
  let connection := buildSshConfig env.SSH_AUTH_SOCK config.session
  ask (fun log => (env.connect log connection).error) (.attempt connection)

end

/-! The errors that are told apart. -/

def includes (text part : Text) : Bool := decide (part <:+: text)

def invalid_username (error : Text) : Bool := includes error "Invalid username".toList

def integrity_check_failed (error : Text) : Bool := includes error "integrity check failed".toList

def needs_passphrase (error : Text) : Bool :=
  includes error "but no passphrase given".toList || integrity_check_failed error

def methods_failed (error : Text) : Bool :=
  includes error "All configured authentication methods failed".toList

def timed_out (error : Text) : Bool :=
  includes error "Timed out while waiting for handshake".toList

def malformed_key (error : Text) : Bool :=
  includes error "Cannot parse privateKey: Malformed OpenSSH private key".toList

def password_expired (error : Text) : Bool := includes error "FOTS1668".toList

inductive AuthType
  | agent
  | privateKey
  | password
  deriving DecidableEq

section

variable (env : Environment)

/-- With as many attempts as are left. -/
def promptForPassword (config : ISshConfigExt) (modifications : Patch) :
    ℕ → Dialogue Event (Option (Option Text))
  | 0 => return none
  | attempts + 1 => do
    let password ← input_box env
    if given password then
      let error ← attemptConnection env
        { config.spread modifications with
          password := password, identityAgent := none, privateKey := none, keyPassphrase := none }
      match error with
      | none => return some password
      | some error =>
        if password_expired error then return none
        else promptForPassword config modifications attempts
    else return none

/-- The passphrase that an attempt succeeds with. -/
def promptForPassphrase (config : ISshConfigExt) : ℕ → Dialogue Event (Option (Option Text))
  | 0 => return none
  | attempts + 1 => do
    let keyPassphrase ← input_box env
    let error ← attemptConnection env { config with keyPassphrase := keyPassphrase }
    match error with
    | none => return some keyPassphrase
    | some error =>
      if integrity_check_failed error then promptForPassphrase config attempts else return none

/-- The other user that an attempt succeeds with. -/
def promptForUser (config : ISshConfigExt) : Dialogue Event (Option (Option Text)) := do
  let user ← input_box env
  if given user then
    let error ← attemptConnection env { config with user := user }
    return if error.isNone then some user else none
  else return none

def auth_config (config : ISshConfigExt) (modifications : Patch) (type : AuthType) :
    ISshConfigExt :=
  { config.spread modifications with
    identityAgent := if type = .agent then config.identityAgent else none
    privateKey := if type = .privateKey then config.privateKey else none
    keyPassphrase := if type = .privateKey then config.keyPassphrase else none
    password := if type = .password then config.password else none }

def auth_types (config : ISshConfigExt) (askForPassword : Bool) : List AuthType :=
  (if given (resolved_agent env.SSH_AUTH_SOCK config.identityAgent) then [.agent] else []) ++
    (if given config.privateKey then [.privateKey] else []) ++
    (if given config.password || askForPassword then [.password] else [])

def with_password (modifications : Patch) : Option (Option Text) → Option Patch
  | none => none
  | some password => some { modifications with password := some password }

/-- The loop of `validateConfig`. -/
def validate_types (config : ISshConfigExt) (askForPassword : Bool) :
    List AuthType → Patch → Dialogue Event (Option Patch)
  | [], _ => return none
  | type :: types, modifications => do
    let authConfig := auth_config config modifications type
    if type = .password && !given authConfig.password then
      return with_password modifications (← promptForPassword env authConfig modifications 3)
    else
      match ← attemptConnection env authConfig with
      | none => return some modifications
      | some error =>
        if invalid_username error then
          match ← promptForUser env authConfig with
          | none => return none
          | some user => return some { modifications with user := some user }
        else if type = .privateKey && needs_passphrase error then
          match ← promptForPassphrase env authConfig 3 with
          | some keyPassphrase =>
            return some { modifications with
              privateKey := some config.privateKey, keyPassphrase := some keyPassphrase }
          | none =>
            let _ ← invalid_key env
            return none
        else if methods_failed error then
          match type with
          | .agent =>
            validate_types config askForPassword types
              { modifications with identityAgent := some none }
          | .privateKey =>
            if ← invalid_key env then
              validate_types config askForPassword types
                { modifications with privateKey := some none, keyPassphrase := some none }
            else return none
          | .password =>
            if askForPassword then
              let password ← promptForPassword env authConfig modifications 3
              return with_password modifications password
            else validate_types config askForPassword types modifications
        else if !timed_out error && type = .privateKey && malformed_key error then
          let _ ← invalid_key env
          return none
        else return none

/-- The user is asked for where there is none. -/
def ask_user (config : ISshConfigExt) : Dialogue Event Patch := do
  if given config.user then return {}
  else
    let user ← input_box env
    return { user := some user }

def validateConfig (config : ISshConfigExt) (askForPassword : Bool) :
    Dialogue Event (Option Patch) := do
  let modifications ← ask_user env config
  validate_types env config askForPassword (auth_types env config askForPassword) modifications

end

/-! A command line for a new host. -/

def is_space (c : Char) : Bool :=
  c ∈ [' ', '\t', '\n', '\x0b', '\x0c', '\r', '\u00a0', '\u1680', '\u2028', '\u2029', '\u202f',
    '\u205f', '\u3000', '\ufeff'] || '\u2000' ≤ c && c ≤ '\u200a'

def is_quote (c : Char) : Bool := c = '"' || c = '\''

def is_word_char (c : Char) : Bool := c.isAlphanum || c = '_'

def is_user_char (c : Char) : Bool := is_word_char c || c = '-'

def is_host_char (c : Char) : Bool := c.isAlphanum || c = '.' || c = '-'

/-- A match of `sshRegex`. -/
structure SshMatch where
  user : Option Text
  host : Text
  length : ℕ

/-- `(?:([a-zA-Z0-9_-]+)@)?([a-zA-Z0-9.-]+)`; where no host follows the `@`, what is before it is
read as the host. -/
def match_host (text : Text) : Option SshMatch :=
  let user := text.takeWhile is_user_char
  let rest := (text.drop user.length).drop 1
  let host := rest.takeWhile is_host_char
  if user ≠ [] ∧ (text.drop user.length).head? = some '@' ∧ host ≠ [] then
    some ⟨some user, host, user.length + 1 + host.length⟩
  else
    let host := text.takeWhile is_host_char
    if host ≠ [] then some ⟨none, host, host.length⟩ else none

def sshRegex (text : Text) : Option SshMatch :=
  let spaces := (text.drop 3).takeWhile is_space
  if text.take 3 = ['s', 's', 'h'] ∧ spaces ≠ [] then
    (match_host ((text.drop 3).drop spaces.length)).map fun found =>
      { found with length := 3 + spaces.length + found.length }
  else none

/-- A value between two quotes. -/
def quoted_value (quote : Char) (text : Text) : Option Text :=
  let inner := (text.drop 1).takeWhile (· ≠ quote)
  if text.head? = some quote ∧ inner ≠ [] ∧ inner.length + 1 < text.length then
    some (text.take (inner.length + 2))
  else none

def plain_value (text : Text) : Option Text :=
  let word := text.takeWhile (!is_space ·)
  if word ≠ [] then some word else none

/-- The value of a flag, behind some space, and what follows it. -/
def flag_value (text : Text) : Option Text × Text :=
  let spaces := text.takeWhile is_space
  let text := text.drop spaces.length
  match if spaces = [] then none
    else quoted_value '"' text <|> quoted_value '\'' text <|> plain_value text with
  | none => (none, spaces ++ text)
  | some value => (some value, text.drop value.length)

/-- The matches of `flagRegex`, one after the other. -/
def flag_matches : ℕ → Text → List (Text × Option Text)
  | 0, _ => []
  | _, [] => []
  | n + 1, c :: text =>
    let flag := text.takeWhile is_word_char
    if c = '-' ∧ flag ≠ [] then
      let value := flag_value (text.drop flag.length)
      (flag, value.1) :: flag_matches n value.2
    else flag_matches n text

def digits (text : Text) : Option ℤ :=
  let digits := text.takeWhile (·.isDigit)
  if digits = [] then none
  else some (digits.foldl (fun n c => 10 * n + (c.toNat - '0'.toNat : ℕ)) 0)

/-- `Number.parseInt(text, 10)`. -/
def parseInt (text : Text) : Option ℤ :=
  match text.dropWhile is_space with
  | '-' :: text => (digits text).map (- ·)
  | '+' :: text => digits text
  | text => digits text

/-- `value.replace(/^["']|["']$/g, "")`. -/
def unquoted (value : Text) : Text :=
  let value := if value.head?.any is_quote then value.drop 1 else value
  if value.getLast?.any is_quote then value.dropLast else value

def is_line_end (c : Char) : Bool := c ∈ ['\n', '\r', '\u2028', '\u2029']

/-- `/^["'].*["']$/.test(value)` -/
def between_quotes (value : Text) : Bool :=
  decide (2 ≤ value.length) && value.head?.any is_quote && value.getLast?.any is_quote &&
    !(value.drop 1).dropLast.any is_line_end

/-- What a flag sets, none if a port is no number. -/
def flag_property (profile : ISshConfigExt) (flag value : Text) : Option ISshConfigExt :=
  if flag = ['p'] ∨ flag.map Char.toLower = "port".toList then
    (parseInt value).map fun port => { profile with port := some port }
  else if flag = ['i'] ∨ flag.map Char.toLower = "identity_file".toList then
    some { profile with privateKey := some value }
  else some profile

/-- The profile with a flag, none if the flag is not valid. -/
def set_flag (profile : ISshConfigExt) (flag : Text × Option Text) : Option ISshConfigExt := do
  let value ← flag.2
  let profile ← flag_property profile flag.1 (unquoted value)
  if (unquoted value).any is_space && !between_quotes value then none else some profile

/-! The hosts of the SSH configuration. -/

/-- The name of a `Host` section, and its directives. -/
structure Section where
  name : Text
  directives : List (Text × Text)

/-- A directive of a section. `path_of` gives the path that a value stands for. -/
def set_directive (path_of : Text → Text) (session : ISshConfigExt) (directive : Text × Text) :
    ISshConfigExt :=
  let param := directive.1.map Char.toLower
  let value := directive.2
  if param = "hostname".toList then { session with hostname := some value }
  else if param = "port".toList then { session with port := parseInt value }
  else if param = "user".toList then { session with user := some value }
  else if param = "identityfile".toList then { session with privateKey := some (path_of value) }
  else if param = "identityagent".toList then
    if value.map Char.toLower = "none".toList then session
    else if value = "SSH_AUTH_SOCK".toList then { session with identityAgent := some value }
    else { session with identityAgent := some (path_of value) }
  else session

/-- Names with wildcards are left out. -/
def migrateSshConfig (path_of : Text → Text) (sections : List Section) : List ISshConfigExt :=
  (sections.filter fun part => !part.name.contains '*' && !part.name.contains '?').map fun part =>
    part.directives.foldl (set_directive path_of) { name := some part.name }

/-! The profile. -/

/-- What a profile is chosen from; the profiles have a name and a host. -/
structure Manager where
  env : Environment
  /-- Where `flagRegex` stands since the last call. -/
  lastIndex : ℕ
  sshProfiles : List (Text × IProfile)
  /-- The sections of `~/.ssh/config`, and the path that a value of theirs stands for. -/
  sections : List Section
  path_of : Text → Text

structure PromptForProfileOptions where
  setExistingProfile : Bool
  disableCreateNewProfile : Bool

inductive Selection
  | nothing
  | existing (name : Text) (profile : IProfile)
  | host (config : ISshConfigExt)
  /-- No profile has the name that was chosen. -/
  | threw

inductive PromptResult
  | nothing
  | merged (profileName : Text)
  | existing (name : Text) (changes : Patch) (stored : Bool)
  | created (config : ISshConfigExt)
  | threw
  /-- The name is asked for again and again. -/
  | unfinished
  deriving DecidableEq

section

variable (m : Manager)

def migratedConfigs : List ISshConfigExt := migrateSshConfig m.path_of m.sections

def filteredMigratedConfigs : List ISshConfigExt :=
  (migratedConfigs m).filter fun config =>
    m.sshProfiles.all fun sshProfile => sshProfile.2.host ≠ config.hostname

/-- The command line, typed or made of what is known; none if there is none or that is wrong. -/
def ssh_response (knownConfigOpts : Option Text) : Dialogue Event (Option Text) :=
  if given knownConfigOpts then
    let response := "ssh ".toList ++ knownConfigOpts.getD []
    return if (sshRegex response).any (response.length ≤ ·.length) then some response else none
  else input_box m.env

def new_profile (knownConfigOpts : Option Text) (response : Text) : Option ISshConfigExt := do
  let found ← sshRegex response
  let profile : ISshConfigExt :=
    { user := found.user <|> some m.env.username, hostname := some found.host }
  if given knownConfigOpts then some profile
  else (flag_matches response.length (response.drop m.lastIndex)).foldlM set_flag profile

def createNewProfile (knownConfigOpts : Option Text) : Dialogue Event (Option ISshConfigExt) := do
  let response ← ssh_response m knownConfigOpts
  return response.bind (new_profile m knownConfigOpts)

/-- The item of an existing profile. -/
def existing_item (label : Option Text) : Option QpItem :=
  label.bind fun label =>
    (m.sshProfiles.find? (·.1 = label)).map fun profile => ⟨profile.1, profile.2.host⟩

/-- What is done with the item that was chosen. -/
def select_item : Option QpItem → Dialogue Event Selection
  | none => return .nothing
  | some item => do
    if item.description = some "Custom SSH Host".toList then
      return ((← createNewProfile m (some item.label)).map .host).getD .nothing
    else if item.label = "$(plus) Add New SSH Host...".toList then
      return ((← createNewProfile m none).map .host).getD .nothing
    else
      match (filteredMigratedConfigs m).find? fun config =>
        some item.label = config.name && item.description = config.hostname with
      | some config => return .host config
      | none =>
        match m.sshProfiles.find? (·.1 = item.label) with
        | some profile => return .existing profile.1 profile.2
        | none => return .threw

/-- The choice from the menu. -/
def select_host (options : PromptForProfileOptions) : Dialogue Event Selection := do
  if options.disableCreateNewProfile then
    let label ← menu m.env
    select_item m (existing_item m label)
  else
    let item ← custom_menu m.env
    select_item m item

/-- Whether a name is free, or may be taken from the profile that has it. -/
def name_accepted (name : Text) : Dialogue Event Bool := do
  if name ∈ m.env.profiles then
    let response ← menu m.env
    return decide (response = some "Yes".toList)
  else return true

/-- The loop of `getNewProfileName`, as often as given. -/
def ask_name (config : ISshConfigExt) : ℕ → Dialogue Event (Option (Option ISshConfigExt))
  | 0 => return none
  | times + 1 => do
    let name ← input_box m.env
    match name.filter (· ≠ []) with
    | none => return some none
    | some name =>
      if ← name_accepted m name then return some (some { config with name := some name })
      else ask_name config times

def default_name (config : ISshConfigExt) : Text :=
  if given config.name then config.name.getD []
  else (config.hostname.getD []).map fun c => if c = '.' then '_' else c

/-- None if the name is asked for more often than given. -/
def getNewProfileName (times : ℕ) (config : ISshConfigExt) :
    Dialogue Event (Option (Option ISshConfigExt)) := do
  let name := default_name config
  if name = [] then ask_name m config times
  else if ← name_accepted m name then return some (some { config with name := some name })
  else ask_name m config times

/-- The validation that succeeded, and the changes it asks for. -/
inductive Validated
  | configured (changes : Patch)
  | found_key (key : Text) (changes : Patch)
  | migrated (config : ISshConfigExt) (changes : Patch)
  | password (changes : Patch)

/-- With the configured agent and key. -/
def validate_configured (config : ISshConfigExt) : Dialogue Event (Option Validated) := do
  if given config.identityAgent || given config.privateKey then
    return (← validateConfig m.env config false).map .configured
  else return none

def with_found_key (config : ISshConfigExt) (key : Text) : ISshConfigExt :=
  { config with privateKey := some key, identityAgent := none }

/-- The first loop of `validateFoundPrivateKeys`. -/
def validate_found_keys (config : ISshConfigExt) :
    List Text → Dialogue Event (Option Validated)
  | [] => return none
  | key :: keys => do
    match ← validateConfig m.env (with_found_key config key) false with
    | some changes => return some (.found_key key changes)
    | none => validate_found_keys config keys

/-- The sections for the host and the user. -/
def validation_attempts (config : ISshConfigExt) : List ISshConfigExt :=
  let attempts := (migratedConfigs m).filter (·.hostname = config.hostname)
  if 1 < attempts.length ∧ given config.user = true then attempts.filter (·.user = config.user)
  else attempts.filter fun attempt => !given config.user || attempt.user = config.user

def without_agent (config : ISshConfigExt) : ISshConfigExt := { config with identityAgent := none }

/-- The second loop of `validateFoundPrivateKeys`. -/
def validate_migrated : List ISshConfigExt → Dialogue Event (Option Validated)
  | [] => return none
  | attempt :: attempts => do
    if given attempt.privateKey then
      match ← validateConfig m.env (without_agent attempt) false with
      | some changes => return some (.migrated attempt changes)
      | none => validate_migrated attempts
    else validate_migrated attempts

def without_keys (config : ISshConfigExt) : ISshConfigExt :=
  { config with identityAgent := none, privateKey := none, keyPassphrase := none }

def validate_password (config : ISshConfigExt) : Dialogue Event (Option Validated) :=
  return (← validateConfig m.env (without_keys config) true).map .password

/-- The validations, up to the one that succeeds. -/
def validate (config : ISshConfigExt) : Dialogue Event (Option Validated) := do
  match ← validate_configured m config with
  | some validated => return some validated
  | none =>
    match ← validate_found_keys m config m.env.found_keys with
    | some validated => return some validated
    | none =>
      match ← validate_migrated m (validation_attempts m config) with
      | some validated => return some validated
      | none => validate_password m config

/-- The profile after a validation. -/
def Validated.profile (config : ISshConfigExt) : Validated → ISshConfigExt
  | .configured changes => config.spread changes
  | .found_key key changes =>
    { (with_found_key config key).spread changes with privateKey := some key }
  | .migrated attempt changes =>
    { config with
      privateKey := attempt.privateKey
      keyPassphrase := attempt.keyPassphrase
      identityAgent := none
      password := none }.spread changes
  | .password changes =>
    config.spread { changes with
      identityAgent := some none, privateKey := some none, keyPassphrase := some none }

def validated_profile (config : ISshConfigExt) : Option Validated → ISshConfigExt
  | none => config
  | some validated => validated.profile config

def has_credential (config : ISshConfigExt) : Bool :=
  given config.privateKey || given config.password || given config.identityAgent

def profile_config (name : Text) (profile : IProfile) : ISshConfigExt where
  name := some name
  hostname := profile.host
  port := profile.port
  user := profile.user
  privateKey := profile.privateKey
  keyPassphrase := profile.keyPassphrase
  password := profile.password
  identityAgent := profile.identityAgent

/-- A password takes the place of an agent and a key. -/
def existing_changes (changes : Patch) : Patch :=
  if given (changes.password.getD none) then
    { changes with
      identityAgent := some none, privateKey := some none, keyPassphrase := some none }
  else changes

def use_existing (options : PromptForProfileOptions) (name : Text) (profile : IProfile) :
    Dialogue Event PromptResult := do
  match ← validateConfig m.env (profile_config name profile) true with
  | none => return .nothing
  | some changes =>
    if options.setExistingProfile || changes ≠ {} then
      return .existing name (existing_changes changes) true
    else return .existing name changes false

/-- A host that is not in the team configuration yet, or the end without one. -/
inductive Choice
  | done (result : PromptResult)
  | new (config : ISshConfigExt)

/-- Up to the host and the name of a new profile. -/
def choose (times : ℕ) (options : PromptForProfileOptions) (profileName : Option Text) :
    Dialogue Event Choice := do
  if given profileName then return .done (.merged (profileName.getD []))
  else
    match ← select_host m options with
    | .nothing => return .done .nothing
    | .threw => return .done .threw
    | .existing name profile => return .done (← use_existing m options name profile)
    | .host config =>
      match ← getNewProfileName m times config with
      | none => return .done .unfinished
      | some none => return .done .nothing
      | some (some config) => return .new config

/-- A new profile, from the choice of its host on. -/
def create_profile (config : ISshConfigExt) : Dialogue Event PromptResult := do
  let validated ← validate m config
  let config := validated_profile config validated
  return if has_credential config then .created config else .nothing

def promptForProfile (times : ℕ) (options : PromptForProfileOptions) (profileName : Option Text) :
    Dialogue Event PromptResult := do
  match ← choose m times options profileName with
  | .done result => return result
  | .new config => create_profile m config

/-! Whether a profile that is stored has been validated. -/

/-- What the session of a stored profile connects with. -/
def leads_to (SSH_AUTH_SOCK : Option Text) (profile : IProfile) : Target :=
  (buildSshConfig SSH_AUTH_SOCK (buildSession profile)).target

/-- An attempt has succeeded. -/
def Attempted (log : List Event) (target : Target) : Prop :=
  ∃ connection, .attempt connection none ∈ log ∧ connection.target = target

def Event.is_attempt : Event → Bool
  | .attempt _ _ => true
  | _ => false

def attempts (log : List Event) : ℕ := log.countP Event.is_attempt

/-- There are no more than six attempts, and the changes lead to the user and the credential of one
that has succeeded. -/
structure WorkingCredentials (env : Environment) (config : ISshConfigExt) (askForPassword : Bool) :
    Prop where
  bounded : attempts (validateConfig env config askForPassword []).2 ≤ 6
  works : ∀ changes, (validateConfig env config askForPassword []).1 = some changes →
    ∃ connection, .attempt connection none ∈ (validateConfig env config askForPassword []).2 ∧
      (buildSshConfig env.SSH_AUTH_SOCK (config.spread changes).session).target.user =
        connection.target.user ∧
      (buildSshConfig env.SSH_AUTH_SOCK (config.spread changes).session).target.credential =
        connection.target.credential

/-- A profile that a run stores has been validated in it. -/
def StoresValidated (times : ℕ) (options : PromptForProfileOptions) (profileName : Option Text) :
    Prop :=
  ∀ config, (promptForProfile m times options profileName []).1 = .created config →
    Attempted (promptForProfile m times options profileName []).2
      (leads_to m.env.SSH_AUTH_SOCK (stored_profile config))

/-- Where no validation succeeds, the host has neither a key nor an agent; where that with a section
of the SSH configuration does, the section has its port and, unless it is asked for, its user. -/
def Validated.agrees (config : ISshConfigExt) : Option Validated → Prop
  | none => has_credential config = false
  | some (.migrated attempt changes) =>
    effective_port attempt.port = effective_port config.port ∧
      (changes.user = none → attempt.user = config.user)
  | some _ => True

end

/-! SSH command lines as they are typed for a new profile: a host, maybe with a user, and flags with
their values. -/

/-- Some blanks. -/
structure Blanks where
  text : Text
  ne_nil : text ≠ []
  blank : ∀ c ∈ text, is_space c = true

/-- A value without blanks, and without a quote at one of its ends. -/
structure Word where
  text : Text
  ne_nil : text ≠ []
  no_blank : ∀ c ∈ text, is_space c = false
  first : text.head?.any is_quote = false
  last : text.getLast?.any is_quote = false

/-- What stands between two quotes, on one line. -/
structure Quoted where
  quote : Char
  inner : Text
  is_quote : is_quote quote = true
  ne_nil : inner ≠ []
  no_quote : quote ∉ inner
  one_line : ∀ c ∈ inner, is_line_end c = false

inductive Value
  | plain (word : Word)
  | quoted (quoted : Quoted)

def Value.text : Value → Text
  | .plain word => word.text
  | .quoted q => q.quote :: q.inner ++ [q.quote]

/-- The value that is meant. -/
def Value.meaning : Value → Text
  | .plain word => word.text
  | .quoted q => q.inner

/-- A flag behind some blanks, with one hyphen or two. -/
structure FlagName where
  before : Blanks
  long : Bool
  name : Text
  ne_nil : name ≠ []
  word : ∀ c ∈ name, is_word_char c = true

def FlagName.text (flag : FlagName) : Text :=
  flag.before.text ++ (if flag.long then ['-', '-'] else ['-']) ++ flag.name

structure Flag extends FlagName where
  between : Blanks
  value : Value

def Flag.text (flag : Flag) : Text :=
  flag.toFlagName.text ++ flag.between.text ++ flag.value.text

structure SshCommand where
  blanks : Blanks
  user : Option Text
  host : Text
  flags : List Flag
  user_ne_nil : ∀ name ∈ user, name ≠ []
  user_char : ∀ name ∈ user, ∀ c ∈ name, is_user_char c = true
  host_ne_nil : host ≠ []
  host_char : ∀ c ∈ host, is_host_char c = true

namespace SshCommand

variable (command : SshCommand)

/-- `[user@]host` -/
def target : Text := command.user.elim [] (· ++ ['@']) ++ command.host

def flags_text : Text := command.flags.flatMap Flag.text

def text : Text :=
  "ssh".toList ++ command.blanks.text ++ command.target ++ command.flags_text

end SshCommand

/-- A hyphen is followed by what may be the name of a flag. -/
def HasFlag (text : Text) : Prop :=
  ∃ front c rest, text = front ++ '-' :: c :: rest ∧ is_word_char c = true

def is_port (name : Text) : Bool := name = ['p'] ∨ name.map Char.toLower = "port".toList

def is_key (name : Text) : Bool := name = ['i'] ∨ name.map Char.toLower = "identity_file".toList

/-- The value of the last flag of a kind. -/
def last_value (kind : Text → Bool) (flags : List Flag) : Option Text :=
  (flags.filter fun flag => kind flag.name).getLast?.map fun flag => flag.value.meaning

/-- A port that is no number. -/
def bad_port (flag : Flag) : Bool := is_port flag.name && (parseInt flag.value.meaning).isNone

/-- The profile that a command stands for, none if a port is no number. -/
def SshCommand.profile (username : Text) (command : SshCommand) : Option ISshConfigExt :=
  if command.flags.any bad_port then none
  else some
    { user := command.user <|> some username
      hostname := some command.host
      port := (last_value is_port command.flags).bind parseInt
      privateKey := last_value is_key command.flags }

end Zowex.sdk.ConfigManager

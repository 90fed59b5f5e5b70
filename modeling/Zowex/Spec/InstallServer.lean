import Zowex.Spec.ServerPath

/-! `installServer` of `ZSshUtils.ts`: the steps of a deployment, the ways out of them and the
clean-up, over the remote directory. -/

namespace Zowex.sdk.InstallServer

structure Callbacks where
  on_error : Bool
  on_insufficient_space_warning : Bool

inductive Archive
  | prior
  | uploaded
  deriving DecidableEq

inductive Program
  | prior
  | extracted
  deriving DecidableEq

/-- The remote directory, with the archive and the program of the server in it. -/
structure Remote where
  dir : Bool
  archive : Option Archive
  program : Option Program
  deriving DecidableEq

/-- The remote directory before the install. -/
inductive Prior
  | absent
  | present (archive program : Bool)

def Prior.remote : Prior → Remote
  | .absent => ⟨false, none, none⟩
  | .present archive program =>
    ⟨true, if archive then some .prior else none, if program then some .prior else none⟩

/-! The outcomes of the steps. A command that throws may have run. -/

inductive Check
  | throws
  | expired
  | done
  deriving DecidableEq

inductive Mkdir
  | throws (ran : Bool)
  | failed
  | ok (expired : Bool)
  deriving DecidableEq

inductive Df
  | throws
  | result (mb : ℤ) (expired : Bool)

inductive Upload
  | ok
  | error (expired left : Bool)

inductive Pax
  | throws (wrote : Bool)
  | failed (expired wrote : Bool)
  | ok (expired : Bool)

inductive Verify
  | throws
  | failed
  | ok

/-- What happens in a call of `installServer`, with the answers that the callbacks give. -/
structure Attempt where
  initial_check : Check
  expired_answer : Answer
  mkdir : Mkdir
  mkdir_answer : Answer
  df : Df
  space_answer : Answer
  upload : Upload
  upload_answer : Answer
  pax : Pax
  pax_answer : Answer
  /-- The calls of the clean-up after a failure. -/
  pax_check : Check
  pax_unlink : Bool
  program_check : Bool
  program_unlink : Bool
  rmdir : Bool
  /-- The fourth step. -/
  unlink : Bool
  unlink_answer : Answer
  verify : Verify
  verify_answer : Answer

def REQUIRED_DEPLOY_SIZE_MB : ℤ := 20

/-- The step that a failure is of. -/
inductive Step
  | mkdir
  | space
  | upload
  | extract
  | expired
  deriving DecidableEq

/-- How the `try` block is left before its end. -/
inductive Way
  | returns (step : Step)
  | retries
  | throws (step : Step)
  /-- With `EPASSWD_EXPIRED`. -/
  | rethrows
  deriving DecidableEq

structure Progress where
  remote : Remote
  extraction_started : Bool
  overwritten : Bool

variable (cb : Callbacks) (a : Attempt)

def route_expired_password_error (expired : Bool) : Option Way :=
  if expired then
    if cb.on_error then
      if a.expired_answer = .throws then some (.throws .expired) else some (.returns .expired)
    else some .rethrows
  else none

def ask_retry (step : Step) (answer : Answer) : Way :=
  if cb.on_error then
    match answer with
    | .go_on => .retries
    | .stop => .returns step
    | .throws => .throws step
  else .returns step

/-- A step changes the remote directory, and may be the last one. -/
abbrev StepOf := Progress → Progress × Option Way

def StepOf.then (first second : StepOf) : StepOf := fun p =>
  match (first p).2 with
  | none => second (first p).1
  | some way => ((first p).1, some way)

def create_directory : StepOf := fun p =>
  match a.mkdir with
  | .throws ran =>
    ({ p with remote := { p.remote with dir := p.remote.dir || ran } }, some (.throws .mkdir))
  | .failed => (p, some (ask_retry cb .mkdir a.mkdir_answer))
  | .ok _ => ({ p with remote := { p.remote with dir := true } }, none)

def check_space : StepOf := fun p =>
  match a.df with
  | .throws => (p, some (.throws .space))
  | .result mb expired =>
    (p, (route_expired_password_error cb a expired).or
      (if mb < REQUIRED_DEPLOY_SIZE_MB ∧ cb.on_insufficient_space_warning = true then
        match a.space_answer with
        | .go_on => none
        | .stop => some (.returns .space)
        | .throws => some (.throws .space)
      else none))

/-- The error output of `mkdir` is looked at once more. -/
def check_mkdir_stderr : StepOf := fun p =>
  match a.mkdir with
  | .ok expired => (p, route_expired_password_error cb a expired)
  | _ => (p, none)

def upload_archive : StepOf := fun p =>
  match a.upload with
  | .ok => ({ p with remote := { p.remote with archive := some .uploaded } }, none)
  | .error expired left =>
    (if left then { p with remote := { p.remote with archive := some .uploaded } } else p,
      (route_expired_password_error cb a expired).or
        (some (ask_retry cb .upload a.upload_answer)))

/-- The program that `pax` writes takes the place of the one before. -/
def extract (wrote : Bool) (p : Progress) : Progress :=
  { remote := if wrote then { p.remote with program := some .extracted } else p.remote
    extraction_started := true
    overwritten := wrote }

def extract_archive : StepOf := fun p =>
  match a.pax with
  | .throws wrote => (extract wrote p, some (.throws .extract))
  | .ok expired => (extract true p, route_expired_password_error cb a expired)
  | .failed expired wrote =>
    (extract wrote p, (route_expired_password_error cb a expired).or
      (if cb.on_error = true ∧ a.pax_answer = .go_on then none else some (.throws .extract)))

/-- The `try` block. -/
def deploy : StepOf :=
  (create_directory cb a).then <| (check_space cb a).then <| (check_mkdir_stderr cb a).then <|
    (upload_archive cb a).then (extract_archive cb a)

/-- The clean-up in the `catch` block. -/
def clean_up (existed : Bool) (p : Progress) : Remote :=
  if a.pax_check ≠ .done then p.remote
  else if p.remote.archive.isSome = true ∧ a.pax_unlink = false then p.remote
  else
    let remote := { p.remote with archive := none }
    if p.extraction_started = true ∧ a.program_check = false then remote
    else if p.extraction_started = true ∧ remote.program.isSome = true ∧ a.program_unlink = false
      then remote
    else
      let remote := if p.extraction_started then { remote with program := none } else remote
      if existed = false ∧ a.rmdir = true then { remote with dir := false } else remote

inductive Result
  | returned (installed : Bool)
  | throws
  | unfinished
  deriving DecidableEq

/-- The result, and how it has come to it. -/
structure Outcome where
  result : Result
  remote : Remote
  /-- Because of an expired password. -/
  expired : Bool := false
  /-- In the verification or after it. -/
  verifying : Bool := false
  overwritten : Bool := false

/-- The last two steps. -/
def finish (p : Progress) : Outcome :=
  if a.unlink = false ∧ cb.on_error = true ∧ a.unlink_answer = .throws then
    { result := .throws, remote := p.remote, overwritten := p.overwritten }
  else
    let remote := if a.unlink then { p.remote with archive := none } else p.remote
    let result : Result :=
      match a.verify with
      | .throws => .throws
      | .ok => .returned true
      | .failed =>
        if cb.on_error then
          match a.verify_answer with
          | .go_on => .returned true
          | .stop => .returned false
          | .throws => .throws
        else .throws
    { result, remote, verifying := true, overwritten := p.overwritten }

/-- A call, and the calls it makes of itself. -/
def install_server : List Attempt → Remote → Outcome
  | [], remote => { result := .unfinished, remote }
  | a :: later, remote =>
    if a.initial_check = .throws then { result := .throws, remote }
    else
      match route_expired_password_error cb a (a.initial_check = .expired) with
      | none =>
        let p := (deploy cb a ⟨remote, false, false⟩).1
        match (deploy cb a ⟨remote, false, false⟩).2 with
        | none => finish cb a p
        | some .retries => install_server later p.remote
        | some (.returns step) =>
          { result := .returned false
            remote := p.remote
            expired := step = .expired
            overwritten := p.overwritten }
        | some .rethrows =>
          { result := .throws, remote := p.remote, expired := true, overwritten := p.overwritten }
        | some (.throws step) =>
          { result := .returned false
            remote := clean_up a remote.dir p
            expired := step = .expired || a.pax_check = .expired
            overwritten := p.overwritten }
      | some (.returns _) => { result := .returned false, remote, expired := true }
      | some _ => { result := .throws, remote, expired := true }

/-! What a failed install leaves. -/

/-- The calls of the clean-up succeed. -/
structure Attempt.Cleans (a : Attempt) : Prop where
  pax_check : a.pax_check = .done
  pax_unlink : a.pax_unlink = true
  program_check : a.program_check = true
  program_unlink : a.program_unlink = true
  rmdir : a.rmdir = true
  unlink : a.unlink = true

/-- A failed install is undone, and an install that has succeeded is one. -/
structure Undone (prior : Prior) (attempts : List Attempt) : Prop where
  undone : (∀ a ∈ attempts, a.Cleans) →
    ∀ outcome, install_server cb attempts prior.remote = outcome →
      outcome.result = .returned false ∨ outcome.result = .throws →
      outcome.verifying = false → outcome.expired = false →
        (prior.remote.dir = false → outcome.remote.dir = false) ∧
        outcome.remote.archive ≠ some .uploaded ∧
        (outcome.overwritten = false → prior.remote.program = some .prior →
          outcome.remote.program = some .prior)
  installed : (install_server cb attempts prior.remote).result = .returned true →
    ∃ retried a later, attempts = retried ++ a :: later ∧
      (∀ b ∈ retried, (deploy cb b ⟨prior.remote, false, false⟩).2 = some .retries) ∧
      a.upload = .ok ∧
      ((∃ expired, a.pax = .ok expired) ∨
        (∃ expired wrote, a.pax = .failed expired wrote) ∧ cb.on_error = true ∧
          a.pax_answer = .go_on) ∧
      (a.verify = .ok ∨ a.verify = .failed ∧ cb.on_error = true ∧ a.verify_answer = .go_on)

end Zowex.sdk.InstallServer

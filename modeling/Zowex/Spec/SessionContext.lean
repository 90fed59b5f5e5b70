import Zowex.Lib.Runs

/-! `SessionContext.ts`: calls of `getSsh` that share a connection, with the promise that they await,
and a dispose. What is awaited goes on in steps of its own, in any order. -/

namespace Zowex.sdk

inductive PromiseState
  | pending
  | fulfilled
  | rejected
  deriving DecidableEq

/-- A `NodeSSH` object with the promise that was made along with it. -/
structure NodeSSH where
  /-- The promise of `connect`. -/
  connect : PromiseState := .pending
  /-- The remote side has ended the connection. -/
  ended : Bool := false
  disposed : Bool := false
  promise : PromiseState := .pending
  deriving DecidableEq

namespace NodeSSH

def isConnected (ssh : NodeSSH) : Bool :=
  ssh.connect = .fulfilled && !ssh.ended && !ssh.disposed

/-- It is connecting or connected, and not disposed. -/
def live (ssh : NodeSSH) : Bool :=
  !ssh.disposed && (ssh.connect = .pending || ssh.connect = .fulfilled && !ssh.ended)

def dispose (ssh : NodeSSH) : NodeSSH := { ssh with disposed := true }

end NodeSSH

/-- A call of `getSsh`, which awaits the promise that was made along with this object. -/
inductive SshCall
  | awaiting (promise : ℕ)
  | returned (ssh : ℕ)
  | threw
  deriving DecidableEq

/-- The objects are numbered in the order they are made in, and so are the calls. -/
structure SessionContext where
  sshConn : Option ℕ
  connectPromise : Option ℕ
  objects : List NodeSSH
  calls : List SshCall
  disposed : Bool
  /-- The promise that the dispose waits for. -/
  disposing : Option ℕ

namespace SessionContext

def new : SessionContext := ⟨none, none, [], [], false, none⟩

inductive Action
  | getSsh
  /-- `connect` succeeds or fails. -/
  | connected (ssh : ℕ)
  | failed (ssh : ℕ)
  /-- The remote side ends a connection. -/
  | disconnected (ssh : ℕ)
  /-- The function that awaits `connect` goes on. -/
  | settle (ssh : ℕ)
  /-- A call of `getSsh` goes on. -/
  | resume (call : ℕ)
  | dispose
  /-- The function goes on that the dispose has left with the promise. -/
  | settled_dispose

variable (s : SessionContext)

def update (ssh : ℕ) (f : NodeSSH → NodeSSH) : SessionContext :=
  { s with objects := s.objects.modify ssh f }

/-- The start of `getSsh`: a connection that is no more is dropped. -/
def drop_ended : SessionContext :=
  match s.sshConn with
  | none => s
  | some ssh =>
    if s.objects[ssh]?.any fun object => !object.isConnected then
      { s.update ssh NodeSSH.dispose with sshConn := none, connectPromise := none }
    else s

/-- `??=`. -/
def ensure_promise : SessionContext :=
  match s.connectPromise with
  | none =>
    { s with connectPromise := some s.objects.length, objects := s.objects ++ [{}] }
  | some _ => s

def getSsh : SessionContext :=
  let s := s.drop_ended.ensure_promise
  match s.connectPromise with
  | none => s
  | some promise => { s with calls := s.calls ++ [.awaiting promise] }

def dispose : SessionContext :=
  match s.sshConn with
  | none => { s with disposed := true, disposing := s.connectPromise }
  | some ssh => { s.update ssh NodeSSH.dispose with disposed := true }

/-- After the `await` of `connect`. -/
def settle (ssh : ℕ) (object : NodeSSH) : Option SessionContext :=
  match object.promise, object.connect with
  | .pending, .fulfilled =>
    some { s.update ssh fun object => { object with promise := .fulfilled } with
      sshConn := some ssh }
  | .pending, .rejected =>
    some (s.update ssh fun object => { object.dispose with promise := .rejected })
  | _, _ => none

/-- After the `await` of the shared promise. -/
def resume (call : ℕ) (promise : ℕ) (object : NodeSSH) : Option SessionContext :=
  match object.promise with
  | .pending => none
  | .fulfilled => some { s with calls := s.calls.set call (.returned promise) }
  | .rejected => some { s with connectPromise := none, calls := s.calls.set call .threw }

def step : Action → Option SessionContext
  | .getSsh => if s.disposed then none else some s.getSsh
  | .connected ssh =>
    match s.objects[ssh]? with
    | some ⟨.pending, _, _, _⟩ =>
      some (s.update ssh fun object => { object with connect := .fulfilled })
    | _ => none
  | .failed ssh =>
    match s.objects[ssh]? with
    | some ⟨.pending, _, _, _⟩ =>
      some (s.update ssh fun object => { object with connect := .rejected })
    | _ => none
  | .disconnected ssh =>
    match s.objects[ssh]? with
    | some ⟨.fulfilled, _, _, _⟩ => some (s.update ssh fun object => { object with ended := true })
    | _ => none
  | .settle ssh => s.objects[ssh]?.bind (s.settle ssh)
  | .resume call =>
    match s.calls[call]? with
    | some (.awaiting promise) => s.objects[promise]?.bind (s.resume call promise)
    | _ => none
  | .dispose => if s.disposed then none else some s.dispose
  | .settled_dispose =>
    match s.disposing with
    | none => none
    | some ssh =>
      match s.objects[ssh]?.map NodeSSH.promise with
      | some .fulfilled => some { s.update ssh NodeSSH.dispose with disposing := none }
      | some .rejected => some { s with disposing := none }
      | _ => none

/-! What is asked of it. -/

def Live (ssh : ℕ) : Prop := ∃ object, s.objects[ssh]? = some object ∧ object.live = true

/-- What the call that goes on in a step returns. -/
def returns : Action → Option ℕ
  | .resume call =>
    match s.calls[call]? with
    | some (.awaiting promise) =>
      if s.objects[promise]?.any fun object => object.promise = .fulfilled then some promise
      else none
    | _ => none
  | _ => none

/-- A call goes on while no newer promise has taken the place of the one that it awaits. -/
def Current : Action → Prop
  | .resume call => ∀ promise, s.calls[call]? = some (.awaiting promise) →
      s.connectPromise = none ∨ s.connectPromise = some promise
  | _ => True

end SessionContext

end Zowex.sdk

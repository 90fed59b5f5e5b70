import Zowex.Lib.Runs
import Zowex.Spec.Uss

/-! The clients of one USS file (`uss.cpp`): each reads it with its e-tag, and writes it with that
e-tag. A write looks at the file, opens it, and stores its data, and others may act in between. -/

namespace Zowex.zusf

open zds

/-- Two 64-bit hex values, the separator and the NUL. -/
def etag_size : ℕ := 34

inductive CommandError
  | etag_too_long
  | write (e : UssError)
  deriving DecidableEq

/-- What was written since the open, none where there was none, and the new e-tag. -/
structure Written where
  stored : Option Bytes
  result : Except CommandError Bytes

variable {Shift : Type} (cs : Charset) (iconv_open : IconvOpen Shift)

/-- Streamed where there is a pipe. -/
def zusf_write (sv : UssServices) (zusf : ZUSF) : Source → UssRun
  | .buffered data => zusf_write_to_uss_file cs iconv_open sv zusf data
  | .streamed chunks => zusf_write_to_uss_file_streamed cs iconv_open sv zusf chunks

def handle_uss_write (sv : UssServices) (opts : ZEncode) (etag : Bytes) (source : Source) :
    Written :=
  if etag.length ≥ etag_size then ⟨none, .error .etag_too_long⟩
  else
    let run := zusf_write cs iconv_open sv { encoding_opts := opts, etag } source
    ⟨run.stored, run.result.mapError .write⟩

/-- The file time is in seconds. -/
structure File where
  contents : Bytes
  mtime : ℕ
  deriving DecidableEq

def stat : Option File → StatResult
  | some file => .found file.mtime file.contents.length
  | none => .missing

/-- An e-tag that was given to a client, and the file it was made of. -/
structure Held where
  etag : Bytes
  issued : File

/-- A write that has looked at the file, and what it found in the open, once it has come to that. -/
structure Pending where
  run : Written
  found : Option (Option File) := none

structure Client where
  held : Option Held := none
  pending : Option Pending := none

/-- A write that has ended. -/
structure Write where
  held : Held
  found : Option File
  result : Except CommandError Bytes

structure State (Id : Type) where
  file : Option File
  clients : Id → Client
  writes : List Write

variable {Id : Type} [DecidableEq Id]

namespace State

def initial (file : Option File) : State Id where
  file
  clients _ := {}
  writes := []

def set_client (s : State Id) (c : Id) (client : Client) : State Id :=
  { s with clients := fun d => if d = c then client else s.clients d }

end State

/-- What a client does, or another program with the file: the file is as it leaves it, or gone. -/
inductive Action (Id : Type)
  | view (c : Id)
  | check (c : Id) (sv : UssServices) (opts : ZEncode) (source : Source)
  | truncate (c : Id) (mtime : ℕ)
  | store (c : Id) (mtime : ℕ)
  | change (file : Option File)

/-- The services of a write that starts in a state: the first `stat` fails, or tells what is there. -/
def services_in (s : State Id) (sv : UssServices) : UssServices :=
  match sv.stat with
  | .failed => sv
  | _ => { sv with stat := stat s.file }

def step (s : State Id) : Action Id → Option (State Id)
  | .view c =>
    match (s.clients c).pending, s.file with
    | none, some file =>
      some (s.set_client c
        { held := some ⟨zut_build_etag cs file.mtime file.contents.length, file⟩ })
    | _, _ => none
  | .check c sv opts source =>
    match s.clients c with
    | ⟨some held, none⟩ =>
      some (s.set_client c
        { held := some held
          pending := some
            { run := handle_uss_write cs iconv_open (services_in s sv) opts held.etag source } })
    | _ => none
  | .truncate c mtime =>
    match (s.clients c).pending with
    | some ⟨run, none⟩ =>
      some { s.set_client c { s.clients c with pending := some ⟨run, some s.file⟩ } with
        file := if run.stored.isSome then some ⟨[], mtime⟩ else s.file }
    | _ => none
  | .store c mtime =>
    match s.clients c with
    | ⟨some held, some ⟨run, some found⟩⟩ =>
      some { s.set_client c { held := some held } with
        file := match run.stored with
          | some contents => some ⟨contents, mtime⟩
          | none => s.file
        writes := s.writes ++ [⟨held, found, run.result⟩] }
    | _ => none
  | .change file => some { s with file }

namespace State

/-- A write with an e-tag succeeds only where the contents are those that the e-tag is of. -/
def NoLostUpdate (s : State Id) : Prop :=
  ∀ w ∈ s.writes, w.result.isOk = true →
    w.found.map File.contents = some w.held.issued.contents

/-- The file is not another one with the time and the size of one that a client has the e-tag of. -/
def Distinct (s : State Id) (file : Option File) : Prop :=
  ∀ c held, (s.clients c).held = some held → ∀ f, file = some f →
    f.mtime = held.issued.mtime → f.contents.length = held.issued.contents.length →
      f.contents = held.issued.contents

/-- A write that is going to succeed is about to open the file. -/
def Opens (s : State Id) (c : Id) : Prop :=
  ∃ run, (s.clients c).pending = some ⟨run, none⟩ ∧ run.result.isOk = true

/-- No other client is between its look at the file and the open, unless the contents stay. -/
def Quiet (s : State Id) (others : Id → Prop) (file : Option File) : Prop :=
  ∀ c, others c → s.Opens c → file.map File.contents = s.file.map File.contents

/-- A step that e-tags take notice of. -/
def Noticed (s : State Id) : Action Id → Prop
  | .view _ => True
  | .check _ _ _ _ => s.file ≠ none
  | .truncate c mtime => s.Distinct (some ⟨[], mtime⟩) ∧ s.Quiet (· ≠ c) (some ⟨[], mtime⟩)
  | .store c mtime =>
    ∀ p contents, (s.clients c).pending = some p → p.run.stored = some contents →
      s.Distinct (some ⟨contents, mtime⟩) ∧ s.Quiet (· ≠ c) (some ⟨contents, mtime⟩)
  | .change file => s.Distinct file ∧ s.Quiet (fun _ => True) file

end State

end Zowex.zusf

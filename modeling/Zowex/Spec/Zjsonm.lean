import Zowex.Spec.Charset

/-! The functions of `zjsonm.c` on one instance, with the 31-bit storage that they obtain and
release. Each of them works on a copy of the instance, and copies that back. -/

namespace Zowex.zjsonm

/-- Areas are numbered in the order they are obtained in. -/
abbrev Area := ℕ

inductive Event
  | storage_obtain31 (size : ℤ) (area : Area)
  | storage_release (size : ℤ) (area : Area)
  deriving DecidableEq

structure JSON_INSTANCE where
  handle : Bytes
  diag : Bytes
  json : Option Area
  json_length : ℤ
  deriving DecidableEq

/-- An instance of which every field is zero. -/
def zero_instance : JSON_INSTANCE :=
  ⟨List.replicate 12 0, List.replicate 132 0, none, 0⟩

/-- What a service of the system does: its return code, and what it leaves in the instance and in
the length of a buffer. -/
structure Service where
  rc : ℤ
  handle : Bytes
  diag : Bytes
  buffer_length : ℤ → ℤ

/-- `zjsm_init` and the others: a service has the addresses of the handle and of the diagnostics. -/
def Service.call (svc : Service) (instance31 : JSON_INSTANCE) : JSON_INSTANCE :=
  { instance31 with handle := svc.handle, diag := svc.diag }

/-- `memcpy` of an instance. -/
def memcpy (_dest src : JSON_INSTANCE) : JSON_INSTANCE := src

/-- The calls, with the strings and the lengths that storage is obtained for. -/
inductive Call
  | ZJSMINIT
  | ZJSMGENC
  | ZJSMSENC
  | ZJSMDEL
  | ZJSMPARS (json : Bytes)
  | ZJSMSRCH (key : Bytes)
  | ZJSMSSRC (key : Bytes)
  | ZJSMSERI (buffer_length : ℤ)
  | ZJSNGJST
  | ZJSMGVAL
  | ZJSMGNUE
  | ZJSMGBOV
  | ZJSMGAEN
  | ZJSMGOEN (key_buffer_length : ℤ)
  | ZJSMCREN (entry_name entry_value : Option Bytes)
  | ZJSMTERM
  deriving DecidableEq

/-- What a call leaves: the return code, the instance, and what it did with storage. -/
structure Done where
  rc : ℤ
  json_instance : JSON_INSTANCE
  next : Area
  events : List Event

/-- `strlen` and the NUL. -/
def string_length (s : Bytes) : ℤ := s.length + 1

def ptr_size : ℤ := 4

variable (svc : Service) (json_instance : JSON_INSTANCE) (next : Area)

/-- The functions that obtain no storage. -/
def plain_call : Done :=
  let instance31 := memcpy zero_instance json_instance
  let instance31 := svc.call instance31
  ⟨svc.rc, memcpy json_instance instance31, next, []⟩

/-- It returns before it does anything. -/
def ZJSMSENC : Done := ⟨0, json_instance, next, []⟩

def ZJSMPARS (json : Bytes) : Done :=
  let instance31 := memcpy zero_instance json_instance
  let json_length := string_length json
  let json_instance := { json_instance with json_length, json := some next }
  let instance31 := svc.call instance31
  ⟨svc.rc, memcpy json_instance instance31, next + 1, [.storage_obtain31 json_length next]⟩

/-- The functions that search for a key. -/
def search_call (key : Bytes) : Done :=
  let instance31 := memcpy zero_instance json_instance
  let length := string_length key
  let instance31 := svc.call instance31
  ⟨svc.rc, memcpy json_instance instance31, next + 1,
    [.storage_obtain31 length next, .storage_release length next]⟩

def ZJSMSERI (buffer_length : ℤ) : Done :=
  let instance31 := memcpy zero_instance json_instance
  let instance31 := svc.call instance31
  ⟨svc.rc, memcpy json_instance instance31, next + 1,
    [.storage_obtain31 buffer_length next,
      .storage_release (svc.buffer_length buffer_length) next]⟩

def ZJSMGOEN (key_buffer_length : ℤ) : Done :=
  let instance31 := memcpy zero_instance json_instance
  let instance31 := svc.call instance31
  if key_buffer_length > 0 then
    ⟨svc.rc, memcpy json_instance instance31, next + 1,
      [.storage_obtain31 key_buffer_length next,
        .storage_release (svc.buffer_length key_buffer_length) next]⟩
  else ⟨svc.rc, memcpy json_instance instance31, next, []⟩

def ZJSMCREN (entry_name entry_value : Option Bytes) : Done :=
  let instance31 := memcpy zero_instance json_instance
  let entry_name_length := (entry_name.map string_length).getD 0
  let entry_value_length := (entry_value.map string_length).getD 0
  let instance31 := svc.call instance31
  ⟨svc.rc, memcpy json_instance instance31, next + 2,
    [.storage_obtain31 (entry_name_length + ptr_size) next,
      .storage_obtain31 (entry_value_length + ptr_size) (next + 1),
      .storage_release (entry_name_length + ptr_size) next,
      .storage_release (entry_value_length + ptr_size) (next + 1)]⟩

def ZJSMTERM : Done :=
  let instance31 := memcpy zero_instance json_instance
  let instance31 := svc.call instance31
  let json_instance := memcpy json_instance instance31
  match json_instance.json with
  | some area =>
    ⟨svc.rc, { json_instance with json := none, json_length := 0 }, next,
      [.storage_release json_instance.json_length area]⟩
  | none => ⟨svc.rc, json_instance, next, []⟩

def Call.run : Call → Done
  | .ZJSMPARS json => zjsonm.ZJSMPARS svc json_instance next json
  | .ZJSMSENC => zjsonm.ZJSMSENC json_instance next
  | .ZJSMSRCH key => search_call svc json_instance next key
  | .ZJSMSSRC key => search_call svc json_instance next key
  | .ZJSMSERI buffer_length => zjsonm.ZJSMSERI svc json_instance next buffer_length
  | .ZJSMGOEN key_buffer_length => zjsonm.ZJSMGOEN svc json_instance next key_buffer_length
  | .ZJSMCREN entry_name entry_value => zjsonm.ZJSMCREN svc json_instance next entry_name entry_value
  | .ZJSMTERM => zjsonm.ZJSMTERM svc json_instance next
  | .ZJSMINIT | .ZJSMGENC | .ZJSMDEL | .ZJSNGJST | .ZJSMGVAL | .ZJSMGNUE | .ZJSMGBOV | .ZJSMGAEN =>
    plain_call svc json_instance next

/-- A call with what it did. -/
structure Step where
  call : Call
  events : List Event
  deriving DecidableEq

/-- The calls one after the other, each with what the service does in it. -/
def run (json_instance : JSON_INSTANCE) (next : Area) : List (Call × Service) → List Step
  | [] => []
  | (call, svc) :: calls =>
    let done := call.run svc json_instance next
    ⟨call, done.events⟩ :: run done.json_instance done.next calls

/-! The balance. -/

def Call.parses : Call → Bool
  | .ZJSMPARS _ => true
  | _ => false

/-- An instance is terminated, or parses another text. -/
def Call.ends_parse : Call → Bool
  | .ZJSMPARS _ | .ZJSMTERM => true
  | _ => false

/-- The lengths that an area is released with. -/
def releases (log : List Step) (area : Area) : List ℤ :=
  (log.flatMap Step.events).filterMap fun
    | .storage_release size area' => if area' = area then some size else none
    | .storage_obtain31 _ _ => none

/-- Each area that a text is put into is released once, with its length, and not as long as the
text is in use. -/
def Balanced (log : List Step) : Prop :=
  ∀ before step after size area, log = before ++ step :: after → step.call.parses = true →
    Event.storage_obtain31 size area ∈ step.events →
    releases log area = [size] ∧
      releases (before ++ step :: after.takeWhile fun later => !later.call.ends_parse) area = []

/-- A life of an instance, with these calls between its start and its end. -/
def life (start : Service) (calls : List (Call × Service)) (last : Service) : List Step :=
  run zero_instance 0 ((.ZJSMINIT, start) :: calls ++ [(.ZJSMTERM, last)])

end Zowex.zjsonm

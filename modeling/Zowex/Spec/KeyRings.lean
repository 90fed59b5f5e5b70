import Zowex.Spec.Charset

/-! The commands of `certificates.cpp` that change key rings and certificates, with the parameter
lists of `zkr.cpp` that the security manager is called with. -/

namespace Zowex.zkr

def ZKR_MAX_USERID_LEN : ℕ := 8
def ZKR_MAX_KEYRING_LEN : ℕ := 236
def ZKR_MAX_LABEL_LEN : ℕ := 32

/-- The function codes of R_datalib. -/
inductive FunctionCode
  | GETCERT
  | GETNEXT
  | DATA_ABORT
  | NEWRING
  | IMPORT
  | DELCERT
  | DELRING
  | REFRESH
  | ALTER
  deriving DecidableEq

def ZKR_ATTR_TRUST : ℕ := 0x80000000
def ZKR_ATTR_HIGHTRUST : ℕ := 0x40000000
def ZKR_ATTR_NOTRUST : ℕ := 0x20000000
def ZKR_ATTR_GETCERT : ℕ := 0x80000000
def ZKR_ATTR_DEL_CERT_TOO : ℕ := 0x80000000
def ZKR_ATTR_DEL_ALLRINGS : ℕ := 0x40000000

def ZKR_USAGE_PERSONAL : ℤ := 8
def ZKR_USAGE_CERTAUTH : ℤ := 2

/-- A field of fixed size with the length of what is in it. -/
structure Field where
  len : ℕ
  bytes : Bytes
  deriving DecidableEq

/-- The string that a field denotes. -/
def Field.text (field : Field) : Bytes := field.bytes.take field.len

/-- As much of a string as the field has room for, before the padding. -/
def fixed_field (size : ℕ) (pad : UInt8) (s : Bytes) : Field :=
  let len := if s.length > size then size else s.length
  ⟨len, s.take len ++ List.replicate (size - len) pad⟩

/-- The parameter block of a function; a label is at an address. -/
inductive Parmlist
  | none
  | data_get
  | data_abort
  | data_remove (label : Field) (CERT_userid : Field)
  | data_put (certificate_usage : ℤ) (Default : Bool) (certificate private_key : Bytes)
      (label : Field) (cert_userid : Field)
  | data_alter (label new_label : Field) (CERT_userid : Field)
  deriving DecidableEq

structure R_datalib_parm_list_64 where
  function_code : FunctionCode
  attributes : ℕ
  RACF_userid : Field
  ring_name : Field
  parm_list_version : ℕ
  parmlist : Parmlist
  deriving DecidableEq

structure R_datalib_function where
  code : FunctionCode
  default_attributes : ℕ
  parm_list_version : ℕ
  parmlist : Parmlist

def set_up_r_datalib_parameters (fn : R_datalib_function) (owner ring : Bytes) :
    R_datalib_parm_list_64 where
  function_code := fn.code
  attributes := fn.default_attributes
  RACF_userid := fixed_field ZKR_MAX_USERID_LEN 0 owner
  ring_name := fixed_field ZKR_MAX_KEYRING_LEN 0 ring
  parm_list_version := fn.parm_list_version
  parmlist := fn.parmlist

/-- The return codes of a call. -/
structure Response where
  return_code : ℤ
  RACF_return_code : ℤ
  RACF_reason_code : ℤ
  deriving DecidableEq

/-- A certificate that an enumeration gives. -/
structure Got where
  label : Bytes
  certificate : Bytes
  certificate_usage : ℤ
  deriving DecidableEq

structure Services where
  IRRSDL64 : R_datalib_parm_list_64 → Response
  /-- What `GETCERT` and the calls of `GETNEXT` after it give with 0, for its parameter list. -/
  enumerate : R_datalib_parm_list_64 → List Got
  /-- With which an enumeration ends, other than with 0. -/
  enumerate_end : R_datalib_parm_list_64 → Response
  /-- The certificate and the key of a PKCS#12 file with its passphrase. -/
  decode : Bytes → Bytes → Option (Bytes × Bytes)

/-- A label takes no more than the 32 bytes of its area. -/
def Services.Documented (sv : Services) : Prop :=
  ∀ p, ∀ got ∈ sv.enumerate p, got.label.length ≤ ZKR_MAX_LABEL_LEN

inductive ZkrError
  /-- `record_message`. -/
  | message
  | saf (response : Response)
  | gsk
  deriving DecidableEq

/-- The calls of the security manager, and the result. -/
structure Run (α : Type) where
  calls : List R_datalib_parm_list_64
  result : Except ZkrError α

variable (cs : Charset) (sv : Services)

def saf_failed (response : Response) : Bool := response.return_code ≥ 8

def simple_action (code : FunctionCode) (owner ring : Bytes) : Run Unit :=
  let p := set_up_r_datalib_parameters ⟨code, 0, 0, .none⟩ owner ring
  ⟨[p], if saf_failed (sv.IRRSDL64 p) then .error (.saf (sv.IRRSDL64 p)) else .ok ()⟩

def zkr_new_ring (owner ring : Bytes) : Run Unit := simple_action sv .NEWRING owner ring

def zkr_del_ring (owner ring : Bytes) : Run Unit := simple_action sv .DELRING owner ring

def zkr_refresh : Run Unit := simple_action sv .REFRESH [] []

/-- The field for the user id of a certificate, filled up with blanks. -/
def cert_userid_field (owner : Bytes) : Field :=
  fixed_field ZKR_MAX_USERID_LEN (cs.code ' ') owner

/-- A label that is used where it is. -/
def label_field (label : Bytes) : Field := ⟨label.length, label⟩

def zkr_del_cert (owner ring label : Bytes) (skip_refresh : Bool) : Run Unit :=
  if label = [] then ⟨[], .error .message⟩
  else
    let rem := Parmlist.data_remove (label_field label) (cert_userid_field cs owner)
    let attributes :=
      if ring = cs.str "*" then ZKR_ATTR_DEL_CERT_TOO ||| ZKR_ATTR_DEL_ALLRINGS else 0
    let p := set_up_r_datalib_parameters ⟨.DELCERT, attributes, 0, rem⟩ owner ring
    let response := sv.IRRSDL64 p
    if saf_failed response then ⟨[p], .error (.saf response)⟩
    else if response = ⟨4, 4, 12⟩ then
      if skip_refresh then ⟨[p], .ok ()⟩ else ⟨p :: (zkr_refresh sv).calls, .ok ()⟩
    else ⟨[p], .ok ()⟩

/-- The certificate with the label, and the parameter lists up to it. -/
def fetch_cert_from_ring (owner ring label : Bytes) : Run (Bytes × ℤ) :=
  let first := set_up_r_datalib_parameters ⟨.GETCERT, ZKR_ATTR_GETCERT, 1, .data_get⟩ owner ring
  let next := set_up_r_datalib_parameters ⟨.GETNEXT, ZKR_ATTR_GETCERT, 1, .data_get⟩ owner ring
  let abrt := set_up_r_datalib_parameters ⟨.DATA_ABORT, 0, 0, .data_abort⟩ owner ring
  let certs := sv.enumerate first
  let last := sv.enumerate_end first
  if certs = [] then
    ⟨[first], .error (if last = ⟨8, 8, 44⟩ then .message else .saf last)⟩
  else
    match certs.find? fun got => got.label = label with
    | some got =>
      let before := certs.takeWhile fun got => got.label ≠ label
      ⟨first :: List.replicate before.length next ++ [abrt],
        if got.certificate = [] then .error .message
        else .ok (got.certificate, got.certificate_usage)⟩
    | none =>
      ⟨first :: List.replicate certs.length next ++ [abrt],
        .error (if last = ⟨8, 8, 44⟩ then .message else .saf last)⟩

/-- The label is copied to an area of its own. -/
def data_put_connect (owner ring label der : Bytes) (usage_code : ℤ) (make_default : Bool) :
    Run Unit :=
  let put := Parmlist.data_put usage_code make_default der []
    (fixed_field ZKR_MAX_LABEL_LEN (cs.code ' ') label) (cert_userid_field cs owner)
  let p := set_up_r_datalib_parameters ⟨.IMPORT, 0, 0, put⟩ owner ring
  ⟨[p], if saf_failed (sv.IRRSDL64 p) then .error (.saf (sv.IRRSDL64 p)) else .ok ()⟩

def usage_to_code (usage : Bytes) : ℤ :=
  if usage = cs.str "PERSONAL" ∨ usage = cs.str "personal" then ZKR_USAGE_PERSONAL
  else if usage = cs.str "CERTAUTH" ∨ usage = cs.str "certauth" then ZKR_USAGE_CERTAUTH
  else 0

structure ZKRConnectOptions where
  owner : Bytes
  ring : Bytes
  from_ring : Bytes
  label : Bytes
  usage : Bytes
  make_default : Bool

def zkr_connect_cert (opts : ZKRConnectOptions) : Run Unit :=
  if opts.label = [] then ⟨[], .error .message⟩
  else if opts.from_ring = [] then ⟨[], .error .message⟩
  else
    let fetched := fetch_cert_from_ring sv opts.owner opts.from_ring opts.label
    match fetched.result with
    | .error e => ⟨fetched.calls, .error e⟩
    | .ok (der, current_usage) =>
      if opts.usage ≠ [] ∧ usage_to_code cs opts.usage = 0 then ⟨fetched.calls, .error .message⟩
      else
        let usage_code := if opts.usage ≠ [] then usage_to_code cs opts.usage else current_usage
        let put := data_put_connect cs sv opts.owner opts.ring opts.label der usage_code
          opts.make_default
        ⟨fetched.calls ++ put.calls, put.result⟩

def zkr_set_default (owner ring label : Bytes) : Run Unit :=
  let fetched := fetch_cert_from_ring sv owner ring label
  match fetched.result with
  | .error e => ⟨fetched.calls, .error e⟩
  | .ok (der, current_usage) =>
    let put := data_put_connect cs sv owner ring label der current_usage true
    ⟨fetched.calls ++ put.calls, put.result⟩

structure ZKRImportOptions where
  owner : Bytes
  ring : Bytes
  label : Bytes
  usage : Bytes
  p12_path : Bytes
  password : Bytes
  skip_refresh : Bool

def zkr_import_cert (opts : ZKRImportOptions) : Run Unit :=
  if opts.label = [] then ⟨[], .error .message⟩
  else if opts.label.length ≥ ZKR_MAX_LABEL_LEN then ⟨[], .error .message⟩
  else if usage_to_code cs opts.usage = 0 then ⟨[], .error .message⟩
  else
    match sv.decode opts.p12_path opts.password with
    | none => ⟨[], .error .gsk⟩
    | some (certificate, private_key) =>
      let put := Parmlist.data_put (usage_to_code cs opts.usage) false certificate private_key
        (label_field opts.label) (cert_userid_field cs opts.owner)
      let p := set_up_r_datalib_parameters ⟨.IMPORT, 0, 0, put⟩ opts.owner opts.ring
      let response := sv.IRRSDL64 p
      if saf_failed response then ⟨[p], .error (.saf response)⟩
      else if response.return_code = 4 ∧
          (response.RACF_reason_code = 4 ∨ response.RACF_reason_code = 16) ∧
          opts.skip_refresh = false then
        ⟨p :: (zkr_refresh sv).calls, .ok ()⟩
      else ⟨[p], .ok ()⟩

structure ZKRAlterOptions where
  owner : Bytes
  label : Bytes
  status : Bytes
  new_label : Bytes := []

/-- The attributes of a status, none for any other. -/
def status_attributes (status : Bytes) : Option ℕ :=
  if status = [] then some 0
  else if status = cs.str "TRUST" ∨ status = cs.str "trust" then some ZKR_ATTR_TRUST
  else if status = cs.str "HIGHTRUST" ∨ status = cs.str "hightrust" then some ZKR_ATTR_HIGHTRUST
  else if status = cs.str "NOTRUST" ∨ status = cs.str "notrust" then some ZKR_ATTR_NOTRUST
  else none

def zkr_alter_cert (opts : ZKRAlterOptions) : Run Unit :=
  if opts.label = [] then ⟨[], .error .message⟩
  else
    match status_attributes cs opts.status with
    | none => ⟨[], .error .message⟩
    | some attributes =>
      if opts.status = [] ∧ opts.new_label = [] then ⟨[], .error .message⟩
      else if opts.new_label.length > ZKR_MAX_LABEL_LEN then ⟨[], .error .message⟩
      else
        let alter := Parmlist.data_alter (label_field opts.label) (label_field opts.new_label)
          (cert_userid_field cs opts.owner)
        let p := set_up_r_datalib_parameters ⟨.ALTER, attributes, 0, alter⟩ [] []
        ⟨[p], if saf_failed (sv.IRRSDL64 p) then .error (.saf (sv.IRRSDL64 p)) else .ok ()⟩

/-! `certificates.cpp`. -/

/-- A handler that has failed before any call. -/
def refuse : Run Unit := ⟨[], .error .message⟩

def reject_virtual_ring (ring : Bytes) : Bool := ring = cs.str "*"

def handle_create_ring (owner ring : Bytes) : Run Unit :=
  if reject_virtual_ring cs ring then refuse else zkr_new_ring sv owner ring

def handle_delete_ring (owner ring : Bytes) : Run Unit :=
  if reject_virtual_ring cs ring then refuse else zkr_del_ring sv owner ring

def handle_cert_import (opts : ZKRImportOptions) : Run Unit :=
  if opts.label = [] then refuse
  else if opts.usage = [] then refuse
  else if opts.p12_path = [] then refuse
  else if opts.password = [] then refuse
  else if reject_virtual_ring cs opts.ring then refuse
  else zkr_import_cert cs sv opts

def handle_cert_delete (owner ring label : Bytes) (skip_refresh database : Bool) : Run Unit :=
  if label = [] then refuse
  else if ring = cs.str "*" then refuse
  else if database ∧ ring ≠ [] then refuse
  else if ¬ database ∧ ring = [] then refuse
  else
    let effective_ring := if database then cs.str "*" else ring
    zkr_del_cert cs sv owner effective_ring label skip_refresh

/-- The options have the source ring that is given. -/
def handle_cert_connect (opts : ZKRConnectOptions) (from_database : Bool) : Run Unit :=
  if opts.label = [] then refuse
  else if reject_virtual_ring cs opts.ring then refuse
  else if opts.from_ring = cs.str "*" then refuse
  else if from_database ∧ opts.from_ring ≠ [] then refuse
  else if ¬ from_database ∧ opts.from_ring = [] then refuse
  else
    zkr_connect_cert cs sv
      { opts with from_ring := if from_database then cs.str "*" else opts.from_ring }

def handle_cert_set_default (owner ring label : Bytes) : Run Unit :=
  if label = [] then refuse
  else if reject_virtual_ring cs ring then refuse
  else zkr_set_default cs sv owner ring label

def handle_cert_trust (owner label status : Bytes) : Run Unit :=
  if label = [] then refuse
  else if status = [] then refuse
  else zkr_alter_cert cs sv { owner, label, status }

/-! What the calls name. -/

inductive Command
  | keyring_create (owner ring : Bytes)
  | keyring_delete (owner ring : Bytes)
  | cert_import (opts : ZKRImportOptions)
  | cert_delete (owner ring label : Bytes) (skip_refresh database : Bool)
  | cert_connect (opts : ZKRConnectOptions) (from_database : Bool)
  | cert_set_default (owner ring label : Bytes)
  | cert_trust (owner label status : Bytes)

namespace Command

def handle : Command → Run Unit
  | keyring_create owner ring => handle_create_ring cs sv owner ring
  | keyring_delete owner ring => handle_delete_ring cs sv owner ring
  | cert_import opts => handle_cert_import cs sv opts
  | cert_delete owner ring label skip_refresh database =>
    handle_cert_delete cs sv owner ring label skip_refresh database
  | cert_connect opts from_database => handle_cert_connect cs sv opts from_database
  | cert_set_default owner ring label => handle_cert_set_default cs sv owner ring label
  | cert_trust owner label status => handle_cert_trust cs sv owner label status

/-- The strings that a command is given. -/
def owner : Command → Bytes
  | keyring_create owner _ | keyring_delete owner _ | cert_delete owner _ _ _ _
  | cert_set_default owner _ _ | cert_trust owner _ _ => owner
  | cert_import opts => opts.owner
  | cert_connect opts _ => opts.owner

/-- The ring that it changes. -/
def ring : Command → Bytes
  | keyring_create _ ring | keyring_delete _ ring | cert_set_default _ ring _ => ring
  | cert_delete _ ring _ _ database => if database then cs.str "*" else ring
  | cert_import opts => opts.ring
  | cert_connect opts _ => opts.ring
  | cert_trust _ _ _ => []

/-- The ring that it reads a certificate from. -/
def source : Command → Bytes
  | cert_connect opts from_database => if from_database then cs.str "*" else opts.from_ring
  | command => command.ring cs

def label : Command → Bytes
  | keyring_create _ _ | keyring_delete _ _ => []
  | cert_import opts => opts.label
  | cert_delete _ _ label _ _ | cert_set_default _ _ label | cert_trust _ label _ => label
  | cert_connect opts _ => opts.label

/-- The command is to delete a certificate from the database. -/
def FromDatabase : Command → Prop
  | cert_delete _ ring _ _ database => database = true ∧ ring = []
  | _ => False

/-- The ring stands with a flag that excludes it, or there is neither, or it is the virtual one. -/
def OtherCombination : Command → Prop
  | keyring_create _ ring | keyring_delete _ ring | cert_set_default _ ring _ => ring = cs.str "*"
  | cert_import opts => opts.ring = cs.str "*"
  | cert_delete _ ring _ _ database => ring = cs.str "*" ∨ (database = true ↔ ring ≠ [])
  | cert_connect opts from_database => opts.ring = cs.str "*" ∨ opts.from_ring = cs.str "*" ∨
      (from_database = true ↔ opts.from_ring ≠ [])
  | cert_trust _ _ _ => False

end Command

/-- The user id and the label in the block of a function. -/
def Parmlist.Names (owner label : Bytes) : Parmlist → Prop
  | .none | .data_get | .data_abort => True
  | .data_remove label' CERT_userid => label'.text = label ∧ CERT_userid.text = owner
  | .data_put _ _ _ _ label' cert_userid => label'.text = label ∧ cert_userid.text = owner
  | .data_alter label' _ CERT_userid => label'.text = label ∧ CERT_userid.text = owner

/-- The parameter list denotes the strings of the command. A refresh names nothing, and a change of
a certificate has its user id and its label in the block alone. -/
def Names (command : Command) (p : R_datalib_parm_list_64) : Prop :=
  match p.function_code with
  | .REFRESH => True
  | .ALTER => p.parmlist.Names command.owner command.label
  | .GETCERT | .GETNEXT | .DATA_ABORT =>
    p.RACF_userid.text = command.owner ∧ p.ring_name.text = command.source cs
  | .NEWRING | .DELRING | .IMPORT | .DELCERT =>
    p.RACF_userid.text = command.owner ∧ p.ring_name.text = command.ring cs ∧
      p.parmlist.Names command.owner command.label

def modifies : FunctionCode → Bool
  | .NEWRING | .DELRING | .IMPORT | .DELCERT | .ALTER => true
  | _ => false

/-- A command acts on just what was named. -/
structure OnlyNamed (command : Command) (calls : List R_datalib_parm_list_64) : Prop where
  names : ∀ p ∈ calls, Names cs command p
  virtual_ring : ∀ p ∈ calls, modifies p.function_code = true → p.ring_name.text = cs.str "*" →
    command.FromDatabase
  attributes : ∀ p ∈ calls, p.function_code = .DELCERT → p.attributes ≠ 0 → command.FromDatabase
  combination : command.OtherCombination cs → calls = []

/-- It does so whatever the security manager does. -/
def Exact (command : Command) : Prop :=
  ∀ sv : Services, sv.Documented → OnlyNamed cs command (command.handle cs sv).calls

/-- What a command checks before its first call of the security manager. -/
def Command.Refused : Command → Prop
  | keyring_create _ ring | keyring_delete _ ring => ring = cs.str "*"
  | cert_import opts => opts.label = [] ∨ opts.usage = [] ∨ opts.p12_path = [] ∨
      opts.password = [] ∨ opts.ring = cs.str "*" ∨ opts.label.length ≥ ZKR_MAX_LABEL_LEN ∨
      usage_to_code cs opts.usage = 0
  | cert_delete _ ring label _ database => label = [] ∨ ring = cs.str "*" ∨
      (database = true ↔ ring ≠ [])
  | cert_connect opts from_database => opts.label = [] ∨ opts.ring = cs.str "*" ∨
      opts.from_ring = cs.str "*" ∨ (from_database = true ↔ opts.from_ring ≠ [])
  | cert_set_default _ ring label => label = [] ∨ ring = cs.str "*"
  | cert_trust _ label status => label = [] ∨ status = [] ∨ status_attributes cs status = none

/-- A connect does not come to its put where no certificate can have the label, or where the usage
is none. -/
def Command.NeverPuts : Command → Prop
  | cert_connect opts _ => opts.label.length > ZKR_MAX_LABEL_LEN ∨
      (opts.usage ≠ [] ∧ usage_to_code cs opts.usage = 0)
  | _ => False

/-- The strings have room in their fields. -/
def Command.Fits (command : Command) : Prop :=
  command.owner.length ≤ ZKR_MAX_USERID_LEN ∧
    (command.source cs).length ≤ ZKR_MAX_KEYRING_LEN ∧
    ((command.ring cs).length ≤ ZKR_MAX_KEYRING_LEN ∨ command.NeverPuts cs)

end Zowex.zkr

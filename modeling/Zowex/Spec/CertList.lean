import Mathlib.Data.List.DropRight
import Zowex.Lib.Capped
import Zowex.Spec.KeyRings

/-! The certificates of a key ring: the enumeration of `zkr_list_ring`, the filters of
`zkr_filter_certs`, and `handle_cert_list`. -/

namespace Zowex.zkr

def ZKR_STATUS_TRUST : ℕ := 0x80000000
def ZKR_STATUS_HIGHTRUST : ℕ := 0x40000000
def ZKR_STATUS_NOTRUST : ℕ := 0x20000000

/-- What a fetch fills in. -/
structure R_datalib_data_get where
  label : Bytes
  cert_userid : Bytes
  certificate_usage : ℤ
  certificate_status : ℕ
  Default : ℤ
  deriving DecidableEq

structure ZKRCertInfo where
  label : Bytes
  owner : Bytes
  usage : Bytes
  status : Bytes
  is_default : Bool
  deriving DecidableEq

def END_OF_RING : Response := ⟨8, 8, 44⟩

/-- What `GETCERT` and each `GETNEXT` after it gives: a certificate with 0, and once another code. -/
inductive Fetches
  | stop (response : Response) (h : response.return_code ≠ 0)
  | got (parm : R_datalib_data_get) (next : Fetches)

section

variable (cs : Charset)

def usage_text (certificate_usage : ℤ) : Bytes :=
  if certificate_usage = ZKR_USAGE_PERSONAL then cs.str "PERSONAL"
  else if certificate_usage = ZKR_USAGE_CERTAUTH then cs.str "CERTAUTH"
  else cs.str "OTHER"

def status_text (status : ℕ) : Bytes :=
  if status = ZKR_STATUS_TRUST then cs.str "TRUST"
  else if status = ZKR_STATUS_HIGHTRUST then cs.str "HIGHTRUST"
  else if status = ZKR_STATUS_NOTRUST then cs.str "NOTRUST"
  else cs.str "UNKNOWN"

/-- The entry that `add_cert_item` adds; the user id is without its blanks of EBCDIC. -/
def cert_item (g : R_datalib_data_get) : ZKRCertInfo where
  label := g.label
  owner := g.cert_userid.rdropWhile fun c => c = 0x40
  usage := usage_text cs g.certificate_usage
  status := status_text cs g.certificate_status
  is_default := g.Default ≠ 0

/-- How many times the loop calls `GETNEXT`, and its result. -/
def next_loop (max_entries : ℕ) : Fetches → List ZKRCertInfo →
    ℕ × Except ZkrError (List ZKRCertInfo × Bool)
  | .stop response _, certs =>
    (1, if response = END_OF_RING then .ok (certs, false) else .error (.saf response))
  | .got parm next, certs =>
    if max_entries ≠ 0 ∧ certs.length ≥ max_entries then (1, .ok (certs, true))
    else
      let rest := next_loop max_entries next (certs ++ [cert_item cs parm])
      (rest.1 + 1, rest.2)

variable (fetches : R_datalib_parm_list_64 → Fetches)

def get_first (owner ring : Bytes) : R_datalib_parm_list_64 :=
  set_up_r_datalib_parameters ⟨.GETCERT, ZKR_ATTR_GETCERT, 1, .data_get⟩ owner ring

def zkr_list_ring (owner ring : Bytes) (max_entries : ℕ) : Run (List ZKRCertInfo × Bool) :=
  let first := get_first owner ring
  let next := set_up_r_datalib_parameters ⟨.GETNEXT, ZKR_ATTR_GETCERT, 1, .data_get⟩ owner ring
  let abrt := set_up_r_datalib_parameters ⟨.DATA_ABORT, 0, 0, .data_abort⟩ owner ring
  match fetches first with
  | .stop response _ =>
    ⟨[first], if response = END_OF_RING then .ok ([], false) else .error (.saf response)⟩
  | .got parm rest =>
    let loop := next_loop cs max_entries rest [cert_item cs parm]
    ⟨first :: List.replicate loop.1 next ++ [abrt], loop.2⟩

/-- The loop of `zkr_filter_certs`. -/
def filter_loop (label usage : Bytes) (max_entries : ℕ) :
    List ZKRCertInfo → List ZKRCertInfo → List ZKRCertInfo × Bool
  | [], out => (out, false)
  | it :: certs, out =>
    if label ≠ [] ∧ it.label ≠ label then filter_loop label usage max_entries certs out
    else if usage ≠ [] ∧ it.usage ≠ usage then filter_loop label usage max_entries certs out
    else if max_entries ≠ 0 ∧ out.length ≥ max_entries then (out, true)
    else filter_loop label usage max_entries certs (out ++ [it])

def zkr_filter_certs (certs : List ZKRCertInfo) (label usage : Bytes) (max_entries : ℕ) :
    List ZKRCertInfo × Bool :=
  filter_loop label usage max_entries certs []

structure CertList where
  items : List ZKRCertInfo
  returnedRows : ℕ
  moreAvailable : Bool
  deriving DecidableEq

def has_filter (label_filter usage_filter : Bytes) : Bool := label_filter ≠ [] ∨ usage_filter ≠ []

def handle_cert_list (owner ring label_filter usage_filter : Bytes) (max_entries : ℤ) :
    Run CertList :=
  if max_entries < 0 then ⟨[], .error .message⟩
  else
    let filtered := has_filter label_filter usage_filter
    let listed := zkr_list_ring cs fetches owner ring (if filtered then 0 else max_entries.toNat)
    ⟨listed.calls, listed.result.map fun found =>
      let shown := zkr_filter_certs found.1 label_filter usage_filter max_entries.toNat
      ⟨shown.1, shown.1.length, if filtered then shown.2 else found.2⟩⟩

end

/-! What is to be listed. -/

/-- A code that says neither that there is a certificate nor that there is no other. -/
structure Failure where
  response : Response
  nonzero : response.return_code ≠ 0
  not_end : response ≠ END_OF_RING

/-- A ring, and the fetch that fails, counted from the first one. -/
structure Held where
  certs : List R_datalib_data_get
  failing : Option (ℕ × Failure)

/-- What the calls give, from the n-th one. -/
def fetched (failing : Option (ℕ × Failure)) : ℕ → List R_datalib_data_get → Fetches
  | n, [] =>
    match failing.filter fun failing => failing.1 = n with
    | none => .stop END_OF_RING (by decide)
    | some failing => .stop failing.2.response failing.2.nonzero
  | n, parm :: certs =>
    match failing.filter fun failing => failing.1 = n with
    | none => .got parm (fetched failing (n + 1) certs)
    | some failing => .stop failing.2.response failing.2.nonzero

def Held.fetches (held : Held) : Fetches := fetched held.failing 0 held.certs

/-- The filters are exact; an empty one is none. -/
def Selected (label usage : Bytes) (info : ZKRCertInfo) : Prop :=
  (label = [] ∨ info.label = label) ∧ (usage = [] ∨ info.usage = usage)

instance (label usage : Bytes) : DecidablePred (Selected label usage) :=
  fun _ => inferInstanceAs (Decidable (_ ∧ _))

/-- The entries of a ring that the filters select. -/
def Held.selected (cs : Charset) (held : Held) (label usage : Bytes) : List ZKRCertInfo :=
  (held.certs.map (cert_item cs)).filter fun info => Selected label usage info

/-- How many fetches are needed. A match may be anywhere in the ring, so that with a filter all of
it is; otherwise the fetch after the cap says whether there are more. -/
def Held.needed (held : Held) (label usage : Bytes) (cap : ℕ) : ℕ :=
  if has_filter label usage then held.certs.length + 1
  else Capped.asked cap held.certs.length

def Held.Fails (held : Held) (needed : ℕ) : Prop :=
  ∃ failing, held.failing = some failing ∧ failing.1 < needed

/-- The first entries that the filters select, at most the cap, and whether there are more; an
error if a fetch that is needed fails, and no other. What a first fetch has opened is released
once, at the end. -/
structure ListsFirst (held : Held) (cs : Charset) (label usage : Bytes) (max_entries : ℤ)
    (run : Run CertList) : Prop where
  negative : max_entries < 0 → run.calls = [] ∧ run.result = .error .message
  failed : 0 ≤ max_entries → held.Fails (held.needed label usage max_entries.toNat) →
    ∃ response, run.result = .error (.saf response)
  listed : 0 ≤ max_entries → ¬ held.Fails (held.needed label usage max_entries.toNat) →
    ∃ list, run.result = .ok list ∧
      list.items = Capped.capped max_entries.toNat (held.selected cs label usage) ∧
      list.returnedRows = list.items.length ∧
      (list.moreAvailable = true ↔ list.items.length < (held.selected cs label usage).length)
  released : 0 ≤ max_entries → held.certs ≠ [] → ¬ held.Fails 1 →
    ∃ before last, run.calls = before ++ [last] ∧ last.function_code = .DATA_ABORT ∧
      ∀ p ∈ before, p.function_code ≠ .DATA_ABORT
  nothing_opened : held.certs = [] ∨ held.Fails 1 → ∀ p ∈ run.calls, p.function_code ≠ .DATA_ABORT

end Zowex.zkr

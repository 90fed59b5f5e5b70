import Zowex.Lib.Maps
import Zowex.Proofs.Base64
import Zowex.Proofs.JsonString
import Zowex.Proofs.RpcServer
import Zowex.Spec.Envelope

/-! What a reader of the `--json` envelope finds of the text that a command has written. -/

namespace Zowex.zjson

open Maps

/-- The member of an object. -/
def Entry.field (entry : Entry) (name : Bytes) : Option Entry :=
  match entry with
  | .object fields => (fields.find? fun field => field.1 = name).map Prod.snd
  | _ => none

/-- The string that an entry stands for. -/
def Entry.read_string (cs : Charset) (entry : Entry) : Option Bytes :=
  match entry with
  | .string text => (unescape_json_string cs text).toOption
  | _ => none

section

variable {sys : Platform} {svc : TextServices}

theorem field_entries_eq (fields : List (Bytes × Value)) :
    field_entries sys svc fields = fields.map fun f => (f.1, value_to_entry sys svc f.2) := by
  induction fields with
  | nil => rw [field_entries, List.map_nil]
  | cons f fields ih => rw [field_entries, List.map_cons, ih]

/-- A conversion of all fields that succeeds has converted the first one of a name. -/
theorem find_converted {fields : List (Bytes × Except Error Entry)}
    {entries : List (Bytes × Entry)}
    (h : (fields.mapM fun field => field.2.map fun entry => (field.1, entry)) = .ok entries)
    (name : Bytes) :
    (fields.find? fun field => field.1 = name) =
      (entries.find? fun entry => entry.1 = name).map fun entry => (entry.1, .ok entry.2) := by
  induction fields generalizing entries with
  | nil =>
    obtain rfl := Except.ok.inj h
    rfl
  | cons field fields ih =>
    obtain ⟨key, value⟩ := field
    rw [List.mapM_cons] at h
    rcases value with error | value
    · cases h
    rcases hrest : fields.mapM fun field => field.2.map fun entry => (field.1, entry) with
      error | rest
    · rw [hrest] at h
      cases h
    rw [hrest] at h
    obtain rfl := Except.ok.inj h
    rw [List.find?_cons, List.find?_cons, ih hrest]
    by_cases hname : key = name
    · simp [hname]
    · simp [hname]

theorem find_toList {β : Type} (m : Std.ExtTreeMap Bytes β compare) (name : Bytes) :
    (m.toList.find? fun e => e.1 = name) = m[name]?.map fun x => (name, x) := by
  rcases h : m[name]? with _ | x
  · rw [Option.map_none, List.find?_eq_none]
    rintro ⟨key, x⟩ hmem hkey
    obtain rfl : key = name := by simpa using hkey
    rw [Std.ExtTreeMap.mem_toList_iff_getElem?_eq_some.mp hmem] at h
    cases h
  · exact find_of_mem toList_keys_nodup (Std.ExtTreeMap.mem_toList_iff_getElem?_eq_some.mpr h)

/-- The member of an object is converted from the last one that was put there. -/
theorem value_to_entry_field {fields : List (Bytes × Value)} {entry : Entry}
    (h : value_to_entry sys svc (.object fields) = .ok entry) (name : Bytes) :
    (fields.reverse.find? fun f => f.1 = name).map (fun f => value_to_entry sys svc f.2) =
      (entry.field name).map .ok := by
  rw [value_to_entry] at h
  rcases hentries : in_map_order (field_entries sys svc fields) with error | entries
  · rw [hentries] at h
    cases h
  rw [hentries] at h
  obtain rfl := Except.ok.inj h
  have hfound := find_converted hentries name
  rw [find_toList] at hfound
  have hwritten := getElem?_write_all (m := (∅ : Std.ExtTreeMap Bytes (Except Error Entry) compare))
    id (field_entries sys svc fields) name
  rw [field_entries_eq, ← List.map_reverse, List.find?_map] at hwritten
  calc (fields.reverse.find? fun f => f.1 = name).map (fun f => value_to_entry sys svc f.2)
      = (write_all id ∅ (field_entries sys svc fields))[name]? := by
        rw [field_entries_eq, hwritten]
        simp [Function.comp_def]
    _ = ((write_all id ∅ (field_entries sys svc fields))[name]?.map fun x => (name, x)).map
          Prod.snd := by
        simp [Function.comp_def]
    _ = ((entries.find? fun entry => entry.1 = name).map fun entry => (entry.1, .ok entry.2)).map
          Prod.snd := congrArg _ hfound
    _ = ((Entry.object entries).field name).map .ok := by
        simp [Entry.field, Function.comp_def]

/-- The members of a written object. -/
theorem field_of_find {fields : List (Bytes × Value)} {entry : Entry} {name : Bytes}
    {field : Bytes × Value} (h : value_to_entry sys svc (.object fields) = .ok entry)
    (hfield : (fields.reverse.find? fun f => f.1 = name) = some field) :
    ∃ member, value_to_entry sys svc field.2 = .ok member ∧ entry.field name = some member := by
  have hmember := value_to_entry_field h name
  rw [hfield] at hmember
  rcases hentry : entry.field name with _ | member
  · rw [hentry] at hmember
    cases hmember
  · rw [hentry] at hmember
    exact ⟨member, Option.some.inj hmember, rfl⟩

/-- A text is written from what the value is converted to. -/
theorem written_of_ok {value : Value} {text : Bytes}
    (h : object_to_json_string sys svc value = .ok text) :
    ∃ entry, value_to_entry sys svc value = .ok entry ∧ svc.ZJSMSERI entry = some text := by
  rw [object_to_json_string] at h
  rcases hentry : value_to_entry sys svc value with error | entry
  · rw [hentry] at h
    cases h
  · rw [hentry] at h
    dsimp only [bind, Except.bind] at h
    rcases hwritten : svc.ZJSMSERI entry with _ | text'
    · rw [hwritten] at h
      cases h
    · rw [hwritten] at h
      obtain rfl := Except.ok.inj h
      exact ⟨entry, rfl, hwritten⟩

theorem field_of_find_none {fields : List (Bytes × Value)} {entry : Entry} {name : Bytes}
    (h : value_to_entry sys svc (.object fields) = .ok entry)
    (hfield : (fields.reverse.find? fun f => f.1 = name) = none) : entry.field name = none := by
  have hmember := value_to_entry_field h name
  rw [hfield] at hmember
  exact Option.map_eq_none_iff.mp hmember.symm

end

end Zowex.zjson

namespace Zowex.zbase64

theorem sextet_mem (combined shift : ℕ) : sextet combined shift ∈ encode_table_ascii := by
  have hsize : encode_table_ascii.length = 64 := by decide
  have hindex : combined >>> shift &&& 0x3f < encode_table_ascii.length :=
    hsize ▸ Nat.lt_succ_of_le Nat.and_le_right
  rw [sextet, List.getD_eq_getElem?_getD, List.getElem?_eq_getElem hindex]
  exact List.getElem_mem hindex

theorem mem_encode_tail {src : Bytes} {full_blocks remaining : ℕ} {c : UInt8}
    (h : c ∈ encode_tail src full_blocks remaining) : c ∈ pad :: encode_table_ascii := by
  simp only [encode_tail, List.mem_cons, List.not_mem_nil, or_false] at h
  rcases h with rfl | rfl | rfl | rfl
  · exact List.mem_cons_of_mem _ (sextet_mem _ _)
  · exact List.mem_cons_of_mem _ (sextet_mem _ _)
  · by_cases hremaining : remaining > 1
    · rw [if_pos hremaining]
      exact List.mem_cons_of_mem _ (sextet_mem _ _)
    · rw [if_neg hremaining]
      exact List.mem_cons_self
  · exact List.mem_cons_self

/-- A base64 text is made of the letters of the alphabet and of padding. -/
theorem mem_encode {input : Bytes} {c : UInt8} (h : c ∈ encode input) :
    c ∈ pad :: encode_table_ascii := by
  rw [encode_eq_groups] at h
  fun_induction encode_groups input with
  | case1 b0 b1 b2 rest ih =>
    rcases List.mem_append.mp h with h | h
    · simp only [encode_block, List.mem_cons, List.not_mem_nil, or_false] at h
      apply List.mem_cons_of_mem
      rcases h with rfl | rfl | rfl | rfl <;> exact sextet_mem _ _
    · exact ih h
  | case2 => exact mem_encode_tail h
  | case3 => exact mem_encode_tail h
  | case4 => cases h

theorem iscntrl_alphabet : ∀ c ∈ pad :: encode_table_ascii, ibm1047.iscntrl c = false := by
  decide +kernel

end Zowex.zbase64

namespace Zowex.json_output

open zjson

variable {sys : Platform} {svc : TextServices}

/-- The text that a handler has written belongs into the envelope: there is one, it is the payload
or all there is, and nothing else is there under its name. -/
def Carries (sys : Platform) (envelope : Envelope) : Prop :=
  envelope.captured_out ≠ [] ∧
    (build_data sys envelope.data).as_object.contains (sys.cs.str "data") = false ∧
      (envelope.stdout_is_payload = true ∨
        (build_data sys envelope.data).as_object.isEmpty = true)

/-- The string under `data` of the result. -/
def payload_text (cs : Charset) (root : Entry) : Option Bytes :=
  ((root.field (cs.str "data")).bind fun data => data.field (cs.str "data")).bind
    (Entry.read_string cs)

/-- The reader finds the text, or what is marked as its base64 text. -/
def Keeps (cs : Charset) (root : Entry) (output : Bytes) : Prop :=
  (root.field (cs.str "encoding") = none ∧ payload_text cs root = some output) ∨
    ((root.field (cs.str "encoding")).bind (Entry.read_string cs) = some (cs.str "base64") ∧
      ∃ encoded, payload_text cs root = some encoded ∧ zbase64.decode encoded = .ok output)

theorem read_escaped {text : Bytes} (h : is_json_safe_text sys text = true) :
    Entry.read_string sys.cs (.string (escape_json_string sys.cs text)) = some text := by
  have hsafe : ∀ c ∈ text, sys.cs.iscntrl c = true → c ∈ escapes.map sys.cs.code := by
    intro c hc hcntrl
    have hsafe := List.all_eq_true.mp h c hc
    rw [hcntrl, Bool.not_true, Bool.or_false, decide_eq_true_eq] at hsafe
    exact hsafe
  rw [Entry.read_string, (unescape_escape sys.cs text).1 hsafe]
  rfl

/-- The object that goes under `data`. -/
def envelope_data (sys : Platform) (envelope : Envelope) : Value :=
  let data := build_data sys envelope.data
  let payload := resolve_payload sys envelope data
  if payload.present then data.add_to_object (sys.cs.str "data") (.string payload.text) else data

def root_fields (sys : Platform) (envelope : Envelope) : List (Bytes × Value) :=
  let payload := resolve_payload sys envelope (build_data sys envelope.data)
  [(sys.cs.str "success", .bool (envelope.exit_code = 0)),
      (sys.cs.str "exitCode", .integer envelope.exit_code),
      (sys.cs.str "data", envelope_data sys envelope),
      (sys.cs.str "stderr", .string (diagnostics envelope))] ++
    (if payload.encoded then [(sys.cs.str "encoding", .string (sys.cs.str "base64"))] else []) ++
    if payload.truncated then [(sys.cs.str "truncated", .bool true)] else []

theorem envelope_root_eq (envelope : Envelope) :
    envelope_root sys envelope = .object (root_fields sys envelope) := rfl

/-- The names in the envelope are different ones. -/
theorem names_apart (hcs : sys.cs = ibm1047) :
    (["success", "exitCode", "data", "stderr", "encoding", "truncated"].map sys.cs.str).Nodup := by
  rw [hcs]
  decide +kernel

theorem find_root_data (hcs : sys.cs = ibm1047) (envelope : Envelope) :
    ((root_fields sys envelope).reverse.find? fun f => f.1 = sys.cs.str "data") =
      some (sys.cs.str "data", envelope_data sys envelope) := by
  have hnames := names_apart hcs
  simp only [List.map_cons, List.map_nil, List.nodup_cons, List.mem_cons, List.not_mem_nil,
    or_false, not_or] at hnames
  obtain ⟨-, -, ⟨hstderr, hencoding, htruncated⟩, -⟩ := hnames
  rw [root_fields]
  split_ifs <;> simp [Ne.symm hstderr, Ne.symm hencoding, Ne.symm htruncated]

theorem find_root_encoding (hcs : sys.cs = ibm1047) (envelope : Envelope) :
    ((root_fields sys envelope).reverse.find? fun f => f.1 = sys.cs.str "encoding") =
      if (resolve_payload sys envelope (build_data sys envelope.data)).encoded then
        some (sys.cs.str "encoding", .string (sys.cs.str "base64"))
      else none := by
  have hnames := names_apart hcs
  simp only [List.map_cons, List.map_nil, List.nodup_cons, List.mem_cons, List.not_mem_nil,
    or_false, not_or] at hnames
  obtain ⟨⟨-, -, -, hsuccess, -⟩, ⟨-, -, hexit, -⟩, ⟨-, hdata, -⟩, ⟨hstderr, -⟩, htruncated, -⟩ :=
    hnames
  rw [root_fields]
  split_ifs <;> simp [hsuccess, hexit, hdata, hstderr, Ne.symm htruncated]

/-- What is made of the text, where it goes into the envelope. -/
theorem resolve_payload_carried {envelope : Envelope} (h : Carries sys envelope)
    (hlimit : envelope.captured_out.length ≤ MAX_PAYLOAD_BYTES) :
    resolve_payload sys envelope (build_data sys envelope.data) =
      if is_json_safe_text sys envelope.captured_out then
        ⟨envelope.captured_out, true, false, false⟩
      else ⟨zbase64.encode envelope.captured_out, true, true, false⟩ := by
  obtain ⟨hout, hdata, hpayload⟩ := h
  have htake : envelope.captured_out.take MAX_PAYLOAD_BYTES = envelope.captured_out :=
    List.take_of_length_le hlimit
  have hdropped : ¬ (!envelope.stdout_is_payload &&
      !(build_data sys envelope.data).as_object.isEmpty) = true := by
    rcases hpayload with hpayload | hpayload <;> simp [hpayload]
  have htruncated : decide (envelope.captured_out.length > MAX_PAYLOAD_BYTES) = false :=
    decide_eq_false (Nat.not_lt.mpr hlimit)
  rw [resolve_payload, if_neg hout]
  dsimp only
  rw [if_neg (by simp [hdata]), if_neg hdropped, htake, htruncated]

theorem resolve_payload_dropped {envelope : Envelope} (h : ¬ Carries sys envelope) :
    resolve_payload sys envelope (build_data sys envelope.data) = no_payload := by
  rw [resolve_payload]
  by_cases hout : envelope.captured_out = []
  · rw [if_pos hout]
  rw [if_neg hout]
  dsimp only
  by_cases hdata : (build_data sys envelope.data).as_object.contains (sys.cs.str "data") = true
  · rw [if_pos hdata]
  rw [if_neg hdata, if_pos]
  rw [Bool.and_eq_true, Bool.not_eq_true', Bool.not_eq_true']
  constructor
  · by_contra hpayload
    exact h ⟨hout, Bool.eq_false_iff.mpr hdata, .inl (by simpa using hpayload)⟩
  · by_contra hempty
    exact h ⟨hout, Bool.eq_false_iff.mpr hdata, .inr (by simpa using hempty)⟩

theorem build_data_object (sys : Platform) (data : Option Value) :
    ∃ fields, build_data sys data = .object fields := by
  rcases data with _ | data
  · exact ⟨[], rfl⟩
  · cases data with
    | object fields => exact ⟨fields, rfl⟩
    | _ => exact ⟨[(sys.cs.str "value", _)], rfl⟩

/-- A text under `data` is found again. -/
theorem field_data_added {fields : List (Bytes × Value)} {text : Bytes} {entry : Entry}
    (h : value_to_entry sys svc
      ((Value.object fields).add_to_object (sys.cs.str "data") (.string text)) = .ok entry) :
    entry.field (sys.cs.str "data") = some (.string (escape_json_string sys.cs text)) := by
  have hfind : ((fields ++ [(sys.cs.str "data", Value.string text)]).reverse.find?
      fun f => f.1 = sys.cs.str "data") = some (sys.cs.str "data", .string text) := by
    simp
  obtain ⟨member, hmember, hfield⟩ := field_of_find h hfind
  rw [value_to_entry] at hmember
  rw [hfield, ← Except.ok.inj hmember]

theorem encoded_safe (hcs : sys.cs = ibm1047) (output : Bytes) :
    is_json_safe_text sys (zbase64.encode output) = true := by
  refine List.all_eq_true.mpr fun c hc => ?_
  rw [hcs, zbase64.iscntrl_alphabet c (zbase64.mem_encode hc)]
  simp

theorem base64_mark_safe (hcs : sys.cs = ibm1047) :
    is_json_safe_text sys (sys.cs.str "base64") = true := by
  rw [is_json_safe_text, hcs]
  decide +kernel

theorem root_encoding (hcs : sys.cs = ibm1047) {envelope : Envelope} {root : Entry}
    (h : value_to_entry sys svc (envelope_root sys envelope) = .ok root) :
    root.field (sys.cs.str "encoding") =
      if (resolve_payload sys envelope (build_data sys envelope.data)).encoded then
        some (.string (escape_json_string sys.cs (sys.cs.str "base64")))
      else none := by
  have hfind := find_root_encoding hcs envelope
  by_cases hencoded : (resolve_payload sys envelope (build_data sys envelope.data)).encoded = true
  · rw [if_pos hencoded] at hfind ⊢
    obtain ⟨member, hmember, hfield⟩ := field_of_find h hfind
    rw [value_to_entry] at hmember
    rw [hfield, ← Except.ok.inj hmember]
  · rw [if_neg hencoded] at hfind ⊢
    exact field_of_find_none h hfind

/-- The text under `data`, where it was put there. -/
theorem payload_text_eq (hcs : sys.cs = ibm1047) {envelope : Envelope} {root : Entry}
    {text : Bytes} (h : value_to_entry sys svc (envelope_root sys envelope) = .ok root)
    (hpresent : (resolve_payload sys envelope (build_data sys envelope.data)).present = true)
    (htext : (resolve_payload sys envelope (build_data sys envelope.data)).text = text)
    (hsafe : is_json_safe_text sys text = true) : payload_text sys.cs root = some text := by
  obtain ⟨data, hdata, hroot⟩ := field_of_find h (find_root_data hcs envelope)
  obtain ⟨fields, hfields⟩ := build_data_object sys envelope.data
  rw [envelope_data] at hdata
  dsimp only at hdata
  rw [if_pos hpresent, htext, hfields] at hdata
  rw [payload_text, hroot, Option.bind_some, field_data_added hdata, Option.bind_some,
    read_escaped hsafe]

theorem keeps_of_carries (hcs : sys.cs = ibm1047) {envelope : Envelope} {root : Entry}
    (h : value_to_entry sys svc (envelope_root sys envelope) = .ok root)
    (hlimit : envelope.captured_out.length ≤ MAX_PAYLOAD_BYTES) (hcarries : Carries sys envelope) :
    Keeps sys.cs root envelope.captured_out := by
  have hpayload := resolve_payload_carried hcarries hlimit
  have hencoding := root_encoding hcs h
  by_cases hsafe : is_json_safe_text sys envelope.captured_out = true
  · rw [if_pos hsafe] at hpayload
    rw [hpayload] at hencoding
    exact .inl ⟨hencoding, payload_text_eq hcs h (by rw [hpayload]) (by rw [hpayload]) hsafe⟩
  · rw [if_neg hsafe] at hpayload
    rw [hpayload] at hencoding
    refine .inr ⟨?_, _, payload_text_eq hcs h (by rw [hpayload]) (by rw [hpayload])
      (encoded_safe hcs _), zbase64.decode_encode _⟩
    rw [hencoding, if_pos rfl, Option.bind_some, read_escaped (base64_mark_safe hcs)]

/-- Of a text within the limit, the envelope has what the reader gets back exactly, or nothing. -/
theorem serialize_keeps (hcs : sys.cs = ibm1047) (hreads : svc.Reads) (envelope : Envelope)
    (hlimit : envelope.captured_out.length ≤ MAX_PAYLOAD_BYTES) :
    (∃ error, object_to_json_string sys svc (envelope_root sys envelope) = .error error ∧
        serialize sys svc envelope = fallback sys envelope) ∨
      ∃ root, svc.ZJSMPARS (serialize sys svc envelope) = some root ∧
        (Carries sys envelope → Keeps sys.cs root envelope.captured_out) ∧
        (¬ Carries sys envelope → root.field (sys.cs.str "encoding") = none ∧
          ∃ data, value_to_entry sys svc (build_data sys envelope.data) = .ok data ∧
            root.field (sys.cs.str "data") = some data) := by
  rcases htext : object_to_json_string sys svc (envelope_root sys envelope) with error | text
  · exact .inl ⟨error, rfl, by rw [serialize, htext]⟩
  · refine .inr ?_
    have hserialize : serialize sys svc envelope = text := by rw [serialize, htext]
    obtain ⟨root, hroot, hwritten⟩ := written_of_ok htext
    refine ⟨root, by rw [hserialize, hreads root text hwritten], ?_, fun hdropped => ⟨?_, ?_⟩⟩
    · exact keeps_of_carries hcs hroot hlimit
    · rw [root_encoding hcs hroot, resolve_payload_dropped hdropped]
      rfl
    · obtain ⟨data, hdata, hfield⟩ := field_of_find hroot (find_root_data hcs envelope)
      rw [envelope_data] at hdata
      dsimp only at hdata
      rw [resolve_payload_dropped hdropped] at hdata
      exact ⟨data, hdata, hfield⟩

open Classical in
/-- Services that write and read one text. -/
noncomputable def services_of (known : Entry) (written : Bytes) : TextServices where
  ZJSMSERI entry := if entry = known then some written else none
  ZJSMPARS text := if text = written then some known else none
  print_double _ := []

theorem services_of_reads (known : Entry) (written : Bytes) :
    (services_of known written).Reads := by
  intro entry text h
  dsimp only [services_of] at h ⊢
  split_ifs at h with hknown
  rw [if_pos (Option.some.inj h).symm, hknown]

def envelope_platform : Platform := server.platform_reading []

/-- The envelope of a command that is done. -/
def done_envelope (data : Option Value) (captured_out : Bytes) : Envelope where
  exit_code := 0
  data := data
  captured_out := captured_out
  captured_err := []
  error_message := []
  stdout_is_payload := false

def done_entry (fields : List (Bytes × Entry)) (mark : List (Bytes × Entry)) : Entry :=
  .object ([(ibm1047.str "data", .object fields)] ++ mark ++
    [(ibm1047.str "exitCode", .number (ibm1047.str "0")), (ibm1047.str "stderr", .string []),
      (ibm1047.str "success", .bool true)])

/-- `X'00'` as base64. -/
def dump_entry : Entry :=
  done_entry [(ibm1047.str "data", .string (ibm1047.str "AA=="))]
    [(ibm1047.str "encoding", .string (ibm1047.str "base64"))]

def dump_text : Bytes :=
  ibm1047.str "\x7b\"data\":\x7b\"data\":\"AA==\"\x7d,\"encoding\":\"base64\"," ++
    ibm1047.str "\"exitCode\":0,\"stderr\":\"\",\"success\":true\x7d"

theorem serialize_keeps_dump :
    (∃ error, object_to_json_string envelope_platform (services_of dump_entry dump_text)
          (envelope_root envelope_platform (done_envelope none [0])) = .error error ∧
        serialize envelope_platform (services_of dump_entry dump_text)
            (done_envelope none [0]) =
          fallback envelope_platform (done_envelope none [0])) ∨
      ∃ root, (services_of dump_entry dump_text).ZJSMPARS
          (serialize envelope_platform (services_of dump_entry dump_text)
            (done_envelope none [0])) = some root ∧
        (Carries envelope_platform (done_envelope none [0]) → Keeps ibm1047 root [0]) ∧
        (¬ Carries envelope_platform (done_envelope none [0]) →
          root.field (ibm1047.str "encoding") = none ∧
            ∃ data, value_to_entry envelope_platform (services_of dump_entry dump_text)
                (build_data envelope_platform none) = .ok data ∧
              root.field (ibm1047.str "data") = some data) :=
  serialize_keeps rfl (services_of_reads _ _) (done_envelope none [0]) (by decide)

def rows_value : Value := .object [(ibm1047.str "rows", .integer 1)]

def rows_entry : Entry := done_entry [(ibm1047.str "rows", .number (ibm1047.str "1"))] []

def rows_text : Bytes :=
  ibm1047.str "\x7b\"data\":\x7b\"rows\":1\x7d,\"exitCode\":0,\"stderr\":\"\"," ++
    ibm1047.str "\"success\":true\x7d"

/-- Beside the fields of the handler its text is left out. -/
theorem rows_dropped :
    ∃ root, (services_of rows_entry rows_text).ZJSMPARS
        (serialize envelope_platform (services_of rows_entry rows_text)
          (done_envelope (some rows_value) (ibm1047.str "1 row"))) = some root ∧
      ¬ Keeps ibm1047 root (ibm1047.str "1 row") := by
  have hentry : value_to_entry envelope_platform (services_of rows_entry rows_text)
      (envelope_root envelope_platform (done_envelope (some rows_value) (ibm1047.str "1 row"))) =
        .ok rows_entry := rfl
  have htext : object_to_json_string envelope_platform (services_of rows_entry rows_text)
      (envelope_root envelope_platform (done_envelope (some rows_value) (ibm1047.str "1 row"))) =
        .ok rows_text := by
    rw [object_to_json_string, hentry]
    simp [bind, Except.bind, services_of]
  refine ⟨rows_entry, ?_, ?_⟩
  · have hserialize : serialize envelope_platform (services_of rows_entry rows_text)
        (done_envelope (some rows_value) (ibm1047.str "1 row")) = rows_text := by
      rw [serialize, htext]
    rw [hserialize]
    simp [services_of]
  · have hnone : payload_text ibm1047 rows_entry = none := by decide +kernel
    rintro (⟨-, htext⟩ | ⟨-, _, htext, -⟩)
    · rw [hnone] at htext
      cases htext
    · rw [hnone] at htext
      cases htext

end Zowex.json_output

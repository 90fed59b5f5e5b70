import Zowex.Proofs.RpcServer

/-! What a validation that succeeds establishes, and which requests reach their handler. -/

namespace Zowex

open zjson

namespace validator

variable {cs : Charset} {allow : Bool} {schema : List FieldDescriptor} {params : Value}

theorem validate_fields_eq_ok (obj : ObjectMap) (parent_field : Bytes)
    (schema : List FieldDescriptor) :
    validate_fields cs allow obj parent_field schema = .ok () ↔
      ∀ field ∈ schema, validate_field cs allow obj parent_field field = .ok () := by
  induction schema with
  | nil => simp [validate_fields]
  | cons field schema ih =>
    rw [validate_fields, List.forall_mem_cons, ← ih]
    cases validate_field cs allow obj parent_field field with
    | error message => simp [bind, Except.bind]
    | ok u => simp [bind, Except.bind]

theorem validate_nested_ok {parent_field path : Bytes} {value : Value}
    (h : validate_nested cs allow parent_field path value (some schema) = .ok ()) :
    value.is_object = true ∧ validate_fields cs allow value.as_object path schema = .ok () ∧
      check_unknown_fields cs allow schema path value.as_object = .ok () := by
  rw [validate_nested] at h
  split_ifs at h with hp ho
  refine ⟨by simpa using ho, ?_⟩
  cases hf : validate_fields cs allow value.as_object path schema with
  | error message => simp [hf, bind, Except.bind] at h
  | ok u => exact ⟨rfl, by simpa [hf, bind, Except.bind] using h⟩

theorem check_unknown_fields_ok {path : Bytes} {obj : ObjectMap}
    (h : check_unknown_fields cs allow schema path obj = .ok ()) :
    allow = true ∨ ∀ key ∈ obj, ∃ field ∈ schema, field.name = key := by
  rw [check_unknown_fields] at h
  split_ifs at h with ha
  · exact .inl ha
  · right
    intro key hkey
    split at h
    · contradiction
    · next hn =>
      rw [List.find?_eq_none] at hn
      obtain ⟨value, hv⟩ := Option.isSome_iff_exists.mp
        (Std.ExtTreeMap.mem_iff_isSome_getElem?.mp hkey)
      simpa using hn _ (Std.ExtTreeMap.mem_toList_iff_getElem?_eq_some.mpr hv)

/-- What the body of the loop has checked of a field the object has. -/
structure Checked (cs : Charset) (allow : Bool) (parent_field : Bytes) (field : FieldDescriptor)
    (value : Value) : Prop where
  typed : check_type value field.type = true
  nested : ∀ nested, field.type = .TYPE_OBJECT → field.nested_schema = some nested →
    validate_nested cs allow parent_field field.name value (some nested) = .ok ()
  element : ∀ first rest, field.type = .TYPE_ARRAY → value = .array (first :: rest) →
    check_type first field.array_element_type = true
  nested_element : ∀ first rest nested, field.type = .TYPE_ARRAY →
    value = .array (first :: rest) → field.array_element_type = .TYPE_OBJECT →
      field.nested_schema = some nested →
        validate_nested cs allow parent_field (field.name ++ cs.str "[0]") first (some nested) =
          .ok ()

theorem validate_field_ok {obj : ObjectMap} {parent_field : Bytes} {field : FieldDescriptor}
    (h : validate_field cs allow obj parent_field field = .ok ()) :
    (obj[field.name]? = none ∧ field.required = false) ∨
      ∃ value, obj[field.name]? = some value ∧
        ((value.is_null = true ∧ field.required = false) ∨
          Checked cs allow parent_field field value) := by
  obtain ⟨name, type, required, array_element_type, nested_schema⟩ := field
  rw [validate_field] at h
  cases hv : obj[name]? with
  | none =>
    rw [hv] at h
    cases required with
    | false => exact .inl ⟨rfl, rfl⟩
    | true => simp at h
  | some value =>
    refine .inr ⟨value, rfl, ?_⟩
    simp only [hv] at h
    by_cases hnull : value.is_null = true ∧ (!required) = true
    · exact .inl ⟨hnull.1, by simpa using hnull.2⟩
    rw [if_neg hnull] at h
    right
    by_cases htype : check_type value type = true
    swap
    · rw [if_pos (by simpa using htype)] at h
      contradiction
    rw [if_neg (by simpa using htype)] at h
    split at h
    · refine ⟨htype, ?_, nofun, nofun⟩
      rintro nested - rfl
      exact h
    · next first rest =>
      refine ⟨htype, nofun, ?_, ?_⟩
      · rintro _ _ - ⟨⟩
        by_contra hfirst
        by_cases hany : array_element_type = .TYPE_ANY
        · subst hany
          exact hfirst rfl
        · rw [if_neg hany, if_pos (by simpa using hfirst)] at h
          contradiction
      · rintro _ _ nested - ⟨⟩ rfl rfl
        rw [if_neg nofun] at h
        split_ifs at h with hfirst hobj
        · exact h
        · exact absurd rfl hobj
    · next hobj harr =>
      refine ⟨htype, ?_, ?_, ?_⟩
      · rintro nested rfl
        exact absurd rfl hobj
      · rintro first rest rfl rfl
        exact absurd rfl (harr first rest rfl)
      · rintro first rest nested rfl rfl
        exact absurd rfl (harr first rest rfl)

theorem sizeOf_nested_schema {field : FieldDescriptor} {nested : List FieldDescriptor}
    (hf : field ∈ schema) (hn : field.nested_schema = some nested) :
    sizeOf nested < sizeOf schema := by
  have h := List.sizeOf_lt_of_mem hf
  obtain ⟨name, type, required, array_element_type, nested_schema⟩ := field
  subst hn
  simp only [FieldDescriptor.mk.sizeOf_spec, Option.some.sizeOf_spec] at h
  omega

theorem satisfies_of_validated (schema : List FieldDescriptor) (params : Value) (path : Bytes)
    (hobj : params.is_object = true)
    (hf : validate_fields cs allow params.as_object path schema = .ok ())
    (hu : check_unknown_fields cs allow schema path params.as_object = .ok ()) :
    Satisfies allow schema params := by
  rw [validate_fields_eq_ok] at hf
  have checked : ∀ field ∈ schema, ∀ value, params.as_object[field.name]? = some value →
      (value.is_null = true ∧ field.required = false) ∨ Checked cs allow path field value := by
    intro field hmem value hv
    rcases validate_field_ok (hf field hmem) with ⟨hn, -⟩ | ⟨v, hv', h⟩
    · rw [hv] at hn; contradiction
    · rw [hv] at hv'
      cases hv'
      exact h
  refine ⟨hobj, ?_, ?_, ?_, ?_, ?_, check_unknown_fields_ok hu⟩
  · intro field hmem hreq
    rcases validate_field_ok (hf field hmem) with ⟨-, hr⟩ | ⟨v, hv, -⟩
    · rw [hreq] at hr; contradiction
    · exact Std.ExtTreeMap.mem_iff_isSome_getElem?.mpr (Option.isSome_iff_exists.mpr ⟨v, hv⟩)
  · intro field hmem value hv
    exact (checked field hmem value hv).imp_right Checked.typed
  · intro field hmem value nested hv hov htype hn
    rcases checked field hmem value hv with ⟨hnull, -⟩ | h
    · cases value <;> contradiction
    · obtain ⟨ho, hf', hu'⟩ := validate_nested_ok (h.nested nested htype hn)
      exact satisfies_of_validated nested value _ ho hf' hu'
  · intro field hmem first rest hv htype
    rcases checked field hmem _ hv with ⟨hnull, -⟩ | h
    · contradiction
    · exact h.element first rest htype rfl
  · intro field hmem first rest nested hv htype helt hn
    rcases checked field hmem _ hv with ⟨hnull, -⟩ | h
    · contradiction
    · obtain ⟨ho, hf', hu'⟩ := validate_nested_ok (h.nested_element first rest nested htype rfl helt hn)
      exact satisfies_of_validated nested first _ ho hf' hu'
termination_by sizeOf schema
decreasing_by all_goals exact sizeOf_nested_schema hmem hn

theorem validate_schema_sound (h : validate_schema cs allow params schema = .ok ()) :
    Satisfies allow schema params := by
  rw [validate_schema] at h
  split_ifs at h with ho
  cases hf : validate_fields cs allow params.as_object [] schema with
  | error message => simp [hf, bind, Except.bind] at h
  | ok u =>
    refine satisfies_of_validated schema params [] (by simpa using ho) hf ?_
    simpa [hf, bind, Except.bind] using h

theorem satisfies_create_object :
    Satisfies true schema Value.create_object ↔ ∀ field ∈ schema, field.required = false := by
  have hnone : ∀ key : Bytes, Value.create_object.as_object[key]? = none := by
    intro key
    simp [Value.create_object, Value.as_object]
  constructor
  · rintro ⟨-, hreq, -⟩ field hmem
    by_contra hr
    have hin := Std.ExtTreeMap.mem_iff_isSome_getElem?.mp (hreq field hmem (by simpa using hr))
    rw [hnone] at hin
    contradiction
  · intro hopt
    refine ⟨rfl, ?_, ?_, ?_, ?_, ?_, .inl rfl⟩
    · intro field hmem hr
      rw [hopt field hmem] at hr
      contradiction
    · intro field _ value hv
      rw [hnone] at hv
      contradiction
    · intro field _ value nested hv
      rw [hnone] at hv
      contradiction
    · intro field _ first rest hv
      rw [hnone] at hv
      contradiction
    · intro field _ first rest nested hv
      rw [hnone] at hv
      contradiction

end validator

namespace server

open validator

variable {sys : Platform} {commands : CommandMap} {request_data : Bytes} {request : RpcRequest}
  {builder : CommandBuilder} {schema : List FieldDescriptor}

/-- Absent and null parameters count as the empty object. -/
def RpcRequest.effective_params (request : RpcRequest) : Value :=
  request.params.getD Value.create_object

theorem validate_request_eq (hb : commands[request.method]? = some builder)
    (hs : builder.request_schema = some schema) :
    validate_request sys commands request = match request.params with
      | some params => validate_schema sys.cs true params schema
      | none => .ok () := by
  rw [validate_request]
  cases request.params with
  | none => rfl
  | some params => simp only [validate_json_with_schema, hb, ↓reduceIte, hs]

/-- The claim of the interface: a handler sees only what satisfies the schema, and everything
else is answered with an error. -/
theorem handler_guarded_iff (hr : RpcRequest.from_str sys request_data = .ok request)
    (hb : commands[request.method]? = some builder) (hs : builder.request_schema = some schema) :
    (((process_request sys commands request_data).invoked.isSome = true →
        Satisfies true schema request.effective_params) ∧
      (¬Satisfies true schema request.effective_params →
        (process_request sys commands request_data).invoked = none ∧
        (process_request sys commands request_data).response.error.isSome = true)) ↔
    (request.params.isSome = true ∨ ∀ field ∈ schema, field.required = false) := by
  have hv : validate_request sys commands request = _ := validate_request_eq hb hs
  cases hp : request.params with
  | none =>
    have hempty : request.effective_params = Value.create_object := by
      rw [RpcRequest.effective_params, hp]; rfl
    rw [hp] at hv
    rw [hempty, satisfies_create_object]
    constructor
    · rintro ⟨hinvoked, -⟩
      right
      refine hinvoked ?_
      have ha : request_arguments sys request = .ok ∅ := by rw [request_arguments, hp]
      rw [(process_request_invoked hr hb).mpr ⟨hv, ∅, ha, rfl⟩]
      rfl
    · rintro (h | hopt)
      · contradiction
      · exact ⟨fun _ => hopt, fun h => absurd hopt h⟩
  | some params =>
    have hparams : request.effective_params = params := by
      rw [RpcRequest.effective_params, hp]; rfl
    rw [hp] at hv
    rw [hparams]
    refine iff_of_true ⟨?_, ?_⟩ (.inl rfl)
    · intro hinvoked
      obtain ⟨context, hc⟩ := Option.isSome_iff_exists.mp hinvoked
      have hok := ((process_request_invoked hr hb).mp hc).1
      rw [hv] at hok
      exact validate_schema_sound hok
    · intro hns
      cases hval : validate_schema sys.cs true params schema with
      | ok u => exact absurd (validate_schema_sound hval) hns
      | error message =>
        exact process_request_of_invalid hr hb (hv.trans hval)

theorem handler_guarded_iff_number :
    let text := ibm1047.str "\x7b\"jsonrpc\":\"2.0\",\"id\":1,\"method\":\"readDataset\",\"params\":\x7b\"dsname\":5\x7d\x7d"
    let request := read_dataset_request (some (.object [(ibm1047.str "dsname", .integer 5)]))
    let processed :=
      process_request (platform_reading [(text, request)]) (ds_commands idle_handler) text
    (processed.invoked.isSome = true →
        Satisfies true (ReadDatasetRequest ibm1047) request.effective_params) ∧
      (¬Satisfies true (ReadDatasetRequest ibm1047) request.effective_params →
        processed.invoked = none ∧ processed.response.error.isSome = true) := by
  intro text request processed
  have hb : (ds_commands idle_handler)[request.method]? = some (readDataset ibm1047 idle_handler) :=
    Std.ExtTreeMap.getElem?_insert_self
  exact (handler_guarded_iff (from_str_platform_reading List.lookup_cons_self (by decide) (by decide)) hb
    rfl).mpr (.inl rfl)

/-- `readDataset` without parameters, although `dsname` is required. -/
theorem handler_runs_unvalidated :
    let text := ibm1047.str "\x7b\"jsonrpc\":\"2.0\",\"id\":1,\"method\":\"readDataset\"\x7d"
    let request := read_dataset_request none
    let sys := platform_reading [(text, request)]
    RpcRequest.from_str sys text = .ok request ∧
      (process_request sys (ds_commands idle_handler) text).invoked.isSome = true ∧
      ¬Satisfies true (ReadDatasetRequest ibm1047) request.effective_params := by
  intro text request sys
  have hr : RpcRequest.from_str sys text = .ok request :=
    from_str_platform_reading List.lookup_cons_self (by decide) (by decide)
  have hb : (ds_commands idle_handler)[request.method]? = some (readDataset ibm1047 idle_handler) :=
    Std.ExtTreeMap.getElem?_insert_self
  refine ⟨hr, ?_, ?_⟩
  · rw [(process_request_invoked hr hb).mpr ⟨rfl, ∅, rfl, rfl⟩]
    rfl
  · intro h
    have hopt := satisfies_create_object.mp h
    have := hopt (FIELD_REQUIRED ibm1047 "dsname" .TYPE_STRING) (by simp [ReadDatasetRequest])
    contradiction

end server

end Zowex

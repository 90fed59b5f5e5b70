import Zowex.Proofs.Arguments
import Zowex.Proofs.NullTransforms

/-! A request and the same request with one more key, which is null. -/

namespace Zowex.validator

open zjson

variable {cs : Charset} {schema : List FieldDescriptor}

theorem validate_field_congr {allow : Bool} {obj obj' : ObjectMap} {parent_field : Bytes}
    {field : FieldDescriptor} (h : obj[field.name]? = obj'[field.name]?) :
    validate_field cs allow obj parent_field field =
      validate_field cs allow obj' parent_field field := by
  obtain ⟨name, type, required, array_element_type, nested_schema⟩ := field
  simp only [validate_field, h]

theorem validate_field_null {allow : Bool} {obj : ObjectMap} {parent_field : Bytes}
    {field : FieldDescriptor} (hnull : obj[field.name]? = some .null)
    (hopt : field.required = false) :
    validate_field cs allow obj parent_field field = .ok () := by
  obtain ⟨name, type, required, array_element_type, nested_schema⟩ := field
  subst hopt
  simp only [validate_field, hnull]
  rfl

/-- A null is accepted for whatever can be left out. -/
theorem validate_schema_insert_null {params params' : Value} {key : Bytes}
    (hobj : params'.is_object = true)
    (hext : params'.as_object = params.as_object.insert key .null)
    (habsent : params.as_object[key]? = none)
    (hv : validate_schema cs true params schema = .ok ()) :
    validate_schema cs true params' schema = .ok () := by
  rw [validate_schema] at hv
  split_ifs at hv
  cases hf : validate_fields cs true params.as_object [] schema with
  | error message => simp [hf, bind, Except.bind] at hv
  | ok u =>
    rw [validate_fields_eq_ok] at hf
    have hf' : validate_fields cs true params'.as_object [] schema = .ok () := by
      rw [validate_fields_eq_ok, hext]
      intro field hfield
      by_cases hk : key = field.name
      · refine validate_field_null (by rw [hk, Std.ExtTreeMap.getElem?_insert_self]) ?_
        rcases validate_field_ok (hf field hfield) with ⟨-, hopt⟩ | ⟨value, hvalue, -⟩
        · exact hopt
        · rw [← hk, habsent] at hvalue
          cases hvalue
      · rw [validate_field_congr (Maps.getElem?_insert_ne hk)]
        exact hf field hfield
    rw [validate_schema, hobj, hf']
    rfl

end Zowex.validator

namespace Zowex.server

open zjson plugin validator

variable {sys : Platform}

theorem convert_pairs_of_total {pairs : List (Bytes × Value)}
    (h : ∀ pair ∈ pairs, ∃ arg, value_argument sys pair.2 = .ok arg) (args : ArgumentMap) :
    ∃ args', pairs.foldlM (convert_pair sys) args = .ok args' := by
  induction pairs generalizing args with
  | nil => exact ⟨args, rfl⟩
  | cons pair pairs ih =>
    rw [List.forall_mem_cons] at h
    obtain ⟨arg, harg⟩ := h.1
    obtain ⟨args', hargs⟩ :=
      ih h.2 (args.insert (camel_case_to_kebab_case sys.cs pair.1) arg)
    refine ⟨args', ?_⟩
    rw [List.foldlM_cons, convert_pair, harg]
    exact hargs

theorem value_argument_null : value_argument sys .null = .ok (.string []) := rfl

theorem last_named_is_last {cs : Charset} {obj : ObjectMap} {name : Bytes} {pair : Bytes × Value}
    (h : last_named cs name obj.toList = some pair) {key : Bytes} (hkey : key ∈ obj)
    (hname : camel_case_to_kebab_case cs key = name) : compare pair.1 key ≠ .lt := by
  obtain ⟨value, hv⟩ := Option.isSome_iff_exists.mp
    (Std.ExtTreeMap.mem_iff_isSome_getElem?.mp hkey)
  have hmem : (key, value) ∈ obj.toList.reverse :=
    List.mem_reverse.mpr (Std.ExtTreeMap.mem_toList_iff_getElem?_eq_some.mpr hv)
  have hsorted : obj.toList.reverse.Pairwise fun a b => compare b.1 a.1 = .lt :=
    List.pairwise_reverse.mpr Std.ExtTreeMap.ordered_keys_toList
  obtain ⟨-, before, after, hsplit, hbefore⟩ := List.find?_eq_some_iff_append.mp h
  rw [hsplit] at hmem hsorted
  rcases List.mem_append.mp hmem with hin | hin
  · have := hbefore _ hin
    simp [hname] at this
  · rcases List.mem_cons.mp hin with rfl | hin
    · intro hlt
      exact absurd (Std.ReflCmp.compare_self.symm.trans hlt) nofun
    · have hlt := List.rel_of_pairwise_cons (List.pairwise_append.mp hsorted).2.1 hin
      rw [Std.OrientedCmp.gt_of_lt hlt]
      exact nofun

/-- Of the keys converted to `name`, it is the one that comes last in byte order. -/
theorem last_named_eq_some {cs : Charset} {obj : ObjectMap} {name : Bytes}
    {pair : Bytes × Value} :
    last_named cs name obj.toList = some pair ↔
      obj[pair.1]? = some pair.2 ∧ camel_case_to_kebab_case cs pair.1 = name ∧
        ∀ key ∈ obj, camel_case_to_kebab_case cs key = name → compare pair.1 key ≠ .lt := by
  constructor
  · intro h
    obtain ⟨hmem, hname⟩ := last_named_some h
    exact ⟨Std.ExtTreeMap.mem_toList_iff_getElem?_eq_some.mp hmem, hname,
      fun key hkey hk => last_named_is_last h hkey hk⟩
  · rintro ⟨hv, hname, hlast⟩
    have hin : pair.1 ∈ obj := by
      rw [Std.ExtTreeMap.mem_iff_isSome_getElem?, hv]
      rfl
    cases hl : last_named cs name obj.toList with
    | none =>
      have hnone := List.find?_eq_none.mp hl pair
        (List.mem_reverse.mpr (Std.ExtTreeMap.mem_toList_iff_getElem?_eq_some.mpr hv))
      simp [hname] at hnone
    | some other =>
      obtain ⟨hmem, hname'⟩ := last_named_some hl
      have hv' := Std.ExtTreeMap.mem_toList_iff_getElem?_eq_some.mp hmem
      have hin' : other.1 ∈ obj := by
        rw [Std.ExtTreeMap.mem_iff_isSome_getElem?, hv']
        rfl
      have hkey : other.1 = pair.1 := by
        cases hc : compare other.1 pair.1 with
        | lt => exact absurd hc (last_named_is_last hl hin hname)
        | eq => exact Std.LawfulEqCmp.compare_eq_iff_eq.mp hc
        | gt => exact absurd (Std.OrientedCmp.lt_of_gt hc) (hlast other.1 hin' hname')
      rw [hkey, hv] at hv'
      exact congrArg some (Prod.ext hkey (Option.some.inj hv').symm)

/-- A later key is converted to the same name. -/
def overridden (cs : Charset) (obj : ObjectMap) (key : Bytes) : Prop :=
  ∃ later ∈ obj, camel_case_to_kebab_case cs later = camel_case_to_kebab_case cs key ∧
    compare key later = .lt

section insert_null

variable {cs : Charset} {obj : ObjectMap} {key name : Bytes} {pair : Bytes × Value}

theorem mem_insert_iff {value : Value} {k : Bytes} :
    k ∈ obj.insert key value ↔ k = key ∨ k ∈ obj := by
  rw [Std.ExtTreeMap.mem_insert, Std.LawfulEqCmp.compare_eq_iff_eq, eq_comm]

theorem last_named_insert_other (h : camel_case_to_kebab_case cs key ≠ name) :
    last_named cs name (obj.insert key .null).toList = last_named cs name obj.toList := by
  ext pair
  rw [last_named_eq_some, last_named_eq_some]
  constructor
  · rintro ⟨hv, hname, hlast⟩
    have hk : key ≠ pair.1 := fun hk => h (hk ▸ hname)
    rw [Maps.getElem?_insert_ne hk] at hv
    exact ⟨hv, hname, fun k hin hkname => hlast k (mem_insert_iff.mpr (.inr hin)) hkname⟩
  · rintro ⟨hv, hname, hlast⟩
    have hk : key ≠ pair.1 := fun hk => h (hk ▸ hname)
    refine ⟨by rw [Maps.getElem?_insert_ne hk, hv], hname, ?_⟩
    intro k hin hkname
    rcases mem_insert_iff.mp hin with rfl | hin
    · exact absurd hkname h
    · exact hlast k hin hkname

theorem last_named_insert_overridden (habsent : obj[key]? = none)
    (ho : overridden cs obj key) :
    last_named cs (camel_case_to_kebab_case cs key) (obj.insert key .null).toList =
      last_named cs (camel_case_to_kebab_case cs key) obj.toList := by
  obtain ⟨later, hlater, hlname, hlt⟩ := ho
  ext pair
  rw [last_named_eq_some, last_named_eq_some]
  constructor
  · rintro ⟨hv, hname, hlast⟩
    have hk : key ≠ pair.1 := by
      rintro rfl
      exact hlast later (mem_insert_iff.mpr (.inr hlater)) hlname hlt
    rw [Maps.getElem?_insert_ne hk] at hv
    exact ⟨hv, hname, fun k hin hkname => hlast k (mem_insert_iff.mpr (.inr hin)) hkname⟩
  · rintro ⟨hv, hname, hlast⟩
    have hk : key ≠ pair.1 := by
      rintro rfl
      rw [habsent] at hv
      cases hv
    refine ⟨by rw [Maps.getElem?_insert_ne hk, hv], hname, ?_⟩
    intro k hin hkname
    rcases mem_insert_iff.mp hin with rfl | hin
    · intro hback
      exact hlast later hlater hlname (Std.TransCmp.lt_trans hback hlt)
    · exact hlast k hin hkname

theorem last_named_insert_last (ho : ¬overridden cs obj key) :
    last_named cs (camel_case_to_kebab_case cs key) (obj.insert key .null).toList =
      some (key, .null) := by
  rw [last_named_eq_some]
  refine ⟨Std.ExtTreeMap.getElem?_insert_self, rfl, ?_⟩
  intro k hin hkname hlt
  rcases mem_insert_iff.mp hin with rfl | hin
  · exact absurd (Std.ReflCmp.compare_self.symm.trans hlt) nofun
  · exact ho ⟨k, hin, hkname, hlt⟩

end insert_null

theorem request_arguments_of_total {request : RpcRequest} {params : Value}
    (hp : request.params = some params) (hobj : params.is_object = true)
    (h : ∀ pair ∈ params.as_object.toList, ∃ arg, value_argument sys pair.2 = .ok arg) :
    ∃ args, request_arguments sys request = .ok args := by
  obtain ⟨args, hargs⟩ := convert_pairs_of_total h ∅
  refine ⟨args, ?_⟩
  simp only [request_arguments, hp, convert_json_params_to_argument_map, hobj, Bool.not_true,
    Bool.false_eq_true, ↓reduceIte, hargs]
  rfl

section extended

variable {request request' : RpcRequest} {params params' : Value} {key : Bytes}

/-- The null can be converted, so both parameter objects are or neither is. -/
theorem converted_iff (hp : request.params = some params) (hp' : request'.params = some params')
    (hobj : params.is_object = true) (hobj' : params'.is_object = true)
    (hext : params'.as_object = params.as_object.insert key .null)
    (habsent : params.as_object[key]? = none) :
    (∃ args, request_arguments sys request = .ok args) ↔
      ∃ args, request_arguments sys request' = .ok args := by
  constructor
  · rintro ⟨args, ha⟩
    refine request_arguments_of_total hp' hobj' ?_
    intro pair hmem
    rw [hext, Std.ExtTreeMap.mem_toList_iff_getElem?_eq_some] at hmem
    by_cases hk : key = pair.1
    · rw [← hk, Std.ExtTreeMap.getElem?_insert_self] at hmem
      exact ⟨.string [], by rw [← Option.some.inj hmem, value_argument_null]⟩
    · rw [Maps.getElem?_insert_ne hk] at hmem
      exact convert_pairs_total (request_arguments_ok hp ha) pair
        (Std.ExtTreeMap.mem_toList_iff_getElem?_eq_some.mpr hmem)
  · rintro ⟨args, ha⟩
    refine request_arguments_of_total hp hobj ?_
    intro pair hmem
    rw [Std.ExtTreeMap.mem_toList_iff_getElem?_eq_some] at hmem
    refine convert_pairs_total (request_arguments_ok hp' ha) pair ?_
    rw [hext, Std.ExtTreeMap.mem_toList_iff_getElem?_eq_some, Maps.getElem?_insert_ne, hmem]
    rintro rfl
    rw [habsent] at hmem
    cases hmem

theorem arguments_overridden {args args' : ArgumentMap} (hp : request.params = some params)
    (hp' : request'.params = some params')
    (hext : params'.as_object = params.as_object.insert key .null)
    (habsent : params.as_object[key]? = none) (ho : overridden sys.cs params.as_object key)
    (ha : request_arguments sys request = .ok args)
    (ha' : request_arguments sys request' = .ok args') : args' = args := by
  apply Std.ExtTreeMap.ext_getElem?
  intro name
  rw [arguments_lookup hp' ha', arguments_lookup hp ha, hext]
  by_cases hname : camel_case_to_kebab_case sys.cs key = name
  · subst hname
    rw [last_named_insert_overridden habsent ho]
  · rw [last_named_insert_other hname]

theorem arguments_with_null {args args' : ArgumentMap} (hp : request.params = some params)
    (hp' : request'.params = some params')
    (hext : params'.as_object = params.as_object.insert key .null)
    (ho : ¬overridden sys.cs params.as_object key)
    (ha : request_arguments sys request = .ok args)
    (ha' : request_arguments sys request' = .ok args') :
    args' = args.insert (camel_case_to_kebab_case sys.cs key) (.string []) := by
  apply Std.ExtTreeMap.ext_getElem?
  intro name
  rw [arguments_lookup hp' ha', hext]
  by_cases hname : camel_case_to_kebab_case sys.cs key = name
  · subst hname
    rw [last_named_insert_last ho, Std.ExtTreeMap.getElem?_insert_self]
    rfl
  · rw [last_named_insert_other hname, Maps.getElem?_insert_ne hname, arguments_lookup hp ha]

end extended

/-- The null leaves no trace: a later key is converted to its name, or the argument is the empty
text without it, or a transform absorbs the empty text. -/
def null_absorbed (sys : Platform) (transforms : List ArgTransform) (params : Value)
    (start : MiddlewareContext) (key : Bytes) : Prop :=
  overridden sys.cs params.as_object key ∨
    start.args[camel_case_to_kebab_case sys.cs key]? = some (.string []) ∨
      null_fate sys transforms start (camel_case_to_kebab_case sys.cs key) = .absorbed

section two_runs

variable {commands : CommandMap} {request_data request_data' : Bytes}
  {request request' : RpcRequest} {builder : CommandBuilder} {schema : List FieldDescriptor}
  {params params' : Value} {key : Bytes}

/-- Two requests that differ in a null for a key the accepted one leaves out. Both handlers are
called or neither is; in the same context when the null leaves no trace, and otherwise, but for
the unsettled cases, with arguments that differ. -/
theorem null_as_absent (hr : RpcRequest.from_str sys request_data = .ok request)
    (hr' : RpcRequest.from_str sys request_data' = .ok request')
    (hm : request'.method = request.method)
    (hb : commands[request.method]? = some builder) (hs : builder.request_schema = some schema)
    (hp : request.params = some params) (hp' : request'.params = some params')
    (hv : validate_request sys commands request = .ok ()) (habsent : key ∉ params.as_object)
    (hobj' : params'.is_object = true)
    (hext : params'.as_object = params.as_object.insert key .null) :
    (∀ what, request_arguments sys request = .error what →
      (process_request sys commands request_data).invoked = none ∧
        (process_request sys commands request_data').invoked = none) ∧
    ∀ args, request_arguments sys request = .ok args →
      let start : MiddlewareContext := { command_path := request.method, args }
      ∃ context context',
        (process_request sys commands request_data).invoked = some context ∧
        (process_request sys commands request_data').invoked = some context' ∧
        (null_absorbed sys builder.transforms params start key → context' = context) ∧
        (null_fate sys builder.transforms start (camel_case_to_kebab_case sys.cs key) ≠
            .unsettled →
          context'.args = context.args →
            null_absorbed sys builder.transforms params start key) := by
  have habsent : params.as_object[key]? = none := by
    rw [Std.ExtTreeMap.mem_iff_isSome_getElem?] at habsent
    simpa using habsent
  have hvalid : validate_schema sys.cs true params schema = .ok () := by
    rw [validate_request_eq hb hs, hp] at hv
    exact hv
  have hobj : params.is_object = true := by
    obtain ⟨hobj, -⟩ := validate_schema_sound hvalid
    exact hobj
  have hb' : commands[request'.method]? = some builder := by rw [hm, hb]
  have hv' : validate_request sys commands request' = .ok () := by
    rw [validate_request_eq hb' hs, hp']
    exact validate_schema_insert_null hobj' hext habsent hvalid
  have hboth : (∃ args, request_arguments sys request = .ok args) ↔ _ :=
    converted_iff hp hp' hobj hobj' hext habsent
  refine ⟨?_, ?_⟩
  · intro what hwhat
    rw [process_request_of_valid hr hb hv, process_request_of_valid hr' hb' hv']
    refine ⟨run_command_of_error hwhat, ?_⟩
    cases ha' : request_arguments sys request' with
    | error what' => exact run_command_of_error ha'
    | ok args' =>
      obtain ⟨args, ha⟩ := hboth.mpr ⟨args', ha'⟩
      rw [hwhat] at ha
      cases ha
  · intro args ha start
    obtain ⟨args', ha'⟩ := hboth.mp ⟨args, ha⟩
    refine ⟨_, _, (process_request_invoked hr hb).mpr ⟨hv, args, ha, rfl⟩,
      (process_request_invoked hr' hb').mpr ⟨hv', args', ha', rfl⟩, ?_⟩
    rw [hm]
    by_cases ho : overridden sys.cs params.as_object key
    · rw [arguments_overridden hp hp' hext habsent ho ha ha']
      exact ⟨fun _ => rfl, fun _ _ => .inl ho⟩
    rw [arguments_with_null hp hp' hext ho ha ha']
    by_cases hempty : args[camel_case_to_kebab_case sys.cs key]? = some (.string [])
    · rw [Maps.insert_of_getElem?_some hempty]
      exact ⟨fun _ => rfl, fun _ _ => .inr (.inl hempty)⟩
    refine ⟨?_, ?_⟩
    · rintro (h | h | hfate)
      · exact absurd h ho
      · exact absurd h hempty
      · have hrelates : (null_fate sys builder.transforms start _).Relates _ _ :=
          null_fate_relates builder.transforms hempty
        rw [hfate] at hrelates
        exact hrelates
    · intro hsettled heq
      exact .inr (.inr ((null_fate_absorbed_iff builder.transforms hempty hsettled).mp heq))

end two_runs

/-- `{"dsname":"A.B"}` -/
def dsname_only : Value := .object [(ibm1047.str "dsname", .string (ibm1047.str "A.B"))]

/-- `{"dsname":"A.B","encoding":null}` -/
def null_encoding : Value := dsname_only.add_to_object (ibm1047.str "encoding") .null

def dsname_only_text : Bytes :=
  request_text "readDataset" ",\"params\":\x7b\"dsname\":\"A.B\"\x7d"

def null_encoding_text : Bytes :=
  request_text "readDataset" ",\"params\":\x7b\"dsname\":\"A.B\",\"encoding\":null\x7d"

def two_reads_system : Platform :=
  platform_reading [(dsname_only_text, read_dataset_request (some dsname_only)),
    (null_encoding_text, read_dataset_request (some null_encoding))]

theorem dsname_only_read : RpcRequest.from_str two_reads_system dsname_only_text =
    .ok (read_dataset_request (some dsname_only)) :=
  from_str_platform_reading List.lookup_cons_self (by decide) (by decide)

theorem null_encoding_read : RpcRequest.from_str two_reads_system null_encoding_text =
    .ok (read_dataset_request (some null_encoding)) := by
  have hlen : null_encoding_text.length ≠ dsname_only_text.length := by decide +kernel
  have hne : (null_encoding_text == dsname_only_text) = false :=
    beq_false_of_ne (fun h => hlen (congrArg List.length h))
  refine from_str_platform_reading ?_ (by decide) (by decide)
  rw [List.lookup_cons, hne]
  exact List.lookup_cons_self

theorem dsname_only_valid : validate_request two_reads_system (ds_commands idle_handler)
    (read_dataset_request (some dsname_only)) = .ok () := by
  rw [validate_request_eq ds_commands_read rfl]
  rfl

def dsname_only_arguments : ArgumentMap :=
  (∅ : ArgumentMap).insert (ibm1047.str "dsname") (.string (ibm1047.str "A.B"))

theorem dsname_only_converted : request_arguments two_reads_system
    (read_dataset_request (some dsname_only)) = .ok dsname_only_arguments := by
  rfl

theorem null_as_absent_encoding :
    (∀ what, request_arguments two_reads_system (read_dataset_request (some dsname_only)) =
        .error what →
      (process_request two_reads_system (ds_commands idle_handler) dsname_only_text).invoked =
          none ∧
        (process_request two_reads_system (ds_commands idle_handler) null_encoding_text).invoked =
          none) ∧
    ∀ args, request_arguments two_reads_system (read_dataset_request (some dsname_only)) =
        .ok args →
      let start : MiddlewareContext := { command_path := ibm1047.str "readDataset", args }
      let transforms := (readDataset ibm1047 idle_handler).transforms
      ∃ context context',
        (process_request two_reads_system (ds_commands idle_handler) dsname_only_text).invoked =
          some context ∧
        (process_request two_reads_system (ds_commands idle_handler) null_encoding_text).invoked =
          some context' ∧
        (null_absorbed two_reads_system transforms dsname_only start (ibm1047.str "encoding") →
          context' = context) ∧
        (null_fate two_reads_system transforms start
            (camel_case_to_kebab_case ibm1047 (ibm1047.str "encoding")) ≠ .unsettled →
          context'.args = context.args →
            null_absorbed two_reads_system transforms dsname_only start
              (ibm1047.str "encoding")) :=
  null_as_absent dsname_only_read null_encoding_read rfl ds_commands_read rfl rfl rfl
    dsname_only_valid (by decide) rfl rfl

theorem null_encoding_valid : validate_request two_reads_system (ds_commands idle_handler)
    (read_dataset_request (some null_encoding)) = .ok () := by
  have hv := dsname_only_valid
  have habsent : dsname_only.as_object[ibm1047.str "encoding"]? = none := rfl
  rw [validate_request_eq ds_commands_read rfl] at hv ⊢
  exact validate_schema_insert_null rfl rfl habsent hv

theorem null_encoding_converted : request_arguments two_reads_system
    (read_dataset_request (some null_encoding)) =
      .ok (dsname_only_arguments.insert (ibm1047.str "encoding") (.string [])) := by
  rfl

/-- `readDataset` reads in code page IBM-1047 when no encoding is given, and in a code page
without a name when the encoding is null. -/
theorem null_is_not_absent :
    ∃ context context',
      (process_request two_reads_system (ds_commands idle_handler) dsname_only_text).invoked =
        some context ∧
      (process_request two_reads_system (ds_commands idle_handler) null_encoding_text).invoked =
        some context' ∧
      context.args[ibm1047.str "encoding"]? = some (.string (ibm1047.str "IBM-1047")) ∧
      context'.args[ibm1047.str "encoding"]? = some (.string []) ∧
      FIELD_OPTIONAL ibm1047 "encoding" .TYPE_STRING ∈ ReadDatasetRequest ibm1047 :=
  ⟨_, _, (process_request_invoked dsname_only_read ds_commands_read).mpr
      ⟨dsname_only_valid, _, dsname_only_converted, rfl⟩,
    (process_request_invoked null_encoding_read ds_commands_read).mpr
      ⟨null_encoding_valid, _, null_encoding_converted, rfl⟩,
    rfl, rfl, by simp [ReadDatasetRequest]⟩

end Zowex.server

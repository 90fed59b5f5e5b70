import Zowex.Proofs.StructFields

/-! A struct is read back from the object it was written to. A flattened struct is given the whole
object of its parent, so what it reads depends on its own names only. -/

namespace Zowex.zjson

open Maps

theorem getElem?_as_object {fields : List (Bytes × Value)} (names : (fields.map Prod.fst).Nodup)
    {key : Bytes} {value : Value} :
    (Value.object fields).as_object[key]? = some value ↔ (key, value) ∈ fields := by
  constructor
  · intro h
    rw [as_object_eq, getElem?_write_all, Std.ExtTreeMap.getElem?_empty, Option.or_none] at h
    obtain ⟨⟨key', value'⟩, found, rfl⟩ := Option.map_eq_some_iff.mp h
    obtain rfl : key' = key := by simpa using List.find?_some found
    exact List.mem_reverse.mp (List.mem_of_find?_eq_some found)
  · exact fun h => lookup_as_object names h

/-- A value that is written and read again is the same. -/
def FieldCodec.RoundTrips {T : Type} : FieldCodec T → Prop
  | .plain serde => ∀ value, ∃ json, serde.serialize value = .ok json ∧
      serde.deserialize json = .ok value
  | .optional payload => ∀ value, ∃ json, payload.serialize value = .ok json ∧
      json.is_null = false ∧ payload.deserialize json = .ok value

theorem FieldCodec.RoundTrips.reads {T : Type} {codec : FieldCodec T} (h : codec.RoundTrips)
    (value : T) : ∃ json, codec.serialize value = .ok json ∧ codec.deserialize json = .ok value := by
  cases codec with
  | plain serde => exact h value
  | optional payload =>
    cases value with
    | none => exact ⟨.null, rfl, rfl⟩
    | some value =>
      obtain ⟨json, written, present, read⟩ := h value
      refine ⟨json, written, ?_⟩
      rw [FieldCodec.deserialize, present, read]
      rfl

theorem FieldCodec.empty_eq {T : Type} {codec : FieldCodec T} {value : T}
    (h : codec.is_empty value = true) : codec.empty = some value := by
  cases codec with
  | plain serde => cases h
  | optional payload => rw [FieldCodec.empty, Option.isNone_iff_eq_none.mp h]

namespace Struct

variable (sys : Platform) {ι : Type} {F : ι → Type}

/-- Where an empty optional is left out, the default is the empty optional. -/
def EmptyByDefault (struct : Struct ι F) (field : Field ι F) : Prop :=
  field.skip_if_none = true → ∀ value, (struct.codec field.member).empty = some value →
    ∀ default, field.default_value = some default → default = value

/-- How the fields of a struct are registered: each field has names of its own, which are those of
the struct where it is flattened. -/
structure Named (struct : Struct ι F) (names_of : Field ι F → List Bytes)
    (serde_of : ∀ field : Field ι F, Serde (F field.member)) : Prop where
  members : ∀ i, ∃ field ∈ struct.fields, field.member = i
  not_skipped : ∀ field ∈ struct.fields,
    field.skip_serializing = false ∧ field.skip_deserializing = false
  own : ∀ field ∈ struct.fields, field.flatten_field = false →
    names_of field = [get_serialized_name sys struct field] ∧
      (struct.codec field.member).RoundTrips ∧ EmptyByDefault struct field
  flattened : ∀ field ∈ struct.fields, field.flatten_field = true →
    struct.codec field.member = .plain (serde_of field)
  distinct : (struct.fields.flatMap names_of).Nodup

/-- A struct with the names of all its fields. What is flattened takes any other field. -/
inductive Registered : Bool → ∀ {S : Type}, Serde S → List Bytes → Prop
  | struct {ι : Type} [DecidableEq ι] {F : ι → Type} (struct : Struct ι F)
      (names_of : Field ι F → List Bytes) (serde_of : ∀ field : Field ι F, Serde (F field.member)) :
      Named sys struct names_of serde_of →
      (∀ field ∈ struct.fields, field.flatten_field = true →
        Registered false (serde_of field) (names_of field)) →
      Registered struct.deny_unknown_fields (struct.serde sys) (struct.fields.flatMap names_of)

/-- What is written is read from any object with the same fields of these names. -/
def ReadsBack {S : Type} (deny : Bool) (serde : Serde S) (names : List Bytes) : Prop :=
  ∀ value, ∃ fields, serde.serialize value = .ok (.object fields) ∧
    (∀ key ∈ fields.map Prod.fst, key ∈ names) ∧
    ∀ object : Value, object.is_object = true →
      (∀ key ∈ names, object.as_object[key]? = (Value.object fields).as_object[key]?) →
      (deny = true → ∀ key, key ∈ object.as_object → key ∈ names) →
      serde.deserialize object = .ok value

section

variable {sys} {struct : Struct ι F} {names_of : Field ι F → List Bytes}
  {serde_of : ∀ field : Field ι F, Serde (F field.member)} [DecidableEq ι]

/-- A contribution, and how it is read from an object that has it. -/
def FieldReadsBack (sys : Platform) (struct : Struct ι F) (names : List Bytes) (value : ∀ i, F i)
    (field : Field ι F) (c : Contribution) : Prop :=
  contribution sys struct value field = .ok c ∧ (∀ e ∈ c.entries, e.1 ∈ names) ∧
    ∀ object : ObjectMap,
      (∀ key ∈ names, object[key]? = (Value.object c.entries).as_object[key]?) →
      ∀ obj, deserialize_field sys struct object obj field =
        some (Function.update obj field.member (value field.member))

theorem own_reads_back (named : Named sys struct names_of serde_of) (value : ∀ i, F i)
    {field : Field ι F} (hfield : field ∈ struct.fields) (flat : field.flatten_field = false) :
    ∃ c, FieldReadsBack sys struct (names_of field) value field c := by
  obtain ⟨written, read⟩ := named.not_skipped field hfield
  obtain ⟨names, codec, by_default⟩ := named.own field hfield flat
  have contributed : contribution sys struct value field = own_entry sys struct value field := by
    rw [contribution, written, flat]
    rfl
  have entry : get_serialized_name sys struct field ∈ names_of field :=
    names ▸ List.mem_singleton_self _
  by_cases omitted : (struct.codec field.member).is_empty (value field.member) &&
      field.skip_if_none
  · refine ⟨⟨false, []⟩, contributed.trans (if_pos omitted), by simp, fun object same obj => ?_⟩
    obtain ⟨nothing, skip⟩ := Bool.and_eq_true_iff.mp omitted
    have empty := FieldCodec.empty_eq nothing
    have absent : object[get_serialized_name sys struct field]? = none :=
      (same _ entry).trans Std.ExtTreeMap.getElem?_empty
    have restored : field.default_value.or (struct.codec field.member).empty =
        some (value field.member) := by
      cases given : field.default_value with
      | none => exact empty
      | some other => rw [Option.some_or, by_default skip _ empty other given]
    rw [deserialize_field, read, flat, absent, restored]
    rfl
  · obtain ⟨json, serialized, deserialized⟩ := codec.reads (value field.member)
    refine ⟨⟨false, [(get_serialized_name sys struct field, json)]⟩, ?_, ?_, fun object same obj => ?_⟩
    · rw [contributed, own_entry, if_neg omitted, serialized]
      rfl
    · exact List.forall_mem_singleton.mpr entry
    · have present : object[get_serialized_name sys struct field]? = some json := by
        rw [same _ entry]
        exact Std.ExtTreeMap.getElem?_insert_self
      rw [deserialize_field, read, flat, present]
      dsimp only
      rw [deserialized]
      rfl

theorem flattened_reads_back (named : Named sys struct names_of serde_of) (value : ∀ i, F i)
    {field : Field ι F} (hfield : field ∈ struct.fields) (flattened : field.flatten_field = true)
    (nested : ReadsBack false (serde_of field) (names_of field)) :
    ∃ c, FieldReadsBack sys struct (names_of field) value field c := by
  obtain ⟨written, read⟩ := named.not_skipped field hfield
  have codec := named.flattened field hfield flattened
  obtain ⟨fields, serialized, names, deserialized⟩ := nested (value field.member)
  have whole : (Value.object (Value.object fields).as_object.toList).as_object =
      (Value.object fields).as_object :=
    write_all_toList
  refine ⟨⟨true, (Value.object fields).as_object.toList⟩, ?_, ?_, fun object same obj => ?_⟩
  · rw [contribution, written, flattened, codec, FieldCodec.serialize, serialized]
    rfl
  · intro e he
    have found := Std.ExtTreeMap.mem_toList_iff_getElem?_eq_some.mp
      (show (e.1, e.2) ∈ (Value.object fields).as_object.toList from he)
    refine names e.1 ((mem_as_object fields e.1).mp ?_)
    rw [Std.ExtTreeMap.mem_iff_isSome_getElem?, found]
    rfl
  · have object_whole : (Value.object object.toList).as_object = object := write_all_toList
    have deserialized_object : (serde_of field).deserialize (.object object.toList) =
        .ok (value field.member) := by
      apply deserialized _ rfl
      · intro key hkey
        rw [object_whole, same key hkey, whole]
      · exact fun deny => absurd deny Bool.false_ne_true
    rw [deserialize_field, read, flattened, codec, FieldCodec.deserialize, deserialized_object]
    rfl

/-! All fields of a struct. -/

variable {value : ∀ i, F i} {part : Field ι F → Contribution}

omit [DecidableEq ι] in
theorem mapM_contribution {fields : List (Field ι F)}
    (h : ∀ field ∈ fields, contribution sys struct value field = .ok (part field)) :
    fields.mapM (contribution sys struct value) = .ok (fields.map part) := by
  induction fields with
  | nil => rfl
  | cons field fields ih =>
    rw [List.forall_mem_cons] at h
    rw [List.mapM_cons, h.1, ih h.2]
    rfl

omit [DecidableEq ι] in
/-- With distinct names every field finds its own entries in the whole. -/
theorem mem_part_iff {fields : List (Field ι F)} (distinct : (fields.flatMap names_of).Nodup)
    (h : ∀ field ∈ fields, ∀ e ∈ (part field).entries, e.1 ∈ names_of field)
    {field : Field ι F} (hfield : field ∈ fields) {e : Bytes × Value} (he : e.1 ∈ names_of field) :
    e ∈ (fields.map part).flatMap Contribution.entries ↔ e ∈ (part field).entries := by
  rw [List.flatMap_map, List.mem_flatMap]
  constructor
  · rintro ⟨other, hother, inside⟩
    have apart := (List.nodup_flatMap.mp distinct).2
    have symm : Std.Symm (Function.onFun List.Disjoint names_of) :=
      ⟨fun _ _ disjoint => disjoint.symm⟩
    have same : field = other := by
      by_contra differ
      exact apart.forall hfield hother differ he (h other hother e inside)
    rwa [same]
  · exact fun inside => ⟨field, hfield, inside⟩

omit [DecidableEq ι] in
theorem entries_nodup {fields : List (Field ι F)} (distinct : (fields.flatMap names_of).Nodup)
    (h : ∀ field ∈ fields, ∀ e ∈ (part field).entries, e.1 ∈ names_of field)
    (keys : ∀ field ∈ fields, ((part field).entries.map Prod.fst).Nodup) :
    (((fields.map part).flatMap Contribution.entries).map Prod.fst).Nodup := by
  rw [List.flatMap_map, List.map_flatMap, List.nodup_flatMap]
  refine ⟨keys, (List.nodup_flatMap.mp distinct).2.imp_of_mem ?_⟩
  intro first second hfirst hsecond apart key here there
  obtain ⟨e, he, rfl⟩ := List.mem_map.mp here
  obtain ⟨e', he', same⟩ := List.mem_map.mp there
  exact apart (h first hfirst e he) (same ▸ h second hsecond e' he')

/-- Every member that has a field is read. -/
theorem foldlM_deserialize_field {object : ObjectMap} {fields : List (Field ι F)}
    (h : ∀ field ∈ fields, ∀ obj, deserialize_field sys struct object obj field =
      some (Function.update obj field.member (value field.member))) (obj : ∀ i, F i) :
    ∃ final, fields.foldlM (deserialize_field sys struct object) obj = some final ∧
      ∀ i, (∃ field ∈ fields, field.member = i) ∨ obj i = value i → final i = value i := by
  induction fields generalizing obj with
  | nil => exact ⟨obj, rfl, fun i h => h.resolve_left (by simp)⟩
  | cons field fields ih =>
    rw [List.forall_mem_cons] at h
    obtain ⟨final, read, restored⟩ :=
      ih h.2 (Function.update obj field.member (value field.member))
    refine ⟨final, ?_, fun i covered => restored i ?_⟩
    · rw [List.foldlM_cons, h.1]
      exact read
    · by_cases same : i = field.member
      · subst same
        exact .inr (Function.update_self ..)
      · rw [Function.update_of_ne same]
        rw [List.exists_mem_cons_iff] at covered
        exact covered.imp_left fun found => found.resolve_left fun h => same h.symm

omit [DecidableEq ι] in
theorem validate_known {object : ObjectMap} (named : Named sys struct names_of serde_of)
    (h : ∀ key, key ∈ object → key ∈ struct.fields.flatMap names_of) :
    validate_no_unknown_fields sys struct object = .ok () := by
  unfold validate_no_unknown_fields
  by_cases flattened : struct.fields.any Field.flatten_field
  · exact if_pos flattened
  · have known : ∀ key ∈ object.toList.map Prod.fst,
        key ∈ struct.fields.map (get_serialized_name sys struct) := by
      intro key hkey
      obtain ⟨e, he, rfl⟩ := List.mem_map.mp hkey
      have present : e.1 ∈ object := by
        rw [Std.ExtTreeMap.mem_iff_isSome_getElem?,
          Std.ExtTreeMap.mem_toList_iff_getElem?_eq_some.mp (show (e.1, e.2) ∈ _ from he)]
        rfl
      obtain ⟨field, hfield, inside⟩ := List.mem_flatMap.mp (h e.1 present)
      have flat : field.flatten_field = false := by
        rw [List.any_eq_true, not_exists] at flattened
        exact Bool.eq_false_iff.mpr fun is_flat => flattened field ⟨hfield, is_flat⟩
      rw [(named.own field hfield flat).1] at inside
      exact List.mem_map.mpr ⟨field, hfield, (List.mem_singleton.mp inside).symm⟩
    rw [if_neg flattened]
    dsimp only
    have none_found : (object.toList.map Prod.fst).find?
        (· ∉ struct.fields.map (get_serialized_name sys struct)) = none := by
      rw [List.find?_eq_none]
      intro key hkey
      simpa using known key hkey
    rw [none_found]

end

/-- The induction is on how structs are nested in structs. -/
theorem Registered.reads_back {deny : Bool} {S : Type} {serde : Serde S} {names : List Bytes}
    (h : Registered sys deny serde names) : ReadsBack deny serde names := by
  induction h with
  | struct struct names_of serde_of named nested ih =>
    intro value
    have parts : ∀ field ∈ struct.fields,
        ∃ c, FieldReadsBack sys struct (names_of field) value field c := by
      intro field hfield
      cases flat : field.flatten_field with
      | false => exact own_reads_back named value hfield flat
      | true => exact flattened_reads_back named value hfield flat (ih field hfield flat)
    have inhabited : Nonempty Contribution := ⟨⟨false, []⟩⟩
    choose! part hpart using parts
    have contributed := mapM_contribution fun field hfield => (hpart field hfield).1
    have keys : ∀ field ∈ struct.fields, ((part field).entries.map Prod.fst).Nodup :=
      fun field hfield => contribution_names sys struct (hpart field hfield).1
    have inside : ∀ field ∈ struct.fields, ∀ e ∈ (part field).entries, e.1 ∈ names_of field :=
      fun field hfield => (hpart field hfield).2.1
    have distinct := entries_nodup named.distinct inside keys
    have unseen : ¬ CollisionSeen [] (struct.fields.map part) := fun seen => seen.not_nodup distinct
    refine ⟨_, (serialize_contributions sys struct contributed).1 unseen, ?_, ?_⟩
    · intro key hkey
      obtain ⟨e, he, rfl⟩ := List.mem_map.mp hkey
      rw [List.flatMap_map, List.mem_flatMap] at he
      obtain ⟨field, hfield, he⟩ := he
      exact List.mem_flatMap.mpr ⟨field, hfield, inside field hfield e he⟩
    · intro object is_object same known
      have read : ∀ field ∈ struct.fields, ∀ obj,
          deserialize_field sys struct object.as_object obj field =
            some (Function.update obj field.member (value field.member)) := by
        intro field hfield
        apply (hpart field hfield).2.2
        intro key hkey
        rw [same key (List.mem_flatMap.mpr ⟨field, hfield, hkey⟩)]
        apply Option.ext
        intro json
        rw [getElem?_as_object distinct, getElem?_as_object (keys field hfield)]
        exact mem_part_iff named.distinct inside hfield hkey
      obtain ⟨final, deserialized, restored⟩ := foldlM_deserialize_field read struct.init
      have whole : final = value := funext fun i => restored i (.inl (named.members i))
      subst whole
      refine Eq.trans (b := deserialize sys struct object) rfl ?_
      rw [deserialize, is_object, deserialized]
      cases deny : struct.deny_unknown_fields with
      | false => rfl
      | true =>
        rw [validate_known named (known deny)]
        rfl

/-- What a registered struct is written to is read as the same struct. -/
theorem deserialize_serialize {deny : Bool} {S : Type} {serde : Serde S} {names : List Bytes}
    (h : Registered sys deny serde names) (value : S) :
    (serde.serialize value).bind serde.deserialize = .ok value := by
  obtain ⟨fields, serialized, keys, read⟩ := h.reads_back sys value
  rw [serialized]
  refine read _ rfl (fun _ _ => rfl) fun _ key hkey => keys key ?_
  exact (mem_as_object fields key).mp hkey

/-! A struct with a flattened one, a name of its own choice and an optional. -/

inductive ProfileField
  | connection
  | user_id
  | comment
  deriving DecidableEq

def ProfileMember : ProfileField → Type
  | .connection => Unit → Bytes
  | .user_id => Bytes
  | .comment => Option Bytes

def profile (sys : Platform) : Struct ProfileField ProfileMember where
  codec
    | .connection => .plain (connection.serde sys)
    | .user_id => .plain text_serde
    | .comment => .optional text_serde
  init
    | .connection => fun _ => []
    | .user_id => []
    | .comment => none
  rename_all_case := .camelCase
  deny_unknown_fields := true
  fields :=
    [{ member := .connection, name := ibm1047.str "connection", flatten_field := true },
      { member := .user_id, name := ibm1047.str "user_id" },
      { member := .comment, name := ibm1047.str "comment", skip_if_none := true,
        rename_to := ibm1047.str "note" }]

theorem text_round_trips : (FieldCodec.plain text_serde).RoundTrips :=
  fun value => ⟨.string value, rfl, rfl⟩

theorem connection_registered :
    Registered textless_platform false (connection.serde textless_platform)
      [ibm1047.str "host"] := by
  refine .struct connection (fun _ => [ibm1047.str "host"]) (fun _ => text_serde) ?_ ?_
  · constructor
    case members => exact fun _ => ⟨_, List.mem_cons_self, rfl⟩
    case not_skipped => exact List.forall_mem_singleton.mpr ⟨rfl, rfl⟩
    case own =>
      exact List.forall_mem_singleton.mpr fun _ => ⟨rfl, text_round_trips, fun skip => by cases skip⟩
    case flattened => exact List.forall_mem_singleton.mpr fun flat => by cases flat
    case distinct => exact List.nodup_singleton _
  · exact List.forall_mem_singleton.mpr fun flat => by cases flat

def profile_names (field : Field ProfileField ProfileMember) : List Bytes :=
  match field.member with
  | .connection => [ibm1047.str "host"]
  | .user_id => [ibm1047.str "userId"]
  | .comment => [ibm1047.str "note"]

/-- How the members are written that can be flattened. -/
def profile_serde : ∀ i, Serde (ProfileMember i)
  | .connection => connection.serde textless_platform
  | .user_id => text_serde
  | .comment => ⟨(profile textless_platform).codec .comment |>.serialize,
      (profile textless_platform).codec .comment |>.deserialize⟩

theorem profile_registered :
    Registered textless_platform true ((profile textless_platform).serde textless_platform)
      [ibm1047.str "host", ibm1047.str "userId", ibm1047.str "note"] := by
  refine .struct (profile textless_platform) profile_names (fun field => profile_serde field.member)
    ?_ ?_
  · constructor
    case members =>
      intro i
      cases i with
      | connection => exact ⟨_, List.mem_cons_self, rfl⟩
      | user_id => exact ⟨_, List.mem_cons_of_mem _ List.mem_cons_self, rfl⟩
      | comment =>
        exact ⟨_, List.mem_cons_of_mem _ (List.mem_cons_of_mem _ List.mem_cons_self), rfl⟩
    case not_skipped =>
      exact List.forall_mem_cons.mpr ⟨⟨rfl, rfl⟩, List.forall_mem_cons.mpr
        ⟨⟨rfl, rfl⟩, List.forall_mem_singleton.mpr ⟨rfl, rfl⟩⟩⟩
    case own =>
      refine List.forall_mem_cons.mpr ⟨fun flat => (by cases flat), List.forall_mem_cons.mpr
        ⟨fun _ => ⟨by decide +kernel, text_round_trips, fun skip => (by cases skip)⟩,
          List.forall_mem_singleton.mpr fun _ => ⟨by decide +kernel, ?_, ?_⟩⟩⟩
      · exact fun value => ⟨.string value, rfl, rfl, rfl⟩
      · exact fun _ _ _ _ given => by cases given
    case flattened =>
      exact List.forall_mem_cons.mpr ⟨fun _ => rfl, List.forall_mem_cons.mpr
        ⟨fun flat => (by cases flat), List.forall_mem_singleton.mpr fun flat => (by cases flat)⟩⟩
    case distinct => exact (by decide +kernel)
  · exact List.forall_mem_cons.mpr ⟨fun _ => connection_registered, List.forall_mem_cons.mpr
      ⟨fun flat => (by cases flat), List.forall_mem_singleton.mpr fun flat => (by cases flat)⟩⟩

def profile_value : ∀ i, ProfileMember i
  | .connection => fun _ => ibm1047.str "inner"
  | .user_id => ibm1047.str "ibmuser"
  | .comment => none

theorem profile_round_trip :
    (((profile textless_platform).serde textless_platform).serialize profile_value).bind
      ((profile textless_platform).serde textless_platform).deserialize = .ok profile_value :=
  deserialize_serialize textless_platform profile_registered profile_value

/-! An optional that is left out with a default, and a flattened struct that denies fields. -/

def noted : Struct Unit (fun _ => Option Bytes) where
  codec _ := .optional text_serde
  init _ := none
  fields :=
    [{ member := (), name := ibm1047.str "note", skip_if_none := true,
       default_value := some (some []) }]

def strict_session (sys : Platform) : Struct Bool SessionMember where
  codec
    | false => .plain (({ connection with deny_unknown_fields := true } : Struct _ _).serde sys)
    | true => .plain text_serde
  init
    | false => fun _ => []
    | true => []
  fields :=
    [{ member := false, name := ibm1047.str "connection", flatten_field := true },
      { member := true, name := ibm1047.str "user" }]

/-- The empty optional comes back as the default, and the flattened struct finds a field of its
parent that it does not know. -/
theorem not_read_back :
    (noted.serialize textless_platform fun _ => none).bind (noted.deserialize textless_platform) ≠
      .ok (fun _ => none) ∧
    ((strict_session textless_platform).serialize textless_platform session_value).bind
      ((strict_session textless_platform).deserialize textless_platform) ≠ .ok session_value := by
  constructor
  · intro same
    have read := congrArg (fun result => result.toOption.map fun obj => obj ()) same
    exact absurd read (by decide +kernel)
  · intro same
    have read : ((strict_session textless_platform).serialize textless_platform session_value).bind
        ((strict_session textless_platform).deserialize textless_platform) =
        .error (.invalid_data textless_platform
          (textless_platform.cs.str "Failed to deserialize fields")) := rfl
    rw [read] at same
    cases same

end Struct

end Zowex.zjson

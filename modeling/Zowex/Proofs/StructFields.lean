import Zowex.Lib.Maps
import Zowex.Spec.Structs

/-! What the fields of a struct contribute to its object. A flattened field looks for the names
that are there already, any other field does not. -/

namespace Zowex.zjson

open Maps

/-! Objects as the list of their fields. -/

theorem as_object_eq (fields : List (Bytes × Value)) :
    (Value.object fields).as_object = write_all id ∅ fields :=
  rfl

theorem mem_as_object (fields : List (Bytes × Value)) (key : Bytes) :
    key ∈ (Value.object fields).as_object ↔ key ∈ fields.map Prod.fst := by
  rw [Std.ExtTreeMap.mem_iff_isSome_getElem?, as_object_eq, getElem?_write_all]
  simp

theorem lookup_as_object {fields : List (Bytes × Value)} (names : (fields.map Prod.fst).Nodup)
    {e : Bytes × Value} (h : e ∈ fields) :
    (Value.object fields).as_object[e.1]? = some e.2 := by
  have found : (fields.reverse.find? fun q => id q.1 = e.1) = some e :=
    (find_reverse names e.1).trans (find_of_mem names h)
  rw [as_object_eq, getElem?_write_all, found]
  rfl

namespace Struct

variable (sys : Platform) {ι : Type} {F : ι → Type} (struct : Struct ι F)

/-- What a field adds, and whether it comes out of a flattened object. -/
structure Contribution where
  flattened : Bool
  entries : List (Bytes × Value)

/-- The contribution of a field under its own name. -/
def own_entry (obj : ∀ i, F i) (field : Field ι F) : Except Error Contribution :=
  if (struct.codec field.member).is_empty (obj field.member) && field.skip_if_none then
    .ok ⟨false, []⟩
  else do
    let value ← (struct.codec field.member).serialize (obj field.member)
    return ⟨false, [(get_serialized_name sys struct field, value)]⟩

def contribution (obj : ∀ i, F i) (field : Field ι F) : Except Error Contribution :=
  if field.skip_serializing then .ok ⟨false, []⟩
  else if field.flatten_field then do
    let nested_value ← (struct.codec field.member).serialize (obj field.member)
    if nested_value.is_object then return ⟨true, nested_value.as_object.toList⟩
    else own_entry sys struct obj field
  else own_entry sys struct obj field

/-- Adds a contribution to the object that is built. -/
def merge (result : Value) (c : Contribution) : Except Error Value :=
  if c.flattened then flatten_entries sys result c.entries
  else .ok (c.entries.foldl (fun v e => v.add_to_object e.1 e.2) result)

theorem add_field_eq (obj : ∀ i, F i) (result : Value) (field : Field ι F) :
    add_field sys struct obj result field =
      (own_entry sys struct obj field).bind (merge sys result) := by
  unfold add_field own_entry
  split_ifs
  · rfl
  · cases (struct.codec field.member).serialize (obj field.member) <;> rfl

theorem serialize_field_eq (obj : ∀ i, F i) (result : Value) (field : Field ι F) :
    serialize_field sys struct obj result field =
      (contribution sys struct obj field).bind (merge sys result) := by
  unfold serialize_field contribution
  split_ifs
  · rfl
  · cases (struct.codec field.member).serialize (obj field.member) with
    | error e => rfl
    | ok nested_value =>
      dsimp only [bind, Except.bind]
      split_ifs
      · rfl
      · exact add_field_eq sys struct obj result field
  · exact add_field_eq sys struct obj result field

/-- The fields contribute first, and are put together then. -/
theorem serialize_eq {obj : ∀ i, F i} {fields : List (Field ι F)} {result : Value}
    {contributions : List Contribution}
    (h : fields.mapM (contribution sys struct obj) = .ok contributions) :
    fields.foldlM (serialize_field sys struct obj) result =
      contributions.foldlM (merge sys) result := by
  induction fields generalizing result contributions with
  | nil =>
    cases h
    rfl
  | cons field fields ih =>
    rw [List.mapM_cons] at h
    cases first : contribution sys struct obj field with
    | error e => simp [first, bind, Except.bind] at h
    | ok c =>
      cases rest : fields.mapM (contribution sys struct obj) with
      | error e => simp [first, rest, bind, Except.bind] at h
      | ok others =>
        simp only [first, rest, bind, Except.bind, pure, Except.pure, Except.ok.injEq] at h
        subst h
        rw [List.foldlM_cons, List.foldlM_cons, serialize_field_eq, first]
        cases merged : merge sys result c with
        | error e => simp [Except.bind, merged, bind]
        | ok next =>
          simp only [Except.bind, merged, bind]
          exact ih rest

theorem contribution_names {obj : ∀ i, F i} {field : Field ι F} {c : Contribution}
    (h : contribution sys struct obj field = .ok c) : (c.entries.map Prod.fst).Nodup := by
  have own {c : Contribution} (h : own_entry sys struct obj field = .ok c) :
      (c.entries.map Prod.fst).Nodup := by
    unfold own_entry at h
    split_ifs at h
    · cases h
      exact List.nodup_nil
    · cases serialized : (struct.codec field.member).serialize (obj field.member) with
      | error e => simp [serialized, bind, Except.bind] at h
      | ok value =>
        simp only [serialized, bind, Except.bind, pure, Except.pure, Except.ok.injEq] at h
        subst h
        exact List.nodup_singleton _
  unfold contribution at h
  split_ifs at h
  · cases h
    exact List.nodup_nil
  · cases serialized : (struct.codec field.member).serialize (obj field.member) with
    | error e => simp [serialized, bind, Except.bind] at h
    | ok nested_value =>
      simp only [serialized, bind, Except.bind, pure, Except.pure] at h
      split_ifs at h
      · cases h
        have distinct := Std.ExtTreeMap.distinct_keys_toList (t := nested_value.as_object)
        exact List.pairwise_map.mpr (distinct.imp fun h same => h (by simp [same]))
      · exact own h
  · exact own h

/-! Putting contributions together. -/

theorem foldl_add_to_object (done entries : List (Bytes × Value)) :
    entries.foldl (fun v e => v.add_to_object e.1 e.2) (Value.object done) =
      Value.object (done ++ entries) := by
  induction entries generalizing done with
  | nil => rw [List.foldl_nil, List.append_nil]
  | cons e entries ih =>
    rw [List.foldl_cons, Value.add_to_object, ih, List.append_assoc]
    rfl

theorem flatten_entries_new {done entries : List (Bytes × Value)}
    (names : (entries.map Prod.fst).Nodup)
    (new : ∀ e ∈ entries, e.1 ∉ done.map Prod.fst) :
    flatten_entries sys (.object done) entries = .ok (.object (done ++ entries)) := by
  induction entries generalizing done with
  | nil => rw [flatten_entries, List.append_nil]
  | cons e entries ih =>
    rw [List.map_cons, List.nodup_cons] at names
    rw [List.forall_mem_cons] at new
    have later : ∀ f ∈ entries, f.1 ∉ (done ++ [e]).map Prod.fst := by
      intro f hf inside
      rw [List.map_append, List.mem_append] at inside
      rcases inside with inside | inside
      · exact new.2 f hf inside
      · have same : f.1 = e.1 := List.mem_singleton.mp inside
        exact names.1 (same ▸ List.mem_map_of_mem hf)
    rw [flatten_entries, if_neg (fun known => new.1 ((mem_as_object done e.1).mp known)),
      Value.add_to_object, ih names.2 later, List.append_assoc]
    rfl

theorem flatten_entries_known {done entries : List (Bytes × Value)}
    (known : ∃ e ∈ entries, e.1 ∈ done.map Prod.fst) :
    ∃ error, flatten_entries sys (.object done) entries = .error error := by
  induction entries generalizing done with
  | nil =>
    obtain ⟨e, he, -⟩ := known
    exact absurd he List.not_mem_nil
  | cons e entries ih =>
    rw [flatten_entries]
    by_cases here : e.1 ∈ (Value.object done).as_object
    · exact ⟨_, if_pos here⟩
    · obtain ⟨f, hf, inside⟩ := known
      rcases List.mem_cons.mp hf with rfl | hf
      · exact absurd ((mem_as_object done f.1).mpr inside) here
      · rw [if_neg here]
        refine ih ⟨f, hf, ?_⟩
        rw [List.map_append]
        exact List.mem_append_left _ inside

/-- A flattened field has a name that is there already. -/
def CollisionSeen : List (Bytes × Value) → List Contribution → Prop
  | _, [] => False
  | done, c :: contributions =>
    (c.flattened = true ∧ ∃ e ∈ c.entries, e.1 ∈ done.map Prod.fst) ∨
      CollisionSeen (done ++ c.entries) contributions

theorem merge_all {contributions : List Contribution}
    (names : ∀ c ∈ contributions, (c.entries.map Prod.fst).Nodup) (done : List (Bytes × Value)) :
    (¬ CollisionSeen done contributions →
      contributions.foldlM (merge sys) (.object done) =
        .ok (.object (done ++ contributions.flatMap Contribution.entries))) ∧
    (CollisionSeen done contributions →
      ∃ error, contributions.foldlM (merge sys) (.object done) = .error error) := by
  induction contributions generalizing done with
  | nil => exact ⟨fun _ => by simp [pure, Except.pure], False.elim⟩
  | cons c contributions ih =>
    rw [List.forall_mem_cons] at names
    obtain ⟨unseen, seen⟩ := ih names.2 (done ++ c.entries)
    rw [List.foldlM_cons, List.flatMap_cons, ← List.append_assoc]
    by_cases known : c.flattened = true ∧ ∃ e ∈ c.entries, e.1 ∈ done.map Prod.fst
    · refine ⟨fun free => absurd (.inl known) free, fun _ => ?_⟩
      obtain ⟨error, failed⟩ := flatten_entries_known sys known.2
      exact ⟨error, by rw [merge, if_pos known.1, failed]; rfl⟩
    · have merged : merge sys (.object done) c = .ok (.object (done ++ c.entries)) := by
        unfold merge
        split_ifs with flattened
        · exact flatten_entries_new sys names.1 fun e he inside =>
            known ⟨flattened, e, he, inside⟩
        · rw [foldl_add_to_object]
      rw [merged]
      exact ⟨fun free => unseen fun later => free (.inr later),
        fun found => seen (found.resolve_left known)⟩

theorem CollisionSeen.not_nodup {done : List (Bytes × Value)} {contributions : List Contribution}
    (h : CollisionSeen done contributions) :
    ¬ ((done ++ contributions.flatMap Contribution.entries).map Prod.fst).Nodup := by
  induction contributions generalizing done with
  | nil => exact h.elim
  | cons c contributions ih =>
    intro names
    rw [List.flatMap_cons, ← List.append_assoc] at names
    rcases h with ⟨-, e, he, inside⟩ | later
    · rw [List.map_append, List.nodup_append, List.map_append, List.nodup_append] at names
      exact names.1.2.2 _ inside _ (List.mem_map_of_mem he) rfl
    · exact ih later names

theorem mapM_mem {obj : ∀ i, F i} {fields : List (Field ι F)} {contributions : List Contribution}
    (h : fields.mapM (contribution sys struct obj) = .ok contributions) :
    ∀ c ∈ contributions, ∃ field ∈ fields, contribution sys struct obj field = .ok c := by
  induction fields generalizing contributions with
  | nil =>
    cases h
    exact fun c hc => absurd hc List.not_mem_nil
  | cons field fields ih =>
    rw [List.mapM_cons] at h
    cases first : contribution sys struct obj field with
    | error e => simp [first, bind, Except.bind] at h
    | ok c =>
      cases rest : fields.mapM (contribution sys struct obj) with
      | error e => simp [first, rest, bind, Except.bind] at h
      | ok others =>
        simp only [first, rest, bind, Except.bind, pure, Except.pure, Except.ok.injEq] at h
        subst h
        rw [List.forall_mem_cons]
        exact ⟨⟨field, List.mem_cons_self, first⟩, fun d hd =>
          (ih rest d hd).imp fun g hg => ⟨List.mem_cons_of_mem field hg.1, hg.2⟩⟩

theorem serialize_contributions {obj : ∀ i, F i} {contributions : List Contribution}
    (h : struct.fields.mapM (contribution sys struct obj) = .ok contributions) :
    (¬ CollisionSeen [] contributions →
      serialize sys struct obj = .ok (.object (contributions.flatMap Contribution.entries))) ∧
    (CollisionSeen [] contributions → ∃ error, serialize sys struct obj = .error error) := by
  have names : ∀ c ∈ contributions, (c.entries.map Prod.fst).Nodup := by
    intro c hc
    obtain ⟨field, -, contributed⟩ := mapM_mem sys struct h c hc
    exact contribution_names sys struct contributed
  unfold serialize
  rw [serialize_eq sys struct h]
  exact merge_all sys names []

/-- Two contributions with one name are an error, and without that every name has its value. -/
def ReportsCollisions (obj : ∀ i, F i) : Prop :=
  ∀ contributions, struct.fields.mapM (contribution sys struct obj) = .ok contributions →
    if ((contributions.flatMap Contribution.entries).map Prod.fst).Nodup then
      ∃ value, serialize sys struct obj = .ok value ∧
        ∀ e ∈ contributions.flatMap Contribution.entries, value.as_object[e.1]? = some e.2
    else ∃ error, serialize sys struct obj = .error error

/-- A name that is there twice is reported when a flattened field is the later one of two. -/
theorem reports_collisions_iff (obj : ∀ i, F i) :
    ReportsCollisions sys struct obj ↔
      ∀ contributions, struct.fields.mapM (contribution sys struct obj) = .ok contributions →
        ((contributions.flatMap Contribution.entries).map Prod.fst).Nodup ∨
          CollisionSeen [] contributions := by
  apply forall_congr'
  intro contributions
  apply forall_congr'
  intro h
  obtain ⟨unseen, seen⟩ := serialize_contributions sys struct h
  by_cases names : ((contributions.flatMap Contribution.entries).map Prod.fst).Nodup
  · rw [if_pos names]
    have free : ¬ CollisionSeen [] contributions := fun found => found.not_nodup names
    exact iff_of_true ⟨_, unseen free, fun e he => lookup_as_object names he⟩ (.inl names)
  · rw [if_neg names, or_iff_right names]
    constructor
    · rintro ⟨error, failed⟩
      by_contra free
      rw [unseen free] at failed
      cases failed
    · exact seen

/-! A struct whose flattened member has a field with the name of a field that comes later. -/

def text_serde : Serde Bytes where
  serialize text := .ok (.string text)
  deserialize := fun value => match value with
    | .string text => .ok text
    | _ => .error ⟨.InvalidType, []⟩

/-- One member, of the name `host`. -/
def connection : Struct Unit (fun _ => Bytes) where
  codec _ := .plain text_serde
  init _ := []
  fields := [{ member := (), name := ibm1047.str "host" }]

/-- The types of a flattened `connection` and of a text. -/
def SessionMember : Bool → Type
  | false => Unit → Bytes
  | true => Bytes

/-- The flattened `connection` is declared before a field of the name `host`. -/
def session (sys : Platform) : Struct Bool SessionMember where
  codec
    | false => .plain (connection.serde sys)
    | true => .plain text_serde
  init
    | false => fun _ => []
    | true => []
  fields :=
    [{ member := false, name := ibm1047.str "connection", flatten_field := true },
      { member := true, name := ibm1047.str "host" }]

/-- The value of the field `host`, which takes the place of the one in the flattened struct. -/
def session_value : ∀ i, SessionMember i
  | false => fun _ => ibm1047.str "inner"
  | true => ibm1047.str "outer"

/-- Nothing here reads or prints a text. -/
def textless_platform : Platform where
  cs := ibm1047
  from_str _ := .error ⟨.Custom, ibm1047.str "Failed to parse JSON string"⟩
  serialize _ := .error ⟨.Custom, ibm1047.str "Failed to serialize JSON"⟩
  print_double _ := []
  tmpdir := none
  geteuid := 0
  getpid := 0
  unlink _ := some 129
  mkfifo _ := none
  ENOENT := 129

theorem overwrites_flattened_field :
    ¬ ReportsCollisions textless_platform (session textless_platform) session_value := by
  intro reports
  let nested : Value := .object [(ibm1047.str "host", .string (ibm1047.str "inner"))]
  have contributed : (session textless_platform).fields.mapM
      (contribution textless_platform (session textless_platform) session_value) =
      .ok [⟨true, nested.as_object.toList⟩,
        ⟨false, [(ibm1047.str "host", .string (ibm1047.str "outer"))]⟩] := rfl
  have twice : ¬ (([⟨true, nested.as_object.toList⟩,
      ⟨false, [(ibm1047.str "host", .string (ibm1047.str "outer"))]⟩].flatMap
        Contribution.entries).map Prod.fst).Nodup := by
    decide +kernel
  obtain ⟨error, failed⟩ := (if_neg twice).mp (reports _ contributed)
  have written : serialize textless_platform (session textless_platform) session_value =
      .ok (.object [(ibm1047.str "host", .string (ibm1047.str "inner")),
        (ibm1047.str "host", .string (ibm1047.str "outer"))]) := rfl
  rw [written] at failed
  cases failed

end Struct

end Zowex.zjson

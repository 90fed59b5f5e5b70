import Zowex.Lib.Maps
import Zowex.Spec.Builder

/-! What is left of the arguments after `FlattenObj`. The properties are written under the names
they have, and the object goes last. -/

namespace Zowex.server

open zjson plugin Maps

variable (sys : Platform)

/-- The arguments that the scalar properties become, in the order of their names. -/
def scalar_properties : List (Bytes × Value) → Except Error (List (Bytes × Argument))
  | [] => .ok []
  | property :: properties =>
    match scalar_argument sys property.2 with
    | none => scalar_properties properties
    | some (.error e) => .error e
    | some (.ok argument) =>
      (scalar_properties properties).map fun scalars => (property.1, argument) :: scalars

/-- The arguments without the object, overridden by its scalar properties under their
kebab-cased names, and nothing else. -/
def Flattens (context : MiddlewareContext) (arg_name : Bytes) (object : Value) : Prop :=
  ∃ scalars, scalar_properties sys object.as_object.toList = .ok scalars ∧
    (apply_input_transform sys context (.FlattenObj arg_name)).args =
      write_all (camel_case_to_kebab_case sys.cs) (context.args.erase arg_name) scalars

/-- What stands under a name once the properties are written under their own names. -/
def standing (args : ArgumentMap) (scalars : List (Bytes × Argument)) (name : Bytes) :
    Option Argument :=
  ((scalars.find? fun p => p.1 = name).map Prod.snd).or args[name]?

/-- No property has the object's name, and writing a property under its own name leaves what
writing it under the kebab-cased one leaves. -/
structure PlainNames (cs : Charset) (args : ArgumentMap) (arg_name : Bytes)
    (scalars : List (Bytes × Argument)) : Prop where
  other : ∀ p ∈ scalars, camel_case_to_kebab_case cs p.1 ≠ arg_name
  raw : ∀ p ∈ scalars, camel_case_to_kebab_case cs p.1 ≠ p.1 → p.1 ≠ arg_name →
    args[p.1]? = some p.2
  kebab : ∀ before p after, scalars = before ++ p :: after →
    camel_case_to_kebab_case cs p.1 ≠ p.1 →
    (∀ q ∈ after, camel_case_to_kebab_case cs q.1 ≠ camel_case_to_kebab_case cs p.1) →
    standing args scalars (camel_case_to_kebab_case cs p.1) = some p.2

theorem flatten_properties_ok {args : ArgumentMap} {properties : List (Bytes × Value)}
    {scalars : List (Bytes × Argument)} (h : scalar_properties sys properties = .ok scalars) :
    flatten_properties sys args properties = (write_all id args scalars, none) := by
  induction properties generalizing args scalars with
  | nil =>
    cases h
    rfl
  | cons property properties ih =>
    rw [scalar_properties] at h
    rw [flatten_properties]
    cases argument : scalar_argument sys property.2 with
    | none =>
      rw [argument] at h
      exact ih h
    | some result =>
      rw [argument] at h
      cases result with
      | error e => cases h
      | ok argument =>
        cases rest : scalar_properties sys properties with
        | error e => simp [rest, Except.map] at h
        | ok others =>
          simp only [rest, Except.map, Except.ok.injEq] at h
          subst h
          exact ih rest

theorem scalar_properties_names {properties : List (Bytes × Value)}
    {scalars : List (Bytes × Argument)} (h : scalar_properties sys properties = .ok scalars) :
    (scalars.map Prod.fst).Sublist (properties.map Prod.fst) := by
  induction properties generalizing scalars with
  | nil =>
    cases h
    exact List.Sublist.refl _
  | cons property properties ih =>
    rw [scalar_properties] at h
    cases argument : scalar_argument sys property.2 with
    | none =>
      rw [argument] at h
      exact (ih h).cons _
    | some result =>
      rw [argument] at h
      cases result with
      | error e => cases h
      | ok argument =>
        cases rest : scalar_properties sys properties with
        | error e => simp [rest, Except.map] at h
        | ok others =>
          simp only [rest, Except.map, Except.ok.injEq] at h
          subst h
          exact (ih rest).cons_cons _

theorem object_names_nodup (object : ObjectMap) : (object.toList.map Prod.fst).Nodup := by
  have distinct := Std.ExtTreeMap.distinct_keys_toList (t := object)
  exact List.pairwise_map.mpr (distinct.imp fun h same => h (by simp [same]))

/-! Kebab-cased names. -/

theorem code_not_upper (cs : Charset) {a : Char} (h : a ∈ printable) (other : a ∉ Charset.upper) :
    cs.isupper (cs.code a) = false := by
  by_contra upper
  rw [Bool.not_eq_false, Charset.isupper, List.contains_iff_mem, List.mem_map] at upper
  obtain ⟨b, hb, same⟩ := upper
  have printed : ∀ b ∈ Charset.upper, b ∈ printable := by decide
  exact cs.code_ne (printed b hb) h (fun e => other (e ▸ hb)) same

theorem tolower_not_upper (cs : Charset) {c : UInt8} (h : cs.isupper c = true) :
    cs.isupper (cs.tolower c) = false := by
  have lowered : ∃ a ∈ Charset.lower, cs.tolower c = cs.code a := by
    unfold Charset.tolower
    cases found : ((Charset.upper.map cs.code).zip (Charset.lower.map cs.code)).lookup c with
    | none =>
      rw [Charset.isupper, List.contains_iff_mem] at h
      have keys : ((Charset.upper.map cs.code).zip (Charset.lower.map cs.code)).map Prod.fst =
          Charset.upper.map cs.code :=
        List.map_fst_zip (by simp only [List.length_map]; decide)
      rw [← keys, List.mem_map] at h
      obtain ⟨e, he, rfl⟩ := h
      rw [List.lookup_eq_none_iff] at found
      exact absurd (found e he) (by simp)
    | some l =>
      obtain ⟨before, after, same, -⟩ := List.lookup_eq_some_iff.mp found
      have inside := (List.of_mem_zip (same ▸ List.mem_append_right before List.mem_cons_self)).2
      obtain ⟨a, ha, rfl⟩ := List.mem_map.mp inside
      exact ⟨a, ha, rfl⟩
  obtain ⟨a, ha, same⟩ := lowered
  have printed : ∀ a ∈ Charset.lower, a ∈ printable ∧ a ∉ Charset.upper := by decide
  rw [same]
  exact code_not_upper cs (printed a ha).1 (printed a ha).2

theorem kebab_not_upper (cs : Charset) (name : Bytes) :
    ∀ c ∈ camel_case_to_kebab_case cs name, cs.isupper c = false := by
  have letter (c : UInt8) : cs.isupper (if cs.isupper c then cs.tolower c else c) = false := by
    split_ifs with upper
    · exact tolower_not_upper cs upper
    · exact Bool.eq_false_of_not_eq_true upper
  cases name with
  | nil => exact fun c h => absurd h List.not_mem_nil
  | cons first name =>
    rw [camel_case_to_kebab_case, List.forall_mem_cons]
    refine ⟨letter first, fun c h => ?_⟩
    obtain ⟨d, -, hd⟩ := List.mem_flatMap.mp h
    have lowered := letter d
    split_ifs at hd lowered with upper
    · rcases List.mem_cons.mp hd with rfl | hd
      · exact code_not_upper cs (by decide) (by decide)
      · exact List.mem_singleton.mp hd ▸ lowered
    · exact List.mem_singleton.mp hd ▸ lowered

/-- A name without capital letters stays as it is. -/
theorem kebab_of_not_upper (cs : Charset) {name : Bytes}
    (h : ∀ c ∈ name, cs.isupper c = false) : camel_case_to_kebab_case cs name = name := by
  cases name with
  | nil => rfl
  | cons first name =>
    rw [List.forall_mem_cons] at h
    rw [camel_case_to_kebab_case, h.1]
    have rest : name.flatMap (fun c => if cs.isupper c then [cs.code '-', cs.tolower c] else [c]) =
        name.flatMap fun c => [c] := by
      apply List.flatMap_congr
      intro c hc
      rw [h.2 c hc]
      rfl
    rw [rest, List.flatMap_singleton' name]
    rfl

theorem kebab_kebab (cs : Charset) (name : Bytes) :
    camel_case_to_kebab_case cs (camel_case_to_kebab_case cs name) =
      camel_case_to_kebab_case cs name :=
  kebab_of_not_upper cs (kebab_not_upper cs name)

/-! Both ways of writing the properties. -/

theorem getElem?_written {args : ArgumentMap} {scalars : List (Bytes × Argument)}
    (names : (scalars.map Prod.fst).Nodup) (name : Bytes) :
    (write_all id args scalars)[name]? = standing args scalars name := by
  rw [getElem?_write_all, standing, ← find_reverse names]
  rfl

theorem standing_of_mem {args : ArgumentMap} {scalars : List (Bytes × Argument)}
    (names : (scalars.map Prod.fst).Nodup) {p : Bytes × Argument} (h : p ∈ scalars) :
    standing args scalars p.1 = some p.2 := by
  rw [standing, find_of_mem names h]
  rfl

/-- The last property that a kebab-cased name is made for. -/
theorem last_kebab {cs : Charset} {scalars : List (Bytes × Argument)} {name : Bytes}
    {p : Bytes × Argument}
    (h : (scalars.reverse.find? fun e => camel_case_to_kebab_case cs e.1 = name) = some p) :
    camel_case_to_kebab_case cs p.1 = name ∧
      ∃ before after, scalars = before ++ p :: after ∧
        ∀ q ∈ after, camel_case_to_kebab_case cs q.1 ≠ name := by
  obtain ⟨same, behind, ahead, split, others⟩ := List.find?_eq_some_iff_append.mp h
  refine ⟨of_decide_eq_true same, ahead.reverse, behind.reverse, ?_, ?_⟩
  · rw [← List.reverse_reverse scalars, split]
    simp
  · intro q hq
    simpa using others q (List.mem_reverse.mp hq)

theorem kebab_last {cs : Charset} {before after : List (Bytes × Argument)}
    {p : Bytes × Argument} (last : ∀ q ∈ after,
      camel_case_to_kebab_case cs q.1 ≠ camel_case_to_kebab_case cs p.1) :
    ((before ++ p :: after).reverse.find? fun e =>
      camel_case_to_kebab_case cs e.1 = camel_case_to_kebab_case cs p.1) = some p := by
  have later : (after.reverse.find? fun e =>
      camel_case_to_kebab_case cs e.1 = camel_case_to_kebab_case cs p.1) = none := by
    rw [List.find?_eq_none]
    intro q hq
    simpa using last q (List.mem_reverse.mp hq)
  simp [List.find?_append, later]

/-- Erasing the object last and writing under the names as they are comes to the same as erasing
it first and writing under kebab-cased names, exactly for plain names. -/
theorem written_eq_iff {cs : Charset} {args : ArgumentMap} {arg_name : Bytes}
    {scalars : List (Bytes × Argument)} (names : (scalars.map Prod.fst).Nodup) :
    (write_all id args scalars).erase arg_name =
        write_all (camel_case_to_kebab_case cs) (args.erase arg_name) scalars ↔
      PlainNames cs args arg_name scalars := by
  constructor
  · intro same
    have lookup (name : Bytes) := congrArg (fun m : ArgumentMap => m[name]?) same
    simp only [getElem?_write_all] at lookup
    have other : ∀ p ∈ scalars, camel_case_to_kebab_case cs p.1 ≠ arg_name := by
      intro p hp own
      have erased := lookup arg_name
      rw [Std.ExtTreeMap.getElem?_erase_self] at erased
      have missing := (Option.or_eq_none_iff.mp erased.symm).1
      rw [Option.map_eq_none_iff, List.find?_eq_none] at missing
      exact missing p (List.mem_reverse.mpr hp) (by simpa using own)
    refine ⟨other, ?_, ?_⟩
    · intro p hp upper ne
      have found := lookup p.1
      have unmade : (scalars.reverse.find? fun e =>
          camel_case_to_kebab_case cs e.1 = p.1) = none := by
        rw [List.find?_eq_none]
        intro q hq made
        have made : camel_case_to_kebab_case cs q.1 = p.1 := by simpa using made
        exact upper (made ▸ kebab_kebab cs q.1)
      rw [getElem?_erase_ne ne.symm, getElem?_erase_ne ne.symm, getElem?_written names,
        standing_of_mem names hp, unmade] at found
      exact found.symm
    · rintro before p after rfl - last
      have ne := other p (by simp)
      have found := lookup (camel_case_to_kebab_case cs p.1)
      rw [getElem?_erase_ne ne.symm, getElem?_written names, kebab_last last] at found
      exact found
  · intro plain
    apply Std.ExtTreeMap.ext_getElem?
    intro name
    rw [getElem?_write_all]
    by_cases own : arg_name = name
    · subst own
      have unmade : (scalars.reverse.find? fun e =>
          camel_case_to_kebab_case cs e.1 = arg_name) = none := by
        rw [List.find?_eq_none]
        intro q hq
        simpa using plain.other q (List.mem_reverse.mp hq)
      rw [Std.ExtTreeMap.getElem?_erase_self, unmade, Std.ExtTreeMap.getElem?_erase_self]
      rfl
    · rw [getElem?_erase_ne own, getElem?_erase_ne own, getElem?_written names]
      cases made : scalars.reverse.find? fun e => camel_case_to_kebab_case cs e.1 = name with
      | none =>
        rw [standing]
        cases here : scalars.find? fun q => q.1 = name with
        | none => rfl
        | some p =>
          have same : p.1 = name := by simpa using List.find?_some here
          have inside := List.mem_of_find?_eq_some here
          subst same
          have upper : camel_case_to_kebab_case cs p.1 ≠ p.1 := fun made_here => by
            rw [List.find?_eq_none] at made
            exact made p (List.mem_reverse.mpr inside) (by simpa using made_here)
          exact (plain.raw p inside upper (Ne.symm own)).symm
      | some p =>
        obtain ⟨rfl, before, after, rfl, last⟩ := last_kebab made
        by_cases upper : camel_case_to_kebab_case cs p.1 = p.1
        · rw [upper]
          exact standing_of_mem names (by simp)
        · exact plain.kebab before p after rfl upper last

/-! The transform. -/

theorem flatten_obj_args {context : MiddlewareContext} {arg_name : Bytes} {arg : Argument}
    {object : Value} {scalars : List (Bytes × Argument)}
    (stored : context.args[arg_name]? = some arg)
    (parsed : sys.from_str arg.get_string_value = .ok object) (is_object : object.is_object = true)
    (h : scalar_properties sys object.as_object.toList = .ok scalars) :
    (apply_input_transform sys context (.FlattenObj arg_name)).args =
      (write_all id context.args scalars).erase arg_name := by
  simp only [apply_input_transform, stored, parsed, is_object, flatten_properties_ok sys h,
    Bool.not_true, Bool.false_eq_true, if_false]

/-- The object is flattened right exactly when its numbers are finite and its names are plain. -/
theorem flattens_iff {context : MiddlewareContext} {arg_name : Bytes} {arg : Argument}
    {object : Value} (stored : context.args[arg_name]? = some arg)
    (parsed : sys.from_str arg.get_string_value = .ok object)
    (is_object : object.is_object = true) :
    Flattens sys context arg_name object ↔
      ∃ scalars, scalar_properties sys object.as_object.toList = .ok scalars ∧
        PlainNames sys.cs context.args arg_name scalars := by
  apply exists_congr
  intro scalars
  apply and_congr_right
  intro h
  have names := (scalar_properties_names sys h).nodup (object_names_nodup object.as_object)
  rw [flatten_obj_args sys stored parsed is_object h]
  exact written_eq_iff names

/-- A system whose parser knows one text. -/
def object_platform (text : Bytes) (object : Value) : Platform where
  cs := ibm1047
  from_str data :=
    if data = text then .ok object
    else .error ⟨.Custom, ibm1047.str "Failed to parse JSON string"⟩
  serialize _ := .error ⟨.Custom, ibm1047.str "Failed to serialize JSON"⟩
  print_double _ := []
  tmpdir := none
  geteuid := 0
  getpid := 1
  unlink _ := some 129
  mkfifo _ := none
  ENOENT := 129

/-- A request whose attributes are this text. -/
def attributes_context (text : Bytes) : MiddlewareContext where
  command_path := ibm1047.str "createDataset"
  args := (∅ : ArgumentMap).insert (ibm1047.str "attributes") (.string text)

theorem attributes_stored (text : Bytes) :
    (attributes_context text).args[ibm1047.str "attributes"]? = some (.string text) :=
  Std.ExtTreeMap.getElem?_insert_self

theorem object_platform_parses (text : Bytes) (object : Value) :
    (object_platform text object).from_str (Argument.string text).get_string_value =
      .ok object :=
  if_pos rfl

def unit_object : Value := .object [(ibm1047.str "unit", .string (ibm1047.str "SYSDA"))]

def unit_text : Bytes := ibm1047.str "\x7b\"unit\":\"SYSDA\"\x7d"

theorem flattens_iff_unit :
    Flattens (object_platform unit_text unit_object) (attributes_context unit_text)
        (ibm1047.str "attributes") unit_object ↔
      ∃ scalars, scalar_properties (object_platform unit_text unit_object)
          unit_object.as_object.toList = .ok scalars ∧
        PlainNames ibm1047 (attributes_context unit_text).args (ibm1047.str "attributes")
          scalars :=
  flattens_iff _ (attributes_stored _) (object_platform_parses _ _) rfl

def own_name_object : Value := .object [(ibm1047.str "attributes", .integer 1)]

def own_name_text : Bytes := ibm1047.str "\x7b\"attributes\":1\x7d"

/-- A property named as the object itself is lost with it. -/
theorem own_name_lost :
    ¬ Flattens (object_platform own_name_text own_name_object)
      (attributes_context own_name_text) (ibm1047.str "attributes") own_name_object := by
  rintro ⟨scalars, read, same⟩
  have only : scalar_properties (object_platform own_name_text own_name_object)
      own_name_object.as_object.toList = .ok [(ibm1047.str "attributes", .int 1)] := rfl
  cases read.symm.trans only
  have names : ([(ibm1047.str "attributes", Argument.int 1)].map Prod.fst).Nodup :=
    List.nodup_singleton _
  rw [flatten_obj_args _ (attributes_stored _) (object_platform_parses _ _) rfl read,
    written_eq_iff names] at same
  exact same.other _ List.mem_cons_self (by decide +kernel)

end Zowex.server

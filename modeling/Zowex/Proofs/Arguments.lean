import Zowex.Proofs.Transforms
import Zowex.Proofs.Validation

/-! The argument under a name is the one of the last key, in byte order, that is converted
to that name. -/

namespace Zowex.server

open zjson plugin validator

variable {sys : Platform}

/-- The pair whose argument is left under `name`. -/
def last_named (cs : Charset) (name : Bytes) (pairs : List (Bytes × Value)) :
    Option (Bytes × Value) :=
  pairs.reverse.find? fun pair => camel_case_to_kebab_case cs pair.1 = name

theorem last_named_cons (cs : Charset) (name : Bytes) (pair : Bytes × Value)
    (pairs : List (Bytes × Value)) :
    last_named cs name (pair :: pairs) = (last_named cs name pairs).or
      (if camel_case_to_kebab_case cs pair.1 = name then some pair else none) := by
  rw [last_named, List.reverse_cons, List.find?_append, ← last_named, List.find?_singleton]
  simp only [decide_eq_true_eq]

theorem last_named_some {cs : Charset} {name : Bytes} {pairs : List (Bytes × Value)}
    {pair : Bytes × Value} (h : last_named cs name pairs = some pair) :
    pair ∈ pairs ∧ camel_case_to_kebab_case cs pair.1 = name :=
  ⟨List.mem_reverse.mp (List.mem_of_find?_eq_some h), by simpa using List.find?_some h⟩

theorem convert_pair_ok {args args' : ArgumentMap} {pair : Bytes × Value}
    (h : convert_pair sys args pair = .ok args') :
    ∃ arg, value_argument sys pair.2 = .ok arg ∧
      args' = args.insert (camel_case_to_kebab_case sys.cs pair.1) arg := by
  rw [convert_pair] at h
  cases ha : value_argument sys pair.2 with
  | error e => simp [ha, bind, Except.bind] at h
  | ok arg =>
    simp only [ha, bind, Except.bind, pure, Except.pure, Except.ok.injEq] at h
    exact ⟨arg, rfl, h.symm⟩

theorem convert_pairs_cons {args args' : ArgumentMap} {pair : Bytes × Value}
    {pairs : List (Bytes × Value)} (h : (pair :: pairs).foldlM (convert_pair sys) args = .ok args') :
    ∃ arg, value_argument sys pair.2 = .ok arg ∧ pairs.foldlM (convert_pair sys)
      (args.insert (camel_case_to_kebab_case sys.cs pair.1) arg) = .ok args' := by
  rw [List.foldlM_cons] at h
  cases hc : convert_pair sys args pair with
  | error e => simp [hc, bind, Except.bind] at h
  | ok next =>
    obtain ⟨arg, ha, rfl⟩ := convert_pair_ok hc
    rw [hc] at h
    exact ⟨arg, ha, h⟩

theorem convert_pairs_total {pairs : List (Bytes × Value)} {args args' : ArgumentMap}
    (h : pairs.foldlM (convert_pair sys) args = .ok args') :
    ∀ pair ∈ pairs, ∃ arg, value_argument sys pair.2 = .ok arg := by
  induction pairs generalizing args with
  | nil => exact nofun
  | cons pair pairs ih =>
    obtain ⟨arg, ha, hrest⟩ := convert_pairs_cons h
    intro p hp
    rcases List.mem_cons.mp hp with rfl | hp
    · exact ⟨arg, ha⟩
    · exact ih hrest p hp

theorem convert_pairs_lookup {pairs : List (Bytes × Value)} {args args' : ArgumentMap}
    (h : pairs.foldlM (convert_pair sys) args = .ok args') (name : Bytes) :
    args'[name]? = match last_named sys.cs name pairs with
      | some pair => (value_argument sys pair.2).toOption
      | none => args[name]? := by
  induction pairs generalizing args with
  | nil =>
    cases h
    rfl
  | cons pair pairs ih =>
    obtain ⟨arg, ha, hrest⟩ := convert_pairs_cons h
    rw [ih hrest, last_named_cons]
    cases last_named sys.cs name pairs with
    | some last => rfl
    | none =>
      rw [Option.none_or]
      by_cases hname : camel_case_to_kebab_case sys.cs pair.1 = name
      · rw [if_pos hname, hname, Std.ExtTreeMap.getElem?_insert_self]
        simp only [ha]
        rfl
      · rw [if_neg hname, Std.ExtTreeMap.getElem?_insert,
          if_neg (fun h => hname (Std.LawfulEqCmp.compare_eq_iff_eq.mp h))]

theorem request_arguments_ok {request : RpcRequest} {params : Value} {args : ArgumentMap}
    (hp : request.params = some params) (ha : request_arguments sys request = .ok args) :
    params.as_object.toList.foldlM (convert_pair sys) ∅ = .ok args := by
  simp only [request_arguments, hp, convert_json_params_to_argument_map] at ha
  split_ifs at ha
  cases hf : params.as_object.toList.foldlM (convert_pair sys) ∅ with
  | error e => simp [hf, Except.mapError] at ha
  | ok args' => simpa [hf, Except.mapError] using ha

theorem arguments_lookup {request : RpcRequest} {params : Value} {args : ArgumentMap}
    (hp : request.params = some params) (ha : request_arguments sys request = .ok args)
    (name : Bytes) :
    args[name]? = (last_named sys.cs name params.as_object.toList).bind fun pair =>
      (value_argument sys pair.2).toOption := by
  rw [convert_pairs_lookup (request_arguments_ok hp ha) name]
  cases last_named sys.cs name params.as_object.toList with
  | none => exact Std.ExtTreeMap.getElem?_empty
  | some pair => rfl

end Zowex.server

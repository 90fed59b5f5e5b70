import Zowex.Spec.CommandTree

/-! The arguments of a command have names of their own, and each flag that is on has one that turns
it off. -/

namespace Zowex.parser

open lexer plugin

variable {rt : Runtime} {args args' : List ArgumentDef} {arg : ArgumentDef}

theorem negation_name_ne (name : Bytes) : negation_name rt name ≠ name := by
  intro h
  have hlength := congrArg List.length h
  rw [negation_name, List.length_append] at hlength
  have hpos : (rt.str "no-").length = 3 := rfl
  omega

/-- The argument as it is stored. -/
def stored_argument (arg : ArgumentDef) : ArgumentDef :=
  { arg with default_value :=
      if arg.type = .Flag && arg.default_value.is_none then .bool false else arg.default_value }

/-- The guards that a registered argument has passed. -/
structure Accepted (rt : Runtime) (args : List ArgumentDef) (arg : ArgumentDef) : Prop where
  unnegated : ∀ als ∈ arg.aliases, als ≠ [] → (rt.str "--no-").isPrefixOf als = false
  name : ∀ existing ∈ args, existing.name ≠ arg.name
  aliases : ∀ existing ∈ args, ∀ als ∈ arg.aliases, als ≠ [] → als ∉ existing.aliases

/-- What registration adds, and what it makes sure of. -/
theorem register_argument_accepted (h : register_argument rt args arg = .ok args') :
    Accepted rt args arg ∧
      ((args' = args ++ [stored_argument arg, negation rt arg] ∧
          ∀ existing ∈ args, existing.name ≠ negation_name rt arg.name) ∨
        (args' = args ++ [stored_argument arg] ∧
          (arg.type = .Flag → (stored_argument arg).default_value ≠ .bool true))) := by
  unfold register_argument at h
  by_cases hhelp : arg.name = rt.str "help"
  · rw [if_pos hhelp] at h
    cases h
  rw [if_neg hhelp] at h
  by_cases hno : (rt.str "no-").isPrefixOf arg.name = true
  · rw [if_pos hno] at h
    cases h
  rw [if_neg hno] at h
  by_cases halias : (arg.aliases.any fun als => als ≠ [] && (rt.str "--no-").isPrefixOf als) = true
  · rw [if_pos halias] at h
    cases h
  rw [if_neg halias] at h
  by_cases hname : args.any (·.name = arg.name) = true
  · rw [if_pos hname] at h
    cases h
  rw [if_neg hname] at h
  split at h
  case h_1 => cases h
  case h_2 hshared =>
    refine ⟨⟨?_, ?_, ?_⟩, ?_⟩
    · intro als hals hne
      rw [Bool.eq_false_iff]
      intro hstart
      exact halias (List.any_eq_true.mpr ⟨als, hals, by simp [hne, hstart]⟩)
    · simpa using hname
    · intro existing hexisting als hals hne hmem
      have hkept : als ∈ arg.aliases.filter
          fun als => als ≠ [] && existing.aliases.contains als := by
        rw [List.mem_filter]
        exact ⟨hals, by simpa using ⟨hne, hmem⟩⟩
      rw [List.flatMap_eq_nil_iff.mp hshared existing hexisting] at hkept
      exact List.not_mem_nil hkept
    · dsimp only at h
      by_cases hon :
          (arg.type = .Flag && (stored_argument arg).default_value.get_bool = some true) = true
      · rw [stored_argument] at hon
        rw [if_pos hon] at h
        by_cases hnegation : args.any (·.name = negation_name rt arg.name) = true
        · rw [if_pos hnegation] at h
          cases h
        · rw [if_neg hnegation] at h
          cases h
          exact .inl ⟨rfl, by simpa using hnegation⟩
      · rw [stored_argument] at hon
        rw [if_neg hon] at h
        cases h
        refine .inr ⟨rfl, fun htype hdefault => hon ?_⟩
        rw [stored_argument] at hdefault
        rw [hdefault, htype]
        rfl

/-- What holds of the arguments of a command. -/
structure WellNamed (rt : Runtime) (args : List ArgumentDef) : Prop where
  nodup : (args.map ArgumentDef.name).Nodup
  negated : ∀ arg ∈ args, arg.type = .Flag → arg.default_value = .bool true →
    negation rt arg ∈ args ∧ arg.is_help_flag = false ∧ arg.is_json_flag = false

/-- An argument that is not a flag, or one that is off. -/
theorem WellNamed.append (h : WellNamed rt args)
    (hname : ∀ existing ∈ args, existing.name ≠ arg.name)
    (hoff : arg.type = .Flag → arg.default_value ≠ .bool true) : WellNamed rt (args ++ [arg]) := by
  constructor
  · rw [List.map_append, List.map_singleton]
    refine h.nodup.append (List.nodup_singleton _) ?_
    simpa [List.disjoint_left] using fun existing hmem => hname existing hmem
  · intro arg' hmem htype hdefault
    rcases List.mem_append.mp hmem with hold | hnew
    · obtain ⟨hnegation, hflags⟩ := h.negated arg' hold htype hdefault
      exact ⟨List.mem_append_left _ hnegation, hflags⟩
    · obtain rfl := List.mem_singleton.mp hnew
      exact absurd hdefault (hoff htype)

theorem WellNamed.append_negated (h : WellNamed rt args)
    (hname : ∀ existing ∈ args, existing.name ≠ arg.name)
    (hnegation : ∀ existing ∈ args, existing.name ≠ negation_name rt arg.name)
    (hflags : arg.is_help_flag = false ∧ arg.is_json_flag = false) :
    WellNamed rt (args ++ [arg, negation rt arg]) := by
  constructor
  · rw [List.map_append, List.map_cons, List.map_singleton]
    refine h.nodup.append ?_ ?_
    · exact List.nodup_cons.mpr ⟨by simpa [negation] using (negation_name_ne arg.name).symm,
        List.nodup_singleton _⟩
    · rw [List.disjoint_left]
      intro name hmem hnew
      obtain ⟨existing, hold, rfl⟩ := List.mem_map.mp hmem
      rcases List.mem_cons.mp hnew with heq | heq
      · exact hname existing hold heq
      · exact hnegation existing hold (List.mem_singleton.mp heq)
  · intro arg' hmem htype hdefault
    rcases List.mem_append.mp hmem with hold | hnew
    · obtain ⟨hnegated, hflags'⟩ := h.negated arg' hold htype hdefault
      exact ⟨List.mem_append_left _ hnegated, hflags'⟩
    · rcases List.mem_cons.mp hnew with rfl | hnew
      · exact ⟨by simp, hflags⟩
      · rw [List.mem_singleton.mp hnew] at hdefault
        cases hdefault

theorem WellNamed.ensure_help (h : WellNamed rt args) :
    WellNamed rt (ensure_help_argument rt args) := by
  unfold ensure_help_argument
  split_ifs with hany
  · exact h
  · exact h.append (by simpa [help_argument] using hany) (by rintro - ⟨⟩)

theorem WellNamed.ensure_json (h : WellNamed rt args) (json_registered : Bool) :
    WellNamed rt (ensure_json_argument rt json_registered args) := by
  unfold ensure_json_argument
  split_ifs with hregistered hany
  · exact h
  · exact h
  · refine h.append (fun existing hmem hname => hany ?_) (by rintro - ⟨⟩)
    exact List.any_eq_true.mpr ⟨existing, hmem, by simpa using .inl (.inl hname)⟩

theorem WellNamed.disable_json (h : WellNamed rt args) :
    WellNamed rt (disable_json_output args) := by
  constructor
  · exact h.nodup.sublist (List.filter_sublist.map _)
  · intro arg hmem htype hdefault
    obtain ⟨hnegation, hflags⟩ := h.negated arg (List.mem_filter.mp hmem).1 htype hdefault
    exact ⟨List.mem_filter.mpr ⟨hnegation, rfl⟩, hflags⟩

theorem Registered.well_named (h : Registered rt args) : WellNamed rt args := by
  induction h with
  | new =>
    have hempty : WellNamed rt [] := ⟨List.nodup_nil, by simp⟩
    exact hempty.ensure_help.ensure_json true
  | register arg _ hhelp hjson hregister ih =>
    obtain ⟨haccepted, ⟨rfl, hnegation⟩ | ⟨rfl, hoff⟩⟩ := register_argument_accepted hregister
    · refine ih.append_negated ?_ ?_ ?_
      · exact haccepted.name
      · exact hnegation
      · exact ⟨hhelp, hjson⟩
    · exact ih.append haccepted.name hoff
  | disable_json _ ih => exact ih.disable_json
  | ensure json_registered _ ih => exact ih.ensure_help.ensure_json json_registered

/-- Arguments of one name are one. -/
theorem WellNamed.eq_of_name (h : WellNamed rt args) {a b : ArgumentDef} (ha : a ∈ args)
    (hb : b ∈ args) (hname : a.name = b.name) : a = b :=
  List.inj_on_of_nodup_map h.nodup ha hb hname

end Zowex.parser

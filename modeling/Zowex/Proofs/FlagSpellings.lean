import Zowex.Lib.Runs
import Zowex.Proofs.Registration

/-! The flags that stand for an argument of a command: its name and its aliases. An alias is held
against the aliases of the others when it is registered, and a name against their names. -/

namespace Zowex.parser

open lexer plugin Runs

variable {rt : Runtime} {args args' : List ArgumentDef} {arg : ArgumentDef}

/-- Whether a flag stands for the argument. -/
def spells (rt : Runtime) (arg : ArgumentDef) (name : Bytes) (is_short : Bool) : Bool :=
  !arg.positional && (arg.name = name || arg.aliases.any (alias_matches rt name is_short))

/-- A flag stands for one argument at most, and the name of an argument for this argument. -/
structure SpelledOnce (rt : Runtime) (args : List ArgumentDef) : Prop where
  one : ∀ name is_short, ∀ a ∈ args, ∀ b ∈ args, spells rt a name is_short = true →
    spells rt b name is_short = true → a = b
  own : ∀ a ∈ args, a.positional = false → find_keyword_arg rt args a.name false = some a

/-- No flag is the name of an argument and an alias of another. -/
def NamedApart (rt : Runtime) (a b : ArgumentDef) : Prop :=
  a.positional = false → b.positional = false → ∀ is_short,
    (∀ als ∈ a.aliases, alias_matches rt b.name is_short als = false) ∧
      ∀ als ∈ b.aliases, alias_matches rt a.name is_short als = false

/-- A new argument does not have the name of an alias, nor an alias that is a name. -/
def TakesNoName (rt : Runtime) (options : Options) : Change → Prop
  | .register_argument arg => ∀ existing ∈ options.args, NamedApart rt existing arg
  | _ => True

/-- What registration makes sure of for any two arguments. -/
structure Distinct (a b : ArgumentDef) : Prop where
  name : a.name ≠ b.name
  aliases : ∀ als ∈ a.aliases, als ≠ [] → als ∉ b.aliases

instance : Std.Symm Distinct where
  symm _ _ h := ⟨h.name.symm, fun als hb hne ha => h.aliases als ha hne hb⟩

instance : Std.Symm (NamedApart rt) where
  symm _ _ h hb ha is_short := (h ha hb is_short).symm

theorem alias_matches_ne_nil {name als : Bytes} {is_short : Bool}
    (h : alias_matches rt name is_short als = true) : als ≠ [] := by
  intro hnil
  subst hnil
  cases is_short <;> simp [alias_matches] at h

/-- A flag is one text as an alias. -/
theorem alias_matches_unique {name als als' : Bytes} {is_short : Bool}
    (h : alias_matches rt name is_short als = true)
    (h' : alias_matches rt name is_short als' = true) : als = als' := by
  cases is_short with
  | true =>
    simp [alias_matches] at h h'
    exact h.2.trans h'.2.symm
  | false =>
    simp [alias_matches] at h h'
    exact h.2.trans h'.2.symm

/-- The flag that turns another one off is an alias of none. -/
theorem alias_matches_negation {name als : Bytes} {is_short : Bool}
    (h : (rt.str "--no-").isPrefixOf als = false) :
    alias_matches rt (negation_name rt name) is_short als = false := by
  rw [Bool.eq_false_iff] at h ⊢
  intro hmatch
  have hlength : (negation_name rt name).length = 3 + name.length := by
    rw [negation_name, List.length_append]
    rfl
  cases is_short with
  | true =>
    simp [alias_matches] at hmatch
    have htwo := congrArg List.length hmatch.2
    rw [List.length_cons, hlength] at htwo
    omega
  | false =>
    simp [alias_matches] at hmatch
    apply h
    rw [List.isPrefixOf_iff_prefix, hmatch.2]
    exact ⟨name, rfl⟩

theorem find_keyword_arg_eq (name : Bytes) (is_short : Bool) :
    find_keyword_arg rt args name is_short = args.find? (spells rt · name is_short) := rfl

/-- What holds of the arguments of a command, whatever is registered. -/
structure Ready (rt : Runtime) (options : Options) : Prop where
  distinct : options.args.Pairwise Distinct
  unnegated : ∀ a ∈ options.args, ∀ als ∈ a.aliases, (rt.str "--no-").isPrefixOf als = false
  help : help_argument rt ∈ options.args
  json : options.json_registered = true → json_argument rt ∈ options.args

theorem Accepted.isPrefixOf_alias (h : Accepted rt args arg) :
    ∀ als ∈ arg.aliases, (rt.str "--no-").isPrefixOf als = false := by
  intro als hals
  by_cases hnil : als = []
  · rw [hnil]
    rfl
  · exact h.unnegated als hals hnil

theorem Accepted.distinct (h : Accepted rt args arg) :
    ∀ existing ∈ args, Distinct existing (stored_argument arg) := fun existing hmem =>
  ⟨h.name existing hmem, fun als hals hne hnew => h.aliases existing hmem als hnew hne hals⟩

theorem distinct_negation {a : ArgumentDef} (h : a.name ≠ negation_name rt arg.name) :
    Distinct a (negation rt arg) :=
  ⟨h, fun _ _ _ => List.not_mem_nil⟩

section

variable {cs : Charset}

theorem map_code_isPrefixOf {a b : List Char} (ha : ∀ c ∈ a, c ∈ printable)
    (hb : ∀ c ∈ b, c ∈ printable) :
    (a.map cs.code).isPrefixOf (b.map cs.code) = a.isPrefixOf b := by
  induction a generalizing b with
  | nil => simp
  | cons c a ih =>
    cases b with
    | nil => simp
    | cons d b =>
      simp only [List.forall_mem_cons] at ha hb
      have hcode := cs.code_beq (List.mem_append_left _ ha.1) (List.mem_append_left _ hb.1)
      simp only [List.map_cons, List.isPrefixOf_cons_cons]
      rw [hcode, ih ha.2 hb.2]

/-- Whether a literal starts another one is read off their characters. -/
theorem str_isPrefixOf {a b : String} (ha : ∀ c ∈ a.toList, c ∈ printable)
    (hb : ∀ c ∈ b.toList, c ∈ printable) :
    (cs.str a).isPrefixOf (cs.str b) = a.toList.isPrefixOf b.toList :=
  map_code_isPrefixOf ha hb

theorem str_ne {a b : String} (ha : ∀ c ∈ a.toList, c ∈ printable)
    (hb : ∀ c ∈ b.toList, c ∈ printable) (h : a.toList.isPrefixOf b.toList = false) :
    cs.str a ≠ cs.str b := by
  intro heq
  have hself : (cs.str a).isPrefixOf (cs.str b) = true := by simp [heq]
  rw [str_isPrefixOf ha hb, h] at hself
  cases hself

end

/-- The aliases that a new command has. -/
theorem new_aliases_unnegated :
    ∀ als ∈ (help_argument rt).aliases ++ (json_argument rt).aliases,
      (rt.str "--no-").isPrefixOf als = false := by
  intro als hals
  simp only [help_argument, json_argument, List.cons_append, List.nil_append, List.mem_cons,
    List.not_mem_nil, or_false] at hals
  rcases hals with rfl | rfl | rfl | rfl <;>
    exact str_isPrefixOf (by decide) (by decide)

theorem distinct_help_json : Distinct (help_argument rt) (json_argument rt) where
  name := str_ne (by decide) (by decide) (by decide)
  aliases als hals _ hmem := by
    simp only [help_argument, json_argument, List.mem_cons, List.not_mem_nil, or_false] at hals hmem
    rcases hals with rfl | rfl <;> rcases hmem with hmem | hmem <;>
      exact str_ne (by decide) (by decide) (by decide) hmem

theorem new_arguments_eq : new_arguments rt = [help_argument rt, json_argument rt] := by
  rw [new_arguments, ensure_json_argument, if_neg (by simp), if_neg]
  · rfl
  · intro hany
    obtain ⟨arg, hmem, htaken⟩ := List.any_eq_true.mp hany
    obtain rfl : arg = help_argument rt := by simpa [ensure_help_argument] using hmem
    simp only [Bool.or_eq_true, decide_eq_true_eq, List.contains_iff_mem] at htaken
    rcases htaken with (htaken | htaken) | htaken
    · exact distinct_help_json.name htaken
    · exact distinct_help_json.aliases _ htaken (by simp [Charset.str]) (by simp [json_argument])
    · exact distinct_help_json.aliases _ htaken (by simp [Charset.str]) (by simp [json_argument])

theorem Ready.new : Ready rt (new_options rt) where
  distinct := by
    rw [new_options, new_arguments_eq]
    exact List.pairwise_pair.mpr distinct_help_json
  unnegated := by
    intro a ha als hals
    rw [new_options, new_arguments_eq] at ha
    apply new_aliases_unnegated als
    rcases List.mem_cons.mp ha with rfl | ha
    · exact List.mem_append_left _ hals
    · obtain rfl := List.mem_singleton.mp ha
      exact List.mem_append_right _ hals
  help := by simp [new_options, new_arguments_eq]
  json _ := by simp [new_options, new_arguments_eq]

section

variable {options options' : Options}

theorem register_of_change (h : change rt options (.register_argument arg) = some options') :
    register_argument rt options.args arg = .ok options'.args ∧
      options'.json_registered = options.json_registered := by
  rw [change] at h
  rcases hregister : register_argument rt options.args arg with message | args'
  · rw [hregister] at h
    cases h
  · rw [hregister] at h
    obtain rfl := Option.some.inj h
    exact ⟨rfl, rfl⟩

/-- The arguments that were there, and the new ones. -/
theorem register_added (h : register_argument rt args arg = .ok args') :
    ∃ added, args' = args ++ stored_argument arg :: added ∧ added.Sublist [negation rt arg] ∧
      (added ≠ [] → ∀ existing ∈ args, existing.name ≠ negation_name rt arg.name) := by
  obtain ⟨-, ⟨rfl, hname⟩ | ⟨rfl, -⟩⟩ := register_argument_accepted h
  · exact ⟨[negation rt arg], rfl, List.Sublist.refl _, fun _ => hname⟩
  · exact ⟨[], rfl, List.nil_sublist _, fun hne => absurd rfl hne⟩

/-- A relation between all arguments, where the new ones are in it with the others. -/
theorem pairwise_register {R : ArgumentDef → ArgumentDef → Prop}
    (h : register_argument rt args arg = .ok args') (hold : args.Pairwise R)
    (hstored : ∀ existing ∈ args, R existing (stored_argument arg))
    (hnegation : ∀ existing ∈ args, existing.name ≠ negation_name rt arg.name →
      R existing (negation rt arg))
    (hpair : R (stored_argument arg) (negation rt arg)) : args'.Pairwise R := by
  obtain ⟨added, rfl, hadded, hname⟩ := register_added h
  have hmem (b : ArgumentDef) (hb : b ∈ added) : b = negation rt arg ∧ added ≠ [] :=
    ⟨List.mem_singleton.mp (hadded.subset hb), List.ne_nil_of_mem hb⟩
  refine List.pairwise_append.mpr ⟨hold, List.pairwise_cons.mpr ⟨?_, ?_⟩, ?_⟩
  · intro b hb
    rw [(hmem b hb).1]
    exact hpair
  · exact (List.pairwise_singleton R _).sublist hadded
  · intro existing hexisting b hb
    rcases List.mem_cons.mp hb with rfl | hb
    · exact hstored existing hexisting
    · obtain ⟨rfl, hne⟩ := hmem b hb
      exact hnegation existing hexisting (hname hne existing hexisting)

theorem Ready.ensure (h : Ready rt options) :
    change rt options .ensure_arguments = some options := by
  have hhelp : ensure_help_argument rt options.args = options.args :=
    if_pos (List.any_eq_true.mpr ⟨_, h.help, by simp [help_argument]⟩)
  have hjson : ensure_json_argument rt options.json_registered options.args = options.args := by
    rw [ensure_json_argument]
    by_cases hregistered : options.json_registered = true
    · rw [if_neg (by simp [hregistered]), if_pos]
      exact List.any_eq_true.mpr ⟨_, h.json hregistered, by simp [json_argument]⟩
    · rw [if_pos (by simpa using hregistered)]
  rw [change, hhelp, hjson]

theorem Ready.register (h : Ready rt options)
    (hregister : register_argument rt options.args arg = .ok options'.args)
    (hjson : options'.json_registered = options.json_registered) : Ready rt options' := by
  obtain ⟨haccepted, -⟩ := register_argument_accepted hregister
  obtain ⟨added, hargs, hadded, -⟩ := register_added hregister
  have hkept : ∀ a ∈ options.args, a ∈ options'.args := by
    intro a ha
    rw [hargs]
    exact List.mem_append_left _ ha
  constructor
  · refine pairwise_register hregister h.distinct ?_ ?_ ?_
    · exact haccepted.distinct
    · exact fun existing _ hne => distinct_negation hne
    · exact distinct_negation (negation_name_ne arg.name).symm
  · intro a ha als hals
    rw [hargs] at ha
    rcases List.mem_append.mp ha with ha | ha
    · exact h.unnegated a ha als hals
    · rcases List.mem_cons.mp ha with rfl | ha
      · exact haccepted.isPrefixOf_alias als hals
      · rw [List.mem_singleton.mp (hadded.subset ha)] at hals
        exact absurd hals List.not_mem_nil
  · exact hkept _ h.help
  · exact fun hregistered => hkept _ (h.json (hjson ▸ hregistered))

theorem Ready.changed (h : Ready rt options) {action : Change}
    (hchange : change rt options action = some options') : Ready rt options' := by
  cases action with
  | register_argument arg =>
    obtain ⟨hregister, hjson⟩ := register_of_change hchange
    exact h.register hregister hjson
  | disable_json_output =>
    obtain rfl := Option.some.inj hchange
    refine ⟨h.distinct.filter _, ?_, ?_, ?_⟩
    · exact fun a ha => h.unnegated a (List.mem_filter.mp ha).1
    · exact List.mem_filter.mpr ⟨h.help, rfl⟩
    · rintro ⟨⟩
  | ensure_arguments =>
    rw [h.ensure] at hchange
    obtain rfl := Option.some.inj hchange
    exact h

/-- The flag that turns another one off is the alias of no argument, and has none. -/
theorem named_apart_negation {a : ArgumentDef}
    (h : ∀ als ∈ a.aliases, (rt.str "--no-").isPrefixOf als = false) :
    NamedApart rt a (negation rt arg) := by
  intro _ _ is_short
  constructor
  · exact fun als hals => alias_matches_negation (h als hals)
  · exact fun als hals => absurd hals List.not_mem_nil

/-- Names stay apart from aliases where the new argument is apart from the others. -/
theorem Ready.apart_change (h : Ready rt options) (hapart : options.args.Pairwise (NamedApart rt))
    {action : Change} (htakes : TakesNoName rt options action)
    (hchange : change rt options action = some options') :
    options'.args.Pairwise (NamedApart rt) := by
  cases action with
  | register_argument arg =>
    obtain ⟨hregister, -⟩ := register_of_change hchange
    obtain ⟨haccepted, -⟩ := register_argument_accepted hregister
    refine pairwise_register hregister hapart ?_ ?_ ?_
    · exact htakes
    · exact fun existing hmem _ => named_apart_negation (h.unnegated existing hmem)
    · exact named_apart_negation haccepted.isPrefixOf_alias
  | disable_json_output =>
    obtain rfl := Option.some.inj hchange
    exact hapart.filter _
  | ensure_arguments =>
    rw [h.ensure] at hchange
    obtain rfl := Option.some.inj hchange
    exact hapart

theorem spells_iff {a : ArgumentDef} {name : Bytes} {is_short : Bool} :
    spells rt a name is_short = true ↔ a.positional = false ∧
      (a.name = name ∨ ∃ als ∈ a.aliases, alias_matches rt name is_short als = true) := by
  simp [spells]

theorem spells_name (rt : Runtime) {a : ArgumentDef} (h : a.positional = false) (is_short : Bool) :
    spells rt a a.name is_short = true :=
  spells_iff.mpr ⟨h, .inl rfl⟩

/-- Two arguments of one flag are one. -/
theorem Ready.spells_one (h : Ready rt options) (hapart : options.args.Pairwise (NamedApart rt))
    {a b : ArgumentDef} {name : Bytes} {is_short : Bool} (ha : a ∈ options.args)
    (hb : b ∈ options.args) (hspells : spells rt a name is_short = true)
    (hspells' : spells rt b name is_short = true) : a = b := by
  by_contra hne
  have hdistinct := h.distinct.forall ha hb hne
  obtain ⟨hkeyword, hspelled⟩ := spells_iff.mp hspells
  obtain ⟨hkeyword', hspelled'⟩ := spells_iff.mp hspells'
  obtain ⟨hname, hname'⟩ := hapart.forall ha hb hne hkeyword hkeyword' is_short
  rcases hspelled with rfl | ⟨als, hals, hmatch⟩
  · rcases hspelled' with heq | ⟨als, hals, hmatch⟩
    · exact hdistinct.name heq.symm
    · exact absurd hmatch (by simp [hname' als hals])
  · rcases hspelled' with rfl | ⟨als', hals', hmatch'⟩
    · exact absurd hmatch (by simp [hname als hals])
    · obtain rfl := alias_matches_unique hmatch hmatch'
      exact hdistinct.aliases als hals (alias_matches_ne_nil hmatch) hals'

theorem Ready.spelled_once_iff_apart (h : Ready rt options) :
    SpelledOnce rt options.args ↔ options.args.Pairwise (NamedApart rt) := by
  constructor
  · intro hspelled
    refine h.distinct.imp_of_mem fun {a b} ha hb hdistinct hkeyword hkeyword' is_short => ?_
    have hne : a ≠ b := fun heq => hdistinct.name (congrArg ArgumentDef.name heq)
    constructor <;> intro als hals <;> rw [Bool.eq_false_iff] <;> intro hmatch
    · exact hne (hspelled.one b.name is_short a ha b hb
        (spells_iff.mpr ⟨hkeyword, .inr ⟨als, hals, hmatch⟩⟩) (spells_name rt hkeyword' is_short))
    · exact hne (hspelled.one a.name is_short a ha b hb (spells_name rt hkeyword is_short)
        (spells_iff.mpr ⟨hkeyword', .inr ⟨als, hals, hmatch⟩⟩))
  · intro hapart
    constructor
    · intro name is_short a ha b hb hspells hspells'
      exact h.spells_one hapart ha hb hspells hspells'
    · intro a ha hkeyword
      have hspells := spells_name rt hkeyword false
      obtain ⟨b, hfind⟩ := Option.isSome_iff_exists.mp
        (List.find?_isSome.mpr ⟨a, ha, hspells⟩ :
          (options.args.find? (spells rt · a.name false)).isSome = true)
      have hfound : spells rt b a.name false = true :=
        List.find?_some (p := (spells rt · a.name false)) hfind
      rw [find_keyword_arg_eq, hfind]
      exact congrArg some (h.spells_one hapart (List.mem_of_find?_eq_some hfind) ha hfound hspells)

end

theorem alias_matches_text {name als : Bytes} {is_short : Bool}
    (h : alias_matches rt name is_short als = true) :
    als = rt.str "-" ++ name ∨ als = rt.str "--" ++ name := by
  cases is_short with
  | true =>
    simp [alias_matches] at h
    exact .inl h.2
  | false =>
    simp [alias_matches] at h
    exact .inr h.2

theorem new_named_apart : (new_options rt).args.Pairwise (NamedApart rt) := by
  rw [new_options, new_arguments_eq]
  refine List.pairwise_pair.mpr fun _ _ is_short => ?_
  constructor <;> intro als hals <;> rw [Bool.eq_false_iff] <;> intro hmatch
  · have htext : als = rt.str "-json" ∨ als = rt.str "--json" := alias_matches_text hmatch
    simp only [help_argument, List.mem_cons, List.not_mem_nil, or_false] at hals
    rcases hals with rfl | rfl <;> rcases htext with htext | htext <;>
      exact str_ne (by decide) (by decide) (by decide) htext
  · have htext : als = rt.str "-help" ∨ als = rt.str "--help" := alias_matches_text hmatch
    simp only [json_argument, List.mem_cons, List.not_mem_nil, or_false] at hals
    rcases hals with rfl | rfl <;> rcases htext with htext | htext <;>
      exact str_ne (by decide) (by decide) (by decide) htext

/-- In all that a command goes through, each flag stands for one argument at most and each name for
its own argument, exactly if no argument that is registered has the name of an alias, or an alias
that is a name. -/
theorem spelled_once_iff {tr : List (Options × Change)} {options : Options}
    (hrun : Run (change rt) (new_options rt) tr options) :
    (∀ u ∈ states tr options, SpelledOnce rt u.args) ↔ Steps (TakesNoName rt) tr := by
  have hany : Steps (fun _ _ => True) tr := fun _ _ => trivial
  have hready : ∀ u ∈ states tr options, Ready rt u :=
    hrun.always hany Ready.new fun h _ hchange => h.changed hchange
  constructor
  · rintro hspelled ⟨u, action⟩ hmem
    obtain ⟨u', hu', hchange⟩ := hrun.next_mem hmem
    have hapart := (hready u' hu').spelled_once_iff_apart.mp (hspelled u' hu')
    cases action with
    | register_argument arg =>
      obtain ⟨added, hargs, -, -⟩ := register_added (register_of_change hchange).1
      rw [hargs, List.pairwise_append] at hapart
      intro existing hexisting
      exact hapart.2.2 existing hexisting (stored_argument arg) List.mem_cons_self
    | disable_json_output => trivial
    | ensure_arguments => trivial
  · intro hsteps u hu
    have hkept : Ready rt u ∧ u.args.Pairwise (NamedApart rt) := by
      refine hrun.always (I := fun u => Ready rt u ∧ u.args.Pairwise (NamedApart rt)) hsteps
        ?_ ?_ u hu
      · exact ⟨Ready.new, new_named_apart⟩
      · intro u action u' h htakes hchange
        exact ⟨h.1.changed hchange, h.1.apart_change h.2 htakes hchange⟩
    exact (hready u hu).spelled_once_iff_apart.mpr hkept.2

/-- A keyword argument with one alias. -/
def keyword_argument (name als : String) : ArgumentDef :=
  { help_argument ascii_runtime with
    name := ascii.str name
    aliases := [ascii.str als]
    type := .Single
    default_value := .none
    is_help_flag := false }

def file_options : Options where
  args := new_arguments ascii_runtime ++ [keyword_argument "file" "--data"]
  json_registered := true

def data_options : Options where
  args := file_options.args ++ [keyword_argument "data" "-d"]
  json_registered := true

def data_run : List (Options × Change) :=
  [(new_options ascii_runtime, .register_argument (keyword_argument "file" "--data")),
    (file_options, .register_argument (keyword_argument "data" "-d"))]

theorem run_data :
    Run (change ascii_runtime) (new_options ascii_runtime) data_run data_options := by
  have hfile : change ascii_runtime (new_options ascii_runtime)
      (.register_argument (keyword_argument "file" "--data")) = some file_options := by
    decide +kernel
  have hdata : change ascii_runtime file_options
      (.register_argument (keyword_argument "data" "-d")) = some data_options := by decide +kernel
  exact (Run.nil.snoc hfile).snoc hdata

theorem spelled_once_iff_data :
    (∀ u ∈ states data_run data_options, SpelledOnce ascii_runtime u.args) ↔
      Steps (TakesNoName ascii_runtime) data_run :=
  spelled_once_iff run_data

/-- `--data` is an alias of the first argument, and found where the second one is meant. -/
theorem data_spelled_twice :
    Run (change ascii_runtime) (new_options ascii_runtime) data_run data_options ∧
      ¬ SpelledOnce ascii_runtime data_options.args := by
  refine ⟨run_data, fun h => ?_⟩
  have hmem : keyword_argument "data" "-d" ∈ data_options.args := by decide +kernel
  have hown := h.own _ hmem rfl
  have hfound : find_keyword_arg ascii_runtime data_options.args (ascii.str "data") false =
      some (keyword_argument "file" "--data") := by decide +kernel
  have heq : keyword_argument "file" "--data" = keyword_argument "data" "-d" :=
    Option.some.inj (hfound.symm.trans hown)
  exact absurd heq (by decide +kernel)

end Zowex.parser

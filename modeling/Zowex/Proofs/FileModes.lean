import Zowex.Proofs.Arguments
import Zowex.Proofs.DynamicArguments
import Zowex.Proofs.FlagSpellings
import Zowex.Proofs.FlattenObj
import Zowex.Proofs.Transforms
import Zowex.Proofs.Words
import Zowex.Spec.FileModes

/-! Which modes are applied as they are written. A mode on a command line is an integer by the time
the command gets it, one of a request is a string. -/

namespace Zowex.uss

open lexer parser plugin server ds

variable {rt : Runtime} {cmd : ModeCommand} {text : Bytes} {args : ArgumentMap}

/-- The arguments of a call of the handler where the text was given for the mode. -/
inductive Given (rt : Runtime) (cmd : ModeCommand) (text : Bytes) : Route → ArgumentMap → Prop
  | command_line {p : Program} {root : Ref} {argv : List Bytes} {outcome : Outcome}
      {last : Frame} {items : List Item} {hooks : List Call} {args : ContextArgs} :
      p.rt = rt → (∀ command, Registered p.rt (p.command command).args) →
      cmd.mode_argument rt ∈ (last.cmd p).args → (last.cmd p).dynamic = none →
      parse_argv p root argv = some outcome →
      Reads p (start_frame p root [] false) (argv_tokens p.rt argv.tail) [] last items →
      Handled p last hooks args outcome →
      last_word (cmd.mode_argument rt) items = some (classify_argument rt text) →
      Given rt cmd text .command_line args.args
  | request {sys : Platform} {request : RpcRequest} {params : zjson.Value} {key : Bytes}
      {context : MiddlewareContext} :
      sys.cs = rt.toCharset → request.params = some params →
      last_named sys.cs (sys.cs.str cmd.field) params.as_object.toList = some (key, .string text) →
      request_arguments sys request = .ok context.args →
      cmd.requested rt (apply_input_transforms sys (cmd.transforms rt) context).args →
      Given rt cmd text .request (apply_input_transforms sys (cmd.transforms rt) context).args

/-! Octal and decimal digits. -/

theorem octal_loop_step (temp_mode multiplier mode : ℕ) :
    octal_loop temp_mode multiplier mode =
      octal_loop (temp_mode / 10) (multiplier * 8) (mode + temp_mode % 10 * multiplier) := by
  by_cases hzero : temp_mode = 0
  · subst hzero
    rw [octal_loop, octal_loop]
    simp
  · rw [octal_loop, if_neg hzero]

/-- The decimal digits of a number, the least significant first, are taken for octal ones. -/
theorem octal_loop_digits {digits : List ℕ} (h : ∀ d ∈ digits, d < 10) (multiplier mode : ℕ) :
    octal_loop (Nat.ofDigits 10 digits) multiplier mode =
      mode + multiplier * Nat.ofDigits 8 digits := by
  induction digits generalizing multiplier mode with
  | nil =>
    rw [octal_loop]
    simp
  | cons d digits ih =>
    have hd := h d List.mem_cons_self
    have hdiv : (d + 10 * Nat.ofDigits 10 digits) / 10 = Nat.ofDigits 10 digits := by omega
    have hmod : (d + 10 * Nat.ofDigits 10 digits) % 10 = d := by omega
    rw [Nat.ofDigits_cons, octal_loop_step, Nat.ofDigits_cons]
    rw [hdiv, hmod, ih fun e he => h e (List.mem_cons_of_mem _ he)]
    ring

def digit_values (rt : Runtime) (text : Bytes) : List ℕ :=
  text.map fun c => (rt.hex_digit c).getD 0

theorem octal_value_eq (text : Bytes) :
    octal_value rt text = Nat.ofDigits 8 (digit_values rt text).reverse := by
  induction text using List.reverseRecOn with
  | nil => rfl
  | append_singleton text c ih =>
    have hfold : octal_value rt (text ++ [c]) =
        octal_value rt text * 8 + (rt.hex_digit c).getD 0 := by
      simp only [octal_value, List.foldl_append, List.foldl_cons, List.foldl_nil]
    have hdigits : (digit_values rt (text ++ [c])).reverse =
        (rt.hex_digit c).getD 0 :: (digit_values rt text).reverse := by
      simp [digit_values]
    rw [hfold, hdigits, Nat.ofDigits_cons, ih]
    ring

theorem IsMode.digit (h : IsMode rt text) {c : UInt8} (hc : c ∈ text) :
    is_ascii_dec_digit rt c = true := by
  obtain ⟨a, ha, rfl⟩ := List.mem_map.mp (h.1 c hc)
  have hdec : ∀ a ∈ octal_digits, a ∈ dec_digits := by decide
  exact decide_eq_true (List.mem_map_of_mem (hdec a ha))

/-- The mode that `chmod` gets is the one that is written. -/
theorem convert_mode_number (h : IsMode rt text) :
    convert_mode (number rt .Dec text) = octal_value rt text := by
  have hlt := number_lt fun c hc => h.digit hc
  have hbound : number rt .Dec text < 10000 :=
    hlt.trans_le (Nat.pow_le_pow_right (by decide : 0 < 10) h.2.2)
  have hnarrow : ((number rt .Dec text : ℤ).bmod (2 ^ 32)).toNat = number rt .Dec text := by
    rw [Int.bmod_eq_of_le (by omega) (by omega)]
    exact Int.toNat_natCast _
  have hdigits : ∀ d ∈ (digit_values rt text).reverse, d < 10 := by
    intro d hd
    obtain ⟨c, hc, rfl⟩ := List.mem_map.mp (List.mem_reverse.mp hd)
    obtain ⟨d, hd, hvalue⟩ := digit_value (h.digit hc)
    rwa [hvalue]
  have hloop := octal_loop_digits hdigits 1 0
  rw [Nat.zero_add, Nat.one_mul, ← octal_value_eq] at hloop
  rw [convert_mode, hnarrow]
  exact hloop

/-- On a command line. -/
theorem parsed_mode (h : IsMode rt text) : parsed rt text = .int (number rt .Dec text) := by
  obtain ⟨c, more, rfl⟩ : ∃ c more, text = c :: more :=
    List.exists_cons_of_length_pos (by have := h.2.1; omega)
  have hlength := h.2.2
  rw [List.length_cons] at hlength
  have hclassify := classify_digits (by omega) fun d hd => h.digit hd
  rw [parsed, hclassify]
  rfl

/-! What the commands make of the argument. -/

section

variable {arg : Argument}

theorem get_int_mode (h : args[rt.str "mode"]? = some arg) (default_value : ℤ) :
    get_int rt args "mode" default_value = arg.get_int.getD default_value := by
  rw [get_int, h]
  rfl

theorem get_string_mode (h : args[rt.str "mode"]? = some arg) :
    get_string rt.toCharset args "mode" = arg.get_string.getD [] := by
  rw [get_string, h]
  rfl

theorem chmod_mode_int {value : ℤ} (h : args[rt.str "mode"]? = some (.int value)) :
    chmod_mode rt args = some value := by
  rw [chmod_mode, get_int_mode h, get_string_mode h, if_neg (fun hempty => hempty.2 rfl)]
  rfl

theorem chmod_mode_string {word : Bytes} (h : args[rt.str "mode"]? = some (.string word)) :
    chmod_mode rt args =
      if word = [] then some 0
      else if IsMode rt word then some ↑(number rt .Dec word) else none := by
  rw [chmod_mode, get_int_mode h, get_string_mode h, strtoll_eq]
  by_cases hword : word = []
  · rw [if_pos hword, if_neg (fun hempty => hempty.2 hword)]
    rfl
  · rw [if_neg hword, if_pos ⟨rfl, hword⟩]
    rfl

/-- Every other argument is taken for a zero. -/
theorem chmod_mode_other (h : args[rt.str "mode"]? = some arg) (hint : arg.get_int = none)
    (hstring : arg.get_string = none) : chmod_mode rt args = some 0 := by
  rw [chmod_mode, get_int_mode h, get_string_mode h, hint, hstring,
    if_neg (fun hempty => hempty.2 rfl)]
  rfl

end

/-! How the argument reaches the commands. -/

section

variable {Files : Type} (sv : Services Files)

theorem handler_eq (cmd : ModeCommand) (args : ArgumentMap) (files : Files) :
    cmd.handler rt sv args files =
      (cmd.applied_mode rt args).elim (files, zjb.RTNCD_FAILURE)
        fun mode => cmd.perform rt sv args mode files := by
  cases cmd with
  | chmod =>
    rw [ModeCommand.handler, handle_uss_chmod, ModeCommand.applied_mode]
    rcases chmod_mode rt args with _ | mode <;> rfl
  | create_file =>
    rw [ModeCommand.handler, handle_uss_create_file, ModeCommand.applied_mode]
    by_cases hzero : get_int rt args "mode" 644 = 0
    · simp [hzero]
    · simp [hzero, ModeCommand.perform]
  | create_dir =>
    rw [ModeCommand.handler, handle_uss_create_dir, ModeCommand.applied_mode]
    by_cases hzero : get_int rt args "mode" 755 = 0
    · simp [hzero]
    · simp [hzero, ModeCommand.perform]

end

/-- Services that keep the modes they were called with. -/
def recorder : Services (List ℕ) where
  zusf_chmod_uss_file_or_dir _ mode _ modes := (mode :: modes, 0)
  zusf_create_uss_file_or_dir _ mode _ modes := (mode :: modes, 0)

theorem perform_recorder (cmd : ModeCommand) (mode : ℕ) :
    cmd.perform rt recorder args mode [] = ([mode], 0) := by
  cases cmd <;> rfl

/-- The mode that goes to the files is the one that is written, and goes there if one is. -/
def Written (rt : Runtime) (text : Bytes) : Option ℕ :=
  if IsMode rt text then some (octal_value rt text) else none

theorem octal_or_rejected_of_call {route : Route}
    (hcall : ∀ (Files : Type) (sv : Services Files), route.call rt sv cmd args =
      cmd.handler rt sv args) :
    OctalOrRejected rt cmd route text args ↔ cmd.applied_mode rt args = Written rt text := by
  have hcall' (Files : Type) (sv : Services Files) (files : Files) :
      route.call rt sv cmd args files = (cmd.applied_mode rt args).elim (files, zjb.RTNCD_FAILURE)
        fun mode => cmd.perform rt sv args mode files := by
    rw [hcall, handler_eq]
  constructor
  · intro h
    have hrecord := h (List ℕ) recorder []
    rw [hcall'] at hrecord
    by_cases hmode : IsMode rt text
    · rw [if_pos hmode, perform_recorder] at hrecord
      rw [Written, if_pos hmode]
      rcases happlied : cmd.applied_mode rt args with _ | mode
      · simp [happlied] at hrecord
      · simpa [happlied, perform_recorder] using hrecord
    · rw [if_neg hmode] at hrecord
      rw [Written, if_neg hmode]
      rcases happlied : cmd.applied_mode rt args with _ | mode
      · rfl
      · simp [happlied, perform_recorder] at hrecord
  · intro h Files sv files
    rw [hcall', h, Written]
    by_cases hmode : IsMode rt text
    · rw [if_pos hmode, if_pos hmode]
      rfl
    · rw [if_neg hmode, if_neg hmode]
      exact ⟨rfl, (by decide : zjb.RTNCD_FAILURE ≠ 0)⟩

/-! The argument that a request gives. -/

/-- The names in question have no capital letters. -/
theorem kebab_str {name : String} (h : ∀ a ∈ name.toList, a ∈ printable ∧ a ∉ Charset.upper) :
    camel_case_to_kebab_case rt.toCharset (rt.str name) = rt.str name := by
  apply kebab_of_not_upper
  intro c hc
  obtain ⟨a, ha, rfl⟩ := List.mem_map.mp hc
  exact code_not_upper rt.toCharset (h a ha).1 (h a ha).2

theorem request_mode {sys : Platform} {context : MiddlewareContext} {arg : Argument}
    (hcs : sys.cs = rt.toCharset) (h : context.args[rt.str cmd.field]? = some arg) :
    (apply_input_transforms sys (cmd.transforms rt) context).args[rt.str "mode"]? = some arg := by
  have hfspath {name : String} (hname : ∀ c ∈ name.toList, c ∈ printable)
      (hpath : "fspath".toList.isPrefixOf name.toList = false)
      (hfile : "file-path".toList.isPrefixOf name.toList = false) :
      (ArgTransform.RenameArg (rt.str "fspath") (rt.str "file-path")).touches sys.cs
        (rt.str name) = false := by
    rw [ArgTransform.touches, hcs, kebab_str (by decide), Bool.or_eq_false_iff]
    exact ⟨decide_eq_false (parser.str_ne (by decide) hname hpath),
      decide_eq_false (parser.str_ne (by decide) hname hfile)⟩
  cases cmd with
  | chmod =>
    have huntouched : ∀ t ∈ ModeCommand.chmod.transforms rt,
        t.touches sys.cs (rt.str "mode") = false := by
      intro t ht
      obtain rfl := List.mem_singleton.mp ht
      exact hfspath (by decide) (by decide) (by decide)
    rw [apply_input_transforms_untouched huntouched]
    exact h
  | create_file | create_dir =>
    have hrenamed (context' : MiddlewareContext)
        (h' : context'.args[rt.str "permissions"]? = some arg) :
        (apply_input_transform sys context'
          (.RenameArg (rt.str "permissions") (rt.str "mode"))).args[rt.str "mode"]? = some arg := by
      simp only [apply_input_transform, hcs, @kebab_str rt "permissions" (by decide), h']
      exact Std.ExtTreeMap.getElem?_insert_self
    apply hrenamed
    rw [apply_input_transform_untouched (hfspath (by decide) (by decide) (by decide))]
    exact h

/-! The argument that a command line gives. -/

section

variable {p : Program} {arg : ArgumentDef}

theorem Reads.fit {root : Frame} {tokens rest : List Token} {last : Frame} {items : List Item}
    (h : Reads p root tokens rest last items) :
    ∀ item ∈ items, ∃ index, item.fits p (last.cmd p) index := by
  induction h with
  | start => exact fun item hitem => absurd hitem List.not_mem_nil
  | item item _ _ _ hfits ih =>
    rw [Item.apply_cmd]
    intro other hother
    rcases List.mem_append.mp hother with hbefore | hlast
    · exact ih other hbefore
    · obtain rfl := List.mem_singleton.mp hlast
      exact ⟨_, hfits⟩
  | subcommand => exact fun item hitem => absurd hitem List.not_mem_nil

/-- An argument with one value has that of the last item that is for it. -/
theorem value_for_word {cmd : Command} (hnamed : WellNamed p.rt cmd.args) (harg : arg ∈ cmd.args)
    (htype : arg.type = .Single) (hjson : arg.is_json_flag = false) {item : Item} {index : ℕ}
    (hfits : item.fits p cmd index) (value : Argument) :
    item.value_for p arg value = (word_for arg item).elim value
      fun token => parse_token_value p.rt token .Single arg.coerce_as_string := by
  have hflag {matched : ArgumentDef} (hmatched : matched ∈ cmd.args) (hflag : matched.type = .Flag) :
      matched.name ≠ arg.name := by
    intro hname
    rw [hnamed.eq_of_name hmatched harg hname, htype] at hflag
    cases hflag
  -- a value of an argument of its name is one of its own
  have hvalue {matched : ArgumentDef} (hmatched : matched ∈ cmd.args) {values : List Token}
      (hne : values ≠ []) (earlier : List Bytes) :
      (if matched.name = arg.name then
          item_value p matched.type matched.coerce_as_string earlier values else value) =
        (if matched.name = arg.name then values.head? else none).elim value
          fun token => parse_token_value p.rt token .Single arg.coerce_as_string := by
    by_cases hname : matched.name = arg.name
    · obtain rfl := hnamed.eq_of_name hmatched harg hname
      obtain ⟨token, more, rfl⟩ := List.exists_cons_of_ne_nil hne
      rw [if_pos rfl, if_pos rfl, htype]
      rfl
    · rw [if_neg hname, if_neg hname]
      rfl
  have hhead {matched : ArgumentDef} {values : List Token} (hne : values ≠ []) :
      (∀ token, word_for arg (.option token matched values) =
        if matched.name = arg.name then values.head? else none) ∧
      word_for arg (.positional matched values) =
        if matched.name = arg.name then values.head? else none := by
    obtain ⟨token, more, rfl⟩ := List.exists_cons_of_ne_nil hne
    exact ⟨fun _ => rfl, rfl⟩
  cases item with
  | passthrough words => rfl
  | combined letters args =>
    refine if_neg fun hmem => ?_
    obtain ⟨matched, hmatched, hname⟩ := List.mem_map.mp hmem
    obtain ⟨c, hfind⟩ := exists_of_mem_right hfits.2 hmatched
    have hnames : names p cmd (.TokFlagShort [c]) matched := ⟨le_rfl, hfind.1⟩
    exact hflag (mem_of_names hnames).1 hfind.2.2 hname
  | json token matched =>
    refine if_neg fun hname => ?_
    obtain rfl := hnamed.eq_of_name (mem_of_names hfits.1).1 harg hname
    exact absurd hfits.2.2 (by rw [hjson]; exact Bool.false_ne_true)
  | flag token matched given => exact if_neg (hflag (mem_of_names hfits.1).1 hfits.2.2.2.1)
  | option token matched values =>
    have hne := hfits.2.2.2.2.1
    rw [(hhead hne).1]
    exact hvalue (mem_of_names hfits.1).1 hne _
  | dynamic name type values => rfl
  | positional matched values =>
    have hne := hfits.2.2.1
    have hmatched := List.mem_filter.mp (List.mem_of_getElem? hfits.1)
    rw [(hhead hne).2]
    exact hvalue hmatched.1 hne _

theorem declared_value_word {cmd : Command} (hnamed : WellNamed p.rt cmd.args)
    (harg : arg ∈ cmd.args) (htype : arg.type = .Single) (hjson : arg.is_json_flag = false)
    {items : List Item} (hfits : ∀ item ∈ items, ∃ index, item.fits p cmd index) :
    declared_value p items arg = (last_word arg items).elim arg.default_value
      fun token => parse_token_value p.rt token .Single arg.coerce_as_string := by
  induction items using List.reverseRecOn with
  | nil => rfl
  | append_singleton items item ih =>
    obtain ⟨index, hitem⟩ := hfits item (by simp)
    rw [declared_value_append, value_for_word hnamed harg htype hjson hitem,
      ih fun other hother => hfits other (by simp [hother]), last_word, last_word,
      List.filterMap_append]
    rcases hword : word_for arg item with _ | token <;> simp [hword]

theorem no_dynamic {cmd : Command} (hdynamic : cmd.dynamic = none) {items : List Item}
    (hfits : ∀ item ∈ items, ∃ index, item.fits p cmd index) (name : Bytes) :
    last_dynamic p items name = none := by
  apply last_dynamic_eq_none.mpr
  intro type values hmem
  obtain ⟨index, hitem⟩ := hfits _ hmem
  rw [Item.fits, hdynamic] at hitem
  exact absurd hitem.2.1 (by simp)

end

/-- What the command finds under `mode`. -/
def Route.argument (rt : Runtime) (text : Bytes) : Route → Argument
  | command_line => parsed rt text
  | request => .string text

theorem Given.mode {route : Route} (h : Given rt cmd text route args) :
    args[rt.str "mode"]? = some (route.argument rt text) := by
  cases h with
  | @command_line p root argv outcome last items hooks args hrt hargs harg hdynamic _ hreads
      hhandled hword =>
    subst hrt
    have hnamed (command : Ref) := (hargs command).well_named
    have hdeclared := hhandled.declared hnamed hreads harg rfl rfl
    rw [no_dynamic hdynamic (Reads.fit hreads), Option.none_or,
      declared_value_word (hnamed _) harg rfl rfl (Reads.fit hreads), hword] at hdeclared
    exact hdeclared
  | request hcs hparams hnamed hargs _ =>
    apply request_mode hcs
    have hlookup := arguments_lookup hparams hargs
    rw [hcs] at hlookup hnamed
    rw [hlookup, hnamed]
    rfl

/-! Which texts are treated right. -/

theorem ofDigits_eq_zero {b : ℕ} (hb : 0 < b) (digits : List ℕ) :
    Nat.ofDigits b digits = 0 ↔ ∀ d ∈ digits, d = 0 := by
  induction digits with
  | nil => simp
  | cons d digits ih =>
    rw [Nat.ofDigits_cons, List.forall_mem_cons, ← ih]
    simp [hb.ne']

theorem number_eq_zero_iff (text : Bytes) : number rt .Dec text = 0 ↔ octal_value rt text = 0 := by
  rw [octal_value_eq, ofDigits_eq_zero (by decide), number, ofDigits_eq_zero (by decide)]
  rfl

theorem chmod_command_line_iff (h : args[rt.str "mode"]? = some (parsed rt text)) :
    ModeCommand.chmod.applied_mode rt args = Written rt text ↔
      TreatedRight rt .chmod .command_line text := by
  rw [ModeCommand.applied_mode, TreatedRight, Written]
  by_cases hmode : IsMode rt text
  · rw [parsed_mode hmode] at h
    rw [if_pos hmode, chmod_mode_int h, Option.map_some, convert_mode_number hmode]
    exact iff_of_true rfl (.inl hmode)
  · rw [if_neg hmode, Option.map_eq_none_iff]
    simp only [hmode, false_or]
    rcases hparsed : parsed rt text with _ | val | val | val | word | val
    case int =>
      rw [hparsed] at h
      simp [chmod_mode_int h]
    case string =>
      rw [hparsed] at h
      rw [chmod_mode_string h]
      by_cases hword : word = []
      · simp [hword]
      · by_cases hwritten : IsMode rt word <;> simp [hword, hwritten]
    all_goals
      rw [hparsed] at h
      simp [chmod_mode_other h rfl rfl]

theorem chmod_request_iff (h : args[rt.str "mode"]? = some (.string text)) :
    ModeCommand.chmod.applied_mode rt args = Written rt text ↔
      TreatedRight rt .chmod .request text := by
  rw [ModeCommand.applied_mode, TreatedRight, Written, chmod_mode_string h]
  by_cases hempty : text = []
  · subst hempty
    have hmode : ¬ IsMode rt [] := fun hmode => absurd hmode.2.1 (by decide)
    simp [hmode]
  · by_cases hmode : IsMode rt text
    · simp [hempty, hmode, convert_mode_number hmode]
    · simp [hempty, hmode]

/-- The mode of a file that is created, by its default. -/
def created_mode (rt : Runtime) (default_value : ℤ) (args : ArgumentMap) : Option ℕ :=
  let mode := get_int rt args "mode" default_value
  if mode = 0 then none else some (convert_mode mode)

theorem created_command_line_iff {default_value : ℤ} (hdefault : default_value ≠ 0)
    (h : args[rt.str "mode"]? = some (parsed rt text)) :
    created_mode rt default_value args = Written rt text ↔
      if IsMode rt text then octal_value rt text ≠ 0 else parsed rt text = .int 0 := by
  rw [created_mode, get_int_mode h, Written]
  by_cases hmode : IsMode rt text
  · rw [if_pos hmode, if_pos hmode, parsed_mode hmode]
    simp only [Argument.get_int, Option.getD_some, Nat.cast_eq_zero, number_eq_zero_iff,
      convert_mode_number hmode]
    by_cases hzero : octal_value rt text = 0 <;> simp [hzero]
  · rw [if_neg hmode, if_neg hmode]
    rcases parsed rt text with _ | val | val | val | word | val
    case int => by_cases hval : val = 0 <;> simp [Argument.get_int, hval]
    all_goals simp [Argument.get_int, hdefault]

/-- Over a request, what is written does not matter. -/
theorem created_request {default_value : ℤ} (hdefault : default_value ≠ 0)
    (h : args[rt.str "mode"]? = some (.string text)) :
    created_mode rt default_value args = some (convert_mode default_value) := by
  rw [created_mode, get_int_mode h]
  exact if_neg hdefault

/-- The text of some digits. -/
def digit_text (rt : Runtime) (digits : List ℕ) : Bytes := digits.map fun d => rt.code d.digitChar

theorem IsMode.exists_digits (h : IsMode rt text) :
    ∃ digits : List ℕ, text = digit_text rt digits ∧ ∀ d ∈ digits, d < 8 := by
  have hchars : ∀ a ∈ octal_digits, ∃ d < 8, a = Nat.digitChar d := by decide
  have hall := h.1
  clear h
  induction text with
  | nil => exact ⟨[], rfl, by simp⟩
  | cons c text ih =>
    rw [List.forall_mem_cons] at hall
    obtain ⟨a, ha, rfl⟩ := List.mem_map.mp hall.1
    obtain ⟨d, hd, rfl⟩ := hchars a ha
    obtain ⟨digits, rfl, hdigits⟩ := ih hall.2
    exact ⟨d :: digits, rfl, List.forall_mem_cons.mpr ⟨hd, hdigits⟩⟩

theorem octal_value_digits {digits : List ℕ} (h : ∀ d ∈ digits, d < 8) :
    octal_value rt (digit_text rt digits) = Nat.ofDigits 8 digits.reverse := by
  have hvalues : digit_values rt (digit_text rt digits) = digits := by
    rw [digit_values, digit_text, List.map_map]
    conv_rhs => rw [← List.map_id digits]
    apply List.map_congr_left
    intro d hd
    have hlt : d < 16 := (h d hd).trans (by decide)
    simp [zds.hex_digit_char rt.toCharset hlt]
  rw [octal_value_eq, hvalues]

theorem isMode_digits {digits : List ℕ} (h : ∀ d ∈ digits, d < 8) (hmin : 3 ≤ digits.length)
    (hmax : digits.length ≤ 4) : IsMode rt (digit_text rt digits) := by
  have hchars : ∀ d < 8, Nat.digitChar d ∈ octal_digits := by decide
  refine ⟨fun c hc => ?_, ?_, ?_⟩
  · obtain ⟨d, hd, rfl⟩ := List.mem_map.mp hc
    exact List.mem_map_of_mem (hchars d (h d hd))
  · rwa [digit_text, List.length_map]
  · rwa [digit_text, List.length_map]

/-- A mode of three digits is written with these, or with a zero before them. -/
theorem written_eq_iff {a b c : ℕ} (ha : a < 8) (hb : b < 8) (hc : c < 8) :
    Written rt text = some (64 * a + 8 * b + c) ↔
      text = digit_text rt [a, b, c] ∨ text = digit_text rt [0, a, b, c] := by
  have hdigits : ∀ d ∈ [0, a, b, c], d < 8 := by simp [ha, hb, hc]
  constructor
  · intro h
    rw [Written] at h
    split_ifs at h with hmode
    obtain ⟨digits, rfl, hlt⟩ := hmode.exists_digits
    rw [octal_value_digits hlt] at h
    have hmin := hmode.2.1
    have hmax := hmode.2.2
    rw [digit_text, List.length_map] at hmin hmax
    have hvalue := Option.some.inj h
    rcases digits with _ | ⟨w, _ | ⟨x, _ | ⟨y, _ | ⟨z, more⟩⟩⟩⟩
    case cons.cons.cons.nil =>
      simp [Nat.ofDigits_cons] at hvalue hlt
      obtain ⟨rfl, rfl, rfl⟩ : w = a ∧ x = b ∧ y = c := by omega
      exact .inl rfl
    case cons.cons.cons.cons =>
      obtain rfl : more = [] := List.eq_nil_of_length_eq_zero (by
        simp only [List.length_cons] at hmax
        omega)
      simp [Nat.ofDigits_cons] at hvalue hlt
      obtain ⟨rfl, rfl, rfl, rfl⟩ : w = 0 ∧ x = a ∧ y = b ∧ z = c := by omega
      exact .inr rfl
    all_goals
      simp only [List.length_cons, List.length_nil] at hmin
      omega
  · have hwritten {digits : List ℕ} (hsub : ∀ d ∈ digits, d ∈ [0, a, b, c])
        (hmin : 3 ≤ digits.length) (hmax : digits.length ≤ 4) :
        Written rt (digit_text rt digits) = some (Nat.ofDigits 8 digits.reverse) := by
      have hlt : ∀ d ∈ digits, d < 8 := fun d hd => hdigits d (hsub d hd)
      rw [Written, if_pos (isMode_digits hlt hmin hmax), octal_value_digits hlt]
    rintro (rfl | rfl)
    · rw [hwritten (by simp) (by simp) (by simp)]
      simp [Nat.ofDigits_cons]
      ring
    · rw [hwritten (by simp) (by simp) (by simp)]
      simp [Nat.ofDigits_cons]
      ring

theorem convert_644 : convert_mode 644 = 64 * 6 + 8 * 4 + 4 := by
  have hloop := octal_loop_digits (by decide : ∀ d ∈ [4, 4, 6], d < 10) 1 0
  have hnarrow : ((644 : ℤ).bmod (2 ^ 32)).toNat = Nat.ofDigits 10 [4, 4, 6] := by decide
  rw [convert_mode, hnarrow, hloop]
  rfl

theorem convert_755 : convert_mode 755 = 64 * 7 + 8 * 5 + 5 := by
  have hloop := octal_loop_digits (by decide : ∀ d ∈ [5, 5, 7], d < 10) 1 0
  have hnarrow : ((755 : ℤ).bmod (2 ^ 32)).toNat = Nat.ofDigits 10 [5, 5, 7] := by decide
  rw [convert_mode, hnarrow, hloop]
  rfl

theorem Given.call {route : Route} (h : Given rt cmd text route args) {Files : Type}
    (sv : Services Files) : route.call rt sv cmd args = cmd.handler rt sv args := by
  cases h with
  | command_line => rfl
  | request _ _ _ _ hrequested =>
    cases cmd with
    | chmod => rfl
    | create_file | create_dir =>
      funext files
      rw [Route.call, ModeCommand.rpc_handler, handle_uss_create, hrequested]
      rfl

theorem applied_mode_iff {route : Route} (h : Given rt cmd text route args) :
    cmd.applied_mode rt args = Written rt text ↔ TreatedRight rt cmd route text := by
  have hmode := h.mode
  cases route with
  | command_line =>
    cases cmd with
    | chmod => exact chmod_command_line_iff hmode
    | create_file => exact created_command_line_iff (by decide : (644 : ℤ) ≠ 0) hmode
    | create_dir => exact created_command_line_iff (by decide : (755 : ℤ) ≠ 0) hmode
  | request =>
    cases cmd with
    | chmod => exact chmod_request_iff hmode
    | create_file =>
      have hcreated := created_request (by decide : (644 : ℤ) ≠ 0) hmode
      have happlied := hcreated.trans (congrArg some convert_644)
      rw [show ModeCommand.create_file.applied_mode rt args = created_mode rt 644 args from rfl,
        happlied, eq_comm]
      exact written_eq_iff (by decide) (by decide) (by decide)
    | create_dir =>
      have hcreated := created_request (by decide : (755 : ℤ) ≠ 0) hmode
      have happlied := hcreated.trans (congrArg some convert_755)
      rw [show ModeCommand.create_dir.applied_mode rt args = created_mode rt 755 args from rfl,
        happlied, eq_comm]
      exact written_eq_iff (by decide) (by decide) (by decide)

/-- The mode goes to the files as it is written, or the command fails, exactly with these texts. -/
theorem octal_or_rejected_iff {route : Route} (h : Given rt cmd text route args) :
    (OctalOrRejected rt cmd route text args ↔ TreatedRight rt cmd route text) ∧
      ∀ other args', Given rt cmd text other args' → TreatedRight rt cmd route text →
        TreatedRight rt cmd other text →
          cmd.applied_mode rt args' = cmd.applied_mode rt args := by
  refine ⟨?_, fun other args' hother hright hright' => ?_⟩
  · rw [octal_or_rejected_of_call fun _ sv => h.call sv, applied_mode_iff h]
  · rw [(applied_mode_iff hother).mpr hright', (applied_mode_iff h).mpr hright]

def ascii_platform : Platform := { platform_reading [] with cs := ascii_runtime.toCharset }

/-- A request to change the mode. -/
def chmod_request (mode : String) : RpcRequest where
  jsonrpc := ascii.str "2.0"
  method := ascii.str "chmodFile"
  params := some (.object [(ascii.str "mode", .string (ascii.str mode))])
  id := 1

def chmod_context (mode : String) : MiddlewareContext where
  command_path := ascii.str "chmodFile"
  args := (∅ : ArgumentMap).insert (ascii.str "mode") (.string (ascii.str mode))

theorem given_chmod_request : Given ascii_runtime .chmod (ascii.str "0644") .request
    (apply_input_transforms ascii_platform (ModeCommand.chmod.transforms ascii_runtime)
      (chmod_context "0644")).args :=
  @Given.request ascii_runtime .chmod (ascii.str "0644") ascii_platform (chmod_request "0644") _
    (ascii.str "mode") (chmod_context "0644") rfl rfl rfl rfl trivial

theorem octal_or_rejected_0644 :
    (OctalOrRejected ascii_runtime .chmod .request (ascii.str "0644")
        (apply_input_transforms ascii_platform (ModeCommand.chmod.transforms ascii_runtime)
          (chmod_context "0644")).args ↔
      TreatedRight ascii_runtime .chmod .request (ascii.str "0644")) ∧
      ∀ other args', Given ascii_runtime .chmod (ascii.str "0644") other args' →
        TreatedRight ascii_runtime .chmod .request (ascii.str "0644") →
        TreatedRight ascii_runtime .chmod other (ascii.str "0644") →
          ModeCommand.chmod.applied_mode ascii_runtime args' =
            ModeCommand.chmod.applied_mode ascii_runtime
              (apply_input_transforms ascii_platform (ModeCommand.chmod.transforms ascii_runtime)
                (chmod_context "0644")).args :=
  octal_or_rejected_iff given_chmod_request

def chmod_program : Program :=
  example_program [ModeCommand.chmod.mode_argument ascii_runtime, file_argument .Single] (some 0)

def calls_with_mode (mode : Argument) : Call → Bool
  | .hook _ _ _ => false
  | .handler _ args => args.args[ascii.str "mode"]? = some mode

/-- `zowex 888 f` changes the mode of the file. -/
theorem decimal_mode_applied :
    ∃ outcome command args, parse_argv chmod_program 0 (["zowex", "888", "f"].map ascii.str) =
        some outcome ∧ .handler command args ∈ outcome.calls ∧
      ¬ OctalOrRejected ascii_runtime .chmod .command_line (ascii.str "888") args.args := by
  have hparse : ((parse_argv chmod_program 0 (["zowex", "888", "f"].map ascii.str)).any
      fun outcome => outcome.calls.any (calls_with_mode (.int 888))) = true := by decide +kernel
  obtain ⟨outcome, houtcome, hcalls⟩ := (Option.any_eq_true _ _).mp hparse
  obtain ⟨call, hmem, hcall⟩ := List.any_eq_true.mp hcalls
  cases call with
  | hook index command is_help_request => cases hcall
  | handler command args =>
    refine ⟨outcome, command, args, houtcome, hmem, fun h => ?_⟩
    have hmode : args.args[ascii_runtime.str "mode"]? = some (.int 888) := of_decide_eq_true hcall
    have hrejected : ¬ IsMode ascii_runtime (ascii.str "888") := by decide +kernel
    rw [octal_or_rejected_of_call fun _ sv => rfl, Written, if_neg hrejected,
      ModeCommand.applied_mode, chmod_mode_int hmode] at h
    cases h

end Zowex.uss

import Zowex.Spec.KeyRings

/-! What the parameter lists denote. A string that is too long for its field is cut, and then denotes
another user or another ring. -/

namespace Zowex.zkr

variable {cs : Charset} {sv : Services}

theorem fixed_field_text (size : ℕ) (pad : UInt8) (s : Bytes) :
    (fixed_field size pad s).text = s.take size := by
  rw [fixed_field, Field.text]
  dsimp only
  split_ifs with hlong
  · simp
  · simp [List.take_of_length_le (not_lt.mp hlong)]

theorem fixed_field_text_iff {size : ℕ} {pad : UInt8} {s : Bytes} :
    (fixed_field size pad s).text = s ↔ s.length ≤ size := by
  rw [fixed_field_text]
  exact List.take_eq_self_iff s

theorem label_field_text (label : Bytes) : (label_field label).text = label :=
  List.take_length

/-- The lists that a command may pass. -/
inductive CallOf (cs : Charset) (command : Command) : R_datalib_parm_list_64 → Prop
  | refresh : CallOf cs command (set_up_r_datalib_parameters ⟨.REFRESH, 0, 0, .none⟩ [] [])
  | read (fn : R_datalib_function) :
      fn.code = .GETCERT ∨ fn.code = .GETNEXT ∨ fn.code = .DATA_ABORT →
      CallOf cs command (set_up_r_datalib_parameters fn command.owner (command.source cs))
  | change (fn : R_datalib_function) :
      fn.code = .NEWRING ∨ fn.code = .DELRING ∨ fn.code = .IMPORT ∨ fn.code = .DELCERT →
      (command.owner.length ≤ ZKR_MAX_USERID_LEN →
        fn.parmlist.Names command.owner command.label) →
      (fn.default_attributes ≠ 0 → command.FromDatabase) →
      (command.ring cs = cs.str "*" → command.FromDatabase) → ¬ command.NeverPuts cs →
      CallOf cs command (set_up_r_datalib_parameters fn command.owner (command.ring cs))
  | alter (fn : R_datalib_function) : fn.code = .ALTER →
      (command.owner.length ≤ ZKR_MAX_USERID_LEN →
        fn.parmlist.Names command.owner command.label) →
      CallOf cs command (set_up_r_datalib_parameters fn [] [])

/-! What a list that is passed denotes, where the strings have room. -/

theorem CallOf.names {command : Command} {p : R_datalib_parm_list_64} (h : CallOf cs command p)
    (hfits : command.Fits cs) : Names cs command p := by
  obtain ⟨howner, hsource, hring⟩ := hfits
  have howner_text := (@fixed_field_text_iff _ 0 _).mpr howner
  cases h with
  | refresh => exact trivial
  | read fn hcode =>
    have hsource_text := (@fixed_field_text_iff _ 0 _).mpr hsource
    rcases fn with ⟨code, attributes, version, parmlist⟩
    rcases hcode with rfl | rfl | rfl
    · exact ⟨howner_text, hsource_text⟩
    · exact ⟨howner_text, hsource_text⟩
    · exact ⟨howner_text, hsource_text⟩
  | change fn hcode hnames _ _ hputs =>
    have hring_text := (@fixed_field_text_iff _ 0 _).mpr (hring.resolve_right hputs)
    rcases fn with ⟨code, attributes, version, parmlist⟩
    rcases hcode with rfl | rfl | rfl | rfl
    · exact ⟨howner_text, hring_text, hnames howner⟩
    · exact ⟨howner_text, hring_text, hnames howner⟩
    · exact ⟨howner_text, hring_text, hnames howner⟩
    · exact ⟨howner_text, hring_text, hnames howner⟩
  | alter fn hcode hnames =>
    rcases fn with ⟨code, attributes, version, parmlist⟩
    obtain rfl : code = .ALTER := hcode
    exact hnames howner

/-- A name that was cut is not that of the virtual ring. -/
theorem take_eq_star {ring : Bytes} (h : ring.take ZKR_MAX_KEYRING_LEN = cs.str "*") :
    ring = cs.str "*" := by
  rw [← h, eq_comm]
  apply List.take_of_length_le
  have hlength := congrArg List.length h
  rw [List.length_take, show (cs.str "*").length = 1 from rfl, ZKR_MAX_KEYRING_LEN] at hlength
  rw [ZKR_MAX_KEYRING_LEN]
  omega

theorem CallOf.virtual_ring {command : Command} {p : R_datalib_parm_list_64}
    (h : CallOf cs command p) (hmodifies : modifies p.function_code = true)
    (hring : p.ring_name.text = cs.str "*") : command.FromDatabase := by
  cases h with
  | refresh => cases hmodifies
  | read fn hcode =>
    rcases fn with ⟨code, attributes, version, parmlist⟩
    rcases hcode with rfl | rfl | rfl
    · cases hmodifies
    · cases hmodifies
    · cases hmodifies
  | change fn _ _ _ hvirtual _ =>
    exact hvirtual (take_eq_star ((fixed_field_text _ _ _).symm.trans hring))
  | alter fn _ _ => cases hring

theorem CallOf.attributes {command : Command} {p : R_datalib_parm_list_64}
    (h : CallOf cs command p) (hcode : p.function_code = .DELCERT) (hattributes : p.attributes ≠ 0) :
    command.FromDatabase := by
  cases h with
  | refresh => cases hcode
  | read fn hread =>
    rcases fn with ⟨code, attributes, version, parmlist⟩
    obtain rfl : code = .DELCERT := hcode
    rcases hread with hread | hread | hread
    · cases hread
    · cases hread
    · cases hread
  | change fn _ _ hdeletes _ _ => exact hdeletes hattributes
  | alter fn halter _ =>
    rcases fn with ⟨code, attributes, version, parmlist⟩
    obtain rfl : code = .ALTER := halter
    cases hcode

/-! The calls of each command. -/

theorem refresh_calls : (zkr_refresh sv).calls =
    [set_up_r_datalib_parameters ⟨.REFRESH, 0, 0, .none⟩ [] []] :=
  rfl

/-- An enumeration names the ring that it reads, in all its calls. -/
theorem fetch_calls {owner ring label : Bytes} :
    ∀ p ∈ (fetch_cert_from_ring sv owner ring label).calls, ∃ fn : R_datalib_function,
      (fn.code = .GETCERT ∨ fn.code = .GETNEXT ∨ fn.code = .DATA_ABORT) ∧
        p = set_up_r_datalib_parameters fn owner ring := by
  intro p hp
  rw [fetch_cert_from_ring] at hp
  dsimp only at hp
  have hfirst : ∃ fn : R_datalib_function,
      (fn.code = .GETCERT ∨ fn.code = .GETNEXT ∨ fn.code = .DATA_ABORT) ∧
      set_up_r_datalib_parameters ⟨.GETCERT, ZKR_ATTR_GETCERT, 1, .data_get⟩ owner ring =
        set_up_r_datalib_parameters fn owner ring := ⟨_, .inl rfl, rfl⟩
  have hrest (n : ℕ) (h : p ∈ set_up_r_datalib_parameters
        ⟨.GETCERT, ZKR_ATTR_GETCERT, 1, .data_get⟩ owner ring ::
      List.replicate n (set_up_r_datalib_parameters
        ⟨.GETNEXT, ZKR_ATTR_GETCERT, 1, .data_get⟩ owner ring) ++
      [set_up_r_datalib_parameters ⟨.DATA_ABORT, 0, 0, .data_abort⟩ owner ring]) :
      ∃ fn : R_datalib_function,
        (fn.code = .GETCERT ∨ fn.code = .GETNEXT ∨ fn.code = .DATA_ABORT) ∧
          p = set_up_r_datalib_parameters fn owner ring := by
    simp only [List.cons_append, List.mem_cons, List.mem_append, List.mem_replicate,
      List.not_mem_nil, or_false] at h
    rcases h with rfl | ⟨-, rfl⟩ | rfl
    · exact hfirst
    · exact ⟨_, .inr (.inl rfl), rfl⟩
    · exact ⟨_, .inr (.inr rfl), rfl⟩
  split at hp
  next =>
    rw [List.mem_singleton.mp hp]
    exact hfirst
  next =>
    split at hp
    · exact hrest _ hp
    · exact hrest _ hp

/-- A certificate that is fetched has the label. -/
theorem fetch_label {owner ring label : Bytes} {found : Bytes × ℤ} (hdocumented : sv.Documented)
    (h : (fetch_cert_from_ring sv owner ring label).result = .ok found) :
    label.length ≤ ZKR_MAX_LABEL_LEN := by
  rw [fetch_cert_from_ring] at h
  dsimp only at h
  split at h
  next => cases h
  next =>
    split at h
    next got hgot =>
      have hmem := List.mem_of_find?_eq_some hgot
      have hlabel := List.find?_some hgot
      rw [decide_eq_true_eq] at hlabel
      rw [← hlabel]
      exact hdocumented _ got hmem
    next => cases h

/-- The block of a put. -/
theorem put_names {owner label der : Bytes} {usage_code : ℤ} {make_default : Bool}
    {private_key : Bytes} {field : Field} (hlabel : field.text = label)
    (howner : owner.length ≤ ZKR_MAX_USERID_LEN) :
    (Parmlist.data_put usage_code make_default der private_key field
      (cert_userid_field cs owner)).Names owner label :=
  ⟨hlabel, fixed_field_text_iff.mpr howner⟩

theorem simple_calls {code : FunctionCode} {owner ring : Bytes} :
    (simple_action sv code owner ring).calls =
      [set_up_r_datalib_parameters ⟨code, 0, 0, .none⟩ owner ring] :=
  rfl

/-- A connect reads the certificate, and puts it once it has it. -/
theorem connect_calls {opts : ZKRConnectOptions} {from_database : Bool}
    (hdocumented : sv.Documented)
    (hring : opts.ring ≠ cs.str "*") {source : Bytes}
    (hsource : source = if from_database then cs.str "*" else opts.from_ring) :
    ∀ p ∈ (zkr_connect_cert cs sv { opts with from_ring := source }).calls,
      CallOf cs (.cert_connect opts from_database) p := by
  have hread (p : R_datalib_parm_list_64)
      (hp : p ∈ (fetch_cert_from_ring sv opts.owner source opts.label).calls) :
      CallOf cs (.cert_connect opts from_database) p := by
    obtain ⟨fn, hcode, rfl⟩ := fetch_calls p hp
    rw [hsource]
    exact .read fn hcode
  intro p hp
  rw [zkr_connect_cert] at hp
  split at hp
  next => cases hp
  next =>
    split at hp
    next => cases hp
    next =>
      dsimp only at hp
      split at hp
      next => exact hread p hp
      next der current_usage hfetched =>
        have hlabel := fetch_label hdocumented hfetched
        split at hp
        next => exact hread p hp
        next husage =>
          rcases List.mem_append.mp hp with hp | hp
          · exact hread p hp
          · rw [List.mem_singleton.mp hp]
            refine @CallOf.change cs (.cert_connect opts from_database)
              ⟨.IMPORT, 0, 0, _⟩ (.inr (.inr (.inl rfl))) ?_ ?_ ?_ ?_
            · exact put_names (fixed_field_text_iff.mpr hlabel)
            · exact fun h => absurd rfl h
            · exact fun h => absurd h hring
            · rintro (hlong | hnone)
              · exact absurd hlabel (not_le.mpr hlong)
              · exact husage hnone

theorem set_default_calls {owner ring label : Bytes} (hdocumented : sv.Documented)
    (hring : ring ≠ cs.str "*") :
    ∀ p ∈ (zkr_set_default cs sv owner ring label).calls,
      CallOf cs (.cert_set_default owner ring label) p := by
  have hread (p : R_datalib_parm_list_64)
      (hp : p ∈ (fetch_cert_from_ring sv owner ring label).calls) :
      CallOf cs (.cert_set_default owner ring label) p := by
    obtain ⟨fn, hcode, rfl⟩ := fetch_calls p hp
    exact @CallOf.read cs (.cert_set_default owner ring label) fn hcode
  intro p hp
  rw [zkr_set_default] at hp
  dsimp only at hp
  split at hp
  next => exact hread p hp
  next der current_usage hfetched =>
    rcases List.mem_append.mp hp with hp | hp
    · exact hread p hp
    · rw [List.mem_singleton.mp hp]
      refine @CallOf.change cs (.cert_set_default owner ring label)
        ⟨.IMPORT, 0, 0, _⟩ (.inr (.inr (.inl rfl))) ?_ ?_ ?_ ?_
      · exact put_names (fixed_field_text_iff.mpr (fetch_label hdocumented hfetched))
      · exact fun h => absurd rfl h
      · exact fun h => absurd h hring
      · exact not_false

theorem import_calls {opts : ZKRImportOptions} (hring : opts.ring ≠ cs.str "*") :
    ∀ p ∈ (zkr_import_cert cs sv opts).calls, CallOf cs (.cert_import opts) p := by
  intro p hp
  have hput (certificate private_key : Bytes) : CallOf cs (.cert_import opts)
      (set_up_r_datalib_parameters ⟨.IMPORT, 0, 0, .data_put (usage_to_code cs opts.usage) false
        certificate private_key (label_field opts.label) (cert_userid_field cs opts.owner)⟩
        opts.owner opts.ring) :=
    @CallOf.change cs (.cert_import opts) ⟨.IMPORT, 0, 0, _⟩ (.inr (.inr (.inl rfl)))
      (put_names (label_field_text opts.label)) (fun h => absurd rfl h)
      (fun h => absurd h hring) not_false
  rw [zkr_import_cert] at hp
  split_ifs at hp
  · cases hp
  · cases hp
  · cases hp
  · split at hp
    next => cases hp
    next certificate private_key hdecoded =>
      dsimp only at hp
      split_ifs at hp
      · rw [List.mem_singleton.mp hp]
        exact hput certificate private_key
      · rcases List.mem_cons.mp hp with rfl | hp
        · exact hput certificate private_key
        · rw [refresh_calls] at hp
          rw [List.mem_singleton.mp hp]
          exact .refresh
      · rw [List.mem_singleton.mp hp]
        exact hput certificate private_key

/-- The list of a delete. -/
def delete_list (cs : Charset) (owner ring label : Bytes) : R_datalib_parm_list_64 :=
  set_up_r_datalib_parameters ⟨.DELCERT,
    if ring = cs.str "*" then ZKR_ATTR_DEL_CERT_TOO ||| ZKR_ATTR_DEL_ALLRINGS else 0, 0,
    .data_remove (label_field label) (cert_userid_field cs owner)⟩ owner ring

theorem del_cert_calls {owner ring label : Bytes} {skip_refresh : Bool} (hlabel : label ≠ []) :
    (zkr_del_cert cs sv owner ring label skip_refresh).calls = [delete_list cs owner ring label] ∨
      (zkr_del_cert cs sv owner ring label skip_refresh).calls =
        delete_list cs owner ring label :: (zkr_refresh sv).calls := by
  rw [zkr_del_cert, if_neg hlabel]
  dsimp only
  rw [← delete_list]
  generalize delete_list cs owner ring label = p
  split_ifs
  · exact .inl rfl
  · exact .inl rfl
  · exact .inr rfl
  · exact .inl rfl

theorem delete_calls {owner ring label : Bytes} {skip_refresh database : Bool}
    (hlabel : label ≠ []) (hring : ring ≠ cs.str "*")
    (hdatabase : ¬ (database = true ∧ ring ≠ [])) :
    ∀ p ∈ (zkr_del_cert cs sv owner (if database then cs.str "*" else ring) label
        skip_refresh).calls,
      CallOf cs (.cert_delete owner ring label skip_refresh database) p := by
  have hfrom (h : (if database then cs.str "*" else ring) = cs.str "*") :
      database = true ∧ ring = [] := by
    by_cases hflag : database = true
    · refine ⟨hflag, ?_⟩
      by_contra hne
      exact hdatabase ⟨hflag, hne⟩
    · rw [if_neg hflag] at h
      exact absurd h hring
  have hremove : CallOf cs (.cert_delete owner ring label skip_refresh database)
      (delete_list cs owner (if database then cs.str "*" else ring) label) := by
    refine @CallOf.change cs (.cert_delete owner ring label skip_refresh database)
      ⟨.DELCERT, _, 0, _⟩ (.inr (.inr (.inr rfl))) ?_ ?_ hfrom not_false
    · exact fun howner => ⟨label_field_text label, fixed_field_text_iff.mpr howner⟩
    · intro hattributes
      by_contra hnone
      exact hattributes (if_neg fun h => hnone (hfrom h))
  intro p hp
  rcases @del_cert_calls cs sv owner (if database then cs.str "*" else ring) label skip_refresh
    hlabel with hcalls | hcalls
  · rw [hcalls] at hp
    rw [List.mem_singleton.mp hp]
    exact hremove
  · rw [hcalls, refresh_calls] at hp
    rcases List.mem_cons.mp hp with hp | hp
    · rw [hp]
      exact hremove
    · rw [List.mem_singleton.mp hp]
      exact .refresh

theorem trust_calls {owner label status : Bytes} :
    ∀ p ∈ (zkr_alter_cert cs sv { owner, label, status }).calls,
      CallOf cs (.cert_trust owner label status) p := by
  intro p hp
  rw [zkr_alter_cert] at hp
  split at hp
  next => cases hp
  next =>
    dsimp only at hp
    split at hp
    next => cases hp
    next attributes hstatus =>
      split at hp
      next => cases hp
      next =>
        split at hp
        next => cases hp
        next =>
          rw [List.mem_singleton.mp hp]
          exact @CallOf.alter cs (.cert_trust owner label status) ⟨.ALTER, attributes, 0, _⟩ rfl
            fun howner => ⟨label_field_text label, fixed_field_text_iff.mpr howner⟩

/-! The commands. -/

theorem reject_iff {ring : Bytes} : reject_virtual_ring cs ring = true ↔ ring = cs.str "*" :=
  decide_eq_true_iff

theorem import_allowed {opts : ZKRImportOptions} (h : ¬ Command.Refused cs (.cert_import opts)) :
    opts.label ≠ [] ∧ opts.label.length < ZKR_MAX_LABEL_LEN ∧ usage_to_code cs opts.usage ≠ 0 ∧
      opts.ring ≠ cs.str "*" ∧
      handle_cert_import cs sv opts = zkr_import_cert cs sv opts := by
  simp only [Command.Refused, not_or] at h
  obtain ⟨hlabel, husage, hpath, hpassword, hring, hlong, hcode⟩ := h
  refine ⟨hlabel, not_le.mp hlong, hcode, hring, ?_⟩
  rw [handle_cert_import, if_neg hlabel, if_neg husage, if_neg hpath, if_neg hpassword,
    if_neg (fun h => hring (reject_iff.mp h))]

theorem delete_allowed {owner ring label : Bytes} {skip_refresh database : Bool}
    (h : ¬ Command.Refused cs (.cert_delete owner ring label skip_refresh database)) :
    label ≠ [] ∧ ring ≠ cs.str "*" ∧ ¬ (database = true ∧ ring ≠ []) ∧
      handle_cert_delete cs sv owner ring label skip_refresh database =
        zkr_del_cert cs sv owner (if database then cs.str "*" else ring) label skip_refresh := by
  simp only [Command.Refused, not_or] at h
  obtain ⟨hlabel, hring, hflags⟩ := h
  have hboth : ¬ (database = true ∧ ring ≠ []) := by tauto
  have hneither : ¬ (¬ database = true ∧ ring = []) := by tauto
  refine ⟨hlabel, hring, hboth, ?_⟩
  rw [handle_cert_delete, if_neg hlabel, if_neg hring, if_neg hboth, if_neg hneither]

theorem connect_allowed {opts : ZKRConnectOptions} {from_database : Bool}
    (h : ¬ Command.Refused cs (.cert_connect opts from_database)) :
    opts.label ≠ [] ∧ opts.ring ≠ cs.str "*" ∧
      (if from_database then cs.str "*" else opts.from_ring) ≠ [] ∧
      handle_cert_connect cs sv opts from_database = zkr_connect_cert cs sv
        { opts with from_ring := if from_database then cs.str "*" else opts.from_ring } := by
  simp only [Command.Refused, not_or] at h
  obtain ⟨hlabel, hring, hfrom, hflags⟩ := h
  have hboth : ¬ (from_database = true ∧ opts.from_ring ≠ []) := by tauto
  have hneither : ¬ (¬ from_database = true ∧ opts.from_ring = []) := by tauto
  refine ⟨hlabel, hring, ?_, ?_⟩
  · by_cases hflag : from_database = true
    · rw [if_pos hflag]
      exact List.cons_ne_nil _ _
    · rw [if_neg hflag]
      exact fun hnone => hneither ⟨hflag, hnone⟩
  · rw [handle_cert_connect, if_neg hlabel, if_neg (fun h => hring (reject_iff.mp h)), if_neg hfrom,
      if_neg hboth, if_neg hneither]

theorem set_default_allowed {owner ring label : Bytes}
    (h : ¬ Command.Refused cs (.cert_set_default owner ring label)) :
    label ≠ [] ∧ ring ≠ cs.str "*" ∧
      handle_cert_set_default cs sv owner ring label = zkr_set_default cs sv owner ring label := by
  simp only [Command.Refused, not_or] at h
  refine ⟨h.1, h.2, ?_⟩
  rw [handle_cert_set_default, if_neg h.1, if_neg (fun hring => h.2 (reject_iff.mp hring))]

theorem trust_allowed {owner label status : Bytes}
    (h : ¬ Command.Refused cs (.cert_trust owner label status)) :
    label ≠ [] ∧ status ≠ [] ∧ (∃ attributes, status_attributes cs status = some attributes) ∧
      handle_cert_trust cs sv owner label status =
        zkr_alter_cert cs sv { owner, label, status } := by
  simp only [Command.Refused, not_or] at h
  obtain ⟨hlabel, hstatus, hattributes⟩ := h
  refine ⟨hlabel, hstatus, Option.ne_none_iff_exists'.mp hattributes, ?_⟩
  rw [handle_cert_trust, if_neg hlabel, if_neg hstatus]

theorem refused_calls {command : Command} (h : command.Refused cs) :
    (command.handle cs sv).calls = [] := by
  cases command with
  | keyring_create owner ring =>
    rw [Command.handle, handle_create_ring, if_pos (reject_iff.mpr h)]
    rfl
  | keyring_delete owner ring =>
    rw [Command.handle, handle_delete_ring, if_pos (reject_iff.mpr h)]
    rfl
  | cert_import opts =>
    rw [Command.handle, handle_cert_import]
    by_contra hcalls
    split_ifs at hcalls with hlabel husage hpath hpassword hring
    · exact hcalls rfl
    · exact hcalls rfl
    · exact hcalls rfl
    · exact hcalls rfl
    · exact hcalls rfl
    · rw [reject_iff] at hring
      rw [zkr_import_cert, if_neg hlabel] at hcalls
      rcases h with h | h | h | h | h | h | h
      · exact hlabel h
      · exact husage h
      · exact hpath h
      · exact hpassword h
      · exact hring h
      · rw [if_pos h] at hcalls
        exact hcalls rfl
      · split at hcalls
        next => exact hcalls rfl
        next => exact hcalls rfl
  | cert_delete owner ring label skip_refresh database =>
    rw [Command.handle, handle_cert_delete]
    by_cases hlabel : label = []
    · rw [if_pos hlabel]
      rfl
    by_cases hring : ring = cs.str "*"
    · rw [if_neg hlabel, if_pos hring]
      rfl
    by_cases hboth : database = true ∧ ring ≠ []
    · rw [if_neg hlabel, if_neg hring, if_pos hboth]
      rfl
    · have hneither : ¬ database = true ∧ ring = [] := by
        have hflags := (h.resolve_left hlabel).resolve_left hring
        tauto
      rw [if_neg hlabel, if_neg hring, if_neg hboth, if_pos hneither]
      rfl
  | cert_connect opts from_database =>
    rw [Command.handle, handle_cert_connect]
    by_cases hlabel : opts.label = []
    · rw [if_pos hlabel]
      rfl
    by_cases hring : opts.ring = cs.str "*"
    · rw [if_neg hlabel, if_pos (reject_iff.mpr hring)]
      rfl
    have hreject : ¬ reject_virtual_ring cs opts.ring = true := fun h => hring (reject_iff.mp h)
    by_cases hfrom : opts.from_ring = cs.str "*"
    · rw [if_neg hlabel, if_neg hreject, if_pos hfrom]
      rfl
    by_cases hboth : from_database = true ∧ opts.from_ring ≠ []
    · rw [if_neg hlabel, if_neg hreject, if_neg hfrom, if_pos hboth]
      rfl
    · have hneither : ¬ from_database = true ∧ opts.from_ring = [] := by
        have hflags := ((h.resolve_left hlabel).resolve_left hring).resolve_left hfrom
        tauto
      rw [if_neg hlabel, if_neg hreject, if_neg hfrom, if_neg hboth, if_pos hneither]
      rfl
  | cert_set_default owner ring label =>
    rw [Command.handle, handle_cert_set_default]
    by_cases hlabel : label = []
    · rw [if_pos hlabel]
      rfl
    · rw [if_neg hlabel, if_pos (reject_iff.mpr (h.resolve_left hlabel))]
      rfl
  | cert_trust owner label status =>
    rw [Command.handle, handle_cert_trust]
    by_cases hlabel : label = []
    · rw [if_pos hlabel]
      rfl
    by_cases hstatus : status = []
    · rw [if_neg hlabel, if_pos hstatus]
      rfl
    · have hattributes := (h.resolve_left hlabel).resolve_left hstatus
      rw [if_neg hlabel, if_neg hstatus, zkr_alter_cert, if_neg hlabel]
      dsimp only
      rw [hattributes]

theorem combination_refused {command : Command} (h : command.OtherCombination cs) :
    command.Refused cs := by
  cases command with
  | keyring_create owner ring => exact h
  | keyring_delete owner ring => exact h
  | cert_import opts => exact .inr (.inr (.inr (.inr (.inl h))))
  | cert_delete owner ring label skip_refresh database => exact .inr h
  | cert_connect opts from_database => exact .inr h
  | cert_set_default owner ring label => exact .inr h
  | cert_trust owner label status => exact absurd h not_false

theorem create_allowed {owner ring : Bytes} (hring : ring ≠ cs.str "*") :
    handle_create_ring cs sv owner ring = zkr_new_ring sv owner ring ∧
      handle_delete_ring cs sv owner ring = zkr_del_ring sv owner ring :=
  ⟨if_neg fun h => hring (reject_iff.mp h), if_neg fun h => hring (reject_iff.mp h)⟩

/-- Whatever a command passes is one of its lists. -/
theorem handle_calls {command : Command} (hdocumented : sv.Documented)
    (h : ¬ command.Refused cs) : ∀ p ∈ (command.handle cs sv).calls, CallOf cs command p := by
  cases command with
  | keyring_create owner ring =>
    have hring : ring ≠ cs.str "*" := h
    rw [Command.handle, (create_allowed hring).1]
    intro p hp
    rw [List.mem_singleton.mp hp]
    exact @CallOf.change cs (.keyring_create owner ring) ⟨.NEWRING, 0, 0, .none⟩ (.inl rfl)
      (fun _ => trivial) (fun h => absurd rfl h) (fun hstar => absurd hstar hring) not_false
  | keyring_delete owner ring =>
    have hring : ring ≠ cs.str "*" := h
    rw [Command.handle, (create_allowed hring).2]
    intro p hp
    rw [List.mem_singleton.mp hp]
    exact @CallOf.change cs (.keyring_delete owner ring) ⟨.DELRING, 0, 0, .none⟩ (.inr (.inl rfl))
      (fun _ => trivial) (fun h => absurd rfl h) (fun hstar => absurd hstar hring) not_false
  | cert_import opts =>
    obtain ⟨-, -, -, hring, hhandle⟩ := @import_allowed cs sv _ h
    rw [Command.handle, hhandle]
    exact import_calls hring
  | cert_delete owner ring label skip_refresh database =>
    obtain ⟨hlabel, hring, hboth, hhandle⟩ := @delete_allowed cs sv _ _ _ _ _ h
    rw [Command.handle, hhandle]
    exact delete_calls hlabel hring hboth
  | cert_connect opts from_database =>
    obtain ⟨-, hring, -, hhandle⟩ := @connect_allowed cs sv _ _ h
    rw [Command.handle, hhandle]
    exact connect_calls hdocumented hring rfl
  | cert_set_default owner ring label =>
    obtain ⟨-, hring, hhandle⟩ := @set_default_allowed cs sv _ _ _ h
    rw [Command.handle, hhandle]
    exact set_default_calls hdocumented hring
  | cert_trust owner label status =>
    obtain ⟨-, -, -, hhandle⟩ := @trust_allowed cs sv _ _ _ h
    rw [Command.handle, hhandle]
    exact trust_calls

/-! What a command passes to a security manager that grants everything. -/

/-- It has one certificate, with this label if it can be one. -/
def granting (label : Bytes) : Services where
  IRRSDL64 _ := ⟨0, 0, 0⟩
  enumerate _ := if label.length ≤ ZKR_MAX_LABEL_LEN then [⟨label, [1], ZKR_USAGE_PERSONAL⟩] else []
  enumerate_end _ := ⟨8, 8, 44⟩
  decode _ _ := some ([1], [])

theorem granting_documented (label : Bytes) : (granting label).Documented := by
  intro p got hgot
  rw [granting] at hgot
  dsimp only at hgot
  split_ifs at hgot with hlabel
  · rw [List.mem_singleton.mp hgot]
    exact hlabel
  · cases hgot

/-- An enumeration starts with a list that names its ring. -/
theorem first_fetched (owner ring label : Bytes) :
    set_up_r_datalib_parameters ⟨.GETCERT, ZKR_ATTR_GETCERT, 1, .data_get⟩ owner ring ∈
      (fetch_cert_from_ring sv owner ring label).calls := by
  rw [fetch_cert_from_ring]
  dsimp only
  split
  next => exact List.mem_singleton_self _
  next =>
    split
    next => exact List.mem_cons_self
    next => exact List.mem_cons_self

theorem granting_fetched {owner ring label : Bytes} (h : label.length ≤ ZKR_MAX_LABEL_LEN) :
    (fetch_cert_from_ring (granting label) owner ring label).result =
      .ok ([1], ZKR_USAGE_PERSONAL) := by
  rw [fetch_cert_from_ring, granting]
  dsimp only
  rw [if_pos h, if_neg (List.cons_ne_nil _ _), List.find?_cons_of_pos (by simp)]
  rfl

theorem fetch_subset (opts : ZKRConnectOptions) (hlabel : opts.label ≠ [])
    (hfrom : opts.from_ring ≠ []) :
    ∀ p ∈ (fetch_cert_from_ring sv opts.owner opts.from_ring opts.label).calls,
      p ∈ (zkr_connect_cert cs sv opts).calls := by
  intro p hp
  rw [zkr_connect_cert, if_neg hlabel, if_neg hfrom]
  dsimp only
  split
  next => exact hp
  next =>
    split
    next => exact hp
    next => exact List.mem_append_left _ hp

/-- A connect that comes to its put. -/
theorem granting_put {opts : ZKRConnectOptions} (hlabel : opts.label ≠ [])
    (hfrom : opts.from_ring ≠ []) (hlong : opts.label.length ≤ ZKR_MAX_LABEL_LEN)
    (husage : ¬ (opts.usage ≠ [] ∧ usage_to_code cs opts.usage = 0)) :
    ∃ put, set_up_r_datalib_parameters ⟨.IMPORT, 0, 0, put⟩ opts.owner opts.ring ∈
      (zkr_connect_cert cs (granting opts.label) opts).calls := by
  rw [zkr_connect_cert, if_neg hlabel, if_neg hfrom]
  dsimp only
  rw [granting_fetched hlong]
  dsimp only
  rw [if_neg husage]
  exact ⟨_, List.mem_append_right _ (List.mem_singleton_self _)⟩

/-- What the fields say, where a list is named by its strings. -/
theorem lengths_of_text {fn : R_datalib_function} {owner ring owner' ring' : Bytes}
    (howner : (set_up_r_datalib_parameters fn owner ring).RACF_userid.text = owner')
    (hring : (set_up_r_datalib_parameters fn owner ring).ring_name.text = ring')
    (hsame : owner' = owner ∧ ring' = ring) :
    owner.length ≤ ZKR_MAX_USERID_LEN ∧ ring.length ≤ ZKR_MAX_KEYRING_LEN := by
  obtain ⟨rfl, rfl⟩ := hsame
  exact ⟨fixed_field_text_iff.mp howner, fixed_field_text_iff.mp hring⟩

theorem fits_of_names {command : Command} (h : ¬ command.Refused cs)
    (hnames : ∀ p ∈ (command.handle cs (granting command.label)).calls, Names cs command p) :
    command.Fits cs := by
  cases command with
  | keyring_create owner ring =>
    rw [Command.handle, (create_allowed h).1] at hnames
    obtain ⟨howner, hring, -⟩ := hnames _ (List.mem_singleton_self _)
    obtain ⟨howner, hring⟩ := lengths_of_text howner hring ⟨rfl, rfl⟩
    exact ⟨howner, hring, .inl hring⟩
  | keyring_delete owner ring =>
    rw [Command.handle, (create_allowed h).2] at hnames
    obtain ⟨howner, hring, -⟩ := hnames _ (List.mem_singleton_self _)
    obtain ⟨howner, hring⟩ := lengths_of_text howner hring ⟨rfl, rfl⟩
    exact ⟨howner, hring, .inl hring⟩
  | cert_import opts =>
    obtain ⟨hlabel, hlong, hcode, -, hhandle⟩ :=
      @import_allowed cs (granting opts.label) _ h
    rw [Command.handle, show Command.label (.cert_import opts) = opts.label from rfl, hhandle,
      zkr_import_cert, if_neg hlabel, if_neg (not_le.mpr hlong), if_neg hcode] at hnames
    obtain ⟨howner, hring, -⟩ := hnames _ (List.mem_singleton_self _)
    obtain ⟨howner, hring⟩ := lengths_of_text howner hring ⟨rfl, rfl⟩
    exact ⟨howner, hring, .inl hring⟩
  | cert_delete owner ring label skip_refresh database =>
    obtain ⟨hlabel, -, -, hhandle⟩ := @delete_allowed cs (granting label) _ _ _ _ _ h
    rw [Command.handle, show Command.label (.cert_delete owner ring label skip_refresh database) =
      label from rfl, hhandle, zkr_del_cert, if_neg hlabel] at hnames
    obtain ⟨howner, hring, -⟩ := hnames _ (List.mem_singleton_self _)
    obtain ⟨howner, hring⟩ := lengths_of_text howner hring ⟨rfl, rfl⟩
    exact ⟨howner, hring, .inl hring⟩
  | cert_connect opts from_database =>
    obtain ⟨hlabel, -, hfrom, hhandle⟩ := @connect_allowed cs (granting opts.label) _ _ h
    rw [Command.handle, show Command.label (.cert_connect opts from_database) =
      opts.label from rfl, hhandle] at hnames
    generalize hsource : (if from_database then cs.str "*" else opts.from_ring) = source
      at hnames hfrom
    obtain ⟨howner, hring⟩ := hnames _
      (fetch_subset { opts with from_ring := source } hlabel hfrom _ (first_fetched _ _ _))
    obtain ⟨howner, hlength⟩ := lengths_of_text howner hring ⟨rfl, hsource⟩
    refine ⟨howner, show (if _ then _ else _ : Bytes).length ≤ _ from hsource ▸ hlength, ?_⟩
    by_cases hlong : opts.label.length > ZKR_MAX_LABEL_LEN
    · exact .inr (.inl hlong)
    by_cases husage : opts.usage ≠ [] ∧ usage_to_code cs opts.usage = 0
    · exact .inr (.inr husage)
    · obtain ⟨put, hput⟩ := @granting_put cs { opts with from_ring := source } hlabel hfrom (not_lt.mp hlong) husage
      obtain ⟨howner, hring, -⟩ := hnames _ hput
      exact .inl (lengths_of_text howner hring ⟨rfl, rfl⟩).2
  | cert_set_default owner ring label =>
    obtain ⟨-, -, hhandle⟩ := @set_default_allowed cs (granting label) _ _ _ h
    rw [Command.handle, show Command.label (.cert_set_default owner ring label) = label from rfl,
      hhandle] at hnames
    have hfirst : set_up_r_datalib_parameters ⟨.GETCERT, ZKR_ATTR_GETCERT, 1, .data_get⟩ owner
        ring ∈ (zkr_set_default cs (granting label) owner ring label).calls := by
      rw [zkr_set_default]
      dsimp only
      split
      next => exact first_fetched owner ring label
      next => exact List.mem_append_left _ (first_fetched owner ring label)
    obtain ⟨howner, hring⟩ := hnames _ hfirst
    obtain ⟨howner, hring⟩ := lengths_of_text howner hring ⟨rfl, rfl⟩
    exact ⟨howner, hring, .inl hring⟩
  | cert_trust owner label status =>
    obtain ⟨hlabel, hstatus, ⟨attributes, hattributes⟩, hhandle⟩ :=
      @trust_allowed cs (granting label) _ _ _ h
    rw [Command.handle, show Command.label (.cert_trust owner label status) = label from rfl,
      hhandle, zkr_alter_cert, if_neg hlabel] at hnames
    dsimp only at hnames
    rw [hattributes] at hnames
    dsimp only at hnames
    rw [if_neg (fun hnone => hstatus hnone.1), if_neg (by simp)] at hnames
    obtain ⟨-, howner⟩ := hnames _ (List.mem_singleton_self _)
    exact ⟨fixed_field_text_iff.mp howner, Nat.zero_le _, .inl (Nat.zero_le _)⟩

/-- A command is exact just where it is refused or its strings have room. -/
theorem exact_iff (cs : Charset) (command : Command) :
    Exact cs command ↔ command.Refused cs ∨ command.Fits cs := by
  constructor
  · intro hexact
    by_cases hrefused : command.Refused cs
    · exact .inl hrefused
    · exact .inr (fits_of_names hrefused
        (hexact (granting command.label) (granting_documented _)).names)
  · intro hwhen sv hdocumented
    by_cases hrefused : command.Refused cs
    · have hnone (p : R_datalib_parm_list_64) (hp : p ∈ (command.handle cs sv).calls) : False := by
        rw [refused_calls hrefused] at hp
        cases hp
      exact ⟨fun p hp => (hnone p hp).elim, fun p hp => (hnone p hp).elim,
        fun p hp => (hnone p hp).elim, fun _ => refused_calls hrefused⟩
    · have hcalls := handle_calls hdocumented hrefused
      exact ⟨fun p hp => (hcalls p hp).names (hwhen.resolve_left hrefused),
        fun p hp => (hcalls p hp).virtual_ring, fun p hp => (hcalls p hp).attributes,
        fun h => absurd (combination_refused h) hrefused⟩

/-- The ring of another user is deleted: the user id is cut after eight characters. -/
theorem other_user :
    ¬ Exact ibm1047 (.keyring_delete (ibm1047.str "PRODUSER2") (ibm1047.str "RING1")) := by
  intro h
  have hnames := (h (granting []) (granting_documented [])).names
    (set_up_r_datalib_parameters ⟨.DELRING, 0, 0, .none⟩ (ibm1047.str "PRODUSER2")
      (ibm1047.str "RING1")) (List.mem_singleton_self _)
  exact absurd hnames.1 (by decide +kernel)

end Zowex.zkr

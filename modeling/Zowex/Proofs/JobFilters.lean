import Zowex.Proofs.Listings
import Zowex.Spec.JobFilters

/-! Which arguments of a list of jobs take effect. A field has no terminator, so that the test for a
blank prefix reads on into the status behind it, and of all statuses one is selected by. -/

namespace Zowex.zjb

variable {cs : Charset} {text name pattern : Bytes}

/-! Blanks behind a text. -/

theorem rtrim_append_blanks (xs : Bytes) (n : ℕ) :
    zut_rtrim cs (xs ++ List.replicate n (cs.code ' ')) = zut_rtrim cs xs := by
  induction n with
  | zero => simp
  | succ n ih =>
    rw [List.replicate_succ', ← List.append_assoc, zut_rtrim, List.reverse_append]
    rw [List.reverse_singleton, List.singleton_append, List.dropWhile_cons_of_pos (by simp)]
    exact ih

theorem rtrim_front (xs : Bytes) : zut_rtrim cs xs <+: xs := by
  rw [← List.reverse_suffix, zut_rtrim, List.reverse_reverse]
  exact List.dropWhile_suffix _

/-- What is trimmed off is blanks. -/
theorem rtrim_fill (xs : Bytes) : ∃ n, xs = zut_rtrim cs xs ++ List.replicate n (cs.code ' ') := by
  refine ⟨(xs.reverse.takeWhile (· = cs.code ' ')).length, ?_⟩
  have hblanks : xs.reverse.takeWhile (· = cs.code ' ') =
      List.replicate (xs.reverse.takeWhile (· = cs.code ' ')).length (cs.code ' ') := by
    rw [List.eq_replicate_iff]
    refine ⟨rfl, fun c hc => ?_⟩
    simpa using List.mem_takeWhile_imp hc
  have hsplit := congrArg List.reverse
    (List.takeWhile_append_dropWhile (p := (· = cs.code ' ')) (l := xs.reverse))
  rw [List.reverse_append, List.reverse_reverse, hblanks, List.reverse_replicate] at hsplit
  exact hsplit.symm

theorem mem_rtrim {xs : Bytes} {c : UInt8} (hc : c ∈ xs) (hblank : c ≠ cs.code ' ') :
    c ∈ zut_rtrim cs xs := by
  obtain ⟨n, hn⟩ := @rtrim_fill cs xs
  rw [hn, List.mem_append] at hc
  exact hc.resolve_right fun hmem => hblank (List.eq_of_mem_replicate hmem)

theorem rtrim_head {xs : Bytes} {c : UInt8} (hblank : c ≠ cs.code ' ') :
    (zut_rtrim cs xs).head? = some c ↔ xs.head? = some c := by
  cases xs with
  | nil => rfl
  | cons first xs =>
    constructor
    · intro h
      obtain ⟨rest, hrest⟩ := @rtrim_front cs (first :: xs)
      rw [← hrest, List.head?_append, h]
      rfl
    · intro h
      obtain rfl : first = c := Option.some.inj h
      have hmem := mem_rtrim (List.mem_cons_self (a := first) (l := xs)) hblank
      obtain ⟨rest, hrest⟩ := @rtrim_front cs (first :: xs)
      cases htrim : zut_rtrim cs (first :: xs) with
      | nil =>
        rw [htrim] at hmem
        exact absurd hmem List.not_mem_nil
      | cons first' trimmed =>
        rw [htrim] at hrest
        rw [List.head?_cons, (List.cons.inj hrest).1]

/-! A field. -/

theorem strncpy_take {length : ℕ} (h : 0 ∉ text.take length) : strncpy text length =
    text.take length ++ List.replicate (length - (text.take length).length) 0 := by
  have htake : (text.takeWhile (· ≠ 0)).take length = text.take length := by
    rw [List.take_takeWhile, List.takeWhile_eq_self_iff]
    intro c hc
    simpa using fun hzero : c = 0 => h (hzero ▸ hc)
  rw [strncpy, htake]

theorem zero_mem_strncpy {length : ℕ} (hlength : length ≤ text.length)
    (h : 0 ∈ text.take length) : 0 ∈ strncpy text length := by
  have hshort : ((text.takeWhile (· ≠ 0)).take length).length < length := by
    rw [List.take_takeWhile]
    have hne : (text.take length).takeWhile (· ≠ 0) ≠ text.take length := by
      rw [ne_eq, List.takeWhile_eq_self_iff]
      intro hall
      simpa using hall 0 h
    have hle := (List.takeWhile_prefix (· ≠ 0) (l := text.take length)).length_le
    have htake : (text.take length).length = length := List.length_take_of_le hlength
    refine lt_of_le_of_ne (hle.trans htake.le) fun heq => hne ?_
    exact (List.takeWhile_prefix _).eq_of_length (heq.trans htake.symm)
  rw [strncpy]
  exact List.mem_append_right _ (List.mem_replicate.mpr ⟨by omega, rfl⟩)

/-- The first eight characters, in upper case. -/
def shown (cs : Charset) (text : Bytes) : Bytes := (text.map (zds.toupper cs)).take 8

theorem length_shown (text : Bytes) : (shown cs text).length ≤ 8 := List.length_take_le ..

theorem argument_eq (text : Bytes) : argument cs text = zut_rtrim cs (shown cs text) := rfl

theorem take_min (xs : Bytes) (n : ℕ) : xs.take (min xs.length n) = xs.take n := by
  rcases Nat.le_total xs.length n with h | h
  · rw [Nat.min_eq_left h, List.take_length, List.take_of_length_le h]
  · rw [Nat.min_eq_right h]

theorem field_shown (h : 0 ∉ shown cs text) : (zut_uppercase_pad_truncate cs text 8).bytes =
    shown cs text ++ List.replicate (8 - (shown cs text).length) (cs.code ' ') := by
  have htake := take_min (text.map (zds.toupper cs)) 8
  have hlength : (shown cs text).length = min (text.map (zds.toupper cs)).length 8 := by
    rw [shown, List.length_take, Nat.min_comm]
  dsimp only [zut_uppercase_pad_truncate]
  rw [strncpy_take (by rw [htake]; exact h), htake, ← hlength]
  simp [shown]

theorem zero_mem_field (h : 0 ∈ shown cs text) :
    0 ∈ (zut_uppercase_pad_truncate cs text 8).bytes := by
  refine List.mem_append_left _ (zero_mem_strncpy (Nat.min_le_left ..) ?_)
  rw [take_min]
  exact h

theorem zero_mem_argument (hblank : cs.code ' ' ≠ 0) : 0 ∈ argument cs text ↔ 0 ∈ shown cs text := by
  rw [argument_eq]
  exact ⟨fun h => (rtrim_front _).subset h, fun h => mem_rtrim h hblank.symm⟩

theorem field_text (h : 0 ∉ shown cs text) :
    zut_rtrim cs (zut_uppercase_pad_truncate cs text 8).bytes = argument cs text := by
  rw [field_shown h, rtrim_append_blanks, argument_eq]

theorem argument_head (hblank : cs.code ' ' ≠ 0) :
    (zut_uppercase_pad_truncate cs text 8).bytes.head? = some 0 ↔
      (argument cs text).head? = some 0 := by
  rw [argument_eq, rtrim_head hblank.symm]
  by_cases hzero : 0 ∈ shown cs text
  · have hne : 0 < min (text.map (zds.toupper cs)).length 8 := by
      have hpos := List.length_pos_of_mem hzero
      rw [shown, List.length_take, Nat.min_comm] at hpos
      exact hpos
    have hshown : shown cs text = (text.map (zds.toupper cs)).take
        (min (text.map (zds.toupper cs)).length 8) := (take_min _ 8).symm
    dsimp only [zut_uppercase_pad_truncate]
    rw [strncpy, List.take_takeWhile, ← hshown]
    cases hcons : shown cs text with
    | nil => rw [hcons] at hzero; exact absurd hzero List.not_mem_nil
    | cons c rest =>
      by_cases hc : c = 0
      · subst hc
        rw [List.takeWhile_cons_of_neg (by simp), List.nil_append, List.length_nil, Nat.sub_zero]
        obtain ⟨n, hn⟩ := Nat.exists_eq_add_one.mpr hne
        rw [hn, List.replicate_succ]
        simp
      · rw [List.takeWhile_cons_of_pos (by simpa using hc)]
        simp [hc]
  · rw [field_shown hzero]
    cases shown cs text with
    | nil => simp [hblank]
    | cons c rest => rfl

/-- A field is a text and the blanks behind it just where its argument is that text. -/
theorem field_fill_iff (hblank : cs.code ' ' ≠ 0) {t : Bytes} (hzero : 0 ∉ t)
    (htrim : zut_rtrim cs t = t) :
    (zut_uppercase_pad_truncate cs text 8).bytes =
        t ++ List.replicate (8 - t.length) (cs.code ' ') ↔ argument cs text = t := by
  constructor
  · intro h
    have hshown : 0 ∉ shown cs text := by
      intro hmem
      have hfield := zero_mem_field hmem
      rw [h, List.mem_append, List.mem_replicate] at hfield
      rcases hfield with hmem | ⟨-, hcode⟩
      · exact hzero hmem
      · exact hblank hcode.symm
    rw [← field_text hshown, h, rtrim_append_blanks, htrim]
  · intro h
    have hshown : 0 ∉ shown cs text := by
      rw [← zero_mem_argument hblank, h]
      exact hzero
    obtain ⟨n, hn⟩ := @rtrim_fill cs (zut_uppercase_pad_truncate cs text 8).bytes
    rw [field_text hshown, h] at hn
    have hlength := (zut_uppercase_pad_truncate cs text 8).length_eq
    rw [hn, List.length_append, List.length_replicate] at hlength
    rw [hn, show n = 8 - t.length by omega]

/-! Patterns. -/

/-- A name has no null character. -/
theorem matches_zero (hname : IsName cs name) (hzero : 0 ∈ pattern) (hstar : cs.code '*' ≠ 0)
    (hany : cs.code '?' ≠ 0) : ¬ Matches cs pattern name := by
  rintro ⟨-, hglob⟩
  have hsymbol : symbol cs 0 = .char 0 := by
    rw [symbol, if_neg hstar.symm, if_neg hany.symm]
  have hmem : Globs.Symbol.char 0 ∈ pattern.map (symbol cs) :=
    hsymbol ▸ List.mem_map_of_mem hzero
  exact (hname.2 0 (hglob.mem_of_char hmem)).1 rfl

theorem field_matches (hname : IsName cs name) (hblank : cs.code ' ' ≠ 0)
    (hstar : cs.code '*' ≠ 0) (hany : cs.code '?' ≠ 0) :
    Matches cs (zut_rtrim cs (zut_uppercase_pad_truncate cs text 8).bytes) name ↔
      Matches cs (argument cs text) name := by
  by_cases hzero : 0 ∈ shown cs text
  · have hfield : 0 ∈ zut_rtrim cs (zut_uppercase_pad_truncate cs text 8).bytes :=
      mem_rtrim (zero_mem_field hzero) hblank.symm
    have hargument : 0 ∈ argument cs text := (zero_mem_argument hblank).mpr hzero
    exact iff_of_false (matches_zero hname hfield hstar hany)
      (matches_zero hname hargument hstar hany)
  · rw [field_text hzero]

/-! What `strcmp` compares. -/

theorem c_string_eq_iff {field rest literal : Bytes} (hlength : field.length = literal.length)
    (hliteral : 0 ∉ literal) :
    c_string (field ++ rest) = literal ↔ field = literal ∧ c_string rest = [] := by
  have hwhole : c_string literal = literal := by
    rw [c_string, List.takeWhile_eq_self_iff]
    intro c hc
    simpa using fun hzero : c = 0 => hliteral (hzero ▸ hc)
  constructor
  · intro h
    have hstart : literal <+: field ++ rest := h ▸ List.takeWhile_prefix _
    obtain rfl : field = literal :=
      (List.prefix_of_prefix_length_le (List.prefix_append field rest) hstart hlength.le).eq_of_length
        hlength
    refine ⟨rfl, ?_⟩
    rw [c_string, List.takeWhile_append_of_pos (List.takeWhile_eq_self_iff.mp hwhole)] at h
    exact List.append_cancel_left (h.trans (List.append_nil field).symm)
  · rintro ⟨rfl, hrest⟩
    rw [c_string, List.takeWhile_append_of_pos (List.takeWhile_eq_self_iff.mp hwhole)]
    rw [c_string] at hrest
    rw [hrest, List.append_nil]

theorem c_string_nil_iff {field : Bytes} (hne : field ≠ []) :
    c_string field = [] ↔ field.head? = some 0 := by
  cases field with
  | nil => exact absurd rfl hne
  | cons c field => by_cases hc : c = 0 <;> simp [c_string, hc]

/-! The request. -/

variable {current_user owner_name prefix_name status_name : Bytes} {job : Job} {zjb : ZJB}

/-- The request of a handle that no browse token is in. -/
def request (cs : Charset) (current_user owner_name prefix_name status_name : Bytes) : JobFilter :=
  job_filter cs (owner_handle cs current_user {} owner_name prefix_name status_name)

theorem request_limits (jobs_max buffer_size : ℤ) :
    job_filter cs (owner_handle cs current_user { jobs_max, buffer_size } owner_name prefix_name
      status_name) = request cs current_user owner_name prefix_name status_name := rfl

/-- The test for a blank prefix. -/
theorem prefix_test (hblank : cs.code ' ' ≠ 0) :
    c_string ((zut_uppercase_pad_truncate cs prefix_name 8).bytes ++
        (zut_uppercase_pad_truncate cs status_name 8).bytes ++ List.replicate 80 0) =
      cs.str "        " ↔ PrefixEnds cs prefix_name status_name := by
  have hliteral : cs.str "        " = List.replicate 8 (cs.code ' ') := rfl
  have hzero : 0 ∉ cs.str "        " := by
    rw [hliteral, List.mem_replicate]
    exact fun h => hblank h.2.symm
  have hlength := (zut_uppercase_pad_truncate cs status_name 8).length_eq
  have hne : (zut_uppercase_pad_truncate cs status_name 8).bytes ≠ [] := by
    intro h
    rw [h] at hlength
    cases hlength
  have hhead : ((zut_uppercase_pad_truncate cs status_name 8).bytes ++
      List.replicate 80 0).head? = (zut_uppercase_pad_truncate cs status_name 8).bytes.head? := by
    obtain ⟨c, rest, hcons⟩ := List.exists_cons_of_ne_nil hne
    rw [hcons]
    rfl
  have hfield := (zut_uppercase_pad_truncate cs prefix_name 8).length_eq
  have hfill := @field_fill_iff cs prefix_name hblank [] List.not_mem_nil rfl
  rw [List.append_assoc, c_string_eq_iff (hfield.trans rfl) hzero,
    c_string_nil_iff (List.append_ne_nil_of_left_ne_nil hne _), hhead, argument_head hblank]
  exact and_congr_left' hfill

theorem request_jobname (hblank : cs.code ' ' ≠ 0) :
    (request cs current_user owner_name prefix_name status_name).jobname = none ∧
        PrefixEnds cs prefix_name status_name ∨
      (request cs current_user owner_name prefix_name status_name).jobname =
          some (zut_uppercase_pad_truncate cs prefix_name 8).bytes ∧
        ¬ PrefixEnds cs prefix_name status_name := by
  by_cases htest : PrefixEnds cs prefix_name status_name
  · exact .inl ⟨if_pos ((prefix_test hblank).mpr htest), htest⟩
  · exact .inr ⟨if_neg fun h => htest ((prefix_test hblank).mp h), htest⟩

/-- The test for the status. -/
theorem request_active (hblank : cs.code ' ' ≠ 0) (hactive : 0 ∉ cs.str "ACTIVE")
    (hletters : cs.code 'E' ≠ cs.code ' ') :
    (request cs current_user owner_name prefix_name status_name).active = true ↔
      argument cs status_name = cs.str "ACTIVE" := by
  have hliteral : cs.str "ACTIVE  " = cs.str "ACTIVE" ++ List.replicate 2 (cs.code ' ') := rfl
  have hzero : 0 ∉ cs.str "ACTIVE  " := by
    rw [hliteral, List.mem_append, List.mem_replicate]
    exact fun h => h.elim hactive fun h => hblank h.2.symm
  have htrim : zut_rtrim cs (cs.str "ACTIVE") = cs.str "ACTIVE" := by
    show (List.dropWhile _ (cs.code 'E' :: _)).reverse = _
    rw [List.dropWhile_cons_of_neg (by simpa using hletters)]
    rfl
  have hfill := @field_fill_iff cs status_name hblank _ hactive htrim
  have hfield := (zut_uppercase_pad_truncate cs status_name 8).length_eq
  have htest : c_string ((zut_uppercase_pad_truncate cs status_name 8).bytes ++
      List.replicate 80 0) = cs.str "ACTIVE  " ↔
        argument cs status_name = cs.str "ACTIVE" := by
    rw [c_string_eq_iff (hfield.trans rfl) hzero]
    exact (and_iff_left rfl).trans hfill
  exact decide_eq_true_iff.trans htest

/-! The list. -/

theorem listed {ssi : Ssi} {all : List Job} {jobs_max buffer_size : ℤ} (hserves : Serves cs ssi all)
    (hbelow : Below { jobs_max, buffer_size } all.length) :
    (zjb_list_by_owner cs ssi current_user { jobs_max, buffer_size } owner_name prefix_name
        status_name).rc = RTNCD_SUCCESS ∧
      (zjb_list_by_owner cs ssi current_user { jobs_max, buffer_size } owner_name prefix_name
        status_name).result = (only (Selected cs (request cs current_user owner_name prefix_name
          status_name)) all).map fun job => job_response job.info := by
  have hlist := hserves.list (request cs current_user owner_name prefix_name status_name)
  rw [← request_limits jobs_max buffer_size] at hlist ⊢
  have hshort : ((only (Selected cs (job_filter cs (owner_handle cs current_user
      { jobs_max, buffer_size } owner_name prefix_name status_name))) all).map Job.info).length ≤
        all.length := by
    rw [List.length_map]
    exact List.length_filter_le _ _
  have hmap : ∀ jobs : List Job, (jobs.map fun job => job_response job.info) =
      (jobs.map Job.info).map job_response := fun jobs => by
    rw [List.map_map]
    rfl
  rw [hmap]
  generalize (only (Selected cs (job_filter cs (owner_handle cs current_user
    { jobs_max, buffer_size } owner_name prefix_name status_name))) all).map Job.info = jobs
    at hlist hshort ⊢
  obtain ⟨copied, hinv, hrc, hresult⟩ := jobs_served
    (owner_handle cs current_user { jobs_max, buffer_size } owner_name prefix_name status_name)
    jobs hserves.lookup hserves.free fun _ => (Int.ofNat_le.mpr hshort).trans hbelow.1
  have hall : copied.entries = jobs := by
    apply hinv.complete
    refine le_trans ?_ hbelow.2
    exact mul_le_mul_of_nonneg_right (Int.ofNat_le.mpr hshort) (by decide)
  rw [list_by_owner_eq hserves.init hlist]
  dsimp only
  rw [if_neg fun hfailed => hfailed.1 hrc]
  exact ⟨hrc, by rw [hresult, hall]; rfl⟩

/-- An interface that serves all requests, for these jobs. -/
noncomputable def serving (cs : Charset) (all : List Job) : Ssi :=
  { grants [] [] with
    list := fun filter => .gives ((only (Selected cs filter) all).map Job.info) }

theorem serving_serves (all : List Job) : Serves cs (serving cs all) all :=
  ⟨rfl, fun _ => rfl, fun _ => rfl, rfl⟩

theorem only_one (p : Job → Prop) (job : Job) : (only p [job]).length = 1 ↔ p job := by
  classical
  rw [only, List.filter_singleton]
  by_cases hp : p job <;> simp [hp]

theorem length_only_one (p : Job → Prop) (job : Job) : (only p [job]).length ≤ 1 :=
  List.length_filter_le _ _

/-- The filters take effect just where the fields select the same jobs. -/
theorem take_effect_iff : FiltersTakeEffect cs current_user owner_name prefix_name status_name ↔
    ∀ job : Job, job.Valid cs →
      (Selected cs (request cs current_user owner_name prefix_name status_name) job ↔
        Wanted cs current_user owner_name prefix_name status_name job) := by
  constructor
  · intro h job hvalid
    have hone : Below { jobs_max := 1, buffer_size := sizeof_job_info } 1 := by
      constructor <;> decide
    have heffect := h 1 sizeof_job_info [job] (serving cs [job]) (by simpa using hvalid)
      (serving_serves _) hone
    rw [(listed (serving_serves _) hone).2] at heffect
    have hlength := congrArg List.length heffect.2
    rw [List.length_map, List.length_map] at hlength
    refine (only_one _ job).symm.trans (Iff.trans ?_ (only_one _ job))
    rw [hlength]
  · intro h jobs_max buffer_size all ssi hvalid hserves hbelow
    have hlisted := @listed cs current_user owner_name prefix_name status_name ssi all
      jobs_max buffer_size hserves hbelow
    refine ⟨hlisted.1, ?_⟩
    rw [hlisted.2, only, only]
    congr 1
    refine List.filter_congr fun job hjob => ?_
    rw [decide_eq_decide]
    exact h job (hvalid job hjob)

/-! On z/OS. -/

theorem blank_ne : ibm1047.code ' ' ≠ 0 := by decide

theorem star_ne : ibm1047.code '*' ≠ 0 := by decide

theorem any_ne : ibm1047.code '?' ≠ 0 := by decide

theorem active_iff : (request ibm1047 current_user owner_name prefix_name status_name).active = true ↔
    argument ibm1047 status_name = ibm1047.str "ACTIVE" :=
  request_active blank_ne (by decide) (by decide)

theorem selected_iff (hvalid : job.Valid ibm1047) :
    Selected ibm1047 (request ibm1047 current_user owner_name prefix_name status_name) job ↔
      Matches ibm1047 (argument ibm1047 (if owner_name = [] then current_user else owner_name))
        (job.owner ibm1047) ∧
      (PrefixEnds ibm1047 prefix_name status_name ∨
        Matches ibm1047 (argument ibm1047 prefix_name) (job.name ibm1047)) ∧
      (argument ibm1047 status_name = ibm1047.str "ACTIVE" →
        job.status = ibm1047.str "ACTIVE") := by
  have howner := @field_matches ibm1047 (if owner_name = [] then current_user else owner_name) _
    hvalid.1 blank_ne star_ne any_ne
  have hname := @field_matches ibm1047 prefix_name _ hvalid.2 blank_ne star_ne any_ne
  rw [← howner, ← hname, ← @active_iff current_user owner_name prefix_name]
  rcases @request_jobname ibm1047 current_user owner_name prefix_name status_name blank_ne with
    ⟨hfield, hends⟩ | ⟨hfield, hends⟩
  · constructor
    · exact fun h => ⟨h.owner, .inl hends, h.phase⟩
    · intro h
      refine ⟨h.1, fun field hsome => ?_, h.2.2⟩
      rw [hfield] at hsome
      cases hsome
  · constructor
    · exact fun h => ⟨h.owner, .inr (h.name _ hfield), h.phase⟩
    · intro h
      refine ⟨h.1, fun field hsome => ?_, h.2.2⟩
      rw [hfield] at hsome
      obtain rfl := Option.some.inj hsome
      exact h.2.1.resolve_left hends

def job_of (owner name status : Bytes) : Job := ⟨⟨name, [], owner⟩, status⟩

theorem IsName.rtrim (h : IsName cs name) : zut_rtrim cs name = name := by
  obtain ⟨n, hn⟩ := @rtrim_fill cs name
  cases n with
  | zero => simpa using hn.symm
  | succ n =>
    have hmem : cs.code ' ' ∈ name := by
      rw [hn]
      simp
    exact absurd rfl (h.2 _ hmem).2

theorem job_of_owner {owner : Bytes} (h : IsName cs owner) (name status : Bytes) :
    (job_of owner name status).owner cs = owner := by
  have hhead : owner.head? ≠ some 0 :=
    fun hzero => (h.2 0 (List.mem_of_mem_head? hzero)).1 rfl
  rw [Job.owner, job_of, if_neg hhead, h.rtrim]

theorem job_of_name (h : IsName cs name) (owner status : Bytes) :
    (job_of owner name status).name cs = name := h.rtrim

theorem isName_nil : IsName cs [] := ⟨Nat.zero_le _, fun _ h => absurd h List.not_mem_nil⟩

theorem job_of_valid {owner : Bytes} (howner : IsName cs owner) (hname : IsName cs name)
    (status : Bytes) : (job_of owner name status).Valid cs := by
  rw [Job.Valid, job_of_owner howner, job_of_name hname]
  exact ⟨howner, hname⟩

theorem status_star : argument ibm1047 (ibm1047.str "*") = ibm1047.str "*" := by decide

theorem argument_nil : argument cs [] = [] := rfl

theorem cons_ne_self {α : Type} (x : α) (xs : List α) : x :: xs ≠ xs := by
  intro h
  simpa using congrArg List.length h

theorem not_served (h : ¬ StatusServed ibm1047 status_name) : status_name ≠ [] ∧
    status_name ≠ ibm1047.str "*" ∧ argument ibm1047 status_name ≠ ibm1047.str "ACTIVE" := by
  rw [StatusServed, not_or, not_or] at h
  exact h

/-- A status that is served does not begin with a null character. -/
theorem StatusServed.head (h : StatusServed ibm1047 status_name) :
    (argument ibm1047 status_name).head? ≠ some 0 := by
  rcases h with rfl | rfl | h
  · decide
  · decide
  · rw [h]
    decide

/-- A status that is served is the one that was asked for. -/
theorem StatusServed.same (h : StatusServed ibm1047 status_name) {status : Bytes} :
    (argument ibm1047 status_name = ibm1047.str "ACTIVE" → status = ibm1047.str "ACTIVE") ↔
      (status_name = [] ∨ status_name = ibm1047.str "*" ∨
        status = argument ibm1047 status_name) := by
  rcases h with rfl | rfl | h
  · exact iff_of_true (fun h => absurd h (by decide)) (.inl rfl)
  · exact iff_of_true (fun h => absurd h (by decide)) (.inr (.inl rfl))
  · have hnil : status_name ≠ [] := by
      rintro rfl
      exact absurd h (by decide)
    have hstar : status_name ≠ ibm1047.str "*" := by
      rintro rfl
      exact absurd h (by decide)
    rw [h]
    tauto

theorem wanted_iff : Wanted cs current_user owner_name prefix_name status_name job ↔
    Matches cs (argument cs (if owner_name = [] then current_user else owner_name))
      (job.owner cs) ∧
    (prefix_name = [] ∨ Matches cs (argument cs prefix_name) (job.name cs)) ∧
    (status_name = [] ∨ status_name = cs.str "*" ∨ job.status = argument cs status_name) :=
  ⟨fun h => ⟨h.owner, h.name, h.status⟩, fun h => ⟨h.1, h.2.1, h.2.2⟩⟩

theorem take_effect (h : MatchesNone ibm1047
      (argument ibm1047 (if owner_name = [] then current_user else owner_name)) ∨
    (prefix_name ≠ [] ∧ (StatusServed ibm1047 status_name ∨
      (MatchesNone ibm1047 (argument ibm1047 prefix_name) ∧
        ¬ PrefixEnds ibm1047 prefix_name status_name)))) :
    FiltersTakeEffect ibm1047 current_user owner_name prefix_name status_name := by
  rw [take_effect_iff]
  intro job hvalid
  rw [selected_iff hvalid, wanted_iff]
  rcases h with hnone | ⟨hstart, hserved | ⟨hnone, hends⟩⟩
  · exact iff_of_false (fun h => hnone _ hvalid.1 h.1) (fun h => hnone _ hvalid.1 h.1)
  · have hends : ¬ PrefixEnds ibm1047 prefix_name status_name := fun h => hserved.head h.2
    rw [hserved.same, or_iff_right hends, or_iff_right hstart]
  · have hname := hnone _ hvalid.2
    rw [or_iff_right hends, or_iff_right hstart]
    exact iff_of_false (fun h => hname h.2.1) (fun h => hname h.2.1)

/-- What the filters come to for a job of an owner that is selected. -/
theorem FiltersTakeEffect.at_owner
    (h : FiltersTakeEffect ibm1047 current_user owner_name prefix_name status_name) {owner : Bytes}
    (howner : IsName ibm1047 owner) (hmatches : Matches ibm1047
      (argument ibm1047 (if owner_name = [] then current_user else owner_name)) owner)
    (hname : IsName ibm1047 name) (status : Bytes) :
    (PrefixEnds ibm1047 prefix_name status_name ∨
        Matches ibm1047 (argument ibm1047 prefix_name) name) ∧
      (argument ibm1047 status_name = ibm1047.str "ACTIVE" → status = ibm1047.str "ACTIVE") ↔
    (prefix_name = [] ∨ Matches ibm1047 (argument ibm1047 prefix_name) name) ∧
      (status_name = [] ∨ status_name = ibm1047.str "*" ∨
        status = argument ibm1047 status_name) := by
  have hjob := take_effect_iff.mp h (job_of owner name status) (job_of_valid howner hname status)
  rw [selected_iff (job_of_valid howner hname status), wanted_iff, job_of_owner howner,
    job_of_name hname, and_iff_right hmatches, and_iff_right hmatches] at hjob
  exact hjob

/-- The filters take effect for an owner that no job can have, or with a prefix and a status that
is selected by. -/
theorem filters_iff (current_user owner_name prefix_name status_name : Bytes) :
    FiltersTakeEffect ibm1047 current_user owner_name prefix_name status_name ↔
      MatchesNone ibm1047
        (argument ibm1047 (if owner_name = [] then current_user else owner_name)) ∨
      (prefix_name ≠ [] ∧ (StatusServed ibm1047 status_name ∨
        (MatchesNone ibm1047 (argument ibm1047 prefix_name) ∧
          ¬ PrefixEnds ibm1047 prefix_name status_name))) := by
  refine ⟨fun h => ?_, take_effect⟩
  rw [or_iff_not_imp_left]
  intro hsome
  obtain ⟨owner, hrest⟩ := not_forall.mp hsome
  obtain ⟨howner, hmatches⟩ := Classical.not_imp.mp hrest
  replace hmatches := not_not.mp hmatches
  have hother := cons_ne_self 0 (argument ibm1047 status_name)
  refine ⟨?_, ?_⟩
  · rintro rfl
    have hno : ¬ Matches ibm1047 (argument ibm1047 []) [] := fun h => h.1 argument_nil
    by_cases hends : PrefixEnds ibm1047 [] status_name
    · have hnot := not_served fun hserved => hserved.head hends.2
      have hjob := h.at_owner howner hmatches isName_nil (0 :: argument ibm1047 status_name)
      obtain ⟨-, hnil | hstar | hsame⟩ := hjob.mp ⟨.inl hends, fun heq => absurd heq hnot.2.2⟩
      · exact hnot.1 hnil
      · exact hnot.2.1 hstar
      · exact hother hsame
    · have hjob := h.at_owner howner hmatches isName_nil (argument ibm1047 status_name)
      obtain ⟨hname, -⟩ := hjob.mpr ⟨.inl rfl, .inr (.inr rfl)⟩
      exact hname.elim hends hno
  · rw [or_iff_not_imp_left]
    intro hserved
    have hnot := not_served hserved
    have hno : ∀ name, IsName ibm1047 name →
        ¬ (PrefixEnds ibm1047 prefix_name status_name ∨
          Matches ibm1047 (argument ibm1047 prefix_name) name) := by
      intro name hname hselected
      have hjob := h.at_owner howner hmatches hname (0 :: argument ibm1047 status_name)
      obtain ⟨-, hnil | hstar | hsame⟩ := hjob.mp ⟨hselected, fun heq => absurd heq hnot.2.2⟩
      · exact hnot.1 hnil
      · exact hnot.2.1 hstar
      · exact hother hsame
    exact ⟨fun name hname hm => hno name hname (.inr hm), fun hends => hno [] isName_nil (.inl hends)⟩

/-- Jobs of all owners, with neither a prefix nor a status: none is listed. -/
theorem no_prefix_no_jobs : ¬ ∀ current_user owner_name prefix_name status_name,
    FiltersTakeEffect ibm1047 current_user owner_name prefix_name status_name := by
  intro h
  have hall : Matches ibm1047 (argument ibm1047 (ibm1047.str "*")) [] := by
    rw [status_star]
    exact ⟨by decide, Globs.matches_star_alone []⟩
  have hjob := (h [] (ibm1047.str "*") [] []).at_owner isName_nil hall isName_nil []
  obtain ⟨hends | hname, -⟩ := hjob.mpr ⟨.inl rfl, .inl rfl⟩
  · exact absurd hends.2 (by decide)
  · exact hname.1 argument_nil

end Zowex.zjb

import Zowex.Proofs.Streams
import Zowex.Proofs.Tools
import Zowex.Spec.DsCommands

/-! What a write command changes, and with services that do their work. Only the view goes to the
volume that is given: a write goes through the catalog. -/

namespace Zowex.ds

open zds plugin

variable {Shift Contents : Type} {cs : Charset} {iconv_open : IconvOpen Shift}
  {lib : Library Contents} {sv : Services}

/-- The options that the write command makes of its arguments. -/
def write_opts (cs : Charset) (args : ArgumentMap) : ZDSWriteOpts :=
  { zds := { encoding_opts := encoding_opts cs args, etag := etag_value cs args }
    dsname := get_string cs args "dsn" }

def write_source (cs : Charset) (args : ArgumentMap) (input : Bytes) (pipe : Bytes → List Bytes) :
    Source :=
  if get_string cs args "pipe-path" ≠ [] then .streamed (pipe (get_string cs args "pipe-path"))
  else .buffered input

/-- The DD of the volume, where one is given. -/
def write_dds (cs : Charset) (args : ArgumentMap) : List Bytes :=
  if get_string cs args "volser" ≠ [] then
    [alloc_command cs (cs.str "output") (get_string cs args "dsn") (get_string cs args "volser")]
  else []

/-- The return code where the DD is freed. -/
def free_rc (cs : Charset) (sv : Services) (args : ArgumentMap) : ℤ :=
  (tool.zut_free_dynalloc_dds cs sv.tool
    (tool.zut_loop_dynalloc sv.tool 0 (write_dds cs args)).2.length (write_dds cs args)).1

theorem handle_write_eq (args : ArgumentMap) (input : Bytes) (pipe : Bytes → List Bytes)
    (s : System Contents) :
    handle_data_set_write cs iconv_open lib sv args input pipe s =
      if (etag_value cs args).length ≥ etag_size then ⟨s, none, .error .etag_too_long⟩
      else if (tool.zut_loop_dynalloc sv.tool 0 (write_dds cs args)).1 ≠ 0 then
        ⟨s, none, .error .not_allocated⟩
      else
        let run := write_cataloged cs iconv_open lib sv (write_opts cs args)
          (write_source cs args input pipe) s
        ⟨run.1, run.2.1,
          if write_dds cs args ≠ [] ∧ free_rc cs sv args ≠ 0 then .error .not_freed
          else run.2.2.mapError .write⟩ := by
  rw [handle_data_set_write]
  refine ite_congr rfl (fun _ => rfl) fun _ => ite_congr rfl (fun _ => rfl) fun _ => ?_
  by_cases hfailed : write_dds cs args ≠ [] ∧ free_rc cs sv args ≠ 0
  · exact (if_pos hfailed).trans (congrArg (Written.mk _ _) (if_pos hfailed).symm)
  · exact (if_neg hfailed).trans (congrArg (Written.mk _ _) (if_neg hfailed).symm)

theorem mapError_isOk {α β ε : Type} (result : Except ε α) (f : ε → β) :
    (result.mapError f).isOk = result.isOk := by
  cases result with
  | ok t => rfl
  | error e => rfl

/-- The command changes nothing, or what is cataloged under the name. -/
theorem write_cases (args : ArgumentMap) (input : Bytes) (pipe : Bytes → List Bytes)
    (s : System Contents) :
    let written := handle_data_set_write cs iconv_open lib sv args input pipe s
    (written.system = s ∧ written.result.isOk = false) ∨
    ∃ volume, s.volume cs (get_string cs args "dsn") = some volume ∧
      let run := zds_write cs iconv_open lib sv.data_sets (write_opts cs args)
        (write_source cs args input pipe) (s.contents volume (get_string cs args "dsn"))
      written.system = s.store volume (get_string cs args "dsn") run.contents ∧
      written.stored = some run.contents ∧
      (written.result.isOk = true → run.result.isOk = true) := by
  intro written
  have hwritten : written = _ := handle_write_eq args input pipe s
  rw [hwritten]
  by_cases hlong : (etag_value cs args).length ≥ etag_size
  · rw [if_pos hlong]
    exact .inl ⟨rfl, rfl⟩
  rw [if_neg hlong]
  by_cases hrc : (tool.zut_loop_dynalloc sv.tool 0 (write_dds cs args)).1 ≠ 0
  · rw [if_pos hrc]
    exact .inl ⟨rfl, rfl⟩
  rw [if_neg hrc]
  dsimp only
  have hmissing (e : WriteError) : (if write_dds cs args ≠ [] ∧ free_rc cs sv args ≠ 0 then
      (.error .not_freed : Except CommandError TruncationTracker)
      else (Except.error e).mapError .write).isOk = false := by
    split_ifs
    · rfl
    · rfl
  rw [write_cataloged]
  rcases hvolume : s.volume cs (write_opts cs args).dsname with _ | volume
  · exact .inl ⟨rfl, hmissing _⟩
  · refine .inr ⟨volume, hvolume, rfl, rfl, fun hok => ?_⟩
    dsimp only at hok
    split_ifs at hok
    · cases hok
    · exact (mapError_isOk _ _).symm.trans hok

/-! A write that succeeds. -/

/-- What a data set holds, and whether it was written. -/
def rewritten : Library (Bytes × Bool) where
  read_text := Prod.fst
  read_binary := Prod.fst
  read_records _ _ := []
  write_text _ bytes := (bytes, true)
  write_binary bytes := (bytes, true)
  stow records := (records.flatten, true)

/-- A library that takes every codepage for the same. -/
def identity : IconvOpen Unit := fun _ _ => some
  { initial := ()
    convert := fun _ bytes => some (bytes, ())
    flush := fun _ => some [] }

def accepting : Services where
  data_sets := services_work
  tool := tool.working

theorem zut_encode_identity (input from_encoding to_encoding : Bytes) :
    zut_encode identity input from_encoding to_encoding = ⟨some input, false⟩ := by
  rw [zut_encode]
  by_cases hnames : from_encoding = to_encoding
  · rw [if_pos hnames]
  · rw [if_neg hnames, identity]
    dsimp only
    have hlimit : ¬ input.length > input.length * 4 := by omega
    rw [zut_iconv]
    dsimp only [bind, Option.bind]
    rw [if_neg hlimit, if_neg (by decide), List.append_nil, if_neg hlimit]
    rfl

theorem read_identity (opts : ZEncode) (contents : Bytes × Bool) :
    zds_read cs identity rewritten true {} opts contents = .ok contents.1 := by
  have hbytes : read_bytes cs rewritten {} opts contents = contents.1 := by
    rw [read_bytes, reads_records, DscbAttributes.is_asa]
    exact ite_self _
  rw [zds_read, if_neg (by decide), hbytes]
  by_cases hconvert : contents.1 ≠ [] ∧ zds_use_codepage opts = true
  · rw [if_pos hconvert, zut_encode_identity]
    dsimp only
    rw [if_pos hconvert.1]
  · rw [if_neg hconvert]

theorem setup_identity (opts : ZEncode) : (setup_encoding cs identity opts).2 = false := by
  have hnewline (encoding : Bytes) : (get_newline_char cs identity encoding).2 = false := by
    rw [get_newline_char]
    by_cases hnone : encoding = []
    · rw [if_pos hnone]
    · rw [if_neg hnone, zut_encode_identity]
  exact hnewline _

theorem valid_identity (opts : ZEncode) : iconv_valid cs identity opts = true := by
  change (!zds_use_codepage opts || Option.isSome (if zds_use_codepage opts then _ else _)) = true
  rcases zds_use_codepage opts with _ | _
  · rfl
  · rfl

/-- No data at all, however it is given. -/
def IsEmpty (source : Source) : Prop := source = .buffered [] ∨ source = .streamed []

theorem empty_file {zds : ZDS} (hmsg : zds.e_msg = false) {source : Source}
    (hsource : IsEmpty source) :
    ∃ t, write_file cs identity all_work {} zds source = ⟨some [], .ok t⟩ := by
  rcases hsource with rfl | rfl
  · exact ⟨{}, rfl⟩
  · refine streamed_works all_work_works rfl {} (valid_identity zds.encoding_opts)
      (show zbase64.decode_run [] (some []) = (.ok [], some []) from rfl) ?_
    rw [encode_pieces, start_msg, setup_identity, hmsg, start_conversion, guard_eq]
    rcases zds_use_codepage zds.encoding_opts with _ | _
    · rfl
    · rfl

theorem empty_member {zds : ZDS} {source : Source} (hsource : IsEmpty source) :
    ∃ t, (write_member cs identity bpam_works zds source).result = .ok t ∧
      (write_member cs identity bpam_works zds source).stored = some [] := by
  rw [member_opened cs identity zds source rfl rfl, valid_identity, if_neg (by decide)]
  rcases hsource with rfl | rfl
  · exact ⟨_, rfl, rfl⟩
  · exact ⟨_, rfl, rfl⟩

/-- A write of no data, to a data set of which the e-tag is that of its contents. -/
theorem empty_write {opts : ZDSWriteOpts} (hdd : opts.ddname = []) (hdsn : opts.dsname ≠ [])
    (hmsg : opts.zds.e_msg = false) {source : Source} (hsource : IsEmpty source)
    {current : Bytes}
    (hetag : opts.zds.etag ≠ [] →
      (zjson.strtoul16 cs opts.zds.etag).1 = zut_calc_adler32_checksum current) :
    let run := zds_write cs identity rewritten services_work opts source (current, false)
    run.result.isOk = true ∧ run.contents = ([], true) := by
  have haccepted : validate_etag_if_present cs identity rewritten true {} opts.zds
      (current, false) = none := by
    rw [validate_etag_if_present]
    by_cases hnone : opts.zds.etag ≠ []
    · rw [if_pos hnone, zds_validate_etag, read_identity]
      dsimp only
      rw [hetag hnone]
      exact if_neg (not_not.mpr rfl)
    · rw [if_neg hnone]
  have hcontents : ∃ t log, write_contents cs identity rewritten services_work opts source
      (current, false) = ⟨([], true), log, .ok t, opts.zds.etag⟩ := by
    rw [write_contents]
    by_cases hmember : zds_has_member cs opts.dsname = true
    · obtain ⟨t, hresult, hstored⟩ := @empty_member cs opts.zds source hsource
      rw [if_pos hmember]
      dsimp only
      rw [show services_work.bpam = bpam_works from rfl, hresult, MemberRun.contents, hstored]
      exact ⟨t, _, rfl⟩
    · obtain ⟨t, hfile⟩ := @empty_file cs opts.zds hmsg source hsource
      rw [if_neg hmember]
      dsimp only
      rw [show services_work.file = all_work from rfl, show services_work.attrs = {} from rfl, hfile,
        FileRun.contents]
      dsimp only
      refine ⟨t, [], ?_⟩
      split_ifs
      · rfl
      · rfl
  obtain ⟨t, log, hcontents⟩ := hcontents
  rw [zds_write, if_neg (fun hnone => hdsn hnone.1), if_neg (not_not.mpr hdd), services_work,
    services_check, haccepted]
  dsimp only
  rw [← services_work, hcontents]
  dsimp only
  have hread : zds_read cs identity rewritten services_work.file.fopen_read services_work.attrs
      opts.zds.encoding_opts ([], true) = .ok [] := read_identity _ _
  rw [is_failure, if_neg (by decide), read_back]
  dsimp only
  rw [hread]
  exact ⟨rfl, rfl⟩

/-! The command. -/

theorem working_loop (calls : ℕ) (commands : List Bytes) :
    (tool.zut_loop_dynalloc tool.working calls commands).1 = 0 := by
  induction commands generalizing calls with
  | nil => rfl
  | cons command commands ih => exact ih (calls + 1)

theorem find_skip {c d : UInt8} (text rest : Bytes) (h : (d == c) = false) :
    tool.find (d :: text) (c :: rest) = (tool.find (d :: text) rest).map (· + 1) := by
  rw [tool.find, if_neg]
  rw [List.isPrefixOf, h]
  exact Bool.false_ne_true

theorem find_alloc (cs : Charset) (rest : Bytes) :
    tool.find (cs.str "dd(") (cs.str "alloc dd(" ++ rest) = some 6 := by
  have hne {c : Char} (h : c ∈ ['a', 'l', 'o', 'c', ' ']) : (cs.code 'd' == cs.code c) = false := by
    rw [beq_eq_false_iff_ne, Ne, cs.code_eq_iff (by decide)
      (by revert c; decide)]
    rintro rfl
    revert h
    decide
  change tool.find (cs.code 'd' :: [cs.code 'd', cs.code '(']) (cs.code 'a' :: cs.code 'l' ::
    cs.code 'l' :: cs.code 'o' :: cs.code 'c' :: cs.code ' ' :: cs.code 'd' :: cs.code 'd' ::
    cs.code '(' :: rest) = _
  rw [find_skip _ _ (hne (by decide)), find_skip _ _ (hne (by decide)),
    find_skip _ _ (hne (by decide)), find_skip _ _ (hne (by decide)),
    find_skip _ _ (hne (by decide)), find_skip _ _ (hne (by decide)), tool.find, if_pos]
  · rfl
  · simp [List.isPrefixOf]

theorem free_alloc (cs : Charset) (dd dsn volser : Bytes) :
    ∃ command, tool.free_command cs (alloc_command cs dd dsn volser) = some command := by
  have hentry : alloc_command cs dd dsn volser = cs.str "alloc dd(" ++ (dd ++ cs.str ") da('" ++
      dsn ++ cs.str "') shr vol(" ++ volser ++ cs.str ")") := by
    simp only [alloc_command, List.append_assoc]
  rw [tool.free_command, hentry, find_alloc]
  dsimp only
  refine ⟨_, if_pos ?_⟩
  rw [List.drop_append_of_le_length (by simp [Charset.str])]
  simp [Charset.str]

theorem working_free (args : ArgumentMap) : free_rc cs accepting args = 0 := by
  rw [free_rc, write_dds]
  by_cases hvolser : get_string cs args "volser" ≠ []
  · obtain ⟨command, hcommand⟩ := free_alloc cs (cs.str "output") (get_string cs args "dsn")
      (get_string cs args "volser")
    rw [if_pos hvolser, tool.zut_free_dynalloc_dds, List.mapM_cons, hcommand]
    exact working_loop _ _
  · rw [if_neg hvolser]
    rfl

/-- The command with no data, where every service does its work: the e-tag that is given, if any, is
that of what each data set holds. -/
theorem empty_command {args : ArgumentMap} (hdsn : get_string cs args "dsn" ≠ [])
    (hlong : (etag_value cs args).length < etag_size) {current : Bytes}
    (hetag : etag_value cs args ≠ [] →
      (zjson.strtoul16 cs (etag_value cs args)).1 = zut_calc_adler32_checksum current)
    {catalog : Bytes → Option Bytes} {volume : Bytes}
    (hvolume : catalog ((get_string cs args "dsn").takeWhile (· ≠ cs.code '(')) = some volume) :
    let s : System (Bytes × Bool) := ⟨catalog, fun _ _ => (current, false)⟩
    let written := handle_data_set_write cs identity rewritten accepting args [] (fun _ => []) s
    written.result.isOk = true ∧
      written.system = s.store volume (get_string cs args "dsn") ([], true) := by
  intro s written
  have hsource : IsEmpty (write_source cs args [] fun _ => []) := by
    rw [write_source]
    split_ifs
    · exact .inr rfl
    · exact .inl rfl
  have hwritten : written = _ := handle_write_eq args [] (fun _ => []) s
  have hdd : (write_opts cs args).ddname = [] := rfl
  have hrun := empty_write hdd hdsn rfl hsource hetag
  have hnot : ¬ (etag_value cs args).length ≥ etag_size := not_le.mpr hlong
  have hloop : ¬ (tool.zut_loop_dynalloc accepting.tool 0 (write_dds cs args)).1 ≠ 0 :=
    not_not.mpr (working_loop _ _)
  have hfree : ¬ (write_dds cs args ≠ [] ∧ free_rc cs accepting args ≠ 0) :=
    fun h => h.2 (working_free args)
  rw [if_neg hnot, if_neg hloop] at hwritten
  dsimp only at hwritten
  rw [if_neg hfree, write_cataloged, System.volume, show (write_opts cs args).dsname =
    get_string cs args "dsn" from rfl, show s.catalog _ = some volume from hvolume] at hwritten
  rw [hwritten]
  refine ⟨(mapError_isOk _ _).trans hrun.1, ?_⟩
  exact congrArg (s.store volume (get_string cs args "dsn")) hrun.2

/-! What a write that succeeds has found. -/

theorem zds_write_target {opts : ZDSWriteOpts} {data_sets : DataSetServices} {source : Source}
    {before : Contents} (hdd : opts.ddname = [])
    (hok : (zds_write cs iconv_open lib data_sets opts source before).result.isOk = true) :
    opts.dsname ≠ [] := by
  intro hdsn
  rw [zds_write, if_pos ⟨hdsn, hdd⟩] at hok
  cases hok

/-- A write with an e-tag that succeeds has read contents with that checksum. -/
theorem zds_write_locked {opts : ZDSWriteOpts} {data_sets : DataSetServices} {source : Source}
    {before : Contents} (hdd : opts.ddname = [])
    (hchanged : (zds_write cs iconv_open lib data_sets opts source before).result.isOk = true ∨
      (zds_write cs iconv_open lib data_sets opts source before).contents ≠ before)
    (hetag : opts.zds.etag ≠ []) :
    ∃ current_contents,
      zds_read cs iconv_open lib data_sets.file.fopen_read data_sets.attrs
        (if zds_use_codepage opts.zds.encoding_opts then opts.zds.encoding_opts else {}) before =
          .ok current_contents ∧
      zut_calc_adler32_checksum current_contents = (zjson.strtoul16 cs opts.zds.etag).1 := by
  by_contra hnone
  have hrefused : ∃ e, write_refused cs iconv_open lib data_sets opts before = some e := by
    rw [write_refused]
    split_ifs with hexists hrecfm
    · exact ⟨_, rfl⟩
    · exact ⟨_, rfl⟩
    · rw [validate_etag_if_present, if_pos hetag, zds_validate_etag]
      dsimp only
      rcases hread : zds_read cs iconv_open lib data_sets.file.fopen_read data_sets.attrs
        (if zds_use_codepage opts.zds.encoding_opts then opts.zds.encoding_opts else {}) before
        with e | current_contents
      · exact ⟨_, rfl⟩
      · dsimp only
        rw [if_pos fun hsame => hnone ⟨current_contents, hread, hsame.symm⟩]
        exact ⟨_, rfl⟩
  obtain ⟨e, hrefused⟩ := hrefused
  rw [zds_write, if_neg (not_not.mpr hdd), hrefused] at hchanged
  split_ifs at hchanged
  · exact hchanged.elim (fun h => by cases h) fun h => h rfl
  · exact hchanged.elim (fun h => by cases h) fun h => h rfl

/-! The volume. -/

/-- The e-tag is too long, or no contents have it. -/
def NeverAccepted (cs : Charset) (etag : Bytes) : Prop :=
  etag.length ≥ etag_size ∨
    (etag ≠ [] ∧ ∀ contents, zut_calc_adler32_checksum contents ≠ (zjson.strtoul16 cs etag).1)

/-- The data set that is cataloged is written to, on whatever volume it is. -/
theorem other_volume {args : ArgumentMap} {catalog : Bytes → Option Bytes} {volume : Bytes}
    (hvolume : catalog ((get_string cs args "dsn").takeWhile (· ≠ cs.code '(')) = some volume)
    (hne : volume ≠ get_string cs args "volser") (hdsn : get_string cs args "dsn" ≠ [])
    (haccepted : ¬ NeverAccepted cs (etag_value cs args)) : ¬ VolumeSelects cs catalog args := by
  intro hselects
  have hlong : (etag_value cs args).length < etag_size := by
    by_contra hlong
    exact haccepted (.inl (not_lt.mp hlong))
  obtain ⟨current, hcurrent⟩ : ∃ current, etag_value cs args ≠ [] →
      (zjson.strtoul16 cs (etag_value cs args)).1 = zut_calc_adler32_checksum current := by
    by_cases hnone : etag_value cs args = []
    · exact ⟨[], fun h => absurd hnone h⟩
    · by_contra hcurrent
      push Not at hcurrent
      exact haccepted (.inr ⟨hnone, fun contents => ((hcurrent contents).2).symm⟩)
  obtain ⟨hok, hsystem⟩ := empty_command hdsn hlong hcurrent hvolume
  have hframe := (hselects Unit (Bytes × Bool) identity rewritten accepting accepting
    (fun _ _ => (current, false)) [] (fun _ => []) args (fun _ _ => rfl) hok).1.2 volume
    (get_string cs args "dsn") (.inl hne)
  rw [hsystem, System.store] at hframe
  dsimp only at hframe
  rw [if_pos ⟨rfl, rfl⟩] at hframe
  exact Bool.noConfusion (congrArg Prod.snd hframe)

/-- With a volume, the catalog must name no other. -/
theorem volume_selects_iff (cs : Charset) (catalog : Bytes → Option Bytes) (args : ArgumentMap)
    (hvolser : get_string cs args "volser" ≠ []) :
    VolumeSelects cs catalog args ↔
      (∀ volume, catalog ((get_string cs args "dsn").takeWhile (· ≠ cs.code '(')) = some volume →
        volume = get_string cs args "volser") ∨
      get_string cs args "dsn" = [] ∨ NeverAccepted cs (etag_value cs args) := by
  constructor
  · intro hselects
    by_contra hnot
    obtain ⟨hvolume, hdsn, haccepted⟩ : (¬ ∀ _, _ → _) ∧ _ ∧ _ := by
      simpa only [not_or] using hnot
    push Not at hvolume
    obtain ⟨volume, hvolume, hne⟩ := hvolume
    exact other_volume hvolume hne hdsn haccepted hselects
  · intro hwhen Shift Contents iconv_open lib sv view_sv contents input pipe view_args dsn volser
      written hargs hok
    have hcases := @write_cases Shift Contents cs iconv_open lib sv args input pipe
      ⟨catalog, contents⟩
    obtain ⟨-, hfailed⟩ | ⟨volume, hvolume, hsystem, hstored, hrun⟩ := hcases
    · exact absurd (hok.symm.trans hfailed) (by decide)
    have hrun := hrun hok
    have hdd : (write_opts cs args).ddname = [] := rfl
    rcases hwhen with hsame | hdsn | hlong | ⟨hetag, hnone⟩
    · obtain rfl : volume = volser := hsame volume hvolume
      have hwritten : written.system = System.store ⟨catalog, contents⟩ volser dsn _ := hsystem
      refine ⟨⟨?_, fun volume name hother => ?_⟩, _, hstored, fun read hread => ?_⟩
      · rw [hwritten]
        rfl
      · rw [hwritten, System.store]
        exact if_neg (not_and_or.mpr hother)
      · have hview (key : String) (h : key ∈ ["dsn", "volser", "encoding", "local-encoding"]) :
            get_string cs view_args key = get_string cs args key := by
          rw [get_string, get_string, hargs key h]
        rw [handle_data_set_view, hview "dsn" (by decide), hview "volser" (by decide)] at hread
        dsimp only at hread
        rw [if_pos hvolser, hwritten] at hread
        split_ifs at hread
        rw [Option.some.injEq] at hread
        rw [← hread, System.store]
        dsimp only
        rw [if_pos ⟨rfl, rfl⟩]
    · exact absurd hdsn (zds_write_target hdd hrun)
    · have hwritten : written = _ := handle_write_eq args input pipe _
      rw [hwritten, if_pos hlong] at hok
      cases hok
    · obtain ⟨current, -, hcurrent⟩ := zds_write_locked hdd (.inl hrun) hetag
      exact absurd hcurrent (hnone current)

/-- `--dsn A.B --volser VOL2`. -/
def on_second_volume : ArgumentMap :=
  ((∅ : ArgumentMap).insert (ibm1047.str "dsn") (.string (ibm1047.str "A.B"))).insert
    (ibm1047.str "volser") (.string (ibm1047.str "VOL2"))

theorem on_second_volume_selects :
    VolumeSelects ibm1047 (fun _ => some (ibm1047.str "VOL2")) on_second_volume :=
  (volume_selects_iff ibm1047 (fun _ => some (ibm1047.str "VOL2")) on_second_volume
    (by decide +kernel)).mpr (.inl (by
      rintro _ ⟨⟩
      decide +kernel))

/-- The data set of that name on the first volume is cataloged, and is overwritten. -/
theorem first_volume_overwritten :
    ¬ VolumeSelects ibm1047 (fun _ => some (ibm1047.str "VOL1")) on_second_volume := by
  have hetag : etag_value ibm1047 on_second_volume = [] := by decide +kernel
  have hvolume : (fun _ => some (ibm1047.str "VOL1") : Bytes → Option Bytes)
      ((get_string ibm1047 on_second_volume "dsn").takeWhile (· ≠ ibm1047.code '(')) =
        some (ibm1047.str "VOL1") := rfl
  apply other_volume hvolume
  · decide +kernel
  · decide +kernel
  · rw [hetag]
    rintro (hlong | ⟨hne, -⟩)
    · exact absurd hlong (by decide)
    · exact hne rfl

end Zowex.ds

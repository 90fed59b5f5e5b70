import Zowex.Proofs.DataSets
import Zowex.Spec.Uss

/-! When a conversion that fails is noticed. `zut_encode` gives an empty result for a converter that
cannot be opened, and none of its callers tells that from data; a member is written with a
descriptor of its own, so that nothing goes wrong there. -/

namespace Zowex

open zds zusf

variable {Shift Contents : Type} {cs : Charset} {iconv_open : IconvOpen Shift}
  {lib : Library Contents} {opts : ZEncode}

theorem zut_iconv_output {cd : Iconv Shift} {shift : Shift} {input output : Bytes}
    {max_output_size : ℕ} {next : Shift}
    (h : zut_iconv cd shift input max_output_size true = some (output, next)) :
    (do
      let (converted, shift) ← cd.convert shift input
      let sequence ← cd.flush shift
      some (converted ++ sequence)) = some output := by
  rw [zut_iconv] at h
  obtain ⟨⟨converted, shift'⟩, hconvert, h⟩ := Option.bind_eq_some_iff.mp h
  dsimp only at h
  by_cases hlimit : converted.length > max_output_size
  · rw [if_pos hlimit] at h
    cases h
  rw [if_neg hlimit, if_neg (by decide)] at h
  obtain ⟨sequence, hflush, h⟩ := Option.bind_eq_some_iff.mp h
  by_cases hlimit' : (converted ++ sequence).length > max_output_size
  · rw [if_pos hlimit'] at h
    cases h
  rw [if_neg hlimit', Option.some_inj, Prod.mk.injEq] at h
  rw [hconvert, ← h.1]
  dsimp only [bind, Option.bind]
  rw [hflush]

/-- What `zut_encode` converts is the conversion, unless it opens no converter. -/
theorem zut_encode_output {input from_encoding to_encoding output : Bytes}
    (hnames : from_encoding ≠ to_encoding)
    (hopen : (iconv_open to_encoding from_encoding).isSome)
    (h : (zut_encode iconv_open input from_encoding to_encoding).output = some output) :
    conversion iconv_open input from_encoding to_encoding = some output := by
  obtain ⟨cd, hcd⟩ := Option.isSome_iff_exists.mp hopen
  rw [zut_encode, if_neg hnames, hcd] at h
  obtain ⟨⟨converted, next⟩, hiconv, rfl⟩ := Option.map_eq_some_iff.mp h
  rw [conversion, hcd]
  exact zut_iconv_output hiconv

theorem zut_encode_same (input encoding : Bytes) :
    (zut_encode iconv_open input encoding encoding).output = some input := by
  rw [zut_encode, if_pos rfl]

theorem zut_encode_not_opened {input from_encoding to_encoding : Bytes}
    (hnames : from_encoding ≠ to_encoding) (h : iconv_open to_encoding from_encoding = none) :
    (zut_encode iconv_open input from_encoding to_encoding).output = some [] := by
  rw [zut_encode, if_neg hnames, h]

theorem conversion_not_opened {input from_encoding to_encoding : Bytes}
    (h : iconv_open to_encoding from_encoding = none) :
    conversion iconv_open input from_encoding to_encoding = none := by
  rw [conversion, h]
  rfl

/-- A conversion that fits the buffer is what `zut_encode` gives. -/
theorem zut_encode_of_conversion {input from_encoding to_encoding output : Bytes}
    (hnames : from_encoding ≠ to_encoding)
    (h : conversion iconv_open input from_encoding to_encoding = some output)
    (hlimit : output.length ≤ input.length * 4) :
    (zut_encode iconv_open input from_encoding to_encoding).output = some output := by
  rw [conversion] at h
  obtain ⟨cd, hcd, h⟩ := Option.bind_eq_some_iff.mp h
  obtain ⟨⟨converted, shift⟩, hconvert, h⟩ := Option.bind_eq_some_iff.mp h
  obtain ⟨sequence, hflush, h⟩ := Option.bind_eq_some_iff.mp h
  obtain rfl := Option.some.inj h
  have hfirst : ¬ converted.length > input.length * 4 := by
    rw [List.length_append] at hlimit
    omega
  rw [zut_encode, if_neg hnames, hcd]
  dsimp only
  rw [zut_iconv, hconvert]
  dsimp only [bind, Option.bind]
  rw [if_neg hfirst, if_neg (by decide), hflush]
  dsimp only
  rw [if_neg (not_lt.mpr hlimit)]
  rfl

/-- What both reads deliver. -/
def delivered (iconv_open : IconvOpen Shift) (bytes from_encoding to_encoding : Bytes) :
    Except ReadError Bytes :=
  if bytes = [] then .ok bytes
  else
    match (zut_encode iconv_open bytes from_encoding to_encoding).output with
    | none => .error .not_converted
    | some temp => .ok (if temp ≠ [] then temp else bytes)

theorem delivered_iff (bytes from_encoding to_encoding : Bytes) :
    (∀ response, delivered iconv_open bytes from_encoding to_encoding = .ok response →
        conversion iconv_open bytes from_encoding to_encoding = some response) ↔
      ReadConverts iconv_open bytes from_encoding to_encoding := by
  unfold delivered ReadConverts
  by_cases hbytes : bytes = []
  · rw [if_pos hbytes, if_pos (.inl hbytes)]
    constructor
    · exact fun h => h bytes rfl
    · rintro h response heq
      rw [h, Except.ok.inj heq]
  rw [if_neg hbytes]
  by_cases hnames : from_encoding = to_encoding
  · subst hnames
    rw [if_pos (.inr rfl), zut_encode_same]
    dsimp only
    rw [if_pos hbytes]
    constructor
    · exact fun h => h bytes rfl
    · rintro h response heq
      rw [h, Except.ok.inj heq]
  rw [if_neg (not_or.mpr ⟨hbytes, hnames⟩)]
  rcases hopen : iconv_open to_encoding from_encoding with _ | cd
  · rw [zut_encode_not_opened hnames hopen, conversion_not_opened hopen]
    refine iff_of_false (fun h => ?_) fun h => absurd h.1 (by simp)
    exact absurd (h _ rfl) (by simp)
  · have hsome : (iconv_open to_encoding from_encoding).isSome := by
      rw [hopen]
      rfl
    rcases hencode : (zut_encode iconv_open bytes from_encoding to_encoding).output with _ | temp
    · refine iff_of_true (fun response h => by cases h) ⟨rfl, fun hempty => ?_⟩
      rw [zut_encode_of_conversion hnames hempty (Nat.zero_le _)] at hencode
      cases hencode
    · rw [zut_encode_output hnames hsome hencode]
      dsimp only
      by_cases htemp : temp = []
      · subst htemp
        refine iff_of_false (fun h => ?_) fun h => absurd rfl h.2
        exact hbytes (Option.some.inj (h bytes rfl)).symm
      · rw [if_pos htemp]
        refine iff_of_true (fun response h => by rw [Except.ok.inj h]) ⟨rfl, fun h => ?_⟩
        exact htemp (Option.some.inj h)

/-- What both writes store. -/
def to_store (iconv_open : IconvOpen Shift) (called : Bool)
    (data from_encoding to_encoding : Bytes) : Option Bytes :=
  if called then (zut_encode iconv_open data from_encoding to_encoding).output else some data

theorem to_store_iff (called : Bool) (data from_encoding to_encoding : Bytes) :
    (∀ temp, to_store iconv_open called data from_encoding to_encoding = some temp →
        conversion iconv_open data from_encoding to_encoding = some temp) ↔
      WriteConverts iconv_open called data from_encoding to_encoding := by
  unfold to_store WriteConverts
  by_cases hcalled : called = true
  · rw [if_pos hcalled]
    by_cases hnames : from_encoding = to_encoding
    · subst hnames
      rw [if_pos (.inr rfl), zut_encode_same]
      constructor
      · exact fun h => h data rfl
      · rintro h temp heq
        rw [h, heq]
    rw [if_neg (not_or.mpr ⟨by simp [hcalled], hnames⟩)]
    rcases hopen : iconv_open to_encoding from_encoding with _ | cd
    · rw [zut_encode_not_opened hnames hopen, conversion_not_opened hopen]
      exact iff_of_false (fun h => by cases h [] rfl) (by simp)
    · refine iff_of_true (fun temp htemp => zut_encode_output hnames ?_ htemp) rfl
      rw [hopen]
      rfl
  · rw [if_neg hcalled, if_pos (.inl (Bool.not_eq_true _ ▸ hcalled))]
    constructor
    · exact fun h => h data rfl
    · rintro h temp heq
      rw [h, heq]

/-! The reads. -/

theorem zds_read_eq (fopen_read : Bool) (attrs : DscbAttributes) (contents : Contents)
    (h : zds_use_codepage opts = true) :
    zds_read cs iconv_open lib fopen_read attrs opts contents =
      if !fopen_read then .error .not_opened
      else delivered iconv_open (read_bytes cs lib attrs opts contents) opts.codepage
        (source_encoding cs opts) := by
  rw [zds_read, delivered, h]
  by_cases hopened : (!fopen_read) = true
  · rw [if_pos hopened, if_pos hopened]
  rw [if_neg hopened, if_neg hopened]
  dsimp only
  by_cases hempty : read_bytes cs lib attrs opts contents = []
  · rw [if_neg (fun hand => hand.1 hempty), if_pos hempty]
  · rw [if_pos ⟨hempty, rfl⟩]
    exact (if_neg hempty).symm

theorem zusf_read_eq {encoding contents : Bytes} {sv : UssServices}
    (h : encoding_to_use cs opts sv.ccsid = some encoding) :
    zusf_read_from_uss_file cs iconv_open sv opts contents =
      if !sv.file.fopen_read then .error .not_opened
      else delivered iconv_open contents encoding (source_encoding cs opts) := by
  rw [zusf_read_from_uss_file, h]
  rfl

/-! The writes. -/

theorem write_sequential_stored {sv : FileServices} {attrs : DscbAttributes} {data : Bytes}
    {t : TruncationTracker} (huse : zds_use_codepage opts = true)
    (h : (zds_write_sequential cs iconv_open sv attrs opts data).result = .ok t) :
    ∃ temp, to_store iconv_open (data ≠ []) data (source_encoding cs opts) opts.codepage =
        some temp ∧
      (zds_write_sequential cs iconv_open sv attrs opts data).stored = some temp := by
  revert h
  rw [zds_write_sequential, setup_encoding_eq huse, to_store]
  dsimp only
  by_cases hopened : (!sv.fopen_write) = true
  · rw [if_pos hopened]
    intro h
    cases h
  rw [if_neg hopened]
  by_cases hempty : data = []
  · rw [if_pos hempty, if_neg (by simp [hempty]), hempty]
    exact fun _ => ⟨[], rfl, rfl⟩
  rw [if_neg hempty, if_pos rfl, if_pos (by simp [hempty])]
  rcases (zut_encode iconv_open data (source_encoding cs opts) opts.codepage).output with _ | temp
  · intro h
    cases h
  dsimp only
  by_cases hshort : sv.fwrite [] temp ≠ temp.length
  · rw [if_pos hshort]
    intro h
    cases h
  · rw [if_neg hshort]
    exact fun _ => ⟨temp, rfl, rfl⟩

theorem write_sequential_works (attrs : DscbAttributes) {data temp : Bytes}
    (huse : zds_use_codepage opts = true)
    (h : to_store iconv_open (data ≠ []) data (source_encoding cs opts) opts.codepage = some temp) :
    ∃ t, zds_write_sequential cs iconv_open all_work attrs opts data = ⟨some temp, .ok t⟩ := by
  have hopened : ¬ (!all_work.fopen_write) = true := by decide
  have hwritten : ¬ all_work.fwrite [] temp ≠ temp.length := not_not.mpr rfl
  rw [to_store] at h
  rw [zds_write_sequential, setup_encoding_eq huse]
  dsimp only
  rw [if_neg hopened]
  by_cases hempty : data = []
  · rw [if_neg (by simp [hempty]), Option.some_inj, hempty] at h
    rw [if_pos hempty, ← h]
    exact ⟨_, rfl⟩
  · rw [if_pos (by simp [hempty])] at h
    rw [if_neg hempty, if_pos rfl, h]
    exact ⟨_, if_neg hwritten⟩

/-! Members. -/

theorem encode_line_conversion {setup : EncodingSetup} {cd : Iconv Shift} {line output : Bytes}
    (hguard : setup.iconv_guard iconv_open = some cd)
    (h : encode_line_if_needed (setup.iconv_guard iconv_open) line = some output) :
    conversion iconv_open line setup.source_encoding setup.codepage = some output := by
  rw [hguard] at h
  obtain ⟨⟨converted, next⟩, hiconv, rfl⟩ := Option.map_eq_some_iff.mp h
  have hopen : iconv_open setup.codepage setup.source_encoding = some cd := by
    rw [EncodingSetup.iconv_guard] at hguard
    split_ifs at hguard
    exact hguard
  rw [conversion, hopen]
  exact zut_iconv_output hiconv

/-- The records of lines that are encoded by a conversion are those of what they are encoded to. -/
theorem line_records_eq (convert : Bytes → Option Bytes) {s : LineSetup}
    {lines : List PreparedLine} {outs : List EncodedLine}
    (hencode : ∀ line output, s.encode line = some output → convert line = some output)
    (h : lines.mapM (encoded s) = some outs) :
    (do
      let records ← lines.mapM fun line => do
        let output ← convert line.line
        some (List.replicate line.overflow_records [cs.code '-'] ++
          [Line.record (output, line.asa_char)])
      some records.flatten) = some (in_order cs outs) := by
  have hrecords : lines.mapM (fun line => do
      let output ← convert line.line
      some (List.replicate line.overflow_records [cs.code '-'] ++
        [Line.record (output, line.asa_char)])) =
      some (outs.map fun out => overflow cs out.1 ++ [out.2.record]) := by
    rw [Traversals.mapM_eq_some_iff] at h
    induction h with
    | nil => rfl
    | cons hline _ ih =>
      obtain ⟨text, htext, rfl⟩ := Option.map_eq_some_iff.mp hline
      rw [List.mapM_cons, hencode _ _ htext, ih]
      rfl
  exact Option.bind_eq_some_iff.mpr ⟨_, hrecords, congrArg some List.flatMap_def.symm⟩

theorem write_exact_iff (data : Bytes) (huse : zds_use_codepage opts = true) :
    (∀ (Contents : Type) (lib : Library Contents) (sv : DataSetServices)
      (write_opts : ZDSWriteOpts) (before : Contents) (t : TruncationTracker),
      write_opts.zds.encoding_opts = opts →
      (write_opts.ddname = [] → zds_has_member cs write_opts.dsname = false) →
      (zds_write cs iconv_open lib sv write_opts (.buffered data) before).result = .ok t →
      ∃ output, conversion iconv_open data (source_encoding cs opts) opts.codepage = some output ∧
        (zds_write cs iconv_open lib sv write_opts (.buffered data) before).contents =
          lib.write_text (if write_opts.ddname = [] then sv.attrs else {}) output) ↔
    ∀ temp, to_store iconv_open (data ≠ []) data (source_encoding cs opts) opts.codepage =
        some temp →
      conversion iconv_open data (source_encoding cs opts) opts.codepage = some temp := by
  constructor
  · intro h temp htemp
    obtain ⟨t, hworks⟩ := write_sequential_works {} huse htemp
    have hrun : write_file cs iconv_open services_work.file {} { encoding_opts := opts }
        (.buffered data) = ⟨some temp, .ok t⟩ := hworks
    obtain ⟨hresult, hcontents⟩ := zds_write_dd cs iconv_open plain services_work
      { zds := { encoding_opts := opts }, ddname := [0] } (.buffered data) []
      (List.cons_ne_nil _ _)
    rw [hrun] at hresult hcontents
    obtain ⟨output, houtput, hstored⟩ := h Bytes plain services_work _ [] t rfl
      (fun hnone => absurd hnone (List.cons_ne_nil _ _)) hresult
    rw [hcontents, file_contents_text plain {} [] huse rfl] at hstored
    rw [houtput]
    exact congrArg some hstored.symm
  · intro h Contents lib sv write_opts before t hopts hmember hresult
    obtain ⟨hok, hcontents⟩ := zds_write_file_ok hmember hresult
    rw [write_file, hopts] at hok hcontents
    obtain ⟨temp, htemp, hstored⟩ := write_sequential_stored huse hok
    rw [hcontents]
    exact ⟨temp, h temp htemp, file_contents_text lib _ before huse hstored⟩

theorem member_exact (data : Bytes) (huse : zds_use_codepage opts = true) {Contents : Type}
    (lib : Library Contents) (sv : DataSetServices) {write_opts : ZDSWriteOpts} (before : Contents)
    {t : TruncationTracker} (hopts : write_opts.zds.encoding_opts = opts)
    (hdd : write_opts.ddname = []) (hmember : zds_has_member cs write_opts.dsname = true)
    (hresult : (zds_write cs iconv_open lib sv write_opts (.buffered data) before).result =
      .ok t) :
    ∃ records,
      converted_records cs iconv_open opts (line_setup sv.bpam cs iconv_open opts) data =
        some records ∧
      (zds_write cs iconv_open lib sv write_opts (.buffered data) before).contents =
        lib.stow records := by
  obtain ⟨hok, hcontents⟩ := zds_write_ok hdd hresult
  rw [write_contents, hmember, if_pos rfl] at hok
  rw [hcontents, write_contents, hmember, if_pos rfl]
  dsimp only [write_member] at hok ⊢
  rw [hopts] at hok ⊢
  rcases hrun : (zds_write_member_bpam sv.bpam cs iconv_open opts data).result with e | t'
  · rw [hrun] at hok
    cases hok
  obtain ⟨hvalid, outs, houts, hstored⟩ := member_run_ok hrun
  refine ⟨in_order cs outs, line_records_eq (fun line =>
      conversion iconv_open line (source_encoding cs opts) opts.codepage)
    (fun line output hline => ?_) houts, ?_⟩
  · rw [line_setup, setup_encoding_eq huse] at hline
    rw [iconv_valid, setup_encoding_eq huse] at hvalid
    obtain ⟨cd, hcd⟩ := Option.isSome_iff_exists.mp hvalid
    exact encode_line_conversion hcd hline
  · rw [MemberRun.contents, hstored]

/-! Files. -/

theorem write_file_stored {sv : UssServices} {zusf : ZUSF} {data encoding etag : Bytes}
    (hencoding : encoding_to_use cs zusf.encoding_opts sv.ccsid = some encoding)
    (h : (zusf_write_to_uss_file cs iconv_open sv zusf data).result = .ok etag) :
    ∃ temp, to_store iconv_open true data (source_encoding cs zusf.encoding_opts) encoding =
        some temp ∧
      (zusf_write_to_uss_file cs iconv_open sv zusf data).stored = some temp := by
  revert h
  rw [zusf_write_to_uss_file, hencoding, to_store, if_pos rfl]
  rcases write_refused cs sv zusf with _ | e
  · dsimp only
    rcases (zut_encode iconv_open data (source_encoding cs zusf.encoding_opts) encoding).output
      with _ | temp
    · intro h
      cases h
    dsimp only
    by_cases hopened : (!sv.file.fopen_write) = true
    · rw [if_pos hopened]
      intro h
      cases h
    rw [if_neg hopened]
    by_cases hshort : temp ≠ [] ∧ sv.file.fwrite [] temp ≠ temp.length
    · rw [if_pos hshort]
      intro h
      cases h
    · rw [if_neg hshort, new_etag]
      intro h
      refine ⟨temp, rfl, ?_⟩
      rcases sv.stat_after with _ | ⟨mtime, byte_size⟩ <;> rfl
  · intro h
    cases h

theorem write_file_works {ccsid : ℤ} {data encoding temp : Bytes}
    (hencoding : encoding_to_use cs opts ccsid = some encoding)
    (h : to_store iconv_open true data (source_encoding cs opts) encoding = some temp) :
    (zusf_write_to_uss_file cs iconv_open ⟨all_work, .missing, ccsid, some (0, 0)⟩
        { encoding_opts := opts } data).result = .ok (zut_build_etag cs 0 0) ∧
      (zusf_write_to_uss_file cs iconv_open ⟨all_work, .missing, ccsid, some (0, 0)⟩
        { encoding_opts := opts } data).stored = some temp := by
  rw [to_store, if_pos rfl] at h
  have hopened : ¬ (!all_work.fopen_write) = true := by decide
  have hwritten : ¬ (temp ≠ [] ∧ all_work.fwrite [] temp ≠ temp.length) := fun hshort =>
    hshort.2 rfl
  rw [zusf_write_to_uss_file, hencoding]
  dsimp only [zusf.write_refused]
  rw [h]
  dsimp only
  rw [if_neg hopened, if_neg hwritten]
  exact ⟨rfl, rfl⟩

/-- Where it succeeds, a read or a write has converted just when there is a converter, and a read
just when that gives something. -/
theorem exact_iff_noticed (cs : Charset) (iconv_open : IconvOpen Shift) (opts : ZEncode)
    (access : Access) :
    Exact cs iconv_open opts access ↔ Noticed cs iconv_open opts access := by
  cases access with
  | read bytes =>
    refine forall_congr' fun huse => ?_
    rw [← delivered_iff]
    constructor
    · intro h response hresponse
      refine h Bytes plain {} bytes true response (read_bytes_plain bytes) ?_
      rw [zds_read_eq true _ _ huse, read_bytes_plain]
      exact hresponse
    · rintro h Contents lib attrs contents fopen_read response rfl hresponse
      rw [zds_read_eq fopen_read attrs contents huse] at hresponse
      cases fopen_read with
      | false => cases hresponse
      | true => exact h response hresponse
  | write data =>
    refine forall_congr' fun huse => ?_
    rw [← to_store_iff]
    exact write_exact_iff data huse
  | write_member data =>
    refine iff_of_true ?_ trivial
    intro huse Contents lib sv write_opts before t hopts hdd hmember hresult
    exact member_exact data huse lib sv before hopts hdd hmember hresult
  | read_file ccsid bytes =>
    refine forall_congr' fun encoding => forall_congr' fun hencoding => ?_
    rw [← delivered_iff]
    constructor
    · intro h response hresponse
      refine h ⟨all_work, .missing, ccsid, none⟩ response rfl ?_
      rw [zusf_read_eq hencoding]
      exact hresponse
    · rintro h sv response rfl hresponse
      rw [zusf_read_eq hencoding] at hresponse
      cases hopened : sv.file.fopen_read with
      | false =>
        rw [hopened] at hresponse
        cases hresponse
      | true =>
        rw [hopened] at hresponse
        exact h response hresponse
  | write_file ccsid data =>
    refine forall_congr' fun encoding => forall_congr' fun hencoding => ?_
    rw [← to_store_iff]
    constructor
    · intro h temp htemp
      obtain ⟨output, houtput, hstored⟩ := h ⟨all_work, .missing, ccsid, some (0, 0)⟩
        { encoding_opts := opts } _ rfl rfl (write_file_works hencoding htemp).1
      rw [(write_file_works hencoding htemp).2, Option.some_inj] at hstored
      rw [houtput, hstored]
    · rintro h sv zusf etag rfl rfl hresult
      obtain ⟨temp, htemp, hstored⟩ := write_file_stored hencoding hresult
      exact ⟨temp, h temp htemp, hstored⟩

/-- For an unknown codepage, what is written is lost and what is read is not converted. -/
theorem unknown_codepage_unnoticed :
    ¬ Exact ascii no_iconv { codepage := [88] } (.read [65]) ∧
      ¬ Exact ascii no_iconv { codepage := [88] } (.write [65]) ∧
      ¬ Exact ascii no_iconv { codepage := [88] } (.read_file 0 [65]) ∧
      ¬ Exact ascii no_iconv { codepage := [88] } (.write_file 0 [65]) := by
  refine ⟨fun h => ?_, fun h => ?_, fun h => ?_, fun h => ?_⟩
  · have := h rfl Bytes plain {} [65] true [65] (read_bytes_plain _) (by decide +kernel)
    cases this
  · obtain ⟨output, houtput, -⟩ := h rfl Bytes plain services_work
      { zds := { encoding_opts := { codepage := [88] } }, ddname := [0] } [] {} rfl
      (fun hnone => absurd hnone (List.cons_ne_nil _ _)) rfl
    cases houtput
  · have := h [88] rfl ⟨all_work, .missing, 0, none⟩ [65] rfl (by decide +kernel)
    cases this
  · obtain ⟨output, houtput, -⟩ := h [88] rfl ⟨all_work, .missing, 0, some (0, 0)⟩
      { encoding_opts := { codepage := [88] } } _ rfl rfl rfl
    cases houtput

end Zowex

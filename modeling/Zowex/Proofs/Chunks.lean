import Zowex.Proofs.Streams
import Zowex.Spec.Chunks

/-! When a streamed operation does what the buffered one does. Nothing that a converter leaves of a
piece is carried over to the next, so that a character at a boundary is in neither of them. -/

namespace Zowex

open zds

variable {Shift Contents : Type} {cs : Charset} {iconv_open : IconvOpen Shift} {sv : FileServices}
  {e_msg : Bool}

/-! The cuts of the reads. -/

theorem read_chunks_flatten {chunk_size : ℕ} (h : 0 < chunk_size) (bytes : Bytes) :
    (read_chunks chunk_size bytes).flatten = bytes := by
  induction bytes using read_chunks.induct chunk_size with
  | case1 bytes hmore ih =>
    rw [read_chunks, if_pos hmore, List.flatten_cons, ih, List.take_append_drop]
  | case2 bytes hend =>
    rw [read_chunks, if_neg hend]
    by_contra hne
    exact hend ⟨h, fun hnil => hne hnil.symm⟩

theorem read_pieces_flatten (lib : Library Contents) (attrs : DscbAttributes) (opts : ZEncode)
    (contents : Contents) :
    (read_pieces cs lib attrs opts contents).flatten = read_bytes cs lib attrs opts contents := by
  rw [read_pieces, read_bytes]
  by_cases hrecords : reads_records cs attrs opts = true
  · rw [if_pos hrecords, if_pos hrecords]
  · rw [if_neg hrecords, if_neg hrecords]
    exact read_chunks_flatten (by decide) _

theorem read_streamed_eq (lib : Library Contents) (attrs : DscbAttributes) (zds : ZDS)
    (contents : Contents) :
    zds_read_streamed cs iconv_open lib sv attrs zds contents =
      read_streamed_pieces cs iconv_open sv zds
        (read_pieces cs lib attrs zds.encoding_opts contents) :=
  rfl

/-! The pipe of a read. -/

/-- Whole groups of what was sent are in the pipe, and the rest is left over. -/
def Sent (read : StreamedRead) (left_over sent : Bytes) : Prop :=
  ∃ groups, 3 ∣ groups.length ∧ read.pipe = zbase64.encode groups ∧ groups ++ left_over = sent

theorem Sent.put {read : StreamedRead} {left_over sent : Bytes} (h : Sent read left_over sent)
    (chunk : Bytes) :
    Sent (read.put left_over chunk).1 (read.put left_over chunk).2 (sent ++ chunk) := by
  obtain ⟨groups, hgroups, hpipe, rfl⟩ := h
  rw [StreamedRead.put, zbase64.encode_stream_some]
  dsimp only
  refine ⟨groups ++ Blocks.whole 3 (left_over ++ chunk), ?_, ?_, ?_⟩
  · rw [List.length_append]
    exact dvd_add hgroups (Blocks.dvd_length_whole 3 _)
  · rw [zbase64.encode_append _ _ hgroups, ← hpipe]
  · rw [List.append_assoc, Option.getD_some, Blocks.whole_append_rest, List.append_assoc]

theorem Sent.closed {read : StreamedRead} {left_over sent : Bytes} (h : Sent read left_over sent) :
    read.pipe ++ (if left_over ≠ [] then zbase64.encode left_over else []) =
      zbase64.encode sent := by
  obtain ⟨groups, hgroups, hpipe, rfl⟩ := h
  rw [zbase64.encode_append _ _ hgroups, hpipe]
  by_cases hleft : left_over ≠ []
  · rw [if_pos hleft]
  · rw [if_neg hleft, not_not.mp hleft, zbase64.encode_nil]

/-- The loop over the pieces sends what they are converted to. -/
theorem stream_pieces_cases (e_msg : Bool) {pieces : List Bytes} {conversion : Conversion Shift}
    {read : StreamedRead} {left_over sent : Bytes} (h : Sent read left_over sent) :
    (stream_pieces pieces conversion read left_over = none ∧
      encode_pieces e_msg conversion pieces = none) ∨
    ∃ conversion' read' left_over' output,
      stream_pieces pieces conversion read left_over = some (conversion', read', left_over') ∧
      Sent read' left_over' (sent ++ output) ∧
      encode_pieces e_msg conversion pieces =
        (flush_encoding_state conversion' e_msg).map (output ++ ·) := by
  induction pieces generalizing conversion read left_over sent with
  | nil =>
    refine .inr ⟨conversion, read, left_over, [], rfl, by rwa [List.append_nil], ?_⟩
    rw [encode_pieces]
    exact Option.map_id'.symm
  | cons piece pieces ih =>
    rw [stream_pieces, encode_pieces]
    rcases hpiece : encode_chunk_if_needed conversion piece with _ | ⟨chunk, next⟩
    · exact .inl ⟨rfl, rfl⟩
    dsimp only [bind, Option.bind]
    rcases ih (h.put chunk) with ⟨hloop, hpieces⟩ | ⟨last, read', left_over', output, hloop, hsent,
      hpieces⟩
    · rw [hloop, hpieces]
      exact .inl ⟨rfl, rfl⟩
    · rw [hloop, hpieces]
      refine .inr ⟨last, read', left_over', chunk ++ output, rfl, ?_, ?_⟩
      · rwa [← List.append_assoc]
      · rcases flush_encoding_state last e_msg with _ | sequence
        · rfl
        · exact congrArg some (List.append_assoc _ _ _).symm

/-- What is in the pipe of a read that succeeds. -/
theorem pipe_eq (hsv : sv.Work) (zds : ZDS) (pieces : List Bytes) (hopened : sv.fopen_read = true)
    (hguard : zds_use_codepage zds.encoding_opts = true →
      (read_guard cs iconv_open zds.encoding_opts).isSome = true) :
    (read_streamed_pieces cs iconv_open sv zds pieces).toOption.map StreamedRead.pipe =
      (encode_pieces zds.e_msg (.start (read_guard cs iconv_open zds.encoding_opts)) pieces).map
        zbase64.encode := by
  have hpipe : ¬ (!sv.open_pipe || !sv.fdopen) = true := by
    rw [hsv.open_pipe, hsv.fdopen]
    decide
  have hclosed : ¬ (zds_use_codepage zds.encoding_opts &&
      (read_guard cs iconv_open zds.encoding_opts).isNone) = true := by
    rw [Bool.and_eq_true, not_and, Option.isNone_iff_eq_none, ← Option.not_isSome_iff_eq_none,
      not_not]
    exact hguard
  have hstart : Sent {} [] [] := ⟨[], by decide, zbase64.encode_nil.symm, rfl⟩
  rw [read_streamed_pieces]
  dsimp only
  rw [hopened, if_neg (by decide), if_neg hpipe, if_neg hclosed]
  rcases stream_pieces_cases zds.e_msg hstart with ⟨hloop, hpieces⟩ | ⟨last, read, left_over,
    output, hloop, hsent, hpieces⟩
  · rw [hloop, hpieces]
    rfl
  · rw [hloop, hpieces]
    dsimp only
    rw [List.nil_append] at hsent
    rcases flush_encoding_state last zds.e_msg with _ | sequence
    · rfl
    dsimp only
    by_cases hsequence : sequence ≠ []
    · rw [if_pos hsequence]
      exact congrArg some (hsent.put sequence).closed
    · rw [if_neg hsequence, not_not.mp hsequence]
      exact congrArg some (hsent.closed.trans (congrArg _ (List.append_nil _).symm))

/-! Conversions without a state. -/

theorem encode_chunk_eq {cd : Iconv Shift} (hcd : cd.Stateless) {piece output : Bytes}
    {shift : Shift} (hpiece : cd.convert cd.initial piece = some (output, shift)) :
    encode_chunk_if_needed (some (cd, cd.initial)) piece =
      if output.length > piece.length * 4 + 16 then none
      else some (output, some (cd, cd.initial)) := by
  obtain rfl := hcd.convert.state hpiece
  rw [encode_chunk_if_needed]
  dsimp only
  rw [zut_encode_with, zut_iconv, hpiece]
  dsimp only [bind, Option.bind]
  by_cases hlimit : output.length > piece.length * 4 + 16
  · rw [if_pos hlimit, if_pos hlimit]
    rfl
  · rw [if_neg hlimit, if_neg hlimit]
    rfl

theorem piece_converts_iff {cd : Iconv Shift} (hcd : cd.Stateless) (piece : Bytes) :
    PieceConverts cd piece ↔ ∃ output,
      encode_chunk_if_needed (some (cd, cd.initial)) piece = some (output, some (cd, cd.initial)) ∧
        cd.convert cd.initial piece = some (output, cd.initial) := by
  constructor
  · rintro ⟨output, shift, hpiece, hlimit⟩
    refine ⟨output, ?_, ?_⟩
    · rw [encode_chunk_eq hcd hpiece, if_neg (not_lt.mpr hlimit)]
    · rw [hpiece, hcd.convert.state hpiece]
  · rintro ⟨output, hencode, hpiece⟩
    refine ⟨output, cd.initial, hpiece, not_lt.mp fun hlimit => ?_⟩
    rw [encode_chunk_eq hcd hpiece, if_pos hlimit] at hencode
    cases hencode

theorem flush_stateless {cd : Iconv Shift} (hcd : cd.Stateless) (shift : Shift) (e_msg : Bool) :
    flush_encoding_state (some (cd, shift)) e_msg = if e_msg then none else some [] := by
  rw [flush_encoding_state, zut_iconv_flush, hcd.flush]
  cases e_msg with
  | false => rfl
  | true => rfl

/-- Pieces come to the conversion of the whole data, if each converts. -/
theorem encode_pieces_iff {cd : Iconv Shift} (hcd : cd.Stateless) (pieces : List Bytes)
    (output : Bytes) :
    encode_pieces e_msg (some (cd, cd.initial)) pieces = some output ↔
      e_msg = false ∧ (∀ piece ∈ pieces, PieceConverts cd piece) ∧
        cd.convert cd.initial pieces.flatten = some (output, cd.initial) := by
  induction pieces generalizing output with
  | nil =>
    rw [encode_pieces, flush_stateless hcd, List.flatten_nil, hcd.convert.nil]
    cases e_msg with
    | false => simp
    | true => simp
  | cons piece pieces ih =>
    rw [encode_pieces, List.forall_mem_cons, List.flatten_cons]
    constructor
    · intro h
      obtain ⟨⟨first, next⟩, hencode, h⟩ := Option.bind_eq_some_iff.mp h
      obtain ⟨rest, hrest, h⟩ := Option.bind_eq_some_iff.mp h
      obtain rfl := Option.some.inj h
      obtain ⟨shift, hpiece, rfl⟩ := encode_chunk_some hencode
      obtain rfl := hcd.convert.state hpiece
      obtain ⟨hmsg, hpieces, hall⟩ := (ih rest).mp hrest
      exact ⟨hmsg, ⟨(piece_converts_iff hcd piece).mpr ⟨first, hencode, hpiece⟩, hpieces⟩,
        hcd.convert.append hpiece hall⟩
    · rintro ⟨hmsg, ⟨hfirst, hpieces⟩, hall⟩
      obtain ⟨first, hencode, hpiece⟩ := (piece_converts_iff hcd piece).mp hfirst
      obtain ⟨rest, hrest, rfl⟩ := hcd.convert.cut hall hpiece
      rw [hencode]
      dsimp only [bind, Option.bind]
      rw [(ih rest).mpr ⟨hmsg, hpieces, hrest⟩]

/-! The two ways beside each other. -/

/-- What a streamed operation makes of the pieces. -/
def in_pieces (iconv_open : IconvOpen Shift) (e_msg : Bool) (pieces : List Bytes)
    (from_encoding to_encoding : Bytes) : Option Bytes := do
  let cd ← iconv_open to_encoding from_encoding
  encode_pieces e_msg (some (cd, cd.initial)) pieces

/-- What a buffered write makes of the data. -/
def at_once (iconv_open : IconvOpen Shift) (data from_encoding to_encoding : Bytes) :
    Option Bytes :=
  if data = [] then some [] else (zut_encode iconv_open data from_encoding to_encoding).output

variable {from_encoding to_encoding : Bytes}

theorem conversion_iff {cd : Iconv Shift} (hcd : cd.Stateless)
    (hopen : iconv_open to_encoding from_encoding = some cd) (data output : Bytes) :
    conversion iconv_open data from_encoding to_encoding = some output ↔
      cd.convert cd.initial data = some (output, cd.initial) := by
  rw [conversion, hopen]
  dsimp only [bind, Option.bind]
  rcases hconvert : cd.convert cd.initial data with _ | ⟨converted, shift⟩
  · exact iff_of_false (Option.some_ne_none _ ·.symm) (Option.some_ne_none _ ·.symm)
  · obtain rfl := hcd.convert.state hconvert
    dsimp only
    rw [hcd.flush]
    dsimp only
    rw [List.append_nil, Option.some_inj, Option.some_inj, Prod.mk.injEq]
    exact (and_iff_left rfl).symm

/-- Pieces that convert come to the conversion of the data, and others to nothing. -/
theorem in_pieces_iff (hstateless : ∀ cd, iconv_open to_encoding from_encoding = some cd →
      cd.Stateless) (pieces : List Bytes) (output : Bytes) :
    in_pieces iconv_open e_msg pieces from_encoding to_encoding = some output ↔
      PiecesConvert iconv_open e_msg pieces from_encoding to_encoding ∧
        conversion iconv_open pieces.flatten from_encoding to_encoding = some output := by
  rw [in_pieces, PiecesConvert]
  constructor
  · intro h
    obtain ⟨cd, hopen, h⟩ := Option.bind_eq_some_iff.mp h
    obtain ⟨hmsg, hpieces, hall⟩ := (encode_pieces_iff (hstateless cd hopen) pieces output).mp h
    exact ⟨⟨cd, hopen, hmsg, hpieces⟩, (conversion_iff (hstateless cd hopen) hopen _ _).mpr hall⟩
  · rintro ⟨⟨cd, hopen, hmsg, hpieces⟩, hall⟩
    refine Option.bind_eq_some_iff.mpr ⟨cd, hopen, ?_⟩
    exact (encode_pieces_iff (hstateless cd hopen) pieces output).mpr
      ⟨hmsg, hpieces, (conversion_iff (hstateless cd hopen) hopen _ _).mp hall⟩

theorem pieces_convert_whole (hstateless : ∀ cd, iconv_open to_encoding from_encoding = some cd →
      cd.Stateless) {pieces : List Bytes}
    (h : PiecesConvert iconv_open e_msg pieces from_encoding to_encoding) :
    ∃ output, conversion iconv_open pieces.flatten from_encoding to_encoding = some output := by
  obtain ⟨cd, hopen, -, hpieces⟩ := h
  have hcd := hstateless cd hopen
  suffices hall : ∃ output, cd.convert cd.initial pieces.flatten = some (output, cd.initial) by
    obtain ⟨output, hall⟩ := hall
    exact ⟨output, (conversion_iff hcd hopen _ _).mpr hall⟩
  induction pieces with
  | nil => exact ⟨[], hcd.convert.nil _⟩
  | cons piece pieces ih =>
    obtain ⟨⟨first, shift, hpiece, -⟩, hrest⟩ := List.forall_mem_cons.mp hpieces
    obtain rfl := hcd.convert.state hpiece
    obtain ⟨rest, hrest⟩ := ih hrest
    exact ⟨first ++ rest, hcd.convert.append hpiece hrest⟩

theorem zut_encode_iff {cd : Iconv Shift} (hcd : cd.Stateless)
    (hopen : iconv_open to_encoding from_encoding = some cd) (hnames : from_encoding ≠ to_encoding)
    (data output : Bytes) :
    (zut_encode iconv_open data from_encoding to_encoding).output = some output ↔
      conversion iconv_open data from_encoding to_encoding = some output ∧
        output.length ≤ data.length * 4 := by
  refine ⟨fun h => ?_, fun h => zut_encode_of_conversion hnames h.1 h.2⟩
  have hall := zut_encode_output hnames (Option.isSome_iff_exists.mpr ⟨cd, hopen⟩) h
  refine ⟨hall, not_lt.mp fun hlimit => ?_⟩
  rw [zut_encode, if_neg hnames, hopen] at h
  dsimp only at h
  rw [zut_iconv, (conversion_iff hcd hopen _ _).mp hall] at h
  dsimp only [bind, Option.bind] at h
  rw [if_pos hlimit] at h
  cases h

/-- The two agree just when the cut does no harm. -/
theorem in_pieces_eq_iff (hstateless : ∀ cd, iconv_open to_encoding from_encoding = some cd →
      cd.Stateless) (pieces : List Bytes) :
    in_pieces iconv_open e_msg pieces from_encoding to_encoding =
        at_once iconv_open pieces.flatten from_encoding to_encoding ↔
      CutHarmless iconv_open e_msg pieces from_encoding to_encoding := by
  have hpieces := @in_pieces_iff _ iconv_open e_msg from_encoding to_encoding hstateless pieces
  rw [CutHarmless, at_once]
  by_cases hsame : pieces.flatten = [] ∨ from_encoding = to_encoding
  · have hkept : (if pieces.flatten = [] then some []
        else (zut_encode iconv_open pieces.flatten from_encoding to_encoding).output) =
        some pieces.flatten := by
      by_cases hempty : pieces.flatten = []
      · rw [if_pos hempty, hempty]
      · rw [if_neg hempty, ← hsame.resolve_left hempty, zut_encode_same]
    rw [if_pos hsame, hkept]
    exact hpieces _
  rw [if_neg hsame]
  obtain ⟨hempty, hnames⟩ := not_or.mp hsame
  rw [if_neg hempty]
  rcases hopen : iconv_open to_encoding from_encoding with _ | cd
  · rw [zut_encode_not_opened hnames hopen, in_pieces, hopen]
    exact iff_of_false (Option.some_ne_none _ ·.symm) fun h => Bool.false_ne_true h.1
  rw [and_iff_right (show (some cd).isSome = true from rfl)]
  have hwhole := zut_encode_iff (hstateless cd hopen) hopen hnames pieces.flatten
  constructor
  · intro heq
    constructor
    · intro hconvert
      obtain ⟨output, hall⟩ := pieces_convert_whole hstateless hconvert
      exact ⟨output, (hwhole output).mp (heq ▸ (hpieces output).mpr ⟨hconvert, hall⟩)⟩
    · rintro ⟨output, hall⟩
      exact ((hpieces output).mp (heq ▸ (hwhole output).mpr hall)).1
  · intro h
    refine Option.ext fun output => ?_
    rw [hpieces, hwhole]
    refine ⟨fun ⟨hconvert, hall⟩ => ⟨hall, ?_⟩, fun ⟨hall, hlimit⟩ =>
      ⟨h.mpr ⟨output, hall, hlimit⟩, hall⟩⟩
    obtain ⟨output', hall', hlimit⟩ := h.mp hconvert
    rwa [Option.some.inj (hall.symm.trans hall')]

/-! The reads. -/

/-- A read that finds its data converted delivers what a write would store. -/
theorem delivered_eq {data : Bytes}
    (hopen : data ≠ [] → from_encoding ≠ to_encoding →
      (iconv_open to_encoding from_encoding).isSome = true)
    (hempty : data ≠ [] → conversion iconv_open data from_encoding to_encoding ≠ some []) :
    (delivered iconv_open data from_encoding to_encoding).toOption =
      at_once iconv_open data from_encoding to_encoding := by
  rw [delivered, at_once]
  by_cases hdata : data = []
  · rw [if_pos hdata, if_pos hdata, hdata]
    rfl
  rw [if_neg hdata, if_neg hdata]
  rcases htemp : (zut_encode iconv_open data from_encoding to_encoding).output with _ | temp
  · rfl
  dsimp only
  by_cases hkept : temp ≠ []
  · rw [if_pos hkept]
    rfl
  obtain rfl := not_not.mp hkept
  by_cases hnames : from_encoding = to_encoding
  · rw [hnames, zut_encode_same] at htemp
    exact absurd (Option.some.inj htemp) hdata
  · exact absurd (zut_encode_output hnames (hopen hdata hnames) htemp) (hempty hdata)

theorem in_pieces_delivered_iff (hstateless : ∀ cd,
      iconv_open to_encoding from_encoding = some cd → cd.Stateless) (pieces : List Bytes) :
    in_pieces iconv_open e_msg pieces from_encoding to_encoding =
        (delivered iconv_open pieces.flatten from_encoding to_encoding).toOption ↔
      CutHarmless iconv_open e_msg pieces from_encoding to_encoding ∧ (pieces.flatten ≠ [] →
        conversion iconv_open pieces.flatten from_encoding to_encoding ≠ some []) := by
  have hpieces := @in_pieces_iff _ iconv_open e_msg from_encoding to_encoding hstateless pieces
  constructor
  · intro heq
    have hempty : pieces.flatten ≠ [] →
        conversion iconv_open pieces.flatten from_encoding to_encoding ≠ some [] := by
      intro hdata hnothing
      have hkept : (delivered iconv_open pieces.flatten from_encoding to_encoding).toOption =
          some pieces.flatten := by
        rw [delivered, if_neg hdata]
        by_cases hnames : from_encoding = to_encoding
        · rw [hnames, zut_encode_same]
          dsimp only
          rw [if_pos hdata]
          rfl
        rcases hopen : iconv_open to_encoding from_encoding with _ | cd
        · rw [conversion_not_opened hopen] at hnothing
          cases hnothing
        · rw [(zut_encode_iff (hstateless cd hopen) hopen hnames _ []).mpr
            ⟨hnothing, Nat.zero_le _⟩]
          rfl
      have hall := ((hpieces pieces.flatten).mp (heq.trans hkept)).2
      exact hdata (Option.some.inj (hall.symm.trans hnothing))
    have hopen : pieces.flatten ≠ [] → from_encoding ≠ to_encoding →
        (iconv_open to_encoding from_encoding).isSome = true := by
      intro hdata hnames
      by_contra hclosed
      rw [Option.not_isSome_iff_eq_none] at hclosed
      rw [in_pieces, hclosed, delivered, if_neg hdata, zut_encode_not_opened hnames hclosed] at heq
      exact Option.some_ne_none _ heq.symm
    refine ⟨?_, hempty⟩
    rw [← in_pieces_eq_iff hstateless, heq, delivered_eq hopen hempty]
  · rintro ⟨hcut, hempty⟩
    rw [delivered_eq ?_ hempty]
    · exact (in_pieces_eq_iff hstateless pieces).mpr hcut
    · intro hdata hnames
      rw [CutHarmless, if_neg (not_or.mpr ⟨hdata, hnames⟩)] at hcut
      exact hcut.1

theorem encode_injective : Function.Injective zbase64.encode := by
  intro a b h
  have hdecode := zbase64.decode_encode a
  rw [h, zbase64.decode_encode] at hdecode
  exact (Except.ok.inj hdecode).symm

theorem same_read_iff (hstateless : ∀ to_code from_code cd,
      iconv_open to_code from_code = some cd → cd.Stateless) (hsv : sv.Work)
    (lib : Library Contents) (attrs : DscbAttributes) (zds : ZDS) (contents : Contents)
    {pieces : List Bytes}
    (hcut : pieces.flatten = read_bytes cs lib attrs zds.encoding_opts contents) :
    SameRead cs iconv_open lib sv attrs zds contents pieces ↔
      ReadsAlike cs iconv_open sv zds pieces := by
  rw [SameRead, ReadsAlike]
  rcases hopened : sv.fopen_read with _ | _
  · rw [read_streamed_pieces, hopened, zds_read]
    exact iff_of_true rfl fun h => by cases h
  rcases huse : zds_use_codepage zds.encoding_opts with _ | _
  · have hguard : read_guard cs iconv_open zds.encoding_opts = none := by
      rw [read_guard, huse]
      rfl
    have hunused : zds_use_codepage zds.encoding_opts = true →
        (read_guard cs iconv_open zds.encoding_opts).isSome = true := by
      rw [huse]
      exact fun h => absurd h Bool.false_ne_true
    rw [pipe_eq hsv zds pieces hopened hunused, hguard, Conversion.start, Option.map_none,
      encode_pieces_none, hcut, zds_read, huse]
    refine iff_of_true ?_ fun _ h => absurd h Bool.false_ne_true
    rw [if_neg (by decide), if_neg (fun h => Bool.false_ne_true h.2)]
    rfl
  have hguard : read_guard cs iconv_open zds.encoding_opts =
      iconv_open (source_encoding cs zds.encoding_opts) zds.encoding_opts.codepage := by
    rw [read_guard, huse]
    rfl
  have hpipe : (read_streamed_pieces cs iconv_open sv zds pieces).toOption.map StreamedRead.pipe =
      (in_pieces iconv_open zds.e_msg pieces zds.encoding_opts.codepage
        (source_encoding cs zds.encoding_opts)).map zbase64.encode := by
    rcases hopen : iconv_open (source_encoding cs zds.encoding_opts) zds.encoding_opts.codepage
      with _ | cd
    · rw [read_streamed_pieces, hguard, hopen, hopened, hsv.open_pipe, hsv.fdopen, huse, in_pieces,
        hopen]
      rfl
    · have hsome : (read_guard cs iconv_open zds.encoding_opts).isSome = true := by
        rw [hguard, hopen]
        rfl
      rw [pipe_eq hsv zds pieces hopened fun _ => hsome, hguard, hopen, in_pieces, hopen]
      rfl
  rw [hpipe, zds_read_eq _ _ _ huse, if_neg (by decide), ← hcut]
  rw [(Option.map_injective encode_injective).eq_iff,
    in_pieces_delivered_iff fun cd => hstateless _ _ cd]
  exact ⟨fun h _ _ => h, fun h => h rfl rfl⟩

/-! The writes. -/

/-- What a streamed write stores. -/
theorem streamed_written (hsv : sv.Work) (hopened : sv.fopen_write = true) (attrs : DscbAttributes)
    (zds : ZDS) {chunks pieces : List Bytes} {left_over : Option Bytes}
    (hvalid : iconv_valid cs iconv_open zds.encoding_opts = true)
    (hrun : zbase64.decode_run chunks (some []) = (.ok pieces, left_over)) :
    (zds_write_sequential_streamed cs iconv_open sv attrs zds chunks).written =
      encode_pieces (start_msg cs iconv_open zds)
        (start_conversion cs iconv_open zds.encoding_opts) pieces := by
  rcases hpieces : encode_pieces (start_msg cs iconv_open zds)
      (start_conversion cs iconv_open zds.encoding_opts) pieces with _ | output
  · rw [FileRun.written]
    rcases hresult : (zds_write_sequential_streamed cs iconv_open sv attrs zds chunks).result
      with e | t
    · rfl
    · obtain ⟨-, pieces', left, output, hrun', hpieces', -⟩ := streamed_ok hresult
      rw [hrun, Prod.mk.injEq, Except.ok.injEq] at hrun'
      rw [← hrun'.1, hpieces] at hpieces'
      cases hpieces'
  · obtain ⟨t, hwrite⟩ := streamed_works hsv hopened attrs hvalid hrun hpieces
    rw [hwrite]
    rfl

/-- What a buffered write stores. -/
theorem sequential_written (hsv : sv.Work) (hopened : sv.fopen_write = true)
    (attrs : DscbAttributes) (opts : ZEncode) (data : Bytes) :
    (zds_write_sequential cs iconv_open sv attrs opts data).written =
      if zds_use_codepage opts then
        at_once iconv_open data (source_encoding cs opts) opts.codepage
      else some data := by
  have hstored (temp : Bytes) (truncation : TruncationTracker) :
      FileRun.written
        (if sv.fwrite [] temp ≠ temp.length then
          ⟨some (temp.take (sv.fwrite [] temp)), .error .not_written⟩
        else ⟨some temp, .ok truncation⟩) = some temp := by
    rw [if_neg (not_not.mpr (hsv.fwrite [] temp))]
    rfl
  rw [zds_write_sequential]
  dsimp only
  rw [hopened, if_neg (by decide)]
  by_cases hdata : data = []
  · rw [if_pos hdata, hdata, at_once, if_pos rfl, ite_self]
    rfl
  rw [if_neg hdata]
  rcases huse : zds_use_codepage opts with _ | _
  · rw [show (setup_encoding cs iconv_open opts).1.has_encoding = false from huse]
    exact hstored _ _
  rw [show (setup_encoding cs iconv_open opts).1.has_encoding = true from huse, if_pos rfl,
    if_pos rfl, at_once, if_neg hdata]
  dsimp only [setup_encoding]
  rcases (zut_encode iconv_open data (source_encoding cs opts) opts.codepage).output with _ | temp
  · rfl
  · exact hstored temp _

theorem iconv_valid_eq (opts : ZEncode) :
    iconv_valid cs iconv_open opts = (!zds_use_codepage opts ||
      ((setup_encoding cs iconv_open opts).1.iconv_guard iconv_open).isSome) :=
  rfl

theorem same_write_iff (hstateless : ∀ to_code from_code cd,
      iconv_open to_code from_code = some cd → cd.Stateless) (hsv : sv.Work)
    (attrs : DscbAttributes) (zds : ZDS) {data : Bytes} {chunks : List Bytes}
    (hcut : chunks.flatten = zbase64.encode data) :
    SameWrite cs iconv_open sv attrs zds data chunks ↔
      WritesAlike cs iconv_open sv zds chunks := by
  obtain ⟨pieces, hrun, rfl⟩ := zbase64.decode_run_flatten (hcut ▸ zbase64.decode_encode data)
  have hpieces (P : List Bytes → Prop) :
      (∀ pieces' left_over, zbase64.decode_run chunks (some []) = (.ok pieces', left_over) →
        P pieces') ↔ P pieces := by
    constructor
    · exact fun h => h pieces _ hrun
    · intro h pieces' left_over heq
      rw [hrun, Prod.mk.injEq, Except.ok.injEq] at heq
      rwa [← heq.1]
  rw [SameWrite, WritesAlike]
  dsimp only
  rw [hpieces]
  rcases hopened : sv.fopen_write with _ | _
  · rw [zds_write_sequential_streamed, hopened, zds_write_sequential, hopened]
    exact iff_of_true rfl fun h => absurd h Bool.false_ne_true
  rw [sequential_written hsv hopened]
  rcases huse : zds_use_codepage zds.encoding_opts with _ | _
  · have hvalid : iconv_valid cs iconv_open zds.encoding_opts = true := by
      rw [iconv_valid_eq, huse]
      rfl
    rw [streamed_written hsv hopened attrs zds hvalid hrun, start_conversion, guard_eq, huse]
    exact iff_of_true (encode_pieces_none pieces) fun _ h => absurd h Bool.false_ne_true
  have hwritten : (zds_write_sequential_streamed cs iconv_open sv attrs zds chunks).written =
      in_pieces iconv_open (start_msg cs iconv_open zds) pieces
        (source_encoding cs zds.encoding_opts) zds.encoding_opts.codepage := by
    have hguard : (setup_encoding cs iconv_open zds.encoding_opts).1.iconv_guard iconv_open =
        iconv_open zds.encoding_opts.codepage (source_encoding cs zds.encoding_opts) := by
      rw [guard_eq, huse]
      rfl
    have hvalid := @iconv_valid_eq _ cs iconv_open zds.encoding_opts
    rw [huse, hguard] at hvalid
    rcases hopen : iconv_open zds.encoding_opts.codepage (source_encoding cs zds.encoding_opts)
      with _ | cd
    · rw [hopen] at hvalid
      have hclosed : validate_iconv_setup (setup_encoding cs iconv_open zds.encoding_opts).1
          ((setup_encoding cs iconv_open zds.encoding_opts).1.iconv_guard iconv_open) = false :=
        hvalid
      rw [zds_write_sequential_streamed]
      dsimp only
      rw [hopened, hsv.open_pipe, hsv.fdopen, hclosed, in_pieces, hopen]
      rfl
    · rw [hopen] at hvalid
      rw [streamed_written hsv hopened attrs zds hvalid hrun, start_conversion, hguard, in_pieces,
        hopen]
      rfl
  rw [hwritten, if_pos rfl, in_pieces_eq_iff fun cd => hstateless _ _ cd]
  exact ⟨fun h _ _ => h, fun h => h rfl rfl⟩

/-- A streamed operation does what the buffered one does, just when its cuts do no harm: a cut of a
read into the pieces that `fread` gives, and one of the base64 text of a write into the chunks of a
pipe. -/
theorem chunk_invariant_iff (hstateless : ∀ to_code from_code cd,
      iconv_open to_code from_code = some cd → cd.Stateless) (hsv : sv.Work)
    (lib : Library Contents) (attrs : DscbAttributes) (zds : ZDS) :
    (∀ contents,
      (∀ pieces : List Bytes,
        pieces.flatten = read_bytes cs lib attrs zds.encoding_opts contents →
        (SameRead cs iconv_open lib sv attrs zds contents pieces ↔
          ReadsAlike cs iconv_open sv zds pieces)) ∧
      (read_pieces cs lib attrs zds.encoding_opts contents).flatten =
        read_bytes cs lib attrs zds.encoding_opts contents ∧
      zds_read_streamed cs iconv_open lib sv attrs zds contents =
        read_streamed_pieces cs iconv_open sv zds
          (read_pieces cs lib attrs zds.encoding_opts contents)) ∧
    ∀ (data : Bytes) (chunks : List Bytes), chunks.flatten = zbase64.encode data →
      (SameWrite cs iconv_open sv attrs zds data chunks ↔
        WritesAlike cs iconv_open sv zds chunks) := by
  refine ⟨fun contents => ⟨fun pieces hcut => ?_, ?_, ?_⟩, fun data chunks hcut => ?_⟩
  · exact same_read_iff hstateless hsv lib attrs zds contents hcut
  · exact read_pieces_flatten lib attrs zds.encoding_opts contents
  · exact read_streamed_eq lib attrs zds contents
  · exact same_write_iff hstateless hsv attrs zds hcut

/-! A converter of characters of two bytes. -/

def latin1_of_utf8 : Bytes → Option Bytes
  | [] => some []
  | b :: rest =>
    if b < 0x80 then (latin1_of_utf8 rest).map (b :: ·)
    else
      match rest with
      | [] => none
      | c :: rest =>
        if b &&& 0xFE = 0xC2 ∧ c &&& 0xC0 = 0x80 then
          (latin1_of_utf8 rest).map ((b <<< 6 ||| c &&& 0x3F) :: ·)
        else none

def utf8_to_latin1 : IconvOpen Unit := fun _ _ => some
  { initial := ()
    convert := fun _ bytes => (latin1_of_utf8 bytes).map fun output => (output, ())
    flush := fun _ => some [] }

theorem latin1_single {c : UInt8} (h : c < 0x80) (rest : Bytes) :
    latin1_of_utf8 (c :: rest) = (latin1_of_utf8 rest).map (c :: ·) := by
  cases rest with
  | nil => exact if_pos h
  | cons d rest => rw [latin1_of_utf8, if_pos h]

theorem latin1_append {a b x : Bytes} (h : latin1_of_utf8 a = some x) :
    latin1_of_utf8 (a ++ b) = (latin1_of_utf8 b).map (x ++ ·) := by
  induction a using latin1_of_utf8.induct generalizing x with
  | case1 =>
    obtain rfl := Option.some.inj h
    exact Option.map_id'.symm
  | case2 c rest hsingle ih =>
    rw [latin1_single hsingle] at h
    obtain ⟨y, hrest, rfl⟩ := Option.map_eq_some_iff.mp h
    rw [List.cons_append, latin1_single hsingle, ih hrest, Option.map_map]
    rfl
  | case3 c hdouble =>
    rw [latin1_of_utf8, if_neg hdouble] at h
    cases h
  | case4 c hdouble d rest hcontinues ih =>
    rw [latin1_of_utf8, if_neg hdouble, if_pos hcontinues] at h
    obtain ⟨y, hrest, rfl⟩ := Option.map_eq_some_iff.mp h
    rw [List.cons_append, List.cons_append, latin1_of_utf8, if_neg hdouble, if_pos hcontinues,
      ih hrest, Option.map_map]
    rfl
  | case5 c hdouble d rest hcut =>
    rw [latin1_of_utf8, if_neg hdouble, if_neg hcut] at h
    cases h

theorem utf8_to_latin1_stateless (to_code from_code : Bytes) (cd : Iconv Unit)
    (hopen : utf8_to_latin1 to_code from_code = some cd) : cd.Stateless := by
  obtain rfl := Option.some.inj hopen
  have hconvert {bytes output : Bytes} {shift : Unit}
      (h : (latin1_of_utf8 bytes).map (fun output => (output, ())) = some (output, shift)) :
      latin1_of_utf8 bytes = some output := by
    obtain ⟨found, hfound, heq⟩ := Option.map_eq_some_iff.mp h
    rw [hfound, (Prod.mk.inj heq).1]
  refine ⟨⟨⟨fun _ => rfl, fun ha hb => ?_⟩, fun _ => rfl, fun hall ha => ?_⟩, fun _ => rfl⟩
  · dsimp only
    rw [latin1_append (hconvert ha), hconvert hb]
    rfl
  · have hall := hconvert hall
    rw [latin1_append (hconvert ha)] at hall
    obtain ⟨y, hb, rfl⟩ := Option.map_eq_some_iff.mp hall
    refine ⟨y, ?_, rfl⟩
    dsimp only
    rw [hb]
    rfl

def to_latin1 : ZDS := { encoding_opts := { codepage := ibm1047.str "ISO8859-1" } }

/-- The base64 text of `"aaé"` in UTF-8. -/
def two_bytes_last : Bytes := zbase64.encode [0x61, 0x61, 0xC3, 0xA9]

theorem whole_characters_same : SameWrite ibm1047 utf8_to_latin1 all_work {} to_latin1
    [0x61, 0x61, 0xC3, 0xA9] [two_bytes_last] := by
  refine ((chunk_invariant_iff utf8_to_latin1_stateless all_work_works plain {} to_latin1).2 _ _
    (by decide +kernel)).mpr fun _ _ pieces left_over hrun => ?_
  have hpieces : zbase64.decode_run [two_bytes_last] (some []) =
      (.ok [[0x61, 0x61, 0xC3, 0xA9]], some []) := by
    decide +kernel
  rw [hpieces, Prod.mk.injEq, Except.ok.injEq] at hrun
  rw [← hrun.1, CutHarmless, if_neg (by decide +kernel)]
  refine ⟨rfl, iff_of_true ⟨_, rfl, by decide +kernel, ?_⟩
    ⟨[0x61, 0x61, 0xE9], by decide +kernel, by decide⟩⟩
  rintro piece hpiece
  rw [List.mem_singleton.mp hpiece]
  exact ⟨[0x61, 0x61, 0xE9], (), by decide +kernel, by decide⟩

/-- A character whose two bytes are in two pieces is not converted. -/
theorem character_cut : ¬ SameWrite ibm1047 utf8_to_latin1 all_work {} to_latin1
    [0x61, 0x61, 0xC3, 0xA9] [two_bytes_last.take 4, two_bytes_last.drop 4] := by
  unfold SameWrite
  decide +kernel

end Zowex

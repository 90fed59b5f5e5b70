import Zowex.Lib.Traversals
import Zowex.Spec.SubmitJcl

/-! Which texts are submitted as a whole. The lines are cut after the conversion, at the line end of
the system, and a line is cut off at its 80th byte. -/

namespace Zowex.job

open ds zds zjb

variable {Shift : Type} {cs : Charset} {pages : Pages} {jcl : Jcl cs pages}
  {iconv_open : IconvOpen Shift} {bytes : Bytes} {jes : Jes}

/-! The submission. -/

theorem submit_given (h : (zjb_submit jes bytes).rc = RTNCD_SUCCESS) :
    (zjb_submit jes bytes).given = some bytes := by
  rw [zjb_submit] at h ⊢
  by_cases hinit : jes.dyninit ≠ 0
  · rw [if_pos hinit] at h
    exact absurd h (by decide)
  · rw [if_neg hinit] at h ⊢
    by_cases halloc : jes.dynalloc ≠ 0
    · rw [if_pos halloc] at h
      exact absurd h (by decide)
    · rw [if_neg halloc]
      dsimp only
      split_ifs <;> rfl

/-- All services succeed. -/
def serving : Jes where
  dyninit := 0
  dynalloc := 0
  zds_write _ := 0
  SYS_LASTJOBID _ := (0, [0xd1])
  SYS_CORR_LASTJOB := 0
  dynfree := 0

theorem serving_submits (bytes : Bytes) : (zjb_submit serving bytes).rc = RTNCD_SUCCESS := rfl

/-- The records that are submitted. -/
def records (cs : Charset) (bytes : Bytes) : List Bytes :=
  ((CardImages.pieces (cs.code '\n') bytes).map strip_cr).map
    (CardImages.record 80 (cs.code ' '))

theorem submit_common_eq (jes : Jes) (bytes : Bytes) :
    job_submit_common cs jes bytes = zjb_submit jes (records cs bytes).flatten := by
  rw [job_submit_common, records, List.map_map]
  rfl

theorem records_eq_iff {coded : List Bytes} (hfits : ∀ line ∈ coded, line.length ≤ 80) :
    (records cs bytes).flatten = (coded.map (CardImages.record 80 (cs.code ' '))).flatten ↔
      List.Forall₂ (CardImages.Shows 80 (cs.code ' '))
        ((CardImages.pieces (cs.code '\n') bytes).map strip_cr) coded := by
  rw [← CardImages.map_record_iff hfits]
  constructor
  · refine CardImages.flatten_inj (n := 80) (by decide) ?_ ?_
    · exact List.forall_mem_map.mpr fun _ _ => CardImages.length_record _
    · exact List.forall_mem_map.mpr fun _ _ => CardImages.length_record _
  · exact congrArg List.flatten

/-- For what is passed on to be submitted. -/
theorem complete_of_data (hdata : converted_data cs iconv_open jcl.args = some bytes) :
    Complete jcl iconv_open ↔ KeepsLines jcl bytes := by
  have hhandle : ∀ jes, handle_job_submit_jcl cs iconv_open jcl.args jes =
      some (zjb_submit jes (records cs bytes).flatten) := by
    intro jes
    rw [handle_job_submit_jcl, hdata, Option.map_some, submit_common_eq]
  constructor
  · intro h
    obtain ⟨coded, hcoded, hfits, hgiven⟩ := h serving _ (hhandle serving) (serving_submits _)
    rw [submit_given (serving_submits _)] at hgiven
    exact ⟨coded, hcoded, hfits, (records_eq_iff hfits).mp (Option.some.inj hgiven)⟩
  · rintro ⟨coded, hcoded, hfits, hshows⟩
    intro jes submitted hsubmit hrc
    rw [hhandle jes] at hsubmit
    obtain rfl := Option.some.inj hsubmit
    refine ⟨coded, hcoded, hfits, ?_⟩
    rw [submit_given hrc, (records_eq_iff hfits).mpr hshows]

theorem KeepsLines.length_eq (h : KeepsLines jcl bytes) :
    (CardImages.pieces (cs.code '\n') bytes).length = (lines jcl.text).length := by
  obtain ⟨coded, hcoded, -, hshows⟩ := h
  have hlength := hshows.length_eq
  rw [List.length_map] at hlength
  rw [hlength, Traversals.length_eq hcoded]

/-- Two lines without the line end of the system are one record. -/
theorem not_keeps_lines (hlines : 2 ≤ (lines jcl.text).length) (hbytes : cs.code '\n' ∉ bytes) :
    ¬ KeepsLines jcl bytes := by
  intro h
  have hlength := h.length_eq
  by_cases hnil : bytes = []
  · rw [hnil, CardImages.pieces_nil] at hlength
    simp at hlength
    omega
  · rw [CardImages.pieces_last hbytes hnil] at hlength
    simp at hlength
    omega

/-! Code pages with a code for each character. -/

section

variable {code : Char → Option Bytes}

/-- The bytes of a text, character by character. -/
def coded_text (code : Char → Option Bytes) (text : List Char) : Option Bytes :=
  (text.mapM code).map List.flatten

/-- The line end of the system and the carriage return are what they are there, and nothing else
looks like them. -/
structure EndsLines (cs : Charset) (code : Char → Option Bytes) : Prop where
  newline : code '\n' = some [cs.code '\n']
  carriage_return : code '\r' = some [CR_CHAR]
  no_newline : ∀ c bytes, c ≠ '\n' → code c = some bytes → cs.code '\n' ∉ bytes
  no_return : ∀ c bytes, c ≠ '\r' → code c = some bytes → bytes ≠ [] ∧ bytes.getLast? ≠ some CR_CHAR

theorem coded_append {text text' : List Char} (h : coded_text code (text ++ text') = some bytes) :
    ∃ front back, coded_text code text = some front ∧ coded_text code text' = some back ∧
      bytes = front ++ back := by
  obtain ⟨codes, hcodes, rfl⟩ := Option.map_eq_some_iff.mp h
  rw [List.mapM_append] at hcodes
  obtain ⟨front, hfront, hrest⟩ := Option.bind_eq_some_iff.mp hcodes
  obtain ⟨back, hback, hsame⟩ := Option.bind_eq_some_iff.mp hrest
  obtain rfl := Option.some.inj hsame
  refine ⟨front.flatten, back.flatten, ?_, ?_, List.flatten_append⟩
  · rw [coded_text, hfront, Option.map_some]
  · rw [coded_text, hback, Option.map_some]

theorem coded_singleton {c : Char} (h : coded_text code [c] = some bytes) : code c = some bytes := by
  obtain ⟨codes, hcodes, rfl⟩ := Option.map_eq_some_iff.mp h
  rw [List.mapM_cons] at hcodes
  obtain ⟨first, hfirst, hrest⟩ := Option.bind_eq_some_iff.mp hcodes
  obtain rfl : codes = [first] := by
    obtain ⟨rest, hnil, hsame⟩ := Option.bind_eq_some_iff.mp hrest
    cases hnil
    exact (Option.some.inj hsame).symm
  rw [hfirst]
  simp

/-- The line end does not come up in a line. -/
theorem EndsLines.line (h : EndsLines cs code) {line : List Char} (hline : '\n' ∉ line)
    (hcoded : coded_text code line = some bytes) : cs.code '\n' ∉ bytes := by
  induction line generalizing bytes with
  | nil =>
    obtain rfl : bytes = [] := (Option.some.inj hcoded).symm
    exact List.not_mem_nil
  | cons c line ih =>
    rw [List.mem_cons, not_or] at hline
    obtain ⟨front, back, hfront, hback, rfl⟩ := @coded_append _ _ [c] _ hcoded
    rw [List.mem_append, not_or]
    exact ⟨h.no_newline c front (Ne.symm hline.1) (coded_singleton hfront), ih hline.2 hback⟩

/-- A carriage return is taken off the line where it is taken off its bytes. -/
theorem EndsLines.without_return (h : EndsLines cs code) {line : List Char}
    (hcoded : coded_text code line = some bytes) :
    coded_text code (CardImages.without '\r' line) = some (strip_cr bytes) := by
  induction line using List.reverseRecOn with
  | nil =>
    obtain rfl : bytes = [] := (Option.some.inj hcoded).symm
    rfl
  | append_singleton line c _ =>
    obtain ⟨front, back, hfront, hback, rfl⟩ := coded_append hcoded
    by_cases hc : c = '\r'
    · subst hc
      obtain rfl : back = [CR_CHAR] :=
        Option.some.inj ((coded_singleton hback).symm.trans h.carriage_return)
      rw [CardImages.without_concat, hfront]
      simp [strip_cr]
    · obtain ⟨hne, hlast⟩ := h.no_return c back hc (coded_singleton hback)
      rw [CardImages.without_of_ne (by simpa using hc), hcoded, strip_cr, if_neg]
      rw [List.getLast?_append_of_ne_nil _ hne]
      exact hlast

theorem EndsLines.code_ne (h : EndsLines cs code) {c : Char} (hcode : code c = some bytes) :
    bytes ≠ [] := by
  by_cases hc : c = '\r'
  · rw [hc, h.carriage_return] at hcode
    rw [← Option.some.inj hcode]
    exact List.cons_ne_nil _ _
  · exact (h.no_return c bytes hc hcode).1

theorem EndsLines.coded_ne (h : EndsLines cs code) {text : List Char} (hne : text ≠ [])
    (hcoded : coded_text code text = some bytes) : bytes ≠ [] := by
  obtain ⟨c, rest, rfl⟩ := List.exists_cons_of_ne_nil hne
  obtain ⟨front, back, hfront, -, rfl⟩ := @coded_append _ _ [c] _ hcoded
  exact List.append_ne_nil_of_left_ne_nil (h.code_ne (coded_singleton hfront)) _

/-- Cut at the line ends of the system, the bytes are the lines. -/
theorem EndsLines.lines (h : EndsLines cs code) {text : List Char}
    (hcoded : coded_text code text = some bytes) :
    (job.lines text).mapM (coded_text code) =
      some ((CardImages.pieces (cs.code '\n') bytes).map strip_cr) := by
  induction hlength : text.length using Nat.strong_induction_on generalizing text bytes with
  | _ length ih =>
    rcases CardImages.text_cases '\n' text with hline | ⟨line, rest, rfl, hline⟩
    · by_cases hnil : text = []
      · subst hnil
        obtain rfl : bytes = [] := (Option.some.inj hcoded).symm
        rw [job.lines, CardImages.pieces_nil, CardImages.pieces_nil]
        rfl
      · rw [job.lines, CardImages.pieces_last hline hnil,
          CardImages.pieces_last (h.line hline hcoded) (h.coded_ne hnil hcoded), List.map_singleton,
          List.map_singleton, List.mapM_cons, h.without_return hcoded]
        rfl
    · obtain ⟨front, more, hfront, hmore, rfl⟩ := coded_append hcoded
      obtain ⟨mark, back, hmark, hback, rfl⟩ := @coded_append _ _ ['\n'] _ hmore
      obtain rfl : mark = [cs.code '\n'] :=
        Option.some.inj ((coded_singleton hmark).symm.trans h.newline)
      have hrest := ih rest.length (by rw [← hlength]; simp; omega) hback rfl
      rw [List.singleton_append, CardImages.pieces_cons (h.line hline hfront), List.map_cons,
        job.lines, CardImages.pieces_cons hline, List.map_cons, List.mapM_cons,
        h.without_return hfront]
      rw [job.lines] at hrest
      rw [hrest]
      rfl

/-- Where the line ends are those of the system and the conversion gives the text, it is submitted
as a whole just where each line fits. -/
theorem complete_iff_fits (hends : EndsLines cs code)
    (hcode : pages (asked cs jcl.encoding jcl.local_encoding).2 = coded_text code)
    (hcoded : coded_text code jcl.text = some bytes)
    (hdata : converted_data cs iconv_open jcl.args = some bytes) :
    Complete jcl iconv_open ↔
      ∀ line ∈ (CardImages.pieces (cs.code '\n') bytes).map strip_cr, line.length ≤ 80 := by
  have hlines : jcl.coded_lines =
      some ((CardImages.pieces (cs.code '\n') bytes).map strip_cr) := by
    rw [Jcl.coded_lines, hcode, hends.lines hcoded]
  rw [complete_of_data hdata, KeepsLines]
  constructor
  · rintro ⟨coded, hsome, hfits, -⟩
    rw [hlines] at hsome
    rw [Option.some.inj hsome]
    exact hfits
  · intro hfits
    refine ⟨_, hlines, hfits, ?_⟩
    exact List.forall₂_same.mpr fun line hline => .refl (hfits line hline)

end

/-! A line that is too long. -/

end Zowex.job

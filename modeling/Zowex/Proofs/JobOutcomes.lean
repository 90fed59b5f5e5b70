import Zowex.Proofs.DscbDates
import Zowex.Spec.JobOutcomes

/-! How much the text of a job's end tells. A text has the code of a system abend or of a normal
end, and three ends have texts of their own where the indicator has no other bit. -/

namespace Zowex.zjo

open zjb

variable {cs : Charset} {c c' : Completion} {o o' : Outcome}

/-! The codes in the completion word. -/

def hex_digit (n : BitVec 4) : Char := "0123456789ABCDEF".toList.getD n.toNat ' '

theorem hex_digit_inj : ∀ n m : BitVec 4, hex_digit n = hex_digit m → n = m := by
  decide +kernel

theorem hex_digit_printable : ∀ n : BitVec 4, hex_digit n ∈ printable := by
  decide +kernel

theorem zut_get_hex_char_eq :
    ∀ num : BitVec 8, zut_get_hex_char num = hex_digit (num.extractLsb' 0 4) := by
  decide +kernel

theorem getElem_full (i : ℕ) (h : i < 32) : c.full[i] =
    if h : i < 24 then c.sttrmxcc[i] else c.sttrxind[i - 24] := by
  simp only [Completion.full]
  exact BitVec.getElem_append h

theorem nibble_first :
    (parts (c.full &&& 0x00FFF000) 1 >>> 4).extractLsb' 0 4 = c.system_code.extractLsb' 8 4 := by
  ext i hi
  interval_cases i <;> simp [parts, Completion.system_code, getElem_full]

theorem nibble_second :
    (parts (c.full &&& 0x00FFF000) 1 &&& 0x0F).extractLsb' 0 4 = c.system_code.extractLsb' 4 4 := by
  ext i hi
  interval_cases i <;> simp [parts, Completion.system_code, getElem_full]

theorem nibble_third :
    (parts (c.full &&& 0x00FFF000) 2 >>> 4).extractLsb' 0 4 = c.system_code.extractLsb' 0 4 := by
  ext i hi
  interval_cases i <;> simp [parts, Completion.system_code, getElem_full]

theorem eq_of_nibbles {x y : BitVec 12} (h8 : x.extractLsb' 8 4 = y.extractLsb' 8 4)
    (h4 : x.extractLsb' 4 4 = y.extractLsb' 4 4) (h0 : x.extractLsb' 0 4 = y.extractLsb' 0 4) :
    x = y := by
  have h8 := congrArg BitVec.toNat h8
  have h4 := congrArg BitVec.toNat h4
  have h0 := congrArg BitVec.toNat h0
  simp only [BitVec.extractLsb'_toNat, Nat.shiftRight_eq_div_pow] at h8 h4 h0
  apply BitVec.eq_of_toNat_eq
  have := x.isLt
  have := y.isLt
  omega

theorem full_low : (c.full &&& 0x00000FFF).toNat = c.user_code.toNat := by
  have h : c.full &&& 0x00000FFF = c.user_code.setWidth 32 := by
    ext i hi
    interval_cases i <;> simp [Completion.user_code, getElem_full]
  rw [h, BitVec.toNat_setWidth]
  have := c.user_code.isLt
  omega

/-! Texts. -/

inductive Special
  | jcl
  | canceled
  | security
  deriving DecidableEq

namespace Special

def value : Special → BitVec 8
  | jcl => sttrxjcl
  | canceled => sttrxcan
  | security => sttrxsec

def outcome : Special → Outcome
  | jcl => .jcl_error
  | canceled => .canceled
  | security => .security_error

def chars : Special → List Char
  | jcl => "JCL ERROR".toList
  | canceled => "CANCELED".toList
  | security => "SEC ERROR".toList

theorem outcome_inj {s s' : Special} (h : s.outcome = s'.outcome) : s = s' := by
  cases s <;> cases s' <;> first | rfl | cases h

theorem outcome_ne_ended (s : Special) (code : BitVec 12) : s.outcome ≠ .ended code := by
  cases s <;> exact Outcome.noConfusion

theorem special_text_value (s : Special) : special_text s.value = some s.chars := by
  cases s <;> rfl

theorem exists_of_special_text {sttrxind : BitVec 8} {text : List Char}
    (h : special_text sttrxind = some text) : ∃ s : Special, sttrxind = s.value := by
  rw [special_text] at h
  split_ifs at h with hjcl hcan hsec
  · exact ⟨jcl, hjcl⟩
  · exact ⟨canceled, hcan⟩
  · exact ⟨security, hsec⟩

end Special

/-- What a text says. -/
inductive Text
  | abend (code : BitVec 12)
  | condition (code : BitVec 12)
  | special (special : Special)

namespace Text

def chars : Text → List Char
  | abend code => "ABEND ".toList ++ [hex_digit (code.extractLsb' 8 4),
      hex_digit (code.extractLsb' 4 4), hex_digit (code.extractLsb' 0 4)]
  | condition code => "CC ".toList ++ dscb.padded_digits 4 code.toNat
  | special s => s.chars

theorem chars_abend (code : BitVec 12) :
    (abend code).chars = "ABEND ".toList ++ [hex_digit (code.extractLsb' 8 4),
      hex_digit (code.extractLsb' 4 4), hex_digit (code.extractLsb' 0 4)] := rfl

theorem chars_condition (code : BitVec 12) :
    (condition code).chars = "CC ".toList ++ dscb.padded_digits 4 code.toNat := rfl

/-- The texts begin differently. -/
def start : Text → List Char
  | abend _ => ['A', 'B']
  | condition _ => ['C', 'C']
  | special .jcl => ['J', 'C']
  | special .canceled => ['C', 'A']
  | special .security => ['S', 'E']

theorem take_chars (t : Text) : t.chars.take 2 = t.start := by
  rcases t with _ | _ | s
  · rfl
  · rfl
  · cases s <;> rfl

theorem fits_code (code : BitVec 12) : dscb.Fits 4 code.toNat :=
  dscb.fits_of_lt (by decide) (by have := code.isLt; omega)

theorem chars_inj {t t' : Text} (h : t.chars = t'.chars) : t = t' := by
  have hstart : t.start = t'.start := by rw [← take_chars, ← take_chars, h]
  rcases t with code | code | s <;> rcases t' with code' | code' | s'
  case abend.abend =>
    obtain ⟨hfirst, hsecond, hthird⟩ : _ ∧ _ ∧ _ := by simpa using List.append_cancel_left h
    rw [eq_of_nibbles (hex_digit_inj _ _ hfirst) (hex_digit_inj _ _ hsecond)
      (hex_digit_inj _ _ hthird)]
  case condition.condition =>
    have hdigits := congrArg dscb.digits_value (List.append_cancel_left h)
    rw [(fits_code code).value, (fits_code code').value] at hdigits
    rw [BitVec.eq_of_toNat_eq hdigits]
  case special.special => cases s <;> cases s' <;> first | rfl | cases hstart
  case special.abend => cases s <;> cases hstart
  case special.condition => cases s <;> cases hstart
  case abend.special => cases s' <;> cases hstart
  case condition.special => cases s' <;> cases hstart
  all_goals cases hstart

theorem chars_printable (t : Text) : ∀ ch ∈ t.chars, ch ∈ printable := by
  rcases t with code | code | s
  · have hlabel : ∀ ch ∈ "ABEND ".toList, ch ∈ printable := by decide +kernel
    intro ch hch
    rcases List.mem_append.mp hch with hch | hch
    · exact hlabel ch hch
    · simp only [List.mem_cons, List.not_mem_nil, or_false] at hch
      rcases hch with rfl | rfl | rfl <;> exact hex_digit_printable _
  · have hlabel : ∀ ch ∈ "CC ".toList, ch ∈ printable := by decide +kernel
    intro ch hch
    rcases List.mem_append.mp hch with hch | hch
    · exact hlabel ch hch
    · exact (fits_code code).printable ch hch
  · cases s <;> decide +kernel

end Text

/-- What is printed where the job awaits output. -/
def shown_text (c : Completion) : List Char :=
  (special_text c.sttrxind).getD
    (if c.Abended then abend_text c.full else cc_text c.full)

theorem abend_text_eq : abend_text c.full = (Text.abend c.system_code).chars := by
  rw [Text.chars_abend, ← nibble_first, ← nibble_second, ← nibble_third, ← zut_get_hex_char_eq,
    ← zut_get_hex_char_eq, ← zut_get_hex_char_eq]
  rfl

theorem cc_text_eq : cc_text c.full = (Text.condition c.user_code).chars := by
  rw [Text.chars_condition, cc_text, full_low]

/-! How a job ended, and what is printed of that. -/

inductive Reading (c : Completion) : Outcome → Text → Prop
  | system (code : BitVec 12) : c.Abended → c.system_code = code → code ≠ 0 →
      Reading c (.system_abend code) (.abend code)
  | user : c.UserAbend → Reading c (.user_abend c.user_code) (.abend 0)
  | special (s : Special) : c.sttrxind = s.value → Reading c s.outcome (.special s)
  | flagged (s : Special) (code : BitVec 12) : c.Flagged → c.kind = s.value →
      c.user_code = code → Reading c s.outcome (.condition code)
  | ended (code : BitVec 12) : c.Ended → c.user_code = code →
      Reading c (.ended code) (.condition code)

theorem special_text_of_abended (h : c.Abended) : special_text c.sttrxind = none := by
  rw [Option.eq_none_iff_forall_ne_some]
  intro text htext
  obtain ⟨s, hs⟩ := Special.exists_of_special_text htext
  apply h
  rw [hs]
  cases s <;> rfl

theorem shown_text_of_abended (h : c.Abended) :
    shown_text c = (Text.abend c.system_code).chars := by
  rw [shown_text, special_text_of_abended h, Option.getD_none, if_pos h, abend_text_eq]

theorem kind_value (s : Special) (h : c.sttrxind = s.value) : c.kind = s.value := by
  rw [Completion.kind, h]
  cases s <;> rfl

/-- An indicator with another bit is none of the three that have a text. -/
theorem shown_text_of_flagged (h : c.Flagged) :
    shown_text c = (Text.condition c.user_code).chars := by
  have hnone : special_text c.sttrxind = none := by
    rw [Option.eq_none_iff_forall_ne_some]
    intro text htext
    obtain ⟨s, hs⟩ := Special.exists_of_special_text htext
    exact h.2.2 (hs.trans (kind_value s hs).symm)
  rw [shown_text, hnone, Option.getD_none, if_neg h.1, cc_text_eq]

/-- A special kind is printed as such where it is all that the indicator says. -/
theorem special_reading (s : Special) (habended : ¬ c.Abended) (hkind : c.kind = s.value) :
    ∃ t, Reading c s.outcome t ∧ shown_text c = t.chars := by
  by_cases hflag : c.sttrxind = c.kind
  · have hind : c.sttrxind = s.value := hflag.trans hkind
    refine ⟨_, .special s hind, ?_⟩
    rw [shown_text, hind, Special.special_text_value]
    rfl
  · have hspecial : c.kind = sttrxjcl ∨ c.kind = sttrxcan ∨ c.kind = sttrxsec := by
      rw [hkind]
      cases s <;> decide
    have hflagged : c.Flagged := ⟨habended, hspecial, hflag⟩
    exact ⟨_, .flagged s _ hflagged hkind rfl, shown_text_of_flagged hflagged⟩

theorem shown_text_of_ended (h : c.Ended) :
    shown_text c = (Text.condition c.user_code).chars := by
  have hnone : special_text c.sttrxind = none := by
    rw [Option.eq_none_iff_forall_ne_some]
    intro text htext
    obtain ⟨s, hs⟩ := Special.exists_of_special_text htext
    have hkind := h.2
    rw [kind_value s hs] at hkind
    cases s <;> revert hkind <;> decide
  rw [shown_text, hnone, Option.getD_none, if_neg h.1, cc_text_eq]

theorem reading_of_outcome (h : c.outcome = some o) :
    ∃ t, Reading c o t ∧ shown_text c = t.chars := by
  rw [Completion.outcome] at h
  by_cases habended : c.Abended
  · rw [if_pos habended, Option.some_inj] at h
    by_cases hsystem : c.system_code = 0
    · rw [if_pos hsystem] at h
      subst h
      exact ⟨_, .user ⟨habended, hsystem⟩, hsystem ▸ shown_text_of_abended habended⟩
    · rw [if_neg hsystem] at h
      subst h
      exact ⟨_, .system _ habended rfl hsystem, shown_text_of_abended habended⟩
  rw [if_neg habended] at h
  split_ifs at h with hjcl hcan hsec hended
  · cases h
    exact special_reading .jcl habended hjcl
  · cases h
    exact special_reading .canceled habended hcan
  · cases h
    exact special_reading .security habended hsec
  · cases h
    exact ⟨_, .ended _ ⟨habended, hended⟩ rfl, shown_text_of_ended ⟨habended, hended⟩⟩

theorem Special.eq_of_value {s s' : Special} (h : s.value = s'.value) : s = s' := by
  cases s <;> cases s' <;> first | rfl | exact absurd h (by decide)

theorem Completion.Ended.kind_ne (h : c.Ended) (s : Special) : s.value ≠ c.kind := by
  intro hkind
  have hended := h.2
  rw [← hkind] at hended
  cases s <;> revert hended <;> decide

/-- One text is read for one outcome where the words are told apart. -/
theorem Reading.determines {t : Text} (h : Reading c o t) (h' : Reading c' o' t)
    (happart : c.ToldApart c') (happart' : c'.ToldApart c) : o = o' := by
  cases h with
  | system code _ _ hcode =>
    cases h' with
    | system => rfl
    | user => exact absurd rfl hcode
  | user huser =>
    cases h' with
    | system _ _ _ hcode => exact absurd rfl hcode
    | user huser' => rw [happart.user_abends huser huser']
  | special s => cases h' with | special => rfl
  | flagged s code hflagged hkind hcode =>
    cases h' with
    | flagged s' _ hflagged' hkind' hcode' =>
      have hsame := happart.flagged hflagged (.inr hflagged') (hcode.trans hcode'.symm)
      rw [hkind, hkind'] at hsame
      rw [Special.eq_of_value hsame]
    | ended _ hended hcode' =>
      have hsame := happart.flagged hflagged (.inl hended) (hcode.trans hcode'.symm)
      exact absurd (hkind.symm.trans hsame) (hended.kind_ne s)
  | ended code hended hcode =>
    cases h' with
    | flagged s _ hflagged hkind hcode' =>
      have hsame := happart'.flagged hflagged (.inl hended) (hcode'.trans hcode.symm)
      exact absurd (hkind.symm.trans hsame) (hended.kind_ne s)
    | ended => rfl

theorem Completion.UserAbend.outcome_eq (h : c.UserAbend) :
    c.outcome = some (.user_abend c.user_code) := by
  rw [Completion.outcome, if_pos h.1, if_pos h.2]

theorem Completion.Flagged.exists_special (h : c.Flagged) :
    ∃ s : Special, c.kind = s.value ∧ c.outcome = some s.outcome := by
  rcases h.2.1 with hkind | hkind | hkind
  · refine ⟨.jcl, hkind, ?_⟩
    rw [Completion.outcome, if_neg h.1, if_pos hkind]
    rfl
  · refine ⟨.canceled, hkind, ?_⟩
    rw [Completion.outcome, if_neg h.1, if_neg (by rw [hkind]; decide), if_pos hkind]
    rfl
  · refine ⟨.security, hkind, ?_⟩
    rw [Completion.outcome, if_neg h.1, if_neg (by rw [hkind]; decide),
      if_neg (by rw [hkind]; decide), if_pos hkind]
    rfl

theorem Completion.Ended.outcome_eq (h : c.Ended) : c.outcome = some (.ended c.user_code) := by
  have hjcl : ¬ c.kind = sttrxjcl := fun hkind => h.kind_ne .jcl hkind.symm
  have hcan : ¬ c.kind = sttrxcan := fun hkind => h.kind_ne .canceled hkind.symm
  have hsec : ¬ c.kind = sttrxsec := fun hkind => h.kind_ne .security hkind.symm
  rw [Completion.outcome, if_neg h.1, if_neg hjcl, if_neg hcan, if_neg hsec, if_pos h.2]

/-- Words that are not told apart have one text for two outcomes. -/
theorem told_apart_of_determines (h : ∀ o o', c.outcome = some o → c'.outcome = some o' →
    shown_text c = shown_text c' → o = o') : c.ToldApart c' where
  user_abends huser huser' := by
    have htext : shown_text c = shown_text c' := by
      rw [shown_text_of_abended huser.1, shown_text_of_abended huser'.1, huser.2, huser'.2]
    exact Outcome.user_abend.inj (h _ _ huser.outcome_eq huser'.outcome_eq htext)
  flagged hflagged hother hcode := by
    obtain ⟨s, hkind, houtcome⟩ := hflagged.exists_special
    have htext : shown_text c = (Text.condition c'.user_code).chars :=
      hcode ▸ shown_text_of_flagged hflagged
    rcases hother with hended | hflagged'
    · have hsame := h _ _ houtcome hended.outcome_eq (htext.trans (shown_text_of_ended hended).symm)
      exact absurd hsame (s.outcome_ne_ended _)
    · obtain ⟨s', hkind', houtcome'⟩ := hflagged'.exists_special
      have hsame := h _ _ houtcome houtcome' (htext.trans (shown_text_of_flagged hflagged').symm)
      rw [hkind, hkind', Special.outcome_inj hsame]

/-! The list. -/

theorem retcode_of_awaits_output {job : JobEntry} (h : job.AwaitsOutput cs) :
    (job_status cs job).retcode = (shown_text job.sttrmxrc).map cs.code := by
  have hawaits : job.full_status cs = cs.str "AWAITING OUTPUT" := h
  have htext : retcode_text cs job = shown_text job.sttrmxrc := by
    rw [retcode_text, if_pos hawaits]
    rfl
  exact congrArg (List.map cs.code) htext

theorem shown_text_printable {t : Text} (h : shown_text c = t.chars) :
    ∀ ch ∈ shown_text c, ch ∈ printable := h ▸ t.chars_printable

theorem shows_iff {entries : List JobEntry} {retcode : Bytes} :
    Shows cs entries o retcode ↔ ∃ job ∈ entries, job.AwaitsOutput cs ∧
      job.sttrmxrc.outcome = some o ∧ (shown_text job.sttrmxrc).map cs.code = retcode := by
  have hzip : entries.zip (zjb_build_job_response cs entries) =
      entries.map fun job => (job, job_status cs job) := by
    calc entries.zip (zjb_build_job_response cs entries)
      _ = (entries.map id).zip (entries.map (job_status cs)) := by
        rw [List.map_id, zjb_build_job_response]
      _ = entries.map fun job => (job, job_status cs job) := List.zip_map'
  rw [Shows, hzip]
  constructor
  · rintro ⟨_, hmem, hawaits, houtcome, hretcode⟩
    obtain ⟨job, hjob, rfl⟩ := List.mem_map.mp hmem
    exact ⟨job, hjob, hawaits, houtcome, (retcode_of_awaits_output hawaits).symm.trans hretcode⟩
  · rintro ⟨job, hjob, hawaits, houtcome, hretcode⟩
    exact ⟨_, List.mem_map_of_mem hjob, hawaits, houtcome,
      (retcode_of_awaits_output hawaits).trans hretcode⟩

theorem Reading.of_ended {t : Text} {code : BitVec 12} (h : Reading c (.ended code) t) :
    t = .condition code := by
  generalize ho : Outcome.ended code = o at h
  cases h with
  | ended code' => rw [Outcome.ended.inj ho]
  | special s => exact absurd ho.symm (s.outcome_ne_ended _)
  | flagged s => exact absurd ho.symm (s.outcome_ne_ended _)
  | system => cases ho
  | user => cases ho

theorem decimal_of_ended {entries : List JobEntry} {retcode : Bytes} {code : BitVec 12}
    (h : Shows cs entries (.ended code) retcode) :
    ∃ digits : List Char, retcode = cs.str "CC " ++ digits.map cs.code ∧
      digits.all Char.isDigit ∧ Nat.ofDigitChars 10 digits 0 = code.toNat := by
  obtain ⟨job, _, _, houtcome, rfl⟩ := shows_iff.mp h
  obtain ⟨t, hreading, htext⟩ := reading_of_outcome houtcome
  rw [hreading.of_ended] at htext
  have hdigits : ∀ ch ∈ dscb.padded_digits 4 code.toNat, ch.isDigit := by
    have hall : ∀ ch ∈ "0123456789".toList, ch.isDigit := by decide +kernel
    exact fun ch hch => hall ch (dscb.mem_padded_digits hch)
  refine ⟨dscb.padded_digits 4 code.toNat, ?_, List.all_eq_true.mpr hdigits, ?_⟩
  · rw [htext, Text.chars_condition, List.map_append, Charset.str]
  · rw [← dscb.digits_value_eq, (Text.fits_code code).value]

/-- The text is faithful on a list where the words of any two jobs are told apart. -/
theorem faithful_iff (cs : Charset) (entries : List JobEntry) :
    Faithful cs entries ↔ ∀ job ∈ entries, ∀ job' ∈ entries, job.AwaitsOutput cs →
      job'.AwaitsOutput cs → job.sttrmxrc.ToldApart job'.sttrmxrc := by
  constructor
  · intro h job hjob job' hjob' hawaits hawaits'
    apply told_apart_of_determines
    intro o o' ho ho' htext
    exact h.determines o o' _ (shows_iff.mpr ⟨job, hjob, hawaits, ho, rfl⟩)
      (shows_iff.mpr ⟨job', hjob', hawaits', ho', by rw [htext]⟩)
  · intro h
    refine ⟨fun o o' retcode hshows hshows' => ?_, fun code retcode => decimal_of_ended⟩
    obtain ⟨job, hjob, hawaits, ho, rfl⟩ := shows_iff.mp hshows
    obtain ⟨job', hjob', hawaits', ho', hsame⟩ := shows_iff.mp hshows'
    obtain ⟨t, hreading, htext⟩ := reading_of_outcome ho
    obtain ⟨t', hreading', htext'⟩ := reading_of_outcome ho'
    have hchars : t'.chars = t.chars := by
      rw [← htext, ← htext']
      exact dscb.map_code_inj (shown_text_printable htext') (shown_text_printable htext) hsame
    rw [Text.chars_inj hchars] at hreading'
    exact hreading.determines hreading' (h job hjob job' hjob' hawaits hawaits')
      (h job' hjob' job hjob hawaits' hawaits)

/-- Two jobs that abended with the codes 1 and 2 of their own. -/
def user_abends : List JobEntry :=
  [1, 2].map fun user_code =>
    { sttrname := ascii.str "JOBA    "
      sttrjid := ascii.str "JOB00001"
      sttrouid := ascii.str "IBMUSER "
      sttrclas := ascii.str "A       "
      sttrjcor := List.replicate 64 0
      subsystem := ascii.str "JES2"
      phase_text := ascii.str "AWAITING OUTPUT"
      sttrmxrc := ⟨0x85, user_code⟩
      sttrjtyp := 3
      sttrphaz := 0 }

theorem user_abends_alike : ¬ Faithful ascii user_abends := by
  intro h
  have hends (code : BitVec 12) (hcode : code = 1 ∨ code = 2) :
      Shows ascii user_abends (.user_abend code) (ascii.str "ABEND 000") := by
    rcases hcode with rfl | rfl <;> decide +kernel
  cases h.determines _ _ _ (hends 1 (.inl rfl)) (hends 2 (.inr rfl))

end Zowex.zjo

import Zowex.Proofs.HexText
import Zowex.Proofs.DataSets
import Zowex.Spec.UssClients

/-! When a write with an e-tag finds the contents of that e-tag. An e-tag tells the file time and
the size, and no more. -/

namespace Zowex.zusf

open zds Runs

variable {Shift : Type} {cs : Charset} {iconv_open : IconvOpen Shift} {Id : Type} [DecidableEq Id]
  {s s' : State Id}

/-! E-tags. -/

/-- The separator is no digit. -/
theorem separator_not_mem (n : ℕ) : cs.code '-' ∉ hex_text cs n :=
  not_hex_digit cs (by decide) (by decide) n

theorem build_etag_ne_nil (mtime byte_size : ℕ) : zut_build_etag cs mtime byte_size ≠ [] := by
  simp [zut_build_etag]

theorem take_time (n : ℕ) (rest : Bytes) :
    (hex_text cs n ++ ([cs.code '-'] ++ rest)).takeWhile (fun c => c ≠ cs.code '-') =
      hex_text cs n := by
  rw [List.takeWhile_append_of_pos]
  · simp
  · intro c hc
    rw [decide_eq_true_eq]
    rintro rfl
    exact separator_not_mem n hc

theorem build_etag_inj {mtime byte_size mtime' byte_size' : ℕ}
    (h : zut_build_etag cs mtime byte_size = zut_build_etag cs mtime' byte_size') :
    mtime = mtime' ∧ byte_size = byte_size' := by
  rw [zut_build_etag, zut_build_etag, List.append_assoc, List.append_assoc] at h
  have htime : hex_text cs mtime = hex_text cs mtime' := by
    have htake := congrArg (List.takeWhile fun c => c ≠ cs.code '-') h
    rwa [take_time, take_time] at htake
  refine ⟨hex_text_injective cs htime, hex_text_injective cs ?_⟩
  rw [htime] at h
  simpa using h

/-! One write. -/

theorem refused_error {sv : UssServices} {zusf : ZUSF} {e : UssError} (source : Source)
    (h : write_refused cs sv zusf = some e) :
    (zusf_write cs iconv_open sv zusf source).result = .error e := by
  cases source with
  | buffered data => rw [zusf_write, zusf_write_to_uss_file, h]
  | streamed chunks => rw [zusf_write, zusf_write_to_uss_file_streamed, h]

/-- A write with an e-tag that succeeds has found no file, or one with that e-tag. -/
theorem write_found {sv : UssServices} {opts : ZEncode} {etag : Bytes} {source : Source}
    (hetag : etag ≠ [])
    (hok : (handle_uss_write cs iconv_open sv opts etag source).result.isOk = true) :
    sv.stat = .missing ∨
      ∃ mtime byte_size, sv.stat = .found mtime byte_size ∧
        zut_build_etag cs mtime byte_size = etag := by
  rw [handle_uss_write] at hok
  split_ifs at hok
  · cases hok
  · dsimp only at hok
    have hrefused (e : UssError) :
        write_refused cs sv { encoding_opts := opts, etag } ≠ some e := by
      intro h
      rw [refused_error source h] at hok
      cases hok
    rw [write_refused] at hrefused
    rcases hstat : sv.stat with ⟨mtime, byte_size⟩ | _ | _
    · refine .inr ⟨mtime, byte_size, rfl, ?_⟩
      rw [hstat] at hrefused
      by_contra hne
      exact hrefused .etag_mismatch (if_pos ⟨hetag, hne⟩)
    · exact .inl rfl
    · rw [hstat] at hrefused
      exact absurd rfl (hrefused .not_accessible)

/-! The invariant. -/

/-- Each e-tag is that of the file it was made of, and no other file is there that has it. A write
that is going to open the file opens the one the e-tag is of. -/
structure Inv (cs : Charset) (s : State Id) : Prop where
  made : ∀ c held, (s.clients c).held = some held →
    held.etag = zut_build_etag cs held.issued.mtime held.issued.contents.length
  distinct : s.Distinct s.file
  opens : ∀ c held, (s.clients c).held = some held → s.Opens c →
    s.file.map File.contents = some held.issued.contents
  found : ∀ c held run file, (s.clients c).held = some held →
    (s.clients c).pending = some ⟨run, some file⟩ → run.result.isOk = true →
    file.map File.contents = some held.issued.contents
  no_lost_update : s.NoLostUpdate

theorem set_client_self (s : State Id) (c : Id) (client : Client) :
    (s.set_client c client).clients c = client :=
  if_pos rfl

theorem set_client_other (s : State Id) {c d : Id} (client : Client) (h : d ≠ c) :
    (s.set_client c client).clients d = s.clients d :=
  if_neg h

/-- A step of one client that leaves the file, and the e-tags of the others. -/
theorem Inv.set_client {c : Id} {client : Client} (h : Inv cs s)
    (hmade : ∀ held, client.held = some held →
      held.etag = zut_build_etag cs held.issued.mtime held.issued.contents.length ∧
      (∀ f, s.file = some f → f.mtime = held.issued.mtime →
        f.contents.length = held.issued.contents.length → f.contents = held.issued.contents) ∧
      (∀ run, client.pending = some ⟨run, none⟩ → run.result.isOk = true →
        s.file.map File.contents = some held.issued.contents) ∧
      (∀ run file, client.pending = some ⟨run, some file⟩ → run.result.isOk = true →
        file.map File.contents = some held.issued.contents)) :
    Inv cs (s.set_client c client) where
  made d held hheld := by
    by_cases hd : d = c
    · subst hd
      rw [set_client_self] at hheld
      exact (hmade held hheld).1
    · rw [set_client_other s client hd] at hheld
      exact h.made d held hheld
  distinct d held hheld := by
    by_cases hd : d = c
    · subst hd
      rw [set_client_self] at hheld
      exact (hmade held hheld).2.1
    · rw [set_client_other s client hd] at hheld
      exact h.distinct d held hheld
  opens d held hheld hopens := by
    by_cases hd : d = c
    · subst hd
      obtain ⟨run, hpending, hok⟩ := hopens
      rw [set_client_self] at hheld hpending
      exact (hmade held hheld).2.2.1 run hpending hok
    · obtain ⟨run, hpending, hok⟩ := hopens
      rw [set_client_other s client hd] at hheld hpending
      exact h.opens d held hheld ⟨run, hpending, hok⟩
  found d held run file hheld hpending hok := by
    by_cases hd : d = c
    · subst hd
      rw [set_client_self] at hheld hpending
      exact (hmade held hheld).2.2.2 run file hpending hok
    · rw [set_client_other s client hd] at hheld hpending
      exact h.found d held run file hheld hpending hok
  no_lost_update := h.no_lost_update

omit [DecidableEq Id] in
/-- A change of the file that is noticed. -/
theorem Inv.set_file {others : Id → Prop} {file : Option File} (h : Inv cs s)
    (hdistinct : s.Distinct file) (hquiet : s.Quiet others file)
    (hothers : ∀ c, s.Opens c → others c) : Inv cs { s with file } where
  made := h.made
  distinct := hdistinct
  opens c held hheld hopens :=
    (hquiet c (hothers c hopens) hopens).trans (h.opens c held hheld hopens)
  found := h.found
  no_lost_update := h.no_lost_update

/-- The file as a client leaves it that opens it no more. -/
theorem Inv.set_client_file {c : Id} {client : Client} {file : Option File}
    (h : Inv cs (s.set_client c client)) (hheld : client.held = (s.clients c).held)
    (hopened : ∀ run, client.pending ≠ some ⟨run, none⟩) (hdistinct : s.Distinct file)
    (hquiet : s.Quiet (· ≠ c) file) : Inv cs { s.set_client c client with file } := by
  have hothers (d : Id) (hopens : (s.set_client c client).Opens d) : d ≠ c := by
    rintro rfl
    obtain ⟨run, hpending, -⟩ := hopens
    rw [set_client_self] at hpending
    exact hopened run hpending
  refine h.set_file ?_ ?_ hothers
  · intro d held hd
    by_cases hdc : d = c
    · subst hdc
      rw [set_client_self, hheld] at hd
      exact hdistinct d held hd
    · rw [set_client_other s client hdc] at hd
      exact hdistinct d held hd
  · rintro d hdc ⟨run, hpending, hok⟩
    rw [set_client_other s client hdc] at hpending
    exact hquiet d hdc ⟨run, hpending, hok⟩

/-! The steps. -/

omit [DecidableEq Id] in
theorem services_in_stat (s : State Id) (sv : UssServices) :
    (services_in s sv).stat = .failed ∨ (services_in s sv).stat = stat s.file := by
  rw [services_in]
  split
  next hfailed => exact .inl hfailed
  next => exact .inr rfl

omit [DecidableEq Id] in
/-- A write that goes through its check has found the file of its e-tag. -/
theorem Inv.checked {c : Id} {held : Held} {sv : UssServices} {opts : ZEncode} {source : Source}
    (h : Inv cs s) (hheld : (s.clients c).held = some held) (hfile : s.file ≠ none)
    (hok : (handle_uss_write cs iconv_open (services_in s sv) opts held.etag source).result.isOk =
      true) : s.file.map File.contents = some held.issued.contents := by
  obtain ⟨file, hfile⟩ := Option.ne_none_iff_exists'.mp hfile
  have hmade := h.made c held hheld
  have hne : held.etag ≠ [] := by
    rw [hmade]
    exact build_etag_ne_nil _ _
  have hstat : (services_in s sv).stat = .failed ∨
      (services_in s sv).stat = .found file.mtime file.contents.length := by
    have hstat := services_in_stat s sv
    rwa [hfile] at hstat
  rcases write_found hne hok with hmissing | ⟨mtime, byte_size, hfound, hetag⟩
  · rw [hmissing] at hstat
    rcases hstat with hstat | hstat
    · cases hstat
    · cases hstat
  · rw [hfound] at hstat
    rcases hstat with hstat | hstat
    · cases hstat
    cases hstat
    rw [hmade] at hetag
    obtain ⟨hmtime, hsize⟩ := build_etag_inj hetag
    rw [hfile]
    exact congrArg some (h.distinct c held hheld file hfile hmtime hsize)

theorem Inv.truncate {c : Id} {run : Written} {mtime : ℕ} (h : Inv cs s)
    (hpending : (s.clients c).pending = some ⟨run, none⟩)
    (hdistinct : s.Distinct (some ⟨[], mtime⟩)) (hquiet : s.Quiet (· ≠ c) (some ⟨[], mtime⟩)) :
    Inv cs { s.set_client c { s.clients c with pending := some ⟨run, some s.file⟩ } with
      file := if run.stored.isSome then some ⟨[], mtime⟩ else s.file } := by
  have hopened : Inv cs (s.set_client c { s.clients c with pending := some ⟨run, some s.file⟩ }) := by
    apply h.set_client
    intro held hheld
    refine ⟨h.made c held hheld, h.distinct c held hheld, ?_, ?_⟩
    · rintro run' ⟨⟩
    · rintro run' file ⟨⟩ hok
      exact h.opens c held hheld ⟨run, hpending, hok⟩
  by_cases hstored : run.stored.isSome = true
  · rw [if_pos hstored]
    refine hopened.set_client_file rfl ?_ hdistinct hquiet
    rintro run' ⟨⟩
  · rw [if_neg hstored]
    exact hopened

theorem Inv.store {c : Id} {held : Held} {run : Written} {found file : Option File} (h : Inv cs s)
    (hclient : s.clients c = ⟨some held, some ⟨run, some found⟩⟩)
    (hfile : file = s.file ∨ s.Distinct file ∧ s.Quiet (· ≠ c) file) :
    Inv cs { s.set_client c { held := some held } with
      file, writes := s.writes ++ [⟨held, found, run.result⟩] } := by
  have hheld : (s.clients c).held = some held := by rw [hclient]
  have hended : Inv cs (s.set_client c { held := some held }) := by
    apply h.set_client
    rintro _ ⟨⟩
    refine ⟨h.made c held hheld, h.distinct c held hheld, ?_, ?_⟩
    · rintro run' ⟨⟩
    · rintro run' file' ⟨⟩
  have hleft : Inv cs { s.set_client c { held := some held } with file } := by
    rcases hfile with rfl | ⟨hdistinct, hquiet⟩
    · exact hended
    · refine hended.set_client_file hheld.symm ?_ hdistinct hquiet
      rintro run' ⟨⟩
  refine ⟨hleft.made, hleft.distinct, hleft.opens, hleft.found, fun w hw hok => ?_⟩
  rcases List.mem_append.mp hw with hw | hw
  · exact h.no_lost_update w hw hok
  · rw [List.mem_singleton.mp hw] at hok ⊢
    exact h.found c held run found hheld (by rw [hclient]) hok

theorem inv_step {a : Action Id} (h : Inv cs s) (hnoticed : s.Noticed a)
    (hstep : step cs iconv_open s a = some s') : Inv cs s' := by
  cases a with
  | view c =>
    rw [step] at hstep
    split at hstep
    next file hpending hfile =>
      cases hstep
      apply h.set_client
      rintro held ⟨⟩
      refine ⟨rfl, ?_, ?_, ?_⟩
      · intro f hf
        rw [hfile] at hf
        cases hf
        exact fun _ _ => rfl
      · rintro run ⟨⟩
      · rintro run found ⟨⟩
    next => cases hstep
  | check c sv opts source =>
    rw [step] at hstep
    split at hstep
    next held hclient =>
      cases hstep
      have hheld : (s.clients c).held = some held := by rw [hclient]
      apply h.set_client
      rintro _ ⟨⟩
      refine ⟨h.made c held hheld, h.distinct c held hheld, ?_, ?_⟩
      · rintro run ⟨⟩ hok
        exact h.checked hheld hnoticed hok
      · rintro run found ⟨⟩
    next => cases hstep
  | truncate c mtime =>
    rw [step] at hstep
    split at hstep
    next run hpending =>
      cases hstep
      exact h.truncate hpending hnoticed.1 hnoticed.2
    next => cases hstep
  | store c mtime =>
    rw [step] at hstep
    split at hstep
    next held run found hclient =>
      cases hstep
      apply h.store hclient
      rcases hstored : run.stored with _ | contents
      · exact .inl rfl
      · exact .inr (hnoticed _ contents (by rw [hclient]) hstored)
    next => cases hstep
  | change file =>
    cases hstep
    exact h.set_file hnoticed.1 hnoticed.2 fun _ _ => trivial

omit [DecidableEq Id] in
theorem inv_initial (file : Option File) : Inv cs (State.initial file : State Id) where
  made _ _ h := by cases h
  distinct _ _ h := by cases h
  opens _ _ h := by cases h
  found _ _ _ _ h := by cases h
  no_lost_update _ h := by cases h

/-- In a run of steps that e-tags take notice of no update is lost. -/
theorem no_lost_updates (cs : Charset) {Shift : Type} (iconv_open : IconvOpen Shift) {Id : Type}
    [DecidableEq Id] (file : Option File) (trace : List (State Id × Action Id)) (s : State Id)
    (hrun : Run (step cs iconv_open) (State.initial file) trace s)
    (hnoticed : Steps State.Noticed trace) : ∀ t ∈ states trace s, t.NoLostUpdate :=
  fun t ht => (hrun.always hnoticed (inv_initial file) inv_step t ht).no_lost_update

def three_letters : File :=
  ⟨ibm1047.str "abc", 5⟩

def work : UssServices :=
  ⟨all_work, .missing, 0, some (6, 3)⟩

def other_letters : Source :=
  .buffered (ibm1047.str "xyz")

/-- A file that is read, and written a second after it was changed. -/
theorem one_writer : ∃ trace s,
    Run (step ibm1047 no_iconv) (State.initial (some three_letters) : State Unit) trace s ∧
      s.file = some ⟨ibm1047.str "xyz", 6⟩ ∧ ∀ t ∈ states trace s, t.NoLostUpdate := by
  have hview := (Run.nil : Run (step ibm1047 no_iconv) (State.initial (some three_letters) : State Unit) []
    (State.initial (some three_letters))).snoc (a := .view ()) rfl
  have hcheck := hview.snoc (a := .check () work {} other_letters) rfl
  have htruncate := hcheck.snoc (a := .truncate () 6) rfl
  have hstore := htruncate.snoc (a := .store () 6) rfl
  have hdistinct (s : State Unit) (contents : Bytes) (hissued : ∀ held,
      (s.clients ()).held = some held → held.issued.mtime = 5) :
      s.Distinct (some ⟨contents, 6⟩) := by
    rintro c held hheld _ ⟨⟩ hmtime
    rw [hissued held hheld] at hmtime
    cases hmtime
  have hquiet (s : State Unit) (file : Option File) : s.Quiet (· ≠ ()) file :=
    fun c hc => absurd rfl hc
  refine ⟨_, _, hstore, ?_, no_lost_updates ibm1047 no_iconv _ _ _ hstore ?_⟩
  · decide +kernel
  · intro p hp
    simp only [List.nil_append, List.cons_append, List.mem_cons, List.not_mem_nil, or_false] at hp
    rcases hp with rfl | rfl | rfl | rfl
    · exact trivial
    · exact Option.some_ne_none _
    · exact ⟨hdistinct _ _ (by rintro _ ⟨⟩; rfl), hquiet _ _⟩
    · exact fun _ _ _ _ => ⟨hdistinct _ _ (by rintro _ ⟨⟩; rfl), hquiet _ _⟩

/-- What two clients do that both read the file within the second it was changed in, and write it
one after the other within that second. -/
def two_writers : List (Action Bool) :=
  [.view true, .view false,
    .check true work {} other_letters, .truncate true 5, .store true 5,
    .check false work {} other_letters, .truncate false 5, .store false 5]

/-- The second write does not find what its client has read. -/
theorem first_writer_lost : ∃ trace s,
    Run (step ibm1047 no_iconv) (State.initial (some three_letters) : State Bool) trace s ∧
      ¬ s.NoLostUpdate := by
  have hexec : ((exec (step ibm1047 no_iconv) (fun _ _ => true)
      (State.initial (some three_letters)) two_writers).any fun s => s.writes.any fun w =>
        w.result.isOk && decide (w.found.map File.contents ≠ some w.held.issued.contents)) =
          true := by decide +kernel
  obtain ⟨s, hexec, hlost⟩ := (Option.any_eq_true _ _).mp hexec
  obtain ⟨w, hw, hlost⟩ := List.any_eq_true.mp hlost
  rw [Bool.and_eq_true, decide_eq_true_eq] at hlost
  obtain ⟨trace, hrun, -⟩ := run_of_exec hexec
  exact ⟨trace, s, hrun, fun h => hlost.2 (h w hw hlost.1)⟩

end Zowex.zusf

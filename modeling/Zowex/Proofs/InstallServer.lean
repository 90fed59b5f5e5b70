import Zowex.Spec.InstallServer

/-! When a failed install is undone. Of the three ways out of the `try` block only the exception
comes to the clean-up; what earlier attempts have made is taken for what was there before. -/

namespace Zowex.sdk.InstallServer

variable {cb : Callbacks} {a : Attempt}

/-- An upload that has failed leaves a part of the archive. -/
def Attempt.leaves_archive (a : Attempt) : Bool :=
  match a.upload with
  | .ok => false
  | .error _ left => left

/-- The extraction writes the program. -/
def Attempt.overwrites (a : Attempt) : Bool :=
  match a.pax with
  | .throws wrote => wrote
  | .failed _ wrote => wrote
  | .ok _ => true

/-- The way out of the `try` block; it does not depend on the remote directory. -/
def Attempt.way (cb : Callbacks) (a : Attempt) : Option Way :=
  (deploy cb a ⟨Prior.remote .absent, false, false⟩).2

/-- An attempt that is followed by another. -/
def Retried (cb : Callbacks) (b : Attempt) : Prop :=
  b.initial_check = .done ∧ b.way cb = some .retries

/-- The directory has been made by an attempt that was retried. -/
def Made (prior : Prior) (retried : List Attempt) : Prop :=
  prior.remote.dir = false ∧ ∃ b ∈ retried, b.mkdir ≠ .failed

/-- A part of the archive is there from an attempt that was retried. -/
def LeftOver (retried : List Attempt) : Prop :=
  ∃ b ∈ retried, b.mkdir ≠ .failed ∧ b.leaves_archive = true

/-- The attempt ends in a branch that does not take back what has been done. -/
def EndsBehind (cb : Callbacks) (prior : Prior) (retried : List Attempt) (a : Attempt) : Prop :=
  a.initial_check = .throws ∧ (Made prior retried ∨ LeftOver retried) ∨
    a.initial_check = .done ∧
      (a.way cb = some (.returns .mkdir) ∧ (Made prior retried ∨ LeftOver retried) ∨
        a.way cb = some (.returns .space) ∧ (prior.remote.dir = false ∨ LeftOver retried) ∨
        a.way cb = some (.returns .upload) ∧
          (prior.remote.dir = false ∨ LeftOver retried ∨ a.leaves_archive = true) ∨
        (∃ step, step ≠ .expired ∧ a.way cb = some (.throws step)) ∧ Made prior retried ∨
        a.way cb = some (.throws .extract) ∧ prior.remote.program = some .prior ∧
          a.overwrites = false)

/-- So does the last attempt of a run whose clean-up succeeds. -/
def LeavesBehind (cb : Callbacks) (prior : Prior) (attempts : List Attempt) : Prop :=
  (∀ a ∈ attempts, a.Cleans) ∧ ∃ retried a later, attempts = retried ++ a :: later ∧
    (∀ b ∈ retried, Retried cb b) ∧ EndsBehind cb prior retried a

/-! The `try` block. -/

theorem StepOf.then_none {first second : StepOf} {p : Progress} (h : (first p).2 = none) :
    first.then second p = second (first p).1 := by
  rw [StepOf.then, h]

theorem StepOf.then_some {first second : StepOf} {p : Progress} {way : Way}
    (h : (first p).2 = some way) : first.then second p = ((first p).1, some way) := by
  rw [StepOf.then, h]

/-- The ways out for an expired password. -/
def Way.Expired (way : Way) : Prop :=
  way = .throws .expired ∨ way = .returns .expired ∨ way = .rethrows

theorem route_expired {expired : Bool} {way : Way}
    (h : route_expired_password_error cb a expired = some way) : way.Expired := by
  unfold route_expired_password_error at h
  split at h
  · split at h
    · split at h
      · exact .inl (Option.some.inj h).symm
      · exact .inr (.inl (Option.some.inj h).symm)
    · exact .inr (.inr (Option.some.inj h).symm)
  · cases h

theorem ask_retry_cases (cb : Callbacks) (step : Step) (answer : Answer) :
    ask_retry cb step answer = .retries ∨ ask_retry cb step answer = .returns step ∨
      ask_retry cb step answer = .throws step := by
  unfold ask_retry
  split
  · cases answer <;> simp
  · simp

/-- The remote directory once it is there, with what an upload has left of the archive. -/
def Remote.uploaded (r : Remote) (left : Bool) : Remote :=
  { r with dir := true, archive := if left then some .uploaded else r.archive }

/-- How the block is left, with what it has done until then. -/
inductive Deployed (cb : Callbacks) (a : Attempt) (r : Remote) : Progress → Option Way → Prop
  | mkdir_throws (ran : Bool) (h : a.mkdir = .throws ran) :
    Deployed cb a r ⟨{ r with dir := r.dir || ran }, false, false⟩ (some (.throws .mkdir))
  | mkdir_failed (h : a.mkdir = .failed) :
    Deployed cb a r ⟨r, false, false⟩ (some (ask_retry cb .mkdir a.mkdir_answer))
  | space {way : Way} (h : a.mkdir ≠ .failed)
    (hway : way = .throws .space ∨ way = .returns .space ∨ way.Expired) :
    Deployed cb a r ⟨r.uploaded false, false, false⟩ (some way)
  | upload {way : Way} (h : a.mkdir ≠ .failed)
    (hway : way = ask_retry cb .upload a.upload_answer ∨ way.Expired) :
    Deployed cb a r ⟨r.uploaded a.leaves_archive, false, false⟩ (some way)
  | extract {way : Way} (h : a.mkdir ≠ .failed) (hway : way = .throws .extract ∨ way.Expired) :
    Deployed cb a r (InstallServer.extract a.overwrites ⟨r.uploaded true, false, false⟩)
      (some way)
  | through (h : a.mkdir ≠ .failed) (hupload : a.upload = .ok)
    (hpax : (∃ expired, a.pax = .ok expired) ∨
      (∃ expired wrote, a.pax = .failed expired wrote) ∧ cb.on_error = true ∧
        a.pax_answer = .go_on) :
    Deployed cb a r (InstallServer.extract a.overwrites ⟨r.uploaded true, false, false⟩) none

theorem check_space_spec (p : Progress) : (check_space cb a p).1 = p ∧
    ∀ way, (check_space cb a p).2 = some way →
      way = .throws .space ∨ way = .returns .space ∨ way.Expired := by
  unfold check_space
  split
  next => exact ⟨rfl, fun way hway => .inl (Option.some.inj hway).symm⟩
  next mb expired _ =>
    refine ⟨rfl, fun way hway => ?_⟩
    obtain hroute | ⟨-, hspace⟩ := Option.or_eq_some_iff.mp hway
    · exact .inr (.inr (route_expired hroute))
    · split at hspace
      · split at hspace
        · cases hspace
        · exact .inr (.inl (Option.some.inj hspace).symm)
        · exact .inl (Option.some.inj hspace).symm
      · cases hspace

theorem extract_archive_spec (p : Progress) :
    (extract_archive cb a p).1 = extract a.overwrites p ∧
    (∀ way, (extract_archive cb a p).2 = some way → way = .throws .extract ∨ way.Expired) ∧
    ((extract_archive cb a p).2 = none → (∃ expired, a.pax = .ok expired) ∨
      (∃ expired wrote, a.pax = .failed expired wrote) ∧ cb.on_error = true ∧
        a.pax_answer = .go_on) := by
  unfold extract_archive Attempt.overwrites
  split
  next wrote hpax =>
    rw [hpax]
    exact ⟨rfl, fun way hway => .inl (Option.some.inj hway).symm, fun h => by cases h⟩
  next expired hpax =>
    rw [hpax]
    exact ⟨rfl, fun way hway => .inr (route_expired hway), fun _ => .inl ⟨expired, rfl⟩⟩
  next expired wrote hpax =>
    rw [hpax]
    refine ⟨rfl, fun way hway => ?_, fun hnone => ?_⟩
    · obtain hroute | ⟨-, hasked⟩ := Option.or_eq_some_iff.mp hway
      · exact .inr (route_expired hroute)
      · split at hasked
        · cases hasked
        · exact .inl (Option.some.inj hasked).symm
    · obtain ⟨-, hasked⟩ := Option.or_eq_none_iff.mp hnone
      split at hasked
      next haccepted => exact .inr ⟨⟨expired, wrote, rfl⟩, haccepted⟩
      next => cases hasked

theorem deployed (cb : Callbacks) (a : Attempt) (r : Remote) :
    Deployed cb a r (deploy cb a ⟨r, false, false⟩).1 (deploy cb a ⟨r, false, false⟩).2 := by
  unfold deploy
  cases hmkdir : a.mkdir with
  | throws ran =>
    have hstep : create_directory cb a ⟨r, false, false⟩ =
        (⟨{ r with dir := r.dir || ran }, false, false⟩, some (.throws .mkdir)) := by
      rw [create_directory, hmkdir]
    rw [StepOf.then_some (congrArg Prod.snd hstep), hstep]
    exact .mkdir_throws ran hmkdir
  | failed =>
    have hstep : create_directory cb a ⟨r, false, false⟩ =
        (⟨r, false, false⟩, some (ask_retry cb .mkdir a.mkdir_answer)) := by
      rw [create_directory, hmkdir]
    rw [StepOf.then_some (congrArg Prod.snd hstep), hstep]
    exact .mkdir_failed hmkdir
  | ok expired =>
    have hne : a.mkdir ≠ .failed := by
      rw [hmkdir]
      exact fun h => by cases h
    have hstep : create_directory cb a ⟨r, false, false⟩ =
        (⟨r.uploaded false, false, false⟩, none) := by
      rw [create_directory, hmkdir]
      rfl
    rw [StepOf.then_none (congrArg Prod.snd hstep), hstep]
    obtain ⟨hspace, hways⟩ := @check_space_spec cb a ⟨r.uploaded false, false, false⟩
    cases hway : (check_space cb a ⟨r.uploaded false, false, false⟩).2 with
    | some way =>
      rw [StepOf.then_some hway, hspace]
      exact .space hne (hways way hway)
    | none =>
      rw [StepOf.then_none hway, hspace]
      have hcheck : check_mkdir_stderr cb a ⟨r.uploaded false, false, false⟩ =
          (⟨r.uploaded false, false, false⟩, route_expired_password_error cb a expired) := by
        rw [check_mkdir_stderr, hmkdir]
      cases hroute : route_expired_password_error cb a expired with
      | some way =>
        rw [hroute] at hcheck
        rw [StepOf.then_some (congrArg Prod.snd hcheck), hcheck]
        exact .space hne (.inr (.inr (route_expired hroute)))
      | none =>
        rw [hroute] at hcheck
        rw [StepOf.then_none (congrArg Prod.snd hcheck), hcheck]
        cases hupload : a.upload with
        | error expired left =>
          have hleft : a.leaves_archive = left := by
            rw [Attempt.leaves_archive, hupload]
          have hstep : upload_archive cb a ⟨r.uploaded false, false, false⟩ =
              (⟨r.uploaded a.leaves_archive, false, false⟩,
                (route_expired_password_error cb a expired).or
                  (some (ask_retry cb .upload a.upload_answer))) := by
            rw [upload_archive, hupload, hleft]
            cases left <;> rfl
          cases hroute : route_expired_password_error cb a expired with
          | some way =>
            rw [hroute] at hstep
            rw [StepOf.then_some (congrArg Prod.snd hstep), hstep]
            exact .upload hne (.inr (route_expired hroute))
          | none =>
            rw [hroute] at hstep
            rw [StepOf.then_some (congrArg Prod.snd hstep), hstep]
            exact .upload hne (.inl rfl)
        | ok =>
          have hstep : upload_archive cb a ⟨r.uploaded false, false, false⟩ =
              (⟨r.uploaded true, false, false⟩, none) := by
            rw [upload_archive, hupload]
            rfl
          rw [StepOf.then_none (congrArg Prod.snd hstep), hstep]
          obtain ⟨hdone, hways, hthrough⟩ :=
            @extract_archive_spec cb a ⟨r.uploaded true, false, false⟩
          rw [hdone]
          cases hway : (extract_archive cb a ⟨r.uploaded true, false, false⟩).2 with
          | some way => exact .extract hne (hways way hway)
          | none => exact .through hne hupload (hthrough hway)

/-- A step leaves the block or not, whatever the remote directory is. -/
def StepOf.Fixed (step : StepOf) : Prop := ∀ p q, (step p).2 = (step q).2

theorem StepOf.Fixed.then {first second : StepOf} (hfirst : first.Fixed) (hsecond : second.Fixed) :
    (first.then second).Fixed := by
  intro p q
  cases hway : (first p).2 with
  | none => rw [then_none hway, then_none (hfirst p q ▸ hway), hsecond]
  | some way => rw [then_some hway, then_some (hfirst p q ▸ hway)]

theorem deploy_way (r : Remote) : (deploy cb a ⟨r, false, false⟩).2 = a.way cb := by
  have hmkdir : (create_directory cb a).Fixed := by
    intro p q
    unfold create_directory
    split <;> rfl
  have hspace : (check_space cb a).Fixed := by
    intro p q
    unfold check_space
    split <;> rfl
  have hcheck : (check_mkdir_stderr cb a).Fixed := by
    intro p q
    unfold check_mkdir_stderr
    split <;> rfl
  have hupload : (upload_archive cb a).Fixed := by
    intro p q
    unfold upload_archive
    split <;> rfl
  have hextract : (extract_archive cb a).Fixed := by
    intro p q
    unfold extract_archive
    split <;> rfl
  exact (hmkdir.then (hspace.then (hcheck.then (hupload.then hextract)))) _ _

/-! A call of `installServer`. -/

section

variable {later : List Attempt} {r : Remote}

theorem install_throws (h : a.initial_check = .throws) :
    install_server cb (a :: later) r = { result := .throws, remote := r } := by
  rw [install_server, if_pos h]

theorem install_expired (h : a.initial_check = .expired) :
    (install_server cb (a :: later) r).expired = true ∧
      (install_server cb (a :: later) r).result ≠ .returned true := by
  rw [install_server, h, if_neg (by decide)]
  unfold route_expired_password_error
  rw [decide_eq_true rfl, if_pos rfl]
  split
  next hnone => split at hnone <;> (try split at hnone) <;> cases hnone
  next => exact ⟨rfl, fun h => by cases h⟩
  next => exact ⟨rfl, fun h => by cases h⟩

/-- The call goes by the way out of the block. -/
theorem install_way (h : a.initial_check = .done) :
    (a.way cb = none →
      install_server cb (a :: later) r = finish cb a (deploy cb a ⟨r, false, false⟩).1) ∧
    (a.way cb = some .retries → install_server cb (a :: later) r =
      install_server cb later (deploy cb a ⟨r, false, false⟩).1.remote) ∧
    (∀ step, a.way cb = some (.returns step) → install_server cb (a :: later) r =
      { result := .returned false
        remote := (deploy cb a ⟨r, false, false⟩).1.remote
        expired := step = .expired
        overwritten := (deploy cb a ⟨r, false, false⟩).1.overwritten }) ∧
    (a.way cb = some .rethrows → install_server cb (a :: later) r =
      { result := .throws
        remote := (deploy cb a ⟨r, false, false⟩).1.remote
        expired := true
        overwritten := (deploy cb a ⟨r, false, false⟩).1.overwritten }) ∧
    ∀ step, a.way cb = some (.throws step) → install_server cb (a :: later) r =
      { result := .returned false
        remote := clean_up a r.dir (deploy cb a ⟨r, false, false⟩).1
        expired := step = .expired || a.pax_check = .expired
        overwritten := (deploy cb a ⟨r, false, false⟩).1.overwritten } := by
  have hroute : route_expired_password_error cb a (a.initial_check = .expired) = none := by
    rw [h]
    rfl
  have hcheck : ¬ a.initial_check = .throws := by
    rw [h]
    exact fun h => by cases h
  rw [← deploy_way r, install_server, if_neg hcheck, hroute]
  dsimp only
  refine ⟨fun hway => ?_, fun hway => ?_, fun step hway => ?_, fun hway => ?_, fun step hway => ?_⟩
  all_goals rw [hway]

/-- The remote directory after an attempt that is retried. -/
def after_retry (r : Remote) (b : Attempt) : Remote :=
  if b.mkdir = .failed then r else r.uploaded b.leaves_archive

theorem install_retried {b : Attempt} (h : Retried cb b) : install_server cb (b :: later) r =
    install_server cb later (after_retry r b) := by
  have hremote : (deploy cb b ⟨r, false, false⟩).1.remote = after_retry r b := by
    have hdeployed := deployed cb b r
    rw [deploy_way, h.2] at hdeployed
    generalize (deploy cb b ⟨r, false, false⟩).1 = p at hdeployed
    generalize hway : some Way.retries = way at hdeployed
    cases hdeployed with
    | mkdir_throws => cases hway
    | mkdir_failed hfailed => rw [after_retry, if_pos hfailed]
    | space _ hways =>
      obtain rfl := Option.some.inj hway
      simp [Way.Expired] at hways
    | upload hmkdir _ => rw [after_retry, if_neg hmkdir]
    | extract _ hways =>
      obtain rfl := Option.some.inj hway
      simp [Way.Expired] at hways
    | through => cases hway
  rw [(install_way h.1).2.1 h.2, hremote]

end

theorem install_after {retried : List Attempt} (h : ∀ b ∈ retried, Retried cb b)
    (more : List Attempt) (r : Remote) : install_server cb (retried ++ more) r =
      install_server cb more (retried.foldl after_retry r) := by
  induction retried generalizing r with
  | nil => rfl
  | cons b retried ih =>
    rw [List.forall_mem_cons] at h
    rw [List.cons_append, install_retried h.1, ih h.2, List.foldl_cons]

/-- What is there after some attempts. -/
theorem after_retried (retried : List Attempt) (r : Remote) :
    ((retried.foldl after_retry r).dir = true ↔
      r.dir = true ∨ ∃ b ∈ retried, b.mkdir ≠ .failed) ∧
    ((retried.foldl after_retry r).archive = some .uploaded ↔
      r.archive = some .uploaded ∨ LeftOver retried) ∧
    (retried.foldl after_retry r).program = r.program := by
  induction retried generalizing r with
  | nil => simp [LeftOver]
  | cons b retried ih =>
    obtain ⟨hdir, harchive, hprogram⟩ := ih (after_retry r b)
    rw [List.foldl_cons, hdir, harchive, hprogram]
    unfold after_retry LeftOver
    by_cases hfailed : b.mkdir = .failed
    · rw [if_pos hfailed]
      simp [hfailed]
    · rw [if_neg hfailed]
      cases hleft : b.leaves_archive <;> simp [hfailed, hleft, Remote.uploaded]

/-- Every run is retried to its end, or up to an attempt that is not. -/
theorem last_attempt (cb : Callbacks) (attempts : List Attempt) :
    (∀ b ∈ attempts, Retried cb b) ∨ ∃ retried a later, attempts = retried ++ a :: later ∧
      (∀ b ∈ retried, Retried cb b) ∧ ¬ Retried cb a := by
  induction attempts with
  | nil => exact .inl (List.forall_mem_nil _)
  | cons b attempts ih =>
    by_cases hb : Retried cb b
    · refine ih.imp (fun h => List.forall_mem_cons.mpr ⟨hb, h⟩) ?_
      rintro ⟨retried, a, later, rfl, hretried, ha⟩
      exact ⟨b :: retried, a, later, rfl, List.forall_mem_cons.mpr ⟨hb, hretried⟩, ha⟩
    · exact .inr ⟨[], b, attempts, rfl, List.forall_mem_nil _, hb⟩

theorem clean_up_eq (h : a.Cleans) (existed : Bool) (p : Progress) : clean_up a existed p =
    ⟨existed && p.remote.dir, none, if p.extraction_started then none else p.remote.program⟩ := by
  unfold clean_up
  rw [h.pax_check, h.pax_unlink, h.program_check, h.program_unlink, h.rmdir]
  cases existed <;> cases p.extraction_started <;> simp

/-! The end of a run. -/

/-- What a failed install is to leave as it was. -/
def Kept (prior : Prior) (remote : Remote) (overwritten : Bool) : Prop :=
  (prior.remote.dir = false → remote.dir = false) ∧ remote.archive ≠ some .uploaded ∧
    (overwritten = false → prior.remote.program = some .prior → remote.program = some .prior)

/-- The install has failed for another reason than an expired password. -/
def Fails (outcome : Outcome) : Prop :=
  (outcome.result = .returned false ∨ outcome.result = .throws) ∧ outcome.verifying = false ∧
    outcome.expired = false

section

variable {prior : Prior} {retried : List Attempt}

theorem prior_archive (prior : Prior) : prior.remote.archive ≠ some .uploaded := by
  cases prior with
  | absent => exact fun h => by cases h
  | present archive program => cases archive <;> exact fun h => by cases h

theorem kept_iff (prior : Prior) (retried : List Attempt) :
    Kept prior (retried.foldl after_retry prior.remote) false ↔
      ¬ (Made prior retried ∨ LeftOver retried) := by
  obtain ⟨hdir, harchive, hprogram⟩ := after_retried retried prior.remote
  have hmade : (prior.remote.dir = false →
      (retried.foldl after_retry prior.remote).dir = false) ↔ ¬ Made prior retried := by
    rw [← Bool.not_eq_true (retried.foldl after_retry prior.remote).dir, hdir]
    unfold Made
    cases prior.remote.dir <;> simp
  rw [Kept, hmade, Ne, harchive, hprogram, or_iff_right (prior_archive prior), not_or]
  exact ⟨fun h => ⟨h.1, h.2.1⟩, fun h => ⟨h.1, h.2, fun _ h => h⟩⟩

theorem kept_uploaded_iff (left : Bool) :
    Kept prior ((retried.foldl after_retry prior.remote).uploaded left) false ↔
      ¬ (prior.remote.dir = false ∨ LeftOver retried ∨ left = true) := by
  obtain ⟨-, harchive, hprogram⟩ := after_retried retried prior.remote
  have harchive' : ((retried.foldl after_retry prior.remote).uploaded left).archive =
      some .uploaded ↔ LeftOver retried ∨ left = true := by
    cases left with
    | false => simp [Remote.uploaded, harchive, prior_archive prior]
    | true => simp [Remote.uploaded]
  rw [Kept, Ne, harchive', not_or (p := prior.remote.dir = false)]
  exact ⟨fun h => ⟨fun hdir => Bool.noConfusion (h.1 hdir), h.2.1⟩,
    fun h => ⟨fun hdir => absurd hdir h.1, h.2, fun _ hp => hprogram.trans hp⟩⟩

/-- The clean-up takes everything away that has not been there at the start of the attempt. -/
theorem kept_clean_up_iff (prior : Prior) (retried : List Attempt) (started overwritten : Bool) :
    Kept prior ⟨(retried.foldl after_retry prior.remote).dir, none,
        if started then none else prior.remote.program⟩ overwritten ↔
      ¬ (Made prior retried ∨
        started = true ∧ prior.remote.program = some .prior ∧ overwritten = false) := by
  obtain ⟨hdir, -, -⟩ := after_retried retried prior.remote
  have hmade : (prior.remote.dir = false →
      (retried.foldl after_retry prior.remote).dir = false) ↔ ¬ Made prior retried := by
    rw [← Bool.not_eq_true (retried.foldl after_retry prior.remote).dir, hdir]
    unfold Made
    cases prior.remote.dir <;> simp
  rw [Kept, hmade, not_or]
  refine and_congr_right fun _ => ?_
  cases started with
  | false => simp
  | true => cases overwritten <;> simp

theorem Deployed.returns {r : Remote} {p : Progress} {step : Step}
    (h : Deployed cb a r p (some (.returns step))) : step = .expired ∨
      p.overwritten = false ∧ (step = .mkdir ∧ p.remote = r ∨
        step = .space ∧ p.remote = r.uploaded false ∨
        step = .upload ∧ p.remote = r.uploaded a.leaves_archive) := by
  generalize hway : some (Way.returns step) = way at h
  cases h with
  | mkdir_throws => cases hway
  | mkdir_failed =>
    obtain hask | hask | hask := ask_retry_cases cb .mkdir a.mkdir_answer
    all_goals rw [hask] at hway
    all_goals cases hway
    exact .inr ⟨rfl, .inl ⟨rfl, rfl⟩⟩
  | space _ hways =>
    obtain rfl := Option.some.inj hway
    obtain h | h | h | h | h := hways
    all_goals cases h
    · exact .inr ⟨rfl, .inr (.inl ⟨rfl, rfl⟩)⟩
    · exact .inl rfl
  | upload _ hways =>
    obtain rfl := Option.some.inj hway
    obtain h | h | h | h := hways
    · obtain hask | hask | hask := ask_retry_cases cb .upload a.upload_answer
      all_goals rw [hask] at h
      all_goals cases h
      exact .inr ⟨rfl, .inr (.inr ⟨rfl, rfl⟩)⟩
    all_goals cases h
    exact .inl rfl
  | extract _ hways =>
    obtain rfl := Option.some.inj hway
    obtain h | h | h | h := hways
    all_goals cases h
    exact .inl rfl
  | through => cases hway

theorem Deployed.throws {r : Remote} {p : Progress} {step : Step}
    (h : Deployed cb a r p (some (.throws step))) : step = .expired ∨
      (r.dir && p.remote.dir) = r.dir ∧
        (step ≠ .extract ∧ p.extraction_started = false ∧ p.remote.program = r.program ∧
            p.overwritten = false ∨
          step = .extract ∧ p.extraction_started = true ∧ p.overwritten = a.overwrites) := by
  have hthere : (r.dir && true) = r.dir := Bool.and_true _
  generalize hway : some (Way.throws step) = way at h
  cases h with
  | mkdir_throws ran =>
    obtain rfl := Way.throws.inj (Option.some.inj hway)
    exact .inr ⟨by cases r.dir <;> rfl, .inl ⟨by decide, rfl, rfl, rfl⟩⟩
  | mkdir_failed =>
    obtain hask | hask | hask := ask_retry_cases cb .mkdir a.mkdir_answer
    all_goals rw [hask] at hway
    all_goals cases hway
    exact .inr ⟨Bool.and_self _, .inl ⟨by decide, rfl, rfl, rfl⟩⟩
  | space _ hways =>
    obtain rfl := Option.some.inj hway
    obtain h | h | h | h | h := hways
    all_goals cases h
    · exact .inr ⟨hthere, .inl ⟨by decide, rfl, rfl, rfl⟩⟩
    · exact .inl rfl
  | upload _ hways =>
    obtain rfl := Option.some.inj hway
    obtain h | h | h | h := hways
    · obtain hask | hask | hask := ask_retry_cases cb .upload a.upload_answer
      all_goals rw [hask] at h
      all_goals cases h
      exact .inr ⟨hthere, .inl ⟨by decide, rfl, rfl, rfl⟩⟩
    all_goals cases h
    exact .inl rfl
  | extract _ hways =>
    obtain rfl := Option.some.inj hway
    have hdir : (InstallServer.extract a.overwrites ⟨r.uploaded true, false, false⟩).remote.dir = true := by
      cases a.overwrites <;> rfl
    obtain h | h | h | h := hways
    all_goals cases h
    · exact .inr ⟨by rw [hdir, hthere], .inr ⟨rfl, rfl, rfl⟩⟩
    · exact .inl rfl
  | through => cases hway

/-- At the attempt that is not retried. -/
theorem ends_iff (hlast : ¬ Retried cb a) (hcleans : a.Cleans) (later : List Attempt) :
    (Fails (install_server cb (a :: later) (retried.foldl after_retry prior.remote)) →
      Kept prior (install_server cb (a :: later) (retried.foldl after_retry prior.remote)).remote
        (install_server cb (a :: later)
          (retried.foldl after_retry prior.remote)).overwritten) ↔
      ¬ EndsBehind cb prior retried a := by
  cases hcheck : a.initial_check with
  | throws =>
    have hends : EndsBehind cb prior retried a ↔ Made prior retried ∨ LeftOver retried := by
      simp [EndsBehind, hcheck]
    rw [install_throws hcheck, hends, ← kept_iff]
    exact ⟨fun h => h ⟨.inr rfl, rfl, rfl⟩, fun h _ => h⟩
  | expired =>
    have hends : ¬ EndsBehind cb prior retried a := by
      simp [EndsBehind, hcheck]
    refine iff_of_true (fun hfails => ?_) hends
    rw [Fails, (install_expired hcheck).1] at hfails
    cases hfails.2.2
  | done =>
    obtain ⟨hnone, -, hreturns, hrethrows, hthrows⟩ :=
      @install_way cb a later (retried.foldl after_retry prior.remote) hcheck
    have hdeployed := deployed cb a (retried.foldl after_retry prior.remote)
    rw [deploy_way] at hdeployed
    obtain ⟨-, -, hprogram⟩ := after_retried retried prior.remote
    generalize (deploy cb a ⟨retried.foldl after_retry prior.remote, false, false⟩).1 = p
      at hdeployed hnone hreturns hrethrows hthrows
    cases hway : a.way cb with
    | none =>
      have hends : ¬ EndsBehind cb prior retried a := by
        simp [EndsBehind, hcheck, hway]
      refine iff_of_true (fun hfails => ?_) hends
      rw [hnone hway, Fails, finish, hcleans.unlink, if_neg (by simp)] at hfails
      cases hfails.2.1
    | some way =>
      rw [hway] at hdeployed
      cases way with
      | retries => exact absurd ⟨hcheck, hway⟩ hlast
      | rethrows =>
        have hends : ¬ EndsBehind cb prior retried a := by
          simp [EndsBehind, hcheck, hway]
        refine iff_of_true (fun hfails => ?_) hends
        rw [hrethrows hway, Fails] at hfails
        cases hfails.2.2
      | returns step =>
        rw [hreturns step hway]
        obtain rfl | ⟨hoverwritten, ⟨rfl, hremote⟩ | ⟨rfl, hremote⟩ | ⟨rfl, hremote⟩⟩ :=
          hdeployed.returns
        · have hends : ¬ EndsBehind cb prior retried a := by
            simp [EndsBehind, hcheck, hway]
          exact iff_of_true (fun hfails => by cases hfails.2.2) hends
        · have hends : EndsBehind cb prior retried a ↔ Made prior retried ∨ LeftOver retried := by
            simp [EndsBehind, hcheck, hway]
          refine (imp_iff_right (show Fails _ from ⟨.inl rfl, rfl, rfl⟩)).trans ?_
          rw [hremote, hoverwritten, kept_iff, hends]
        · have hends : EndsBehind cb prior retried a ↔
              prior.remote.dir = false ∨ LeftOver retried ∨ false = true := by
            simp [EndsBehind, hcheck, hway]
          refine (imp_iff_right (show Fails _ from ⟨.inl rfl, rfl, rfl⟩)).trans ?_
          rw [hremote, hoverwritten, kept_uploaded_iff, hends]
        · have hends : EndsBehind cb prior retried a ↔
              prior.remote.dir = false ∨ LeftOver retried ∨ a.leaves_archive = true := by
            simp [EndsBehind, hcheck, hway]
          refine (imp_iff_right (show Fails _ from ⟨.inl rfl, rfl, rfl⟩)).trans ?_
          rw [hremote, hoverwritten, kept_uploaded_iff, hends]
      | throws step =>
        rw [hthrows step hway]
        by_cases hexpired : step = .expired
        · have hends : ¬ EndsBehind cb prior retried a := by
            simp [EndsBehind, hcheck, hway, hexpired]
          refine iff_of_true (fun hfails => ?_) hends
          rw [hexpired] at hfails
          cases hfails.2.2
        · have hends : EndsBehind cb prior retried a ↔ Made prior retried ∨
              step = .extract ∧ prior.remote.program = some .prior ∧ a.overwrites = false := by
            simp [EndsBehind, hcheck, hway, hexpired]
          have hnot : (decide (step = .expired) || decide (a.pax_check = .expired)) = false := by
            simp [hexpired, hcleans.pax_check]
          refine (imp_iff_right (show Fails _ from ⟨.inl rfl, rfl, hnot⟩)).trans ?_
          obtain ⟨hdir, hstep⟩ := hdeployed.throws.resolve_left hexpired
          dsimp only
          rw [clean_up_eq hcleans, hdir, hends]
          obtain ⟨hne, hstarted, hkept, -⟩ | ⟨rfl, hstarted, hoverwritten⟩ := hstep
          · have h := kept_clean_up_iff prior retried false p.overwritten
            rw [hstarted, hkept, hprogram]
            simpa [hne] using h
          · have h := kept_clean_up_iff prior retried true p.overwritten
            rw [hstarted, hoverwritten]
            rw [hoverwritten] at h
            simpa using h

end

theorem EndsBehind.not_retried {prior : Prior} {retried : List Attempt}
    (h : EndsBehind cb prior retried a) : ¬ Retried cb a := by
  rintro ⟨hcheck, hway⟩
  obtain ⟨hthrows, -⟩ | ⟨-, h⟩ := h
  · rw [hcheck] at hthrows
    cases hthrows
  · rw [hway] at h
    obtain ⟨h, -⟩ | ⟨h, -⟩ | ⟨h, -⟩ | ⟨⟨_, -, h⟩, -⟩ | ⟨h, -⟩ := h
    all_goals cases h

/-- The attempt that a run has returned true from. -/
theorem installed_attempt (hlast : ¬ Retried cb a) {later : List Attempt} {r : Remote}
    (h : (install_server cb (a :: later) r).result = .returned true) : a.upload = .ok ∧
      ((∃ expired, a.pax = .ok expired) ∨
        (∃ expired wrote, a.pax = .failed expired wrote) ∧ cb.on_error = true ∧
          a.pax_answer = .go_on) ∧
      (a.verify = .ok ∨ a.verify = .failed ∧ cb.on_error = true ∧ a.verify_answer = .go_on) := by
  cases hcheck : a.initial_check with
  | throws =>
    rw [install_throws hcheck] at h
    cases h
  | expired => exact absurd h (install_expired hcheck).2
  | done =>
    obtain ⟨hnone, -, hreturns, hrethrows, hthrows⟩ := @install_way cb a later r hcheck
    cases hway : a.way cb with
    | some way =>
      cases way with
      | retries => exact absurd ⟨hcheck, hway⟩ hlast
      | rethrows =>
        rw [hrethrows hway] at h
        cases h
      | returns step =>
        rw [hreturns step hway] at h
        cases h
      | throws step =>
        rw [hthrows step hway] at h
        cases h
    | none =>
      have hdeployed := deployed cb a r
      rw [deploy_way, hway] at hdeployed
      rw [hnone hway] at h
      generalize (deploy cb a ⟨r, false, false⟩).1 = p at hdeployed h
      cases hdeployed with
      | through _ hupload hpax =>
        refine ⟨hupload, hpax, ?_⟩
        unfold finish at h
        split at h
        next => cases h
        next =>
          dsimp only at h
          split at h
          next => cases h
          next hverify => exact .inl hverify
          next hverify =>
            split at h
            next hon =>
              split at h
              next hanswer => exact .inr ⟨hverify, hon, hanswer⟩
              next => cases h
              next => cases h
            next => cases h

/-- A failed install is undone just where its last attempt does not end in such a branch. -/
theorem undone_iff (cb : Callbacks) (prior : Prior) (attempts : List Attempt) :
    Undone cb prior attempts ↔ ¬ LeavesBehind cb prior attempts := by
  have hunfinished (h : ∀ b ∈ attempts, Retried cb b) :
      (install_server cb attempts prior.remote).result = .unfinished := by
    have := install_after h [] prior.remote
    rw [List.append_nil] at this
    rw [this, install_server]
  constructor
  · rintro h ⟨hcleans, retried, a, later, rfl, hretried, hends⟩
    have ha : a.Cleans := hcleans a (List.mem_append_right _ List.mem_cons_self)
    refine (ends_iff hends.not_retried ha later).mp (fun hfails => ?_) hends
    exact h.undone hcleans _ (install_after hretried _ _) hfails.1 hfails.2.1 hfails.2.2
  · intro h
    obtain hall | ⟨retried, a, later, rfl, hretried, hlast⟩ := last_attempt cb attempts
    · refine ⟨fun _ outcome houtcome hresult => ?_, fun hresult => ?_⟩
      · rw [← houtcome, hunfinished hall] at hresult
        obtain hresult | hresult := hresult
        all_goals cases hresult
      · rw [hunfinished hall] at hresult
        cases hresult
    · refine ⟨fun hcleans outcome houtcome hresult hverifying hexpired => ?_, fun hresult => ?_⟩
      · have ha : a.Cleans := hcleans a (List.mem_append_right _ List.mem_cons_self)
        have hends : ¬ EndsBehind cb prior retried a := fun hends =>
          h ⟨hcleans, retried, a, later, rfl, hretried, hends⟩
        rw [install_after hretried] at houtcome
        subst houtcome
        exact (ends_iff hlast ha later).mpr hends ⟨hresult, hverifying, hexpired⟩
      · rw [install_after hretried] at hresult
        refine ⟨retried, a, later, rfl, fun b hb => ?_, installed_attempt hlast hresult⟩
        rw [deploy_way]
        exact (hretried b hb).2

/-- The space is not enough and the user declines: the directory that was made for the server is
left there. -/
theorem declined_directory_left : ¬ Undone ⟨false, true⟩ .absent [{
    initial_check := .done
    expired_answer := .stop
    mkdir := .ok false
    mkdir_answer := .stop
    df := .result 10 false
    space_answer := .stop
    upload := .ok
    upload_answer := .stop
    pax := .ok false
    pax_answer := .stop
    pax_check := .done
    pax_unlink := true
    program_check := true
    program_unlink := true
    rmdir := true
    unlink := true
    unlink_answer := .stop
    verify := .ok
    verify_answer := .stop }] := by
  intro h
  have hcleans := h.undone (by
    intro a ha
    obtain rfl := List.mem_singleton.mp ha
    exact ⟨rfl, rfl, rfl, rfl, rfl, rfl⟩) _ rfl
  exact absurd ((hcleans (.inl rfl) rfl rfl).1 rfl) (by decide)

end Zowex.sdk.InstallServer

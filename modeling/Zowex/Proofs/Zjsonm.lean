import Zowex.Spec.Zjsonm

/-! The storage of the texts that are parsed. The fields that hold it are lost when the copy of the
instance is copied back, so that no end of an instance finds it. -/

namespace Zowex.zjsonm

variable {json_instance : JSON_INSTANCE} {next : Area} {svc : Service}

/-- What a call does on an instance without a text. Of its areas, numbered from the next one on,
that of a text stays. -/
structure Leaves (call : Call) (next : Area) (done : Done) : Prop where
  json : done.json_instance.json = none
  next_le : next ≤ done.next
  released : ∀ size area, Event.storage_release size area ∈ done.events →
    next ≤ area ∧ area < done.next ∧ call.parses = false
  obtained : ∀ size area, Event.storage_obtain31 size area ∈ done.events →
    next ≤ area ∧ area < done.next

/-- A call that releases all that it obtains. -/
theorem Leaves.of_kept {call : Call} {done : Done} (hparses : call.parses = false)
    (hjson : done.json_instance.json = none) (hnext : next ≤ done.next)
    (hareas : ∀ event ∈ done.events, ∃ size area, next ≤ area ∧ area < done.next ∧
      (event = .storage_obtain31 size area ∨ event = .storage_release size area)) :
    Leaves call next done := by
  refine ⟨hjson, hnext, ?_, ?_⟩
  · intro size area h
    obtain ⟨size', area', hle, hlt, heq⟩ := hareas _ h
    rcases heq with heq | heq
    · cases heq
    · cases heq
      exact ⟨hle, hlt, hparses⟩
  · intro size area h
    obtain ⟨size', area', hle, hlt, heq⟩ := hareas _ h
    rcases heq with heq | heq
    · cases heq
      exact ⟨hle, hlt⟩
    · cases heq

theorem call_leaves (call : Call) (svc : Service) (next : Area)
    (hjson : json_instance.json = none) :
    Leaves call next (call.run svc json_instance next) := by
  have hplain (call : Call) (h : call.parses = false) :
      Leaves call next (plain_call svc json_instance next) :=
    .of_kept h hjson le_rfl fun event hevent => absurd hevent List.not_mem_nil
  have hsearch (call : Call) (key : Bytes) (h : call.parses = false) :
      Leaves call next (search_call svc json_instance next key) := by
    refine .of_kept h hjson (Nat.le_succ next) fun event hevent => ?_
    simp only [search_call, List.mem_cons, List.not_mem_nil, or_false] at hevent
    exact ⟨_, next, le_rfl, Nat.lt_succ_self next, hevent⟩
  cases call with
  | ZJSMPARS json =>
    refine ⟨hjson, Nat.le_succ next, ?_, ?_⟩
    · intro size area h
      cases List.mem_singleton.mp h
    · intro size area h
      cases List.mem_singleton.mp h
      exact ⟨le_rfl, Nat.lt_succ_self next⟩
  | ZJSMSENC => exact .of_kept rfl hjson le_rfl fun event hevent => absurd hevent List.not_mem_nil
  | ZJSMSRCH key => exact hsearch _ key rfl
  | ZJSMSSRC key => exact hsearch _ key rfl
  | ZJSMSERI buffer_length =>
    refine .of_kept rfl hjson (Nat.le_succ next) fun event hevent => ?_
    simp only [Call.run, ZJSMSERI, List.mem_cons, List.not_mem_nil, or_false] at hevent
    rcases hevent with rfl | rfl
    · exact ⟨_, next, le_rfl, Nat.lt_succ_self next, .inl rfl⟩
    · exact ⟨_, next, le_rfl, Nat.lt_succ_self next, .inr rfl⟩
  | ZJSMGOEN key_buffer_length =>
    rw [Call.run, ZJSMGOEN]
    split_ifs
    · refine .of_kept rfl hjson (Nat.le_succ next) fun event hevent => ?_
      simp only [List.mem_cons, List.not_mem_nil, or_false] at hevent
      rcases hevent with rfl | rfl
      · exact ⟨_, next, le_rfl, Nat.lt_succ_self next, .inl rfl⟩
      · exact ⟨_, next, le_rfl, Nat.lt_succ_self next, .inr rfl⟩
    · exact .of_kept rfl hjson le_rfl fun event hevent => absurd hevent List.not_mem_nil
  | ZJSMCREN entry_name entry_value =>
    refine .of_kept rfl hjson (Nat.le_add_right next 2) fun event hevent => ?_
    have hnext : next < next + 2 := Nat.lt_add_of_pos_right Nat.two_pos
    have hsecond : next + 1 < next + 2 := Nat.lt_succ_self _
    simp only [Call.run, ZJSMCREN, List.mem_cons, List.not_mem_nil, or_false] at hevent
    rcases hevent with rfl | rfl | rfl | rfl
    · exact ⟨_, next, le_rfl, hnext, .inl rfl⟩
    · exact ⟨_, next + 1, Nat.le_succ next, hsecond, .inl rfl⟩
    · exact ⟨_, next, le_rfl, hnext, .inr rfl⟩
    · exact ⟨_, next + 1, Nat.le_succ next, hsecond, .inr rfl⟩
  | ZJSMTERM =>
    have hterm : Call.ZJSMTERM.run svc json_instance next =
        ⟨svc.rc, svc.call json_instance, next, []⟩ := by
      rw [Call.run, ZJSMTERM]
      dsimp only [memcpy, Service.call]
      rw [hjson]
    rw [hterm]
    exact .of_kept rfl hjson le_rfl fun event hevent => absurd hevent List.not_mem_nil
  | _ => exact hplain _ rfl

/-! A run. -/

theorem releases_nil_iff {log : List Step} {area : Area} :
    releases log area = [] ↔
      ∀ step ∈ log, ∀ size, Event.storage_release size area ∉ step.events := by
  rw [releases, List.filterMap_eq_nil_iff]
  constructor
  · intro h step hstep size hevent
    have hnone := h _ (List.mem_flatMap.mpr ⟨step, hstep, hevent⟩)
    dsimp only at hnone
    rw [if_pos rfl] at hnone
    cases hnone
  · intro h event hevent
    obtain ⟨step, hstep, hevent⟩ := List.mem_flatMap.mp hevent
    cases event with
    | storage_obtain31 size area' => rfl
    | storage_release size area' =>
      refine if_neg fun harea => ?_
      subst harea
      exact h step hstep size hevent

/-- A run does nothing to the areas that were obtained before. -/
theorem run_released {calls : List (Call × Service)} {json_instance : JSON_INSTANCE} {next : Area}
    (hjson : json_instance.json = none) {step : Step} (hstep : step ∈ run json_instance next calls)
    {size : ℤ} {area : Area} (hevent : .storage_release size area ∈ step.events ∨
      .storage_obtain31 size area ∈ step.events) : next ≤ area := by
  induction calls generalizing json_instance next with
  | nil => cases hstep
  | cons call calls ih =>
    have hleaves := call_leaves call.1 call.2 next hjson
    rcases List.mem_cons.mp hstep with rfl | hstep
    · exact hevent.elim (fun h => (hleaves.released size area h).1)
        fun h => (hleaves.obtained size area h).1
    · exact hleaves.next_le.trans (ih hleaves.json hstep)

/-- The area of a text is never released. -/
theorem parsed_kept {calls : List (Call × Service)} {json_instance : JSON_INSTANCE} {next : Area}
    (hjson : json_instance.json = none) {step : Step} (hstep : step ∈ run json_instance next calls)
    (hparses : step.call.parses = true) {size : ℤ} {area : Area}
    (hobtained : .storage_obtain31 size area ∈ step.events) :
    ∀ later ∈ run json_instance next calls, ∀ size, .storage_release size area ∉ later.events := by
  induction calls generalizing json_instance next with
  | nil => cases hstep
  | cons call calls ih =>
    have hleaves := call_leaves call.1 call.2 next hjson
    intro later hlater released hreleased
    rcases List.mem_cons.mp hstep with rfl | hstep
    · rcases List.mem_cons.mp hlater with rfl | hlater
      · have hkept := (hleaves.released released area hreleased).2.2
        exact absurd (hparses.symm.trans hkept) (by decide)
      · have hnext := run_released hleaves.json hlater (.inl hreleased)
        exact absurd (hleaves.obtained size area hobtained).2 (Nat.not_lt.mpr hnext)
    · rcases List.mem_cons.mp hlater with rfl | hlater
      · have hnext := run_released hleaves.json hstep (.inr hobtained)
        exact absurd (hleaves.released released area hreleased).2.1 (Nat.not_lt.mpr hnext)
      · exact ih hleaves.json hstep later hlater released hreleased

theorem run_calls (calls : List (Call × Service)) (json_instance : JSON_INSTANCE) (next : Area) :
    (run json_instance next calls).map Step.call = calls.map Prod.fst := by
  induction calls generalizing json_instance next with
  | nil => rfl
  | cons call calls ih => exact congrArg (call.1 :: ·) (ih _ _)

theorem parse_obtains {calls : List (Call × Service)} {json_instance : JSON_INSTANCE} {next : Area}
    {step : Step} (hstep : step ∈ run json_instance next calls)
    (hparses : step.call.parses = true) :
    ∃ size area, .storage_obtain31 size area ∈ step.events := by
  induction calls generalizing json_instance next with
  | nil => cases hstep
  | cons call calls ih =>
    rcases List.mem_cons.mp hstep with rfl | hstep
    · obtain ⟨call, svc⟩ := call
      cases call with
      | ZJSMPARS json => exact ⟨_, next, List.mem_singleton_self _⟩
      | _ => cases hparses
    · exact ih hstep

/-- The storage is balanced just where no text is parsed. -/
theorem balanced_iff (start last : Service) (calls : List (Call × Service)) :
    Balanced (life start calls last) ↔ ∀ call ∈ calls, call.1.parses = false := by
  have hcalls : (life start calls last).map Step.call =
      .ZJSMINIT :: calls.map Prod.fst ++ [.ZJSMTERM] := by
    rw [life, run_calls]
    simp
  constructor
  · intro h call hcall
    by_contra hparses
    rw [Bool.not_eq_false] at hparses
    obtain ⟨step, hstep, hsame⟩ : ∃ step ∈ life start calls last, step.call = call.1 := by
      rw [← List.mem_map, hcalls]
      simp only [List.cons_append, List.mem_cons, List.mem_append]
      exact .inr (.inl (List.mem_map_of_mem hcall))
    rw [← hsame] at hparses
    obtain ⟨size, area, hobtained⟩ := parse_obtains hstep hparses
    obtain ⟨before, after, hlog⟩ := List.append_of_mem hstep
    have hreleased := (h before step after size area hlog hparses hobtained).1
    have hnone : releases (life start calls last) area = [] :=
      releases_nil_iff.mpr (parsed_kept rfl hstep hparses hobtained)
    rw [hnone] at hreleased
    cases hreleased
  · intro h before step after size area hlog hparses
    have hmem : step.call ∈ (life start calls last).map Step.call := by
      rw [hlog]
      simp
    rw [hcalls] at hmem
    simp only [List.cons_append, List.mem_cons, List.mem_append, List.not_mem_nil, or_false]
      at hmem
    rcases hmem with hinit | hmem | hterm
    · rw [hinit] at hparses
      cases hparses
    · obtain ⟨call, hcall, hsame⟩ := List.mem_map.mp hmem
      rw [← hsame, h call hcall] at hparses
      cases hparses
    · rw [hterm] at hparses
      cases hparses

/-- A service that does what it is asked for, and leaves the instance as it was. -/
def succeeds : Service :=
  ⟨0, zero_instance.handle, zero_instance.diag, id⟩

/-- The area of one text is still there after the end. -/
theorem one_text_leaks :
    ¬ Balanced (life succeeds [(.ZJSMPARS (ibm1047.str "1"), succeeds)] succeeds) := by
  intro h
  have hreleased := (h [⟨.ZJSMINIT, []⟩] ⟨.ZJSMPARS (ibm1047.str "1"), [.storage_obtain31 2 0]⟩
    [⟨.ZJSMTERM, []⟩] 2 0 (by decide +kernel) rfl (List.mem_singleton_self _)).1
  cases hreleased

end Zowex.zjsonm

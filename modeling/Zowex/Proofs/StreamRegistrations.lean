import Zowex.Proofs.Promises

/-! A stream is registered with its request, and taken out when the server asks for it. A request that
ends before that leaves it behind. -/

namespace Zowex.sdk

namespace ZSshClient

open Runs

variable {R : Type} {parse : List Char → Option (Message R)} {c c' : ZSshClient R}

/-- Each registered stream is that of a request in the map. -/
def Registered (c : ZSshClient R) : Prop := ∀ p ∈ c.pending_streams, p.id ∈ c.ids

/-- The event ends no request that has a registered stream. -/
def ends_no_stream (parse : List Char → Option (Message R)) (c : ZSshClient R) (e : Event) : Prop :=
  ∀ r ∈ c.request_map, removes parse e r → ∀ p ∈ c.pending_streams, p.id ≠ r.id

/-! What the events do to the registrations. -/

theorem link_pending {id : ℕ} {usable : Stream → Bool}
    (h : c.link_stream_to_promise id usable = some c') :
    ∀ p ∈ c'.pending_streams, ∃ q ∈ c.pending_streams, q.id = p.id := by
  intro p hp
  unfold link_stream_to_promise at h
  split at h
  · cases h
  · split at h
    · cases h
      exact ⟨p, hp, rfl⟩
    · split_ifs at h
      · cases h
        exact ⟨p, List.mem_of_mem_filter hp, rfl⟩
      · cases h
        obtain ⟨q, hq, rfl⟩ := List.mem_map.mp hp
        refine ⟨q, hq, ?_⟩
        split_ifs <;> rfl

theorem notification_pending (c : ZSshClient R) (method : String) (params_id : Option RpcId) :
    ∀ p ∈ (c.handle_notification method params_id).pending_streams,
      ∃ q ∈ c.pending_streams, q.id = p.id := by
  unfold handle_notification
  dsimp only
  split
  next linked hlinked =>
    split at hlinked
    · cases hlinked
    · split_ifs at hlinked
      · exact link_pending hlinked
      · exact link_pending hlinked
  next => exact fun p hp => ⟨p, hp, rfl⟩

theorem response_pending (c : ZSshClient R) (r : ExistingClientRequest) (error : Option R)
    (result : R) : (c.handle_response r error result).pending_streams = c.pending_streams := by
  unfold handle_response
  by_cases hsilenced : r.silenced = true
  · rw [if_pos hsilenced]
    rfl
  · rw [if_neg hsilenced]
    cases error with
    | none =>
      dsimp only
      by_cases hlinks : r.links = 0
      · rw [if_pos hlinks]
        rfl
      · rw [if_neg hlinks]
        rfl
    | some error => rfl

theorem line_pending (c : ZSshClient R) (line : List Char) :
    ∀ p ∈ (c.on_line parse line).pending_streams, ∃ q ∈ c.pending_streams, q.id = p.id := by
  have hsame : ∀ p ∈ c.pending_streams, ∃ q ∈ c.pending_streams, q.id = p.id :=
    fun p hp => ⟨p, hp, rfl⟩
  unfold on_line
  split_ifs
  · exact hsame
  · rcases parse line with _ | ⟨id, error, result⟩ | ⟨id, method, params_id⟩
    · exact hsame
    · dsimp only [on_message]
      rcases c.find (some id) with _ | r
      · exact hsame
      · dsimp only
        rw [response_pending]
        exact hsame
    · dsimp only [on_message]
      rcases c.find (id.or params_id) with _ | r
      · exact hsame
      · exact notification_pending c method params_id

/-- A response leaves the registrations alone. -/
theorem answer_pending {line : List Char} {id : ℕ} (h : answers parse line id) :
    (c.on_line parse line).pending_streams = c.pending_streams := by
  obtain ⟨hline, error, result, hparse⟩ := h
  rw [on_line, if_neg hline, hparse]
  dsimp only [on_message]
  rcases c.find (some (.number id)) with _ | r
  · rfl
  · exact response_pending c r error result

theorem timeout_pending (c : ZSshClient R) (id : ℕ) :
    (c.on_timeout id).pending_streams = c.pending_streams := by
  unfold on_timeout
  dsimp only
  split
  · rfl
  · split_ifs <;> rfl

theorem reject_all_pending (c : ZSshClient R) (why : Rejection R) :
    (c.reject_all why).pending_streams = c.pending_streams := by
  rw [reject_all_eq]

theorem stream_end_pending (c : ZSshClient R) (w : Awaiting R) (ok : Bool) :
    (c.on_stream_end w ok).pending_streams = c.pending_streams := by
  unfold on_stream_end
  dsimp only
  split_ifs <;> rfl

/-- A registration is an old one, or that of the request that is made. -/
theorem step_pending {e : Event} (h : step parse c e = some c') :
    ∀ p ∈ c'.pending_streams, (∃ q ∈ c.pending_streams, q.id = p.id) ∨ p.id ∈ c'.ids := by
  intro p hp
  cases e with
  | request stdin_writable streams =>
    obtain rfl := Option.some.inj h
    unfold request at hp ⊢
    split_ifs at hp ⊢
    · exact .inl ⟨p, hp, rfl⟩
    · rcases List.mem_append.mp hp with hp | hp
      · exact .inl ⟨p, hp, rfl⟩
      · right
        rw [Option.mem_toList] at hp
        obtain ⟨stream, -, rfl⟩ := Option.map_eq_some_iff.mp hp
        simp [ids]
  | line line =>
    obtain rfl := Option.some.inj h
    exact .inl (line_pending c line p hp)
  | timeout id =>
    rw [step] at h
    split_ifs at h
    obtain rfl := Option.some.inj h
    rw [timeout_pending] at hp
    exact .inl ⟨p, hp, rfl⟩
  | keep_alive id =>
    rw [step] at h
    split_ifs at h
    obtain rfl := Option.some.inj h
    unfold refresh at hp
    split_ifs at hp
    · exact .inl ⟨p, hp, rfl⟩
    · exact .inl ⟨p, hp, rfl⟩
  | stream_end id ok =>
    obtain ⟨w, -, rfl⟩ := Option.map_eq_some_iff.mp h
    rw [stream_end_pending] at hp
    exact .inl ⟨p, hp, rfl⟩
  | collect_all_requests silence =>
    obtain rfl := Option.some.inj h
    exact .inl ⟨p, hp, rfl⟩
  | dispose is_restart =>
    obtain rfl := Option.some.inj h
    rw [dispose] at hp
    dsimp only at hp
    rw [reject_all_pending] at hp
    exact .inl ⟨p, hp, rfl⟩
  | disconnect reason =>
    obtain rfl := Option.some.inj h
    unfold handle_disconnect at hp
    split_ifs at hp
    · exact .inl ⟨p, hp, rfl⟩
    · exact .inl ⟨p, hp, rfl⟩
  | on_close_done =>
    obtain ⟨reason, -, rfl⟩ := Option.map_eq_some_iff.mp h
    rw [reject_pending_requests] at hp
    dsimp only at hp
    rw [reject_all_pending] at hp
    exact .inl ⟨p, hp, rfl⟩

/-- What ends a request takes no registration out. -/
theorem removes_pending {e : Event} {r : ExistingClientRequest} (h : step parse c e = some c')
    (hremoves : removes parse e r) : c'.pending_streams = c.pending_streams := by
  cases e with
  | line line =>
    obtain rfl := Option.some.inj h
    exact answer_pending hremoves
  | timeout id =>
    rw [step] at h
    split_ifs at h
    obtain rfl := Option.some.inj h
    exact timeout_pending c id
  | dispose is_restart =>
    obtain rfl := Option.some.inj h
    exact reject_all_pending _ _
  | on_close_done =>
    obtain ⟨reason, -, rfl⟩ := Option.map_eq_some_iff.mp h
    exact reject_all_pending _ _
  | _ => exact hremoves.elim

theorem registered_step_iff {e : Event} (hcounted : Counted c) (hregistered : Registered c)
    (h : step parse c e = some c') : Registered c' ↔ ends_no_stream parse c e := by
  obtain ⟨calls, haccounted⟩ := step_accounted hcounted h
  constructor
  · intro hnext r hr hremoves p hp hid
    rw [← removes_pending h hremoves] at hp
    have hgone := (haccounted.leaves r hr).mpr hremoves
    exact hgone (hid ▸ hnext p hp)
  · intro hends p hp
    rcases step_pending h p hp with ⟨q, hq, hid⟩ | hid
    · obtain ⟨r, hr, hrid⟩ := List.mem_map.mp (hregistered q hq)
      by_contra hgone
      rw [← hid, ← hrid] at hgone
      exact hends r hr ((haccounted.leaves r hr).mp hgone) q hq hrid.symm
    · exact hid

/-- In the states of a run each registered stream is that of a request in the map if no event of the
run ends a request whose stream is still registered, and only then. -/
theorem registered_iff_ends_no_stream {tr : List (ZSshClient R × Event)}
    (hrun : Run (step parse) start tr c) :
    (∀ u ∈ states tr c, Registered u) ↔ Steps (ends_no_stream parse) tr := by
  constructor
  · intro hregistered p hp
    obtain ⟨u', hu', hstep⟩ := hrun.next_mem hp
    have hu : p.1 ∈ states tr c := List.mem_append_left _ (List.mem_map_of_mem hp)
    have hfree : Steps (fun _ _ => True) tr := fun _ _ => trivial
    have hcounted := hrun.always hfree counted_start (fun hu _ hstep => Counted.step hu hstep)
    exact (registered_step_iff (hcounted _ hu) (hregistered _ hu) hstep).mp (hregistered u' hu')
  · intro hok u hu
    have hstart : Registered (start : ZSshClient R) := fun p hp => absurd hp List.not_mem_nil
    have hkept {u u' : ZSshClient R} {e : Event} (hu : Counted u ∧ Registered u)
        (hends : ends_no_stream parse u e) (hstep : step parse u e = some u') :
        Counted u' ∧ Registered u' :=
      ⟨hu.1.step hstep, (registered_step_iff hu.1 hu.2 hstep).mpr hends⟩
    exact (hrun.always hok ⟨counted_start, hstart⟩ hkept u hu).2

/-- A request that is not answered yet. -/
theorem registered_request :
    (∀ u ∈ states [((start : ZSshClient (List Char)), Event.request true (some []))]
        (start.request true (some [])), Registered u) ↔
      Steps (ends_no_stream parse_result)
        [((start : ZSshClient (List Char)), Event.request true (some []))] :=
  registered_iff_ends_no_stream (Run.nil.snoc (a := Event.request true (some [])) rfl)

/-- A request with a stream times out before the server has asked for the stream. -/
theorem timed_out_stream_registered :
    ∃ tr c, Run (step parse_result) start tr c ∧ ¬ Registered c := by
  refine ⟨_, _, (Run.nil.snoc (a := Event.request true (some [])) rfl).snoc
    (a := .timeout 1) rfl, fun hregistered => ?_⟩
  have hid : 1 ∈ ids _ := hregistered ⟨1, []⟩ List.mem_cons_self
  revert hid
  decide +kernel

end ZSshClient

end Zowex.sdk

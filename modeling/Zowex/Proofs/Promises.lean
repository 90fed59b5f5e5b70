import Zowex.Proofs.Framing
import Zowex.Proofs.RequestMap

/-! When a request leaves the map and when its promise is settled, over all runs of a client, and
which runs keep every request under a timeout. -/

namespace Zowex.sdk

namespace ZSshClient

open Runs

variable {R : Type} {parse : List Char → Option (Message R)} {c c' : ZSshClient R}

/-- The event takes the request out of the map. -/
def removes (parse : List Char → Option (Message R)) (e : Event) (r : ExistingClientRequest) :
    Prop :=
  match e with
  | .line line => answers parse line r.id
  | .timeout id => id = r.id
  | .dispose _ => True
  | .on_close_done => r.silenced = false
  | _ => False

/-- The event is a result that waits for the streams of the request. -/
def hands_over (parse : List Char → Option (Message R)) (e : Event) (r : ExistingClientRequest) :
    Prop :=
  match e with
  | .line line => r.links ≠ 0 ∧ line ≠ [] ∧
      ∃ result, parse line = some (.response (.number r.id) none result)
  | _ => False

theorem removes_of_hands_over {e : Event} {r : ExistingClientRequest}
    (h : hands_over parse e r) : removes parse e r := by
  cases e with
  | line line =>
    obtain ⟨-, hline, result, hparse⟩ := h
    exact ⟨hline, none, result, hparse⟩
  | _ => exact h.elim

/-- Which requests an event takes out of the map, and for which of them, and for which else, it
settles the promise. -/
structure Accounted (parse : List Char → Option (Message R)) (c : ZSshClient R) (e : Event)
    (c' : ZSshClient R) (calls : List (Settle R)) : Prop where
  settled : c'.settled = c.settled ++ calls
  leaves : ∀ r ∈ c.request_map, r.id ∉ c'.ids ↔ removes parse e r
  called : ∀ r ∈ c.request_map, r.id ∈ calls.map Settle.id ↔
    removes parse e r ∧ r.silenced = false ∧ ¬ hands_over parse e r
  waits : ∀ r ∈ c.request_map, r.silenced = false → hands_over parse e r →
    ∃ w ∈ c'.awaiting, w.id = r.id
  others : ∀ id ∈ calls.map Settle.id, id ∈ c.ids ∨ ∃ ok, e = .stream_end id ok

theorem mem_ids {r : ExistingClientRequest} (hr : r ∈ c.request_map) : r.id ∈ c.ids :=
  List.mem_map_of_mem hr

theorem accounted_idle {e : Event} (hids : ∀ id ∈ c.ids, id ∈ c'.ids)
    (hsettled : c'.settled = c.settled) (h : ∀ r ∈ c.request_map, ¬ removes parse e r) :
    Accounted parse c e c' [] where
  settled := hsettled.trans (List.append_nil _).symm
  leaves r hr := iff_of_false (not_not_intro (hids _ (mem_ids hr))) (h r hr)
  called r hr := iff_of_false List.not_mem_nil fun hcalled => h r hr hcalled.1
  waits r hr _ hover := absurd (removes_of_hands_over hover) (h r hr)
  others _ hid := absurd hid List.not_mem_nil

theorem accounted_takes {e : Event} {r : ExistingClientRequest} {calls : List (Settle R)}
    {waits : List (Awaiting R)} (htakes : Takes c c' r.id calls waits) (hnodup : c.ids.Nodup)
    (hr : r ∈ c.request_map) (h : ∀ r' ∈ c.request_map, removes parse e r' ↔ r'.id = r.id)
    (hcalled : r.id ∈ calls.map Settle.id ↔ r.silenced = false ∧ ¬ hands_over parse e r)
    (hwaits : r.silenced = false → hands_over parse e r → ∃ w ∈ waits, w.id = r.id) :
    Accounted parse c e c' calls := by
  have honly : ∀ id ∈ calls.map Settle.id, id = r.id := fun id hid =>
    List.mem_singleton.mp (htakes.once.subset (List.mem_append_right _ hid))
  refine ⟨htakes.settled, ?_, ?_, ?_, ?_⟩
  · intro r' hr'
    rw [h r' hr', htakes.ids, List.mem_filter, not_and]
    simp [mem_ids hr']
  · intro r' hr'
    rw [h r' hr']
    constructor
    · intro hid
      obtain rfl := eq_of_id hnodup hr' hr (honly _ hid)
      exact ⟨rfl, hcalled.mp hid⟩
    · rintro ⟨hid, hcall⟩
      obtain rfl := eq_of_id hnodup hr' hr hid
      exact hcalled.mpr hcall
  · intro r' hr' hsilenced hover
    obtain rfl := eq_of_id hnodup hr' hr ((h r' hr').mp (removes_of_hands_over hover))
    obtain ⟨w, hw, hwid⟩ := hwaits hsilenced hover
    refine ⟨w, ?_, hwid⟩
    rw [htakes.awaiting]
    exact List.mem_append_right _ hw
  · intro id hid
    rw [honly id hid]
    exact .inl (mem_ids hr)

theorem accounted_rejects {e : Event} {why : Rejection R} (hrejects : RejectsAll c c' why)
    (hnodup : c.ids.Nodup) (hleaves : ∀ r ∈ c.request_map, r.id ∉ c'.ids ↔ removes parse e r)
    (hremoves : ∀ r ∈ c.request_map, r.silenced = false → removes parse e r)
    (hover : ∀ r, ¬ hands_over parse e r) :
    Accounted parse c e c' ((c.request_map.filter (!·.silenced)).map fun r => .reject r.id why) := by
  have hids : (((c.request_map.filter (!·.silenced)).map fun r =>
      Settle.reject r.id why).map Settle.id) =
        (c.request_map.filter (!·.silenced)).map (·.id) := by
    rw [List.map_map]
    rfl
  have hmem {id : ℕ} (hid : id ∈ (c.request_map.filter (!·.silenced)).map (·.id)) :
      ∃ r ∈ c.request_map, r.silenced = false ∧ r.id = id := by
    obtain ⟨r, hr, hrid⟩ := List.mem_map.mp hid
    obtain ⟨hr, hsilenced⟩ := List.mem_filter.mp hr
    exact ⟨r, hr, by simpa using hsilenced, hrid⟩
  refine ⟨hrejects.settled, hleaves, ?_, fun r _ _ h => absurd h (hover r), ?_⟩
  · intro r hr
    rw [hids]
    constructor
    · intro hid
      obtain ⟨r', hr', hsilenced, hrid⟩ := hmem hid
      obtain rfl := eq_of_id hnodup hr' hr hrid
      exact ⟨hremoves r' hr hsilenced, hsilenced, hover r'⟩
    · rintro ⟨-, hsilenced, -⟩
      exact List.mem_map_of_mem (List.mem_filter.mpr ⟨hr, by simp [hsilenced]⟩)
  · intro id hid
    rw [hids] at hid
    obtain ⟨r, hr, -, rfl⟩ := hmem hid
    exact .inl (mem_ids hr)

theorem line_accounted (hnodup : c.ids.Nodup) (line : List Char) :
    ∃ calls, Accounted parse c (.line line) (c.on_line parse line) calls := by
  rcases on_line_cases parse c line with ⟨hquiet, hno⟩ |
    ⟨r, hr, error, result, hline, hparse, heq⟩
  · refine ⟨[], accounted_idle ?_ hquiet.settled fun r hr => hno r.id (mem_ids hr)⟩
    rw [hquiet.ids]
    exact fun _ hid => hid
  · obtain ⟨calls, waits, htakes, hcases⟩ := handle_response_takes c r error result
    rw [heq]
    refine ⟨calls, accounted_takes htakes hnodup hr ?_ ?_ ?_⟩
    · intro r' _
      constructor
      · rintro ⟨-, error', result', hparse'⟩
        rw [hparse] at hparse'
        simp only [Option.some.injEq, Message.response.injEq, RpcId.number.injEq] at hparse'
        exact hparse'.1.symm
      · intro hid
        exact ⟨hline, error, result, hid ▸ hparse⟩
    · have hover : hands_over parse (.line line) r ↔ r.links ≠ 0 ∧ error = none := by
        constructor
        · rintro ⟨hlinks, -, result', hparse'⟩
          rw [hparse] at hparse'
          simp only [Option.some.injEq, Message.response.injEq] at hparse'
          exact ⟨hlinks, hparse'.2.1⟩
        · rintro ⟨hlinks, rfl⟩
          exact ⟨hlinks, hline, result, hparse⟩
      rw [hover]
      rcases hcases with ⟨hsilenced, rfl, -⟩ | ⟨hsilenced, e, rfl, rfl, -⟩ |
        ⟨hsilenced, rfl, hlinks, rfl, -⟩ | ⟨hsilenced, rfl, hlinks, rfl, -⟩
      · simp [hsilenced]
      · simp [hsilenced, Settle.id]
      · simp [hsilenced, hlinks, Settle.id]
      · simp [hlinks]
    · rintro hsilenced ⟨hlinks, -, result', hparse'⟩
      rw [hparse] at hparse'
      simp only [Option.some.injEq, Message.response.injEq] at hparse'
      rcases hcases with ⟨hs, -⟩ | ⟨-, e, he, -⟩ | ⟨-, -, hl, -⟩ | ⟨-, -, -, -, rfl⟩
      · rw [hsilenced] at hs
        cases hs
      · rw [hparse'.2.1] at he
        cases he
      · exact absurd hl hlinks
      · exact ⟨_, List.mem_singleton_self _, rfl⟩

theorem timeout_accounted (hnodup : c.ids.Nodup) (id : ℕ) :
    ∃ calls, Accounted parse c (.timeout id) (c.on_timeout id) calls := by
  by_cases hid : id ∈ c.ids
  · obtain ⟨r, hr, rfl⟩ := List.mem_map.mp hid
    refine ⟨_, accounted_takes (on_timeout_takes hnodup hr) hnodup hr ?_ ?_ ?_⟩
    · exact fun r' _ => eq_comm
    · cases hsilenced : r.silenced
      · simp [hands_over, Settle.id]
      · simp
    · rintro - ⟨⟩
  · rw [on_timeout_none hid]
    refine ⟨[], accounted_idle (fun _ h => h) rfl ?_⟩
    rintro r hr rfl
    exact hid (mem_ids hr)

theorem step_accounted {e : Event} (hcounted : Counted c) (h : step parse c e = some c') :
    ∃ calls, Accounted parse c e c' calls := by
  have hnodup := hcounted.ids_nodup
  cases e with
  | request stdin_writable streams =>
    obtain rfl := Option.some.inj h
    refine ⟨[], accounted_idle ?_ ?_ fun _ _ => id⟩
    · intro id hid
      unfold request
      split_ifs
      · exact hid
      · simp only [ids, List.map_append]
        exact List.mem_append_left _ hid
    · unfold request
      split_ifs <;> rfl
  | line line =>
    obtain rfl := Option.some.inj h
    exact line_accounted hnodup line
  | timeout id =>
    obtain ⟨-, rfl⟩ := Option.ite_some_none_eq_some.mp h
    exact timeout_accounted hnodup id
  | keep_alive id =>
    obtain ⟨-, rfl⟩ := Option.ite_some_none_eq_some.mp h
    refine ⟨[], ?_⟩
    unfold refresh
    split_ifs
    · exact accounted_idle (fun _ hid => hid) rfl fun _ _ hremoves => hremoves
    · exact accounted_idle (fun _ hid => hid) rfl fun _ _ hremoves => hremoves
  | stream_end id ok =>
    obtain ⟨w, hw, rfl⟩ := Option.map_eq_some_iff.mp h
    obtain ⟨calls, waits, hmap, hsettled, -, -, -, honce, -⟩ := on_stream_end_eq c w ok
    have hid : w.id = id := by simpa using List.find?_some hw
    have honly : ∀ id' ∈ calls.map Settle.id, id' = w.id := fun id' hid' =>
      List.mem_singleton.mp (honce.subset (List.mem_append_right _ hid'))
    refine ⟨calls, hsettled, ?_, ?_, fun r _ _ hover => hover.elim, ?_⟩
    · intro r hr
      rw [ids, hmap]
      exact iff_of_false (not_not_intro (mem_ids hr)) fun hremoves => hremoves
    · intro r hr
      refine iff_of_false (fun hcall => ?_) fun hremoves => hremoves.1
      refine hcounted.not_waiting (mem_ids hr) ?_
      rw [honly _ hcall]
      exact List.mem_map_of_mem (List.mem_of_find?_eq_some hw)
    · intro id' hid'
      rw [honly id' hid', hid]
      exact .inr ⟨ok, rfl⟩
  | collect_all_requests silence =>
    obtain rfl := Option.some.inj h
    refine ⟨[], accounted_idle ?_ rfl fun _ _ hremoves => hremoves⟩
    rw [collect_ids]
    exact fun _ hid => hid
  | dispose is_restart =>
    obtain rfl := Option.some.inj h
    refine ⟨_, accounted_rejects (dispose_rejects c is_restart) hnodup ?_ ?_ fun _ hover => hover⟩
    · exact fun r _ => iff_of_true List.not_mem_nil trivial
    · exact fun r _ _ => trivial
  | disconnect reason =>
    obtain rfl := Option.some.inj h
    refine ⟨[], ?_⟩
    unfold handle_disconnect
    split_ifs
    · exact accounted_idle (fun _ hid => hid) rfl fun _ _ hremoves => hremoves
    · exact accounted_idle (fun _ hid => hid) rfl fun _ _ hremoves => hremoves
  | on_close_done =>
    obtain ⟨reason, -, rfl⟩ := Option.map_eq_some_iff.mp h
    refine ⟨_, accounted_rejects (reject_pending_rejects c reason) hnodup ?_
      (fun _ _ hsilenced => hsilenced) fun _ hover => hover⟩
    intro r hr
    have hids : (c.reject_pending_requests reason).ids =
        (c.request_map.filter (·.silenced)).map (·.id) := rfl
    rw [hids]
    constructor
    · intro hid
      refine Bool.eq_false_iff.mpr fun hsilenced => hid ?_
      exact List.mem_map_of_mem (List.mem_filter.mpr ⟨hr, hsilenced⟩)
    · intro hsilenced hid
      obtain ⟨r', hr', hrid⟩ := List.mem_map.mp hid
      obtain ⟨hr', hsilenced'⟩ := List.mem_filter.mp hr'
      obtain rfl := eq_of_id hnodup hr' hr hrid
      rw [show r'.silenced = false from hsilenced] at hsilenced'
      cases hsilenced'

/-- The promise is resolved with the result, or the result waits for a stream. -/
def Answered (c : ZSshClient R) (id : ℕ) (result : R) : Prop :=
  .resolve id result ∈ c.settled ∨ ∃ w ∈ c.awaiting, w.id = id ∧ w.response = result

/-- The event is the response to the request, with this result. -/
def responds (parse : List Char → Option (Message R)) (e : Event) (id : ℕ) (result : R) : Prop :=
  ∃ line, e = .line line ∧ parse line = some (.response (.number id) none result)

theorem answered_congr {id : ℕ} {result : R} (hsettled : c'.settled = c.settled)
    (hawaiting : c'.awaiting = c.awaiting) (h : Answered c' id result) : Answered c id result := by
  rwa [Answered, hsettled, hawaiting] at h

theorem answered_rejects {id : ℕ} {result : R} {why : Rejection R} (hrejects : RejectsAll c c' why)
    (h : Answered c' id result) : Answered c id result := by
  rw [Answered, hrejects.settled, hrejects.awaiting] at h
  rcases h with h | h
  · rcases List.mem_append.mp h with h | h
    · exact .inl h
    · obtain ⟨r, -, hr⟩ := List.mem_map.mp h
      cases hr
  · exact .inr h

theorem line_answered {line : List Char} {id : ℕ} {result : R}
    (h : Answered (c.on_line parse line) id result) :
    Answered c id result ∨ responds parse (.line line) id result := by
  rcases on_line_cases parse c line with ⟨hquiet, -⟩ | ⟨r, hr, error, result', hline, hparse, heq⟩
  · exact .inl (answered_congr hquiet.settled hquiet.awaiting h)
  · obtain ⟨calls, waits, htakes, hcases⟩ := handle_response_takes c r error result'
    rw [heq, Answered, htakes.settled, htakes.awaiting] at h
    rcases h with h | ⟨w, hw, rfl, rfl⟩
    · rcases List.mem_append.mp h with h | h
      · exact .inl (.inl h)
      · rcases hcases with ⟨-, rfl, -⟩ | ⟨-, e, -, rfl, -⟩ | ⟨-, rfl, -, rfl, -⟩ | ⟨-, -, -, rfl, -⟩
        · cases h
        · cases List.mem_singleton.mp h
        · cases List.mem_singleton.mp h
          exact .inr ⟨line, rfl, hparse⟩
        · cases h
    · rcases List.mem_append.mp hw with hw | hw
      · exact .inl (.inr ⟨w, hw, rfl, rfl⟩)
      · rcases hcases with ⟨-, -, rfl⟩ | ⟨-, e, -, -, rfl⟩ | ⟨-, -, -, -, rfl⟩ | ⟨-, rfl, -, -, rfl⟩
        · cases hw
        · cases hw
        · cases hw
        · cases List.mem_singleton.mp hw
          exact .inr ⟨line, rfl, hparse⟩

theorem step_answered {e : Event} (hnodup : c.ids.Nodup) (h : step parse c e = some c') {id : ℕ}
    {result : R} (hanswered : Answered c' id result) :
    Answered c id result ∨ responds parse e id result := by
  cases e with
  | request stdin_writable streams =>
    obtain rfl := Option.some.inj h
    refine .inl (answered_congr ?_ ?_ hanswered)
    · unfold request
      split_ifs <;> rfl
    · unfold request
      split_ifs <;> rfl
  | line line =>
    obtain rfl := Option.some.inj h
    exact line_answered hanswered
  | timeout id' =>
    obtain ⟨-, rfl⟩ := Option.ite_some_none_eq_some.mp h
    by_cases hid : id' ∈ c.ids
    · obtain ⟨r, hr, rfl⟩ := List.mem_map.mp hid
      have htakes := on_timeout_takes hnodup hr
      rw [Answered, htakes.settled, htakes.awaiting, List.append_nil] at hanswered
      rcases hanswered with hresolve | hwaits
      · rcases List.mem_append.mp hresolve with hresolve | hresolve
        · exact .inl (.inl hresolve)
        · split_ifs at hresolve
          · cases hresolve
          · cases List.mem_singleton.mp hresolve
      · exact .inl (.inr hwaits)
    · rw [on_timeout_none hid] at hanswered
      exact .inl hanswered
  | keep_alive id' =>
    obtain ⟨-, rfl⟩ := Option.ite_some_none_eq_some.mp h
    unfold refresh at hanswered
    split_ifs at hanswered
    · exact .inl hanswered
    · exact .inl hanswered
  | stream_end id' ok =>
    obtain ⟨w, hw, rfl⟩ := Option.map_eq_some_iff.mp h
    obtain ⟨calls, waits, -, hsettled, hawaiting, -, -, -, hwaits, hcalls⟩ :=
      on_stream_end_eq c w ok
    have hmem := List.mem_of_find?_eq_some hw
    rw [Answered, hsettled, hawaiting] at hanswered
    refine .inl ?_
    rcases hanswered with hresolve | ⟨w', hw', rfl, rfl⟩
    · rcases List.mem_append.mp hresolve with hresolve | hresolve
      · exact .inl hresolve
      · obtain ⟨rfl, rfl⟩ := hcalls _ _ hresolve
        exact .inr ⟨w, hmem, rfl, rfl⟩
    · rcases List.mem_append.mp hw' with hw' | hw'
      · exact .inr ⟨w', List.mem_of_mem_filter hw', rfl, rfl⟩
      · obtain ⟨hid, hresponse⟩ := hwaits w' hw'
        exact .inr ⟨w, hmem, hid.symm, hresponse.symm⟩
  | collect_all_requests silence =>
    obtain rfl := Option.some.inj h
    exact .inl hanswered
  | dispose is_restart =>
    obtain rfl := Option.some.inj h
    exact .inl (answered_rejects (dispose_rejects c is_restart) hanswered)
  | disconnect reason =>
    obtain rfl := Option.some.inj h
    unfold handle_disconnect at hanswered
    split_ifs at hanswered
    · exact .inl hanswered
    · exact .inl hanswered
  | on_close_done =>
    obtain ⟨reason, -, rfl⟩ := Option.map_eq_some_iff.mp h
    exact .inl (answered_rejects (reject_pending_rejects c reason) hanswered)

theorem run_counted {tr : List (ZSshClient R × Event)} (hrun : Run (step parse) start tr c) :
    Counted c := by
  induction hrun with
  | nil => exact counted_start
  | snoc _ hstep ih => exact ih.step hstep

theorem run_answered {tr : List (ZSshClient R × Event)} (hrun : Run (step parse) start tr c)
    {id : ℕ} {result : R} (h : Answered c id result) :
    ∃ p ∈ tr, responds parse p.2 id result := by
  induction hrun with
  | nil =>
    rcases h with h | ⟨w, hw, -⟩
    · cases h
    · cases hw
  | snoc hrun hstep ih =>
    rcases step_answered (run_counted hrun).ids_nodup hstep h with h | h
    · obtain ⟨p, hp, hresponds⟩ := ih h
      exact ⟨p, List.mem_append_left _ hp, hresponds⟩
    · exact ⟨_, List.mem_append_right _ (List.mem_singleton_self _), h⟩

/-- In every run each promise is settled at most once, resolved only after the response to its own
request, and each event takes out of the map, and settles, what it accounts for. -/
theorem promises_settled {tr : List (ZSshClient R × Event)} (hrun : Run (step parse) start tr c) :
    c.settled_ids.Nodup ∧
      (∀ id result, .resolve id result ∈ c.settled → ∃ p ∈ tr, responds parse p.2 id result) ∧
      ∀ e c', step parse c e = some c' → ∃ calls, Accounted parse c e c' calls :=
  ⟨(run_counted hrun).settled_nodup, fun _ _ h => run_answered hrun (.inl h),
    fun _ _ h => step_accounted (run_counted hrun) h⟩

theorem promises_settled_request :
    (start.request true none : ZSshClient (List Char)).settled_ids.Nodup ∧
      (∀ id result, .resolve id result ∈ (start.request true none).settled →
        ∃ p ∈ [((start : ZSshClient (List Char)), Event.request true none)],
          responds parse_result p.2 id result) ∧
      ∀ e c', step parse_result (start.request true none) e = some c' →
        ∃ calls, Accounted parse_result (start.request true none) e c' calls :=
  promises_settled (Run.nil.snoc (a := Event.request true none) rfl)

/-- A claimed request stays in the map, and leaves it when it is neither settled nor claimed. -/
theorem claimed_request_stays :
    ∃ tr c c' c'', Run (step parse_result) start tr c ∧
      step parse_result c (.collect_all_requests true) = some c' ∧
      step parse_result c' (.line (result_line ['x'])) = some c'' ∧
      c.ids = [1] ∧ c'.ids = [1] ∧ c''.ids = [] ∧ c''.settled = [] :=
  ⟨_, _, _, _, Run.nil.snoc (a := Event.request true none) rfl, rfl, rfl, rfl, rfl, by decide +kernel,
    by decide +kernel⟩

/-- Every request that is not silenced has an armed timer. -/
def Armed (c : ZSshClient R) : Prop :=
  ∀ r ∈ c.request_map, r.silenced = false → c.timers r.id = .armed

/-- No call of `collectAllRequests` that silences no request finds one. -/
def silences (c : ZSshClient R) : Event → Prop
  | .collect_all_requests false => c.request_map = []
  | _ => True

theorem Armed.quiet (harmed : Armed c) (hquiet : Quiet c c') : Armed c' := by
  intro r hr hsilenced
  have hkey : (r.id, r.silenced) ∈ c.request_map.map fun r => (r.id, r.silenced) := by
    rw [← hquiet.requests]
    exact List.mem_map_of_mem hr
  obtain ⟨r', hr', hkey⟩ := List.mem_map.mp hkey
  obtain ⟨hid, hsilenced'⟩ := Prod.mk.inj hkey
  rw [hquiet.timers, ← hid]
  exact harmed r' hr' (hsilenced'.trans hsilenced)

theorem Armed.takes {id : ℕ} {calls : List (Settle R)} {waits : List (Awaiting R)}
    (harmed : Armed c) (htakes : Takes c c' id calls waits) : Armed c' := by
  intro r hr hsilenced
  rw [htakes.request_map, List.mem_filter, decide_eq_true_eq] at hr
  rw [htakes.timers r.id hr.2]
  exact harmed r hr.1 hsilenced

theorem armed_rejects {why : Rejection R} (hrejects : RejectsAll c c' why) : Armed c' := by
  intro r hr hsilenced
  rcases hrejects.request_map with hmap | hmap
  · rw [hmap, List.mem_filter, hsilenced] at hr
    cases hr.2
  · rw [hmap] at hr
    cases hr

theorem Armed.step {e : Event} (hcounted : Counted c) (harmed : Armed c) (hok : silences c e)
    (h : step parse c e = some c') : Armed c' := by
  cases e with
  | request stdin_writable streams =>
    obtain rfl := Option.some.inj h
    unfold request
    split_ifs
    · exact harmed
    · intro r hr hsilenced
      rcases List.mem_append.mp hr with hr | hr
      · have hne : r.id ≠ c.request_id + 1 := by
          intro hid
          have hfresh := hcounted.fresh r.id (by omega)
          have hpos := count_pos_of_mem (mem_ids hr)
          unfold census at hfresh
          omega
        exact (Function.update_of_ne hne _ _).trans (harmed r hr hsilenced)
      · rw [List.mem_singleton.mp hr]
        exact Function.update_self _ _ _
  | line line =>
    obtain rfl := Option.some.inj h
    rcases on_line_cases parse c line with ⟨hquiet, -⟩ | ⟨r, hr, error, result, -, -, heq⟩
    · exact harmed.quiet hquiet
    · obtain ⟨calls, waits, htakes, -⟩ := handle_response_takes c r error result
      rw [heq]
      exact harmed.takes htakes
  | timeout id =>
    obtain ⟨-, rfl⟩ := Option.ite_some_none_eq_some.mp h
    by_cases hid : id ∈ c.ids
    · obtain ⟨r, hr, rfl⟩ := List.mem_map.mp hid
      exact harmed.takes (on_timeout_takes hcounted.ids_nodup hr)
    · rw [on_timeout_none hid]
      intro r hr hsilenced
      have hne : r.id ≠ id := fun heq => hid (heq ▸ mem_ids hr)
      exact (fired_timers c.timers hne).trans (harmed r hr hsilenced)
  | keep_alive id =>
    obtain ⟨-, rfl⟩ := Option.ite_some_none_eq_some.mp h
    unfold refresh
    split_ifs
    · exact harmed
    · intro r hr hsilenced
      rcases eq_or_ne r.id id with hid | hid
      · exact hid ▸ Function.update_self _ _ _
      · exact (Function.update_of_ne hid _ _).trans (harmed r hr hsilenced)
  | stream_end id ok =>
    obtain ⟨w, hw, rfl⟩ := Option.map_eq_some_iff.mp h
    obtain ⟨calls, waits, hmap, -, -, htimers, -⟩ := on_stream_end_eq c w ok
    intro r hr hsilenced
    rw [hmap] at hr
    rw [htimers r.id]
    · exact harmed r hr hsilenced
    · intro hid
      refine hcounted.not_waiting (mem_ids hr) ?_
      rw [hid]
      exact List.mem_map_of_mem (List.mem_of_find?_eq_some hw)
  | collect_all_requests silence =>
    obtain rfl := Option.some.inj h
    intro r hr hsilenced
    obtain ⟨r', hr', rfl⟩ := List.mem_map.mp hr
    cases silence
    · rw [show c.request_map = [] from hok] at hr'
      cases hr'
    · cases hsilenced
  | dispose is_restart =>
    obtain rfl := Option.some.inj h
    exact armed_rejects (dispose_rejects c is_restart)
  | disconnect reason =>
    obtain rfl := Option.some.inj h
    unfold handle_disconnect
    split_ifs
    · exact harmed
    · exact harmed
  | on_close_done =>
    obtain ⟨reason, -, rfl⟩ := Option.map_eq_some_iff.mp h
    exact armed_rejects (reject_pending_rejects c reason)

/-- The timer that is armed takes the request out of the map and rejects its promise. -/
theorem timeout_rejects {r : ExistingClientRequest} (hcounted : Counted c) (harmed : Armed c)
    (hr : r ∈ c.request_map) (hsilenced : r.silenced = false) :
    ∃ c', step parse c (.timeout r.id) = some c' ∧ r.id ∉ c'.ids ∧
      c'.settled = c.settled ++ [.reject r.id .timed_out] := by
  have htakes := on_timeout_takes hcounted.ids_nodup hr
  refine ⟨c.on_timeout r.id, if_pos (harmed r hr hsilenced), ?_, ?_⟩
  · rw [htakes.ids, List.mem_filter]
    simp
  · rw [htakes.settled, hsilenced, if_neg Bool.false_ne_true]

/-- A call that silences no request takes the timers of all of them. -/
theorem collect_disarms {r : ExistingClientRequest} (hr : r ∈ c.request_map) :
    ¬ Armed (c.collect_all_requests false) := by
  intro harmed
  have hcleared : (c.collect_all_requests false).timers r.id = .cleared :=
    if_pos ⟨r, hr, rfl⟩
  have := harmed { r with silenced := false } (List.mem_map_of_mem hr) rfl
  rw [hcleared] at this
  cases this

theorem silences_of_armed {e : Event} (h : step parse c e = some c') (harmed : Armed c') :
    silences c e := by
  cases e with
  | collect_all_requests silence =>
    cases silence
    · obtain rfl := Option.some.inj h
      by_contra hne
      obtain ⟨r, hr⟩ := List.exists_mem_of_ne_nil c.request_map hne
      exact collect_disarms hr harmed
    · trivial
  | _ => trivial

/-- In the states of a run every request that is not silenced is under a timeout if no call of
`collectAllRequests` without silencing finds a request, and only then. Such a timeout rejects. -/
theorem requests_armed_iff {tr : List (ZSshClient R × Event)}
    (hrun : Run (step parse) start tr c) :
    ((∀ u ∈ states tr c, Armed u) ↔ Steps silences tr) ∧
      ∀ u ∈ states tr c, Armed u → ∀ r ∈ u.request_map, r.silenced = false →
        ∃ u', step parse u (.timeout r.id) = some u' ∧ r.id ∉ u'.ids ∧
          u'.settled = u.settled ++ [.reject r.id .timed_out] := by
  refine ⟨⟨?_, ?_⟩, ?_⟩
  · intro harmed p hp
    obtain ⟨u', hu', hstep⟩ := hrun.next_mem hp
    exact silences_of_armed hstep (harmed u' hu')
  · intro hok u hu
    exact (hrun.always (I := fun u => Counted u ∧ Armed u) hok
      ⟨counted_start, fun r hr => absurd hr List.not_mem_nil⟩
      (fun hu hok hstep => ⟨hu.1.step hstep, hu.2.step hu.1 hok hstep⟩) u hu).2
  · intro u hu harmed r hr hsilenced
    have hfree : Steps (fun _ _ => True) tr := fun _ _ => trivial
    have hcounted := hrun.always hfree counted_start
      (fun hu _ hstep => Counted.step hu hstep) u hu
    exact timeout_rejects hcounted harmed hr hsilenced

theorem requests_armed_answered :
    ((∀ u ∈ states [((start : ZSshClient (List Char)), Event.request true none)]
        (start.request true none), Armed u) ↔
      Steps silences [((start : ZSshClient (List Char)), Event.request true none)]) ∧
      ∀ u ∈ states [((start : ZSshClient (List Char)), Event.request true none)]
        (start.request true none), Armed u → ∀ r ∈ u.request_map, r.silenced = false →
          ∃ u', step parse_result u (.timeout r.id) = some u' ∧ r.id ∉ u'.ids ∧
            u'.settled = u.settled ++ [.reject r.id .timed_out] :=
  requests_armed_iff (Run.nil.snoc (a := Event.request true none) rfl)

/-- A request that was collected to be looked at has no timeout left. -/
theorem collected_request_disarmed :
    ∃ tr c, Run (step parse_result) start tr c ∧ c.request_map = [⟨1, 0, false⟩] ∧
      step parse_result c (.timeout 1) = none :=
  ⟨_, _, (Run.nil.snoc (a := Event.request true none) rfl).snoc (a := .collect_all_requests false) rfl,
    rfl, rfl⟩

end ZSshClient

end Zowex.sdk

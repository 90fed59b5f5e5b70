import Mathlib.Data.List.Nodup
import Zowex.Lib.Runs
import Zowex.Spec.SshClient

/-! Every request of a client is in the map, or its response waits for a stream, or its promise
is settled: in one of these places, and there once. -/

namespace Zowex.sdk

namespace ZSshClient

variable {R : Type} {parse : List Char → Option (Message R)} {c c' : ZSshClient R}

def ids (c : ZSshClient R) : List ℕ := c.request_map.map (·.id)

def waiting_ids (c : ZSshClient R) : List ℕ := c.awaiting.map (·.id)

def settled_ids (c : ZSshClient R) : List ℕ := c.settled.map Settle.id

def census (c : ZSshClient R) (id : ℕ) : ℕ :=
  c.ids.count id + c.waiting_ids.count id + c.settled_ids.count id

/-- The line is a response with this id. -/
def answers (parse : List Char → Option (Message R)) (line : List Char) (id : ℕ) : Prop :=
  line ≠ [] ∧ ∃ error result, parse line = some (.response (.number id) error result)

/-- Nothing happens to the requests, their timers and their promises. -/
structure Quiet (c c' : ZSshClient R) : Prop where
  requests : c'.request_map.map (fun r => (r.id, r.silenced)) =
    c.request_map.map fun r => (r.id, r.silenced)
  awaiting : c'.awaiting = c.awaiting
  settled : c'.settled = c.settled
  timers : c'.timers = c.timers
  request_id : c'.request_id = c.request_id

theorem Quiet.refl (c : ZSshClient R) : Quiet c c := ⟨rfl, rfl, rfl, rfl, rfl⟩

theorem Quiet.ids (h : Quiet c c') : c'.ids = c.ids := by
  have := congrArg (List.map Prod.fst) h.requests
  rwa [List.map_map, List.map_map] at this

theorem link_quiet {id : ℕ} {usable : Stream → Bool}
    (h : c.link_stream_to_promise id usable = some c') : Quiet c c' := by
  have hlinks : (c.request_map.map fun r =>
      if r.id = id then { r with links := r.links + 1 } else r).map (fun r => (r.id, r.silenced)) =
        c.request_map.map fun r => (r.id, r.silenced) := by
    rw [List.map_map]
    refine List.map_congr_left fun r _ => ?_
    rw [Function.comp_apply]
    split_ifs <;> rfl
  unfold link_stream_to_promise at h
  split at h
  · cases h
  · split at h
    · cases h
      exact ⟨hlinks, rfl, rfl, rfl, rfl⟩
    · split_ifs at h
      · cases h
        exact ⟨hlinks, rfl, rfl, rfl, rfl⟩
      · cases h
        exact ⟨hlinks, rfl, rfl, rfl, rfl⟩

theorem handle_notification_quiet (c : ZSshClient R) (method : String)
    (params_id : Option RpcId) : Quiet c (c.handle_notification method params_id) := by
  unfold handle_notification
  dsimp only
  split
  next linked hlinked =>
    split at hlinked
    · cases hlinked
    · split_ifs at hlinked
      · exact link_quiet hlinked
      · exact link_quiet hlinked
  next => exact ⟨rfl, rfl, rfl, rfl, rfl⟩

theorem mem_of_find {id : ℕ} {r : ExistingClientRequest}
    (h : c.find (some (.number id)) = some r) : r ∈ c.request_map ∧ r.id = id :=
  ⟨List.mem_of_find?_eq_some h, by simpa using List.find?_some h⟩

theorem find_none {id : ℕ} (h : c.find (some (.number id)) = none) : id ∉ c.ids := by
  intro hid
  obtain ⟨r, hr, hrid⟩ := List.mem_map.mp hid
  have := List.find?_eq_none.mp h r hr
  simp [hrid] at this

theorem eq_of_id {r r' : ExistingClientRequest} (hnodup : c.ids.Nodup) (hr : r ∈ c.request_map)
    (hr' : r' ∈ c.request_map) (h : r.id = r'.id) : r = r' :=
  List.inj_on_of_nodup_map hnodup hr hr' h

theorem find_of_nodup {r : ExistingClientRequest} (hnodup : c.ids.Nodup)
    (hr : r ∈ c.request_map) : c.find (some (.number r.id)) = some r := by
  rcases hfind : c.find (some (.number r.id)) with _ | r'
  · exact absurd (List.mem_map_of_mem hr) (find_none hfind)
  · obtain ⟨hr', hid⟩ := mem_of_find hfind
    rw [eq_of_id hnodup hr hr' hid.symm]

/-- A line answers a request of the map, or leaves all of them alone. -/
theorem on_line_cases (parse : List Char → Option (Message R)) (c : ZSshClient R)
    (line : List Char) :
    (Quiet c (c.on_line parse line) ∧ ∀ id ∈ c.ids, ¬ answers parse line id) ∨
      ∃ r ∈ c.request_map, ∃ error result, line ≠ [] ∧
        parse line = some (.response (.number r.id) error result) ∧
        c.on_line parse line = c.handle_response r error result := by
  unfold on_line
  split_ifs with hline
  · exact .inl ⟨.refl c, fun id _ h => h.1 hline⟩
  · rcases hparse : parse line with _ | ⟨id, error, result⟩ | ⟨id, method, params_id⟩
    · refine .inl ⟨⟨rfl, rfl, rfl, rfl, rfl⟩, ?_⟩
      rintro id - ⟨-, error, result, h⟩
      rw [hparse] at h
      cases h
    · rcases hfind : c.find (some id) with _ | r
      · simp only [on_message, hfind]
        refine .inl ⟨⟨rfl, rfl, rfl, rfl, rfl⟩, ?_⟩
        rintro id' hid ⟨-, error', result', h⟩
        rw [hparse] at h
        cases h
        exact find_none hfind hid
      · simp only [on_message, hfind]
        rcases id with id | _
        · obtain ⟨hr, rfl⟩ := mem_of_find hfind
          exact .inr ⟨r, hr, error, result, hline, rfl, rfl⟩
        · cases hfind
    · have hnone : ∀ id ∈ c.ids, ¬ answers parse line id := by
        rintro id - ⟨-, error, result, h⟩
        rw [hparse] at h
        cases h
      simp only [on_message]
      rcases c.find (id.or params_id) with _ | r
      · exact .inl ⟨⟨rfl, rfl, rfl, rfl, rfl⟩, hnone⟩
      · exact .inl ⟨handle_notification_quiet c method params_id, hnone⟩

theorem count_filter_ne (l : List ℕ) (id id' : ℕ) :
    (l.filter (· ≠ id)).count id' = if id' = id then 0 else l.count id' := by
  split_ifs with h
  · rw [List.count_eq_zero, h]
    simp
  · exact List.count_filter (by simpa using h)

/-- One request leaves the map, and its promise is settled, or its response waits, or neither. -/
structure Takes (c c' : ZSshClient R) (id : ℕ) (calls : List (Settle R))
    (waits : List (Awaiting R)) : Prop where
  request_map : c'.request_map = c.request_map.filter (·.id ≠ id)
  settled : c'.settled = c.settled ++ calls
  awaiting : c'.awaiting = c.awaiting ++ waits
  timers : ∀ id' ≠ id, c'.timers id' = c.timers id'
  request_id : c'.request_id = c.request_id
  once : (waits.map (·.id) ++ calls.map Settle.id).Sublist [id]

theorem Takes.ids {id : ℕ} {calls : List (Settle R)} {waits : List (Awaiting R)}
    (h : Takes c c' id calls waits) : c'.ids = c.ids.filter (· ≠ id) := by
  rw [ZSshClient.ids, h.request_map, ZSshClient.ids, List.filter_map]
  rfl

/-- What becomes of the request a response answers. -/
theorem handle_response_takes (c : ZSshClient R) (r : ExistingClientRequest) (error : Option R)
    (result : R) : ∃ calls waits, Takes c (c.handle_response r error result) r.id calls waits ∧
      ((r.silenced = true ∧ calls = [] ∧ waits = []) ∨
        (r.silenced = false ∧ ∃ e, error = some e ∧
          calls = [.reject r.id (.response e)] ∧ waits = []) ∨
        (r.silenced = false ∧ error = none ∧ r.links = 0 ∧
          calls = [.resolve r.id result] ∧ waits = []) ∨
        (r.silenced = false ∧ error = none ∧ r.links ≠ 0 ∧
          calls = [] ∧ waits = [⟨r.id, r.links, result⟩])) := by
  have hcleared (id' : ℕ) (h : id' ≠ r.id) :
      Function.update c.timers r.id .cleared id' = c.timers id' :=
    Function.update_of_ne h _ _
  have hcalls : c.settled = c.settled ++ [] := (List.append_nil _).symm
  have hwaits : c.awaiting = c.awaiting ++ [] := (List.append_nil _).symm
  unfold handle_response
  by_cases hsilenced : r.silenced = true
  · rw [if_pos hsilenced]
    exact ⟨[], [], ⟨rfl, hcalls, hwaits, fun _ _ => rfl, rfl, List.nil_sublist _⟩,
      .inl ⟨hsilenced, rfl, rfl⟩⟩
  rw [if_neg hsilenced]
  rw [Bool.not_eq_true] at hsilenced
  rcases error with _ | error
  · dsimp only
    by_cases hlinks : r.links = 0
    · rw [if_pos hlinks]
      exact ⟨[.resolve r.id result], [],
        ⟨rfl, rfl, hwaits, hcleared, rfl, List.Sublist.refl _⟩,
        .inr (.inr (.inl ⟨hsilenced, rfl, hlinks, rfl, rfl⟩))⟩
    · rw [if_neg hlinks]
      exact ⟨[], [⟨r.id, r.links, result⟩],
        ⟨rfl, hcalls, rfl, fun _ _ => rfl, rfl, List.Sublist.refl _⟩,
        .inr (.inr (.inr ⟨hsilenced, rfl, hlinks, rfl, rfl⟩))⟩
  · exact ⟨[.reject r.id (.response error)], [],
      ⟨rfl, rfl, hwaits, hcleared, rfl, List.Sublist.refl _⟩,
      .inr (.inl ⟨hsilenced, error, rfl, rfl, rfl⟩)⟩

theorem fired_timers (timers : ℕ → Timer) {id id' : ℕ} (h : id' ≠ id) :
    Function.update timers id .fired id' = timers id' :=
  Function.update_of_ne h _ _

/-- A timer without a request only fires. -/
theorem on_timeout_none {id : ℕ} (h : id ∉ c.ids) :
    c.on_timeout id = { c with timers := Function.update c.timers id .fired } := by
  have hfind : c.find (some (.number id)) = none := by
    refine List.find?_eq_none.mpr fun r hr hid => h (List.mem_map.mpr ⟨r, hr, ?_⟩)
    simpa using hid
  simp only [on_timeout]
  rw [show ZSshClient.find { c with timers := Function.update c.timers id .fired }
    (some (.number id)) = none from hfind]

theorem on_timeout_takes {r : ExistingClientRequest} (hnodup : c.ids.Nodup)
    (hr : r ∈ c.request_map) :
    Takes c (c.on_timeout r.id) r.id (if r.silenced then [] else [.reject r.id .timed_out]) [] := by
  have hfind := find_of_nodup hnodup hr
  simp only [on_timeout]
  rw [show ZSshClient.find { c with timers := Function.update c.timers r.id .fired }
    (some (.number r.id)) = some r from hfind]
  dsimp only
  split_ifs
  · refine ⟨rfl, ?_, ?_, fun id' h => fired_timers _ h, rfl, List.nil_sublist _⟩
    · exact (List.append_nil _).symm
    · exact (List.append_nil _).symm
  · refine ⟨rfl, rfl, ?_, fun id' h => ?_, rfl, List.Sublist.refl _⟩
    · exact (List.append_nil _).symm
    · exact (Function.update_of_ne h _ _).trans (fired_timers _ h)

theorem settle_all (why : Rejection R) (l : List ℕ) (c : ZSshClient R) :
    l.foldl (fun c id => c.settle (.reject id why)) c = { c with
      settled := c.settled ++ l.map (.reject · why)
      timers := fun id => if id ∈ l then .cleared else c.timers id } := by
  induction l generalizing c with
  | nil => simp
  | cons id l ih =>
    rw [List.foldl_cons, ih]
    simp only [settle, clear_timeout, Settle.id, List.append_assoc, List.map_cons,
      List.singleton_append, List.mem_cons]
    congr 1
    funext id'
    by_cases hid : id' = id
    · subst hid
      simp
    · simp [hid]

theorem reject_all_eq (c : ZSshClient R) (why : Rejection R) : c.reject_all why = { c with
    settled := c.settled ++ (c.request_map.filter (!·.silenced)).map fun r => .reject r.id why
    timers := fun id =>
      if id ∈ (c.request_map.filter (!·.silenced)).map (·.id) then .cleared else c.timers id } := by
  rw [reject_all, settle_all, List.map_map]
  rfl

/-- What becomes of a response when a stream it waits for is done. -/
theorem on_stream_end_eq (c : ZSshClient R) (w : Awaiting R) (ok : Bool) :
    ∃ calls waits,
      (c.on_stream_end w ok).request_map = c.request_map ∧
      (c.on_stream_end w ok).settled = c.settled ++ calls ∧
      (c.on_stream_end w ok).awaiting = c.awaiting.filter (·.id ≠ w.id) ++ waits ∧
      (∀ id ≠ w.id, (c.on_stream_end w ok).timers id = c.timers id) ∧
      (c.on_stream_end w ok).request_id = c.request_id ∧
      (waits.map (·.id) ++ calls.map Settle.id).Sublist [w.id] ∧
      (∀ w' ∈ waits, w'.id = w.id ∧ w'.response = w.response) ∧
      ∀ id result, .resolve id result ∈ calls → id = w.id ∧ result = w.response := by
  have hcleared (id : ℕ) (h : id ≠ w.id) :
      Function.update c.timers w.id .cleared id = c.timers id :=
    Function.update_of_ne h _ _
  have hwaits : c.awaiting.filter (·.id ≠ w.id) = c.awaiting.filter (·.id ≠ w.id) ++ [] :=
    (List.append_nil _).symm
  have hcalls : c.settled = c.settled ++ [] := (List.append_nil _).symm
  rcases ok with _ | _
  · refine ⟨[.reject w.id .stream], [], rfl, rfl, hwaits, hcleared, rfl, List.Sublist.refl _,
      by simp, by simp⟩
  · unfold on_stream_end
    rw [if_neg (by simp)]
    by_cases hlinks : w.links ≤ 1
    · rw [if_pos hlinks]
      refine ⟨[.resolve w.id w.response], [], rfl, rfl, hwaits, hcleared, rfl,
        List.Sublist.refl _, by simp, ?_⟩
      intro id result h
      cases List.mem_singleton.mp h
      exact ⟨rfl, rfl⟩
    · rw [if_neg hlinks]
      refine ⟨[], [{ w with links := w.links - 1 }], rfl, hcalls, rfl, fun _ _ => rfl, rfl,
        List.Sublist.refl _, ?_, by simp⟩
      intro w' h
      cases List.mem_singleton.mp h
      exact ⟨rfl, rfl⟩

theorem count_pos_of_mem {l : List ℕ} {id : ℕ} (h : id ∈ l) : 1 ≤ l.count id :=
  List.count_pos_iff.mpr h

theorem count_once {l l' : List ℕ} {id : ℕ} (h : (l ++ l').Sublist [id]) (id' : ℕ) :
    l.count id' + l'.count id' ≤ if id' = id then 1 else 0 := by
  have hle := h.count_le id'
  rw [List.count_append, List.count_singleton] at hle
  split_ifs with heq
  · exact hle.trans (by split_ifs <;> simp)
  · rwa [if_neg (by simpa using Ne.symm heq)] at hle

theorem Takes.census_le {id : ℕ} {calls : List (Settle R)} {waits : List (Awaiting R)}
    (h : Takes c c' id calls waits) (hid : id ∈ c.ids) (id' : ℕ) :
    c'.census id' ≤ c.census id' := by
  have honce := count_once h.once id'
  have hpos := count_pos_of_mem hid
  rw [census, census, h.ids, count_filter_ne, waiting_ids, settled_ids, h.awaiting, h.settled,
    List.map_append, List.map_append, List.count_append, List.count_append, ← waiting_ids,
    ← settled_ids]
  split_ifs at honce ⊢ with heq
  · subst heq
    omega
  · omega

theorem census_congr (hids : c'.ids = c.ids) (hwaiting : c'.awaiting = c.awaiting)
    (hsettled : c'.settled = c.settled) (id : ℕ) : c'.census id = c.census id := by
  rw [census, census, hids, waiting_ids, waiting_ids, settled_ids, settled_ids, hwaiting, hsettled]

theorem on_stream_end_census {w : Awaiting R} (hw : w ∈ c.awaiting) (ok : Bool) (id : ℕ) :
    (c.on_stream_end w ok).census id ≤ c.census id := by
  obtain ⟨calls, waits, hmap, hsettled, hwaiting, -, -, hsub, -⟩ := on_stream_end_eq c w ok
  have honce := count_once hsub id
  have hpos : 1 ≤ c.waiting_ids.count w.id := count_pos_of_mem (List.mem_map_of_mem hw)
  have hfilter : (c.awaiting.filter (·.id ≠ w.id)).map (·.id) =
      c.waiting_ids.filter (· ≠ w.id) := by
    rw [waiting_ids, List.filter_map]
    rfl
  rw [census, census, ids, hmap, ← ids, waiting_ids, settled_ids, hwaiting, hsettled,
    List.map_append, List.map_append, List.count_append, List.count_append, hfilter,
    count_filter_ne, ← settled_ids]
  split_ifs at honce ⊢ with heq
  · subst heq
    omega
  · omega

/-- The ids of the requests that are silenced, and of those that are not. -/
theorem count_silenced (l : List ExistingClientRequest) (id : ℕ) :
    ((l.filter (·.silenced)).map (·.id)).count id + ((l.filter (!·.silenced)).map (·.id)).count id =
      (l.map (·.id)).count id := by
  rw [← List.count_append, ← List.map_append]
  exact ((List.filter_append_perm (·.silenced) l).map (·.id)).count_eq id

/-- The requests that are not silenced are rejected, and no other request leaves the map unless
all do. -/
structure RejectsAll (c c' : ZSshClient R) (why : Rejection R) : Prop where
  request_map : c'.request_map = c.request_map.filter (·.silenced) ∨ c'.request_map = []
  settled : c'.settled = c.settled ++
    (c.request_map.filter (!·.silenced)).map fun r => .reject r.id why
  awaiting : c'.awaiting = c.awaiting
  timers : ∀ id, (∀ r ∈ c.request_map, r.silenced = false → r.id ≠ id) →
    c'.timers id = c.timers id
  request_id : c'.request_id = c.request_id

theorem rejected_timers (c : ZSshClient R) (id : ℕ)
    (h : ∀ r ∈ c.request_map, r.silenced = false → r.id ≠ id) :
    (if id ∈ (c.request_map.filter (!·.silenced)).map (·.id) then Timer.cleared else c.timers id) =
      c.timers id := by
  refine if_neg fun hid => ?_
  obtain ⟨r, hr, hrid⟩ := List.mem_map.mp hid
  obtain ⟨hmem, hsilenced⟩ := List.mem_filter.mp hr
  exact h r hmem (by simpa using hsilenced) hrid

theorem dispose_rejects (c : ZSshClient R) (is_restart : Bool) :
    RejectsAll c (c.dispose is_restart) (if is_restart then .restarting else .shutting_down) := by
  unfold dispose
  rw [reject_all_eq]
  exact ⟨.inr rfl, rfl, rfl, rejected_timers c, rfl⟩

theorem reject_pending_rejects (c : ZSshClient R) (reason : Disconnect) :
    RejectsAll c (c.reject_pending_requests reason) (.closed reason) := by
  unfold reject_pending_requests
  rw [reject_all_eq]
  exact ⟨.inl rfl, rfl, rfl, rejected_timers c, rfl⟩

theorem RejectsAll.census_le {why : Rejection R} (h : RejectsAll c c' why) (id : ℕ) :
    c'.census id ≤ c.census id := by
  have hsilenced := count_silenced c.request_map id
  have hcalls : (((c.request_map.filter (!·.silenced)).map fun r =>
      Settle.reject r.id why).map Settle.id) = (c.request_map.filter (!·.silenced)).map (·.id) := by
    rw [List.map_map]
    rfl
  have hkept : (c'.request_map.map (·.id)).count id ≤
      ((c.request_map.filter (·.silenced)).map (·.id)).count id := by
    rcases h.request_map with hmap | hmap
    · rw [hmap]
    · rw [hmap]
      exact Nat.zero_le _
  rw [census, census, waiting_ids, settled_ids, h.awaiting, h.settled, List.map_append,
    List.count_append, hcalls, ids, ids, waiting_ids, settled_ids]
  omega

theorem collect_ids (c : ZSshClient R) (silence : Bool) :
    (c.collect_all_requests silence).ids = c.ids := by
  rw [ids, collect_all_requests, List.map_map]
  rfl

/-- No request comes to be in two places, and only a new one comes to be in one. -/
theorem step_census {e : Event} (h : step parse c e = some c') (hnodup : c.ids.Nodup) :
    (c'.request_id = c.request_id ∧ ∀ id, c'.census id ≤ c.census id) ∨
      (c'.request_id = c.request_id + 1 ∧
        ∀ id, c'.census id = c.census id + if id = c.request_id + 1 then 1 else 0) := by
  cases e with
  | request stdin_writable streams =>
    obtain rfl := Option.some.inj h
    unfold request
    split_ifs with hclosed
    · exact .inl ⟨rfl, fun _ => Nat.le_refl _⟩
    · refine .inr ⟨rfl, fun id => ?_⟩
      simp only [census, ids, waiting_ids, settled_ids, List.map_append, List.map_cons,
        List.map_nil, List.count_append, List.count_singleton, beq_iff_eq, @eq_comm _ _ id]
      omega
  | line line =>
    obtain rfl := Option.some.inj h
    rcases on_line_cases parse c line with ⟨hquiet, -⟩ | ⟨r, hr, error, result, -, -, heq⟩
    · exact .inl ⟨hquiet.request_id, fun id =>
        (census_congr hquiet.ids hquiet.awaiting hquiet.settled id).le⟩
    · obtain ⟨calls, waits, htakes, -⟩ := handle_response_takes c r error result
      rw [heq]
      exact .inl ⟨htakes.request_id, htakes.census_le (List.mem_map_of_mem hr)⟩
  | timeout id =>
    obtain ⟨-, rfl⟩ := Option.ite_some_none_eq_some.mp h
    by_cases hid : id ∈ c.ids
    · obtain ⟨r, hr, rfl⟩ := List.mem_map.mp hid
      have htakes := on_timeout_takes hnodup hr
      exact .inl ⟨htakes.request_id, htakes.census_le hid⟩
    · rw [on_timeout_none hid]
      exact .inl ⟨rfl, fun _ => Nat.le_refl _⟩
  | keep_alive id =>
    obtain ⟨-, rfl⟩ := Option.ite_some_none_eq_some.mp h
    unfold refresh
    split_ifs
    · exact .inl ⟨rfl, fun _ => Nat.le_refl _⟩
    · exact .inl ⟨rfl, fun _ => Nat.le_refl _⟩
  | stream_end id ok =>
    obtain ⟨w, hw, rfl⟩ := Option.map_eq_some_iff.mp h
    obtain ⟨calls, waits, -, -, -, -, hrequest, -⟩ := on_stream_end_eq c w ok
    exact .inl ⟨hrequest, on_stream_end_census (List.mem_of_find?_eq_some hw) ok⟩
  | collect_all_requests silence =>
    obtain rfl := Option.some.inj h
    exact .inl ⟨rfl, fun id => (census_congr (collect_ids c silence) rfl rfl id).le⟩
  | dispose is_restart =>
    obtain rfl := Option.some.inj h
    exact .inl ⟨(dispose_rejects c is_restart).request_id, (dispose_rejects c is_restart).census_le⟩
  | disconnect reason =>
    obtain rfl := Option.some.inj h
    unfold handle_disconnect
    split_ifs
    · exact .inl ⟨rfl, fun _ => Nat.le_refl _⟩
    · exact .inl ⟨rfl, fun _ => Nat.le_refl _⟩
  | on_close_done =>
    obtain ⟨reason, -, rfl⟩ := Option.map_eq_some_iff.mp h
    have hrejects := reject_pending_rejects c reason
    exact .inl ⟨hrejects.request_id, hrejects.census_le⟩

/-- Each request is in one place, and the requests to come are in none. -/
structure Counted (c : ZSshClient R) : Prop where
  once : ∀ id, c.census id ≤ 1
  fresh : ∀ id, c.request_id < id → c.census id = 0

theorem Counted.ids_nodup (h : Counted c) : c.ids.Nodup := by
  refine List.nodup_iff_count_le_one.mpr fun id => ?_
  have := h.once id
  unfold census at this
  omega

theorem Counted.settled_nodup (h : Counted c) : c.settled_ids.Nodup := by
  refine List.nodup_iff_count_le_one.mpr fun id => ?_
  have := h.once id
  unfold census at this
  omega

theorem Counted.not_waiting (h : Counted c) {id : ℕ} (hid : id ∈ c.ids) : id ∉ c.waiting_ids := by
  intro hwaiting
  have := h.once id
  have := count_pos_of_mem hid
  have := count_pos_of_mem hwaiting
  unfold census at *
  omega

theorem counted_start : Counted (start : ZSshClient R) :=
  ⟨fun _ => Nat.zero_le _, fun _ _ => rfl⟩

theorem Counted.step {e : Event} (hcounted : Counted c) (h : step parse c e = some c') :
    Counted c' := by
  rcases step_census h hcounted.ids_nodup with ⟨hrequest, hle⟩ | ⟨hrequest, heq⟩
  · refine ⟨fun id => (hle id).trans (hcounted.once id), fun id hid => ?_⟩
    exact Nat.le_zero.mp ((hle id).trans (hcounted.fresh id (hrequest ▸ hid)).le)
  · refine ⟨fun id => ?_, fun id hid => ?_⟩
    · rw [heq]
      split_ifs with hid
      · rw [hid, hcounted.fresh _ (Nat.lt_succ_self _)]
      · exact hcounted.once id
    · rw [heq, if_neg (by omega), hcounted.fresh id (by omega)]

end ZSshClient

end Zowex.sdk

import Zowex.Lib.Recency
import Zowex.Spec.AbandonedIds

/-! The set of abandoned IDs and the order they came in, over all sequences of events. -/

namespace Zowex.server

open zjson Recency

variable (sys : Platform)

/-- The set and the order hold the same IDs, and not too many of them. -/
structure RingKept (server : RpcServer) : Prop where
  nodup : server.abandoned_order.Nodup
  same : ∀ id, id ∈ server.abandoned_order ↔ id ∈ server.abandoned_ids
  bounded : server.abandoned_order.length ≤ kMaxAbandonedIds

/-- The IDs of the requests that timed out. -/
def timed_out_ids (events : List RpcEvent) : List ℤ :=
  events.filterMap fun event => match event with
    | .timed_out request_data _ => some (RpcServer.timed_out_request sys request_data).1
    | .received _ => none
    | .responded _ => none

/-- After a timeout a response to the same ID is not printed, unless a request with it has been
received or 64 further IDs have timed out since. -/
def Silenced (before : List RpcEvent) (request_data : Bytes) (timeout_ms : ℤ)
    (after : List RpcEvent) (response : RpcResponse) : Prop :=
  let x := (RpcServer.timed_out_request sys request_data).1
  let events := before ++ .timed_out request_data timeout_ms :: after
  response.id = some x → .received x ∉ after →
    ((timed_out_ids sys after).toFinset.erase x).card < kMaxAbandonedIds →
    (RpcServer.run sys (events ++ [.responded response])).printed =
      (RpcServer.run sys events).printed

/-- What an event does to the order of the IDs. -/
def ring_ops : RpcEvent → List (Op ℤ)
  | .timed_out request_data _ =>
    if 0 ≤ (RpcServer.timed_out_request sys request_data).1 then
      [.note (RpcServer.timed_out_request sys request_data).1]
    else []
  | .received request_id => if 0 ≤ request_id then [.forget request_id] else []
  | .responded _ => []

theorem RingKept.ids {server : RpcServer} (h : RingKept server) :
    server.abandoned_ids = server.abandoned_order.toFinset := by
  ext id
  rw [List.mem_toFinset, h.same]

/-- The order decides about the set. -/
theorem RingKept.of_order {server : RpcServer} (nodup : server.abandoned_order.Nodup)
    (bounded : server.abandoned_order.length ≤ kMaxAbandonedIds)
    (ids : server.abandoned_ids = server.abandoned_order.toFinset) : RingKept server :=
  ⟨nodup, fun id => by rw [ids, List.mem_toFinset], bounded⟩

theorem drop_oldest_eq {order : List ℤ} (nodup : order.Nodup) :
    RpcServer.drop_oldest order.toFinset order =
      ((cut kMaxAbandonedIds order).toFinset, cut kMaxAbandonedIds order) := by
  induction order with
  | nil => rfl
  | cons front order ih =>
    rw [List.nodup_cons] at nodup
    rw [RpcServer.drop_oldest]
    by_cases full : (front :: order).length > kMaxAbandonedIds
    · have rest : (front :: order).toFinset.erase front = order.toFinset := by
        rw [List.toFinset_cons, Finset.erase_insert (by simpa using nodup.1)]
      have dropped : cut kMaxAbandonedIds (front :: order) = cut kMaxAbandonedIds order := by
        rw [List.length_cons] at full
        rw [cut, cut, List.length_cons, Nat.succ_sub (by omega), List.drop_succ_cons]
      rw [if_pos full, rest, ih nodup.2, dropped]
    · have whole : cut kMaxAbandonedIds (front :: order) = front :: order := by
        rw [cut, Nat.sub_eq_zero_of_le (not_lt.mp full), List.drop_zero]
      rw [if_neg full, whole]

/-! The steps. -/

theorem RingKept.mark {server : RpcServer} (h : RingKept server) {request_id : ℤ}
    (tracked : 0 ≤ request_id) :
    RingKept (server.mark_abandoned request_id) ∧
      (server.mark_abandoned request_id).abandoned_order =
        Recency.step kMaxAbandonedIds server.abandoned_order (.note request_id) := by
  have nodup := @step_nodup ℤ kMaxAbandonedIds _ _ h.nodup (.note request_id)
  have bounded := step_length h.bounded (.note request_id)
  rw [step_note] at nodup bounded ⊢
  unfold RpcServer.mark_abandoned
  by_cases known : request_id ∈ server.abandoned_order
  · have listed := (h.same request_id).mp known
    rw [if_neg (fun fresh => fresh.2 listed), if_pos known]
    exact ⟨h, rfl⟩
  · have fresh : request_id ∉ server.abandoned_ids := fun listed =>
      known ((h.same request_id).mpr listed)
    rw [if_neg known] at nodup bounded ⊢
    rw [if_pos ⟨tracked, fresh⟩, h.ids]
    have appended : (server.abandoned_order ++ [request_id]).Nodup :=
      List.nodup_append_comm.mp (List.nodup_cons.mpr ⟨known, h.nodup⟩)
    have ids : insert request_id server.abandoned_order.toFinset =
        (server.abandoned_order ++ [request_id]).toFinset := by
      ext id
      simp
    rw [ids, drop_oldest_eq appended]
    exact ⟨.of_order nodup bounded rfl, rfl⟩

theorem mark_untracked (server : RpcServer) {request_id : ℤ} (untracked : ¬ 0 ≤ request_id) :
    server.mark_abandoned request_id = server :=
  if_neg fun h => untracked h.1

theorem RingKept.clear {server : RpcServer} (h : RingKept server) {request_id : ℤ}
    (tracked : 0 ≤ request_id) :
    RingKept (server.clear_abandoned request_id) ∧
      (server.clear_abandoned request_id).abandoned_order =
        Recency.step kMaxAbandonedIds server.abandoned_order (.forget request_id) := by
  have nodup := @step_nodup ℤ kMaxAbandonedIds _ _ h.nodup (.forget request_id)
  have bounded := step_length h.bounded (.forget request_id)
  rw [step_forget] at nodup bounded ⊢
  unfold RpcServer.clear_abandoned
  rw [if_neg (not_lt.mpr tracked)]
  by_cases known : request_id ∈ server.abandoned_order
  · rw [if_neg (not_not.mpr ((h.same request_id).mp known))]
    refine ⟨.of_order nodup bounded ?_, rfl⟩
    ext id
    simp only [Finset.mem_erase, List.mem_toFinset, ← h.same, h.nodup.mem_erase_iff]
  · have fresh : request_id ∉ server.abandoned_ids := fun listed =>
      known ((h.same request_id).mpr listed)
    rw [if_pos fresh, List.erase_of_not_mem known]
    exact ⟨h, rfl⟩

/-- A response changes neither the set nor the order. -/
theorem print_response_ring (server : RpcServer) (response : RpcResponse) :
    (server.print_response response).abandoned_ids = server.abandoned_ids ∧
      (server.print_response response).abandoned_order = server.abandoned_order := by
  unfold RpcServer.print_response
  split_ifs <;> exact ⟨rfl, rfl⟩

theorem RingKept.print_response {server : RpcServer} (h : RingKept server)
    (response : RpcResponse) : RingKept (server.print_response response) := by
  obtain ⟨ids, order⟩ := print_response_ring server response
  exact ⟨order ▸ h.nodup, fun id => by rw [ids, order, h.same], order ▸ h.bounded⟩

/-- The error that a timeout prints. -/
def timeout_response (request_data : Bytes) (timeout_ms : ℤ) : RpcResponse :=
  print_error (RpcServer.timed_out_request sys request_data).1 RpcErrorCode.REQUEST_TIMEOUT
    (RpcServer.timeout_message sys (RpcServer.timed_out_request sys request_data).2 timeout_ms) none

theorem step_timed_out (server : RpcServer) (request_data : Bytes) (timeout_ms : ℤ) :
    server.step sys (.timed_out request_data timeout_ms) =
      (server.print_response (timeout_response sys request_data timeout_ms)).mark_abandoned
        (RpcServer.timed_out_request sys request_data).1 :=
  rfl

theorem RingKept.step {server : RpcServer} (h : RingKept server) (event : RpcEvent) :
    RingKept (server.step sys event) ∧
      (server.step sys event).abandoned_order =
        Recency.run kMaxAbandonedIds server.abandoned_order (ring_ops sys event) := by
  cases event with
  | timed_out request_data timeout_ms =>
    have printed := h.print_response (timeout_response sys request_data timeout_ms)
    have order := (print_response_ring server (timeout_response sys request_data timeout_ms)).2
    rw [step_timed_out, ring_ops]
    by_cases tracked : 0 ≤ (RpcServer.timed_out_request sys request_data).1
    · rw [if_pos tracked, ← order]
      exact printed.mark tracked
    · rw [if_neg tracked, mark_untracked _ tracked]
      exact ⟨printed, order⟩
  | received request_id =>
    rw [ring_ops]
    by_cases tracked : 0 ≤ request_id
    · rw [if_pos tracked]
      exact h.clear tracked
    · have same : server.step sys (.received request_id) = server := if_pos (not_le.mp tracked)
      rw [if_neg tracked, same]
      exact ⟨h, rfl⟩
  | responded response => exact ⟨h.print_response response, (print_response_ring _ _).2⟩

theorem RingKept.steps {server : RpcServer} (h : RingKept server) (events : List RpcEvent) :
    RingKept (events.foldl (RpcServer.step sys) server) ∧
      (events.foldl (RpcServer.step sys) server).abandoned_order =
        Recency.run kMaxAbandonedIds server.abandoned_order (events.flatMap (ring_ops sys)) := by
  induction events generalizing server with
  | nil => exact ⟨h, rfl⟩
  | cons event events ih =>
    obtain ⟨kept, order⟩ := h.step sys event
    rw [List.foldl_cons, List.flatMap_cons, run_append, ← order]
    exact ih kept

theorem run_kept (events : List RpcEvent) : RingKept (RpcServer.run sys events) := by
  have empty : RingKept {} := ⟨List.nodup_nil, fun id => by simp, Nat.zero_le _⟩
  exact (empty.steps sys events).1

/-! What a run does between a timeout and a response. -/

theorem noted_ring_ops {events : List RpcEvent} {id : ℤ}
    (h : id ∈ noted (events.flatMap (ring_ops sys))) : id ∈ timed_out_ids sys events := by
  obtain ⟨op, inside, same⟩ := List.mem_filterMap.mp h
  obtain ⟨event, member, made⟩ := List.mem_flatMap.mp inside
  apply List.mem_filterMap.mpr
  refine ⟨event, member, ?_⟩
  cases event with
  | timed_out request_data timeout_ms =>
    rw [ring_ops] at made
    split_ifs at made
    · rw [List.mem_singleton.mp made] at same
      exact same
    · exact absurd made List.not_mem_nil
  | received request_id =>
    rw [ring_ops] at made
    split_ifs at made
    · rw [List.mem_singleton.mp made] at same
      cases same
    · exact absurd made List.not_mem_nil
  | responded response => exact absurd made List.not_mem_nil

theorem forget_ring_ops {events : List RpcEvent} {id : ℤ}
    (h : Op.forget id ∈ events.flatMap (ring_ops sys)) : .received id ∈ events := by
  obtain ⟨event, member, made⟩ := List.mem_flatMap.mp h
  cases event with
  | timed_out request_data timeout_ms =>
    rw [ring_ops] at made
    split_ifs at made
    · cases List.mem_singleton.mp made
    · exact absurd made List.not_mem_nil
  | received request_id =>
    rw [ring_ops] at made
    split_ifs at made
    · cases List.mem_singleton.mp made
      exact member
    · exact absurd made List.not_mem_nil
  | responded response => exact absurd made List.not_mem_nil

/-- An ID that was not abandoned when it timed out is abandoned from then on. -/
theorem stays_abandoned {before after : List RpcEvent} {request_data : Bytes} (timeout_ms : ℤ)
    (tracked : 0 ≤ (RpcServer.timed_out_request sys request_data).1)
    (fresh : (RpcServer.timed_out_request sys request_data).1 ∉
      (RpcServer.run sys before).abandoned_ids)
    (unreceived : .received (RpcServer.timed_out_request sys request_data).1 ∉ after)
    (few : ((timed_out_ids sys after).toFinset.erase
      (RpcServer.timed_out_request sys request_data).1).card < kMaxAbandonedIds) :
    (RpcServer.timed_out_request sys request_data).1 ∈
      (RpcServer.run sys
        (before ++ .timed_out request_data timeout_ms :: after)).abandoned_ids := by
  have start := run_kept sys before
  obtain ⟨marked, order⟩ := start.step sys (.timed_out request_data timeout_ms)
  obtain ⟨kept, later⟩ := marked.steps sys after
  have whole : RpcServer.run sys (before ++ .timed_out request_data timeout_ms :: after) =
      after.foldl (RpcServer.step sys)
        ((RpcServer.run sys before).step sys (.timed_out request_data timeout_ms)) := by
    rw [RpcServer.run, List.foldl_append, List.foldl_cons]
    rfl
  rw [whole, ← kept.same, later, order, ring_ops, if_pos tracked]
  apply retained
  · exact fun inside => fresh ((start.same _).mp inside)
  · exact fun forgotten => unreceived (forget_ring_ops sys forgotten)
  · refine (Finset.card_le_card (Finset.erase_subset_erase _ ?_)).trans_lt few
    intro id inside
    exact List.mem_toFinset.mpr (noted_ring_ops sys (List.mem_toFinset.mp inside))

/-- The ring is kept, and silences the late responses to every ID that it tracks: the ones that
are not negative, from the timeout that abandons them on. -/
theorem abandoned_ring :
    (∀ events, RingKept (RpcServer.run sys events)) ∧
      ∀ before request_data timeout_ms after response,
        0 ≤ (RpcServer.timed_out_request sys request_data).1 →
        (RpcServer.timed_out_request sys request_data).1 ∉
          (RpcServer.run sys before).abandoned_ids →
        Silenced sys before request_data timeout_ms after response := by
  refine ⟨run_kept sys, ?_⟩
  intro before request_data timeout_ms after response tracked fresh id unreceived few
  have inside := stays_abandoned sys timeout_ms tracked fresh unreceived few
  have whole (events : List RpcEvent) : RpcServer.run sys (events ++ [.responded response]) =
      (RpcServer.run sys events).print_response response := by
    rw [RpcServer.run, List.foldl_append]
    rfl
  have silent : response.id.any (RpcServer.run sys
      (before ++ .timed_out request_data timeout_ms :: after)).is_abandoned = true := by
    rw [id, Option.any_some, RpcServer.is_abandoned, if_neg (not_lt.mpr tracked)]
    exact decide_eq_true inside
  rw [whole, RpcServer.print_response, if_pos silent]

/-- A system on which the length of a request is its ID, and a minus sign before it. -/
def length_platform : Platform where
  cs := ibm1047
  from_str data :=
    let id : ℤ := if data.head? = some (ibm1047.code '-') then -data.length else data.length
    .ok (.object [(ibm1047.str "id", .integer id)])
  serialize _ := .error ⟨.Custom, ibm1047.str "Failed to serialize JSON"⟩
  print_double _ := []
  tmpdir := none
  geteuid := 0
  getpid := 1
  unlink _ := some 129
  mkfifo _ := none
  ENOENT := 129

def request_of_length (n : ℕ) : Bytes := List.replicate n (ibm1047.code 'x')

theorem silenced_after_timeout :
    (∀ events, RingKept (RpcServer.run length_platform events)) ∧
      Silenced length_platform [] (request_of_length 1) 1000 [] ⟨none, none, some 1⟩ :=
  ⟨(abandoned_ring length_platform).1,
    (abandoned_ring length_platform).2 [] (request_of_length 1) 1000 [] ⟨none, none, some 1⟩
      (by decide +kernel) (by decide +kernel)⟩

/-- The responses to a negative ID, and to one that times out again when 63 others have timed out
since its first timeout: after one more ID it is not abandoned any longer. -/
theorem late_responses_printed :
    ¬ Silenced length_platform [] (ibm1047.str "-x") 1000 [] ⟨none, none, some (-2)⟩ ∧
      ¬ Silenced length_platform
        ((List.range 64).map fun n => .timed_out (request_of_length n) 1000) (request_of_length 0)
        1000 [.timed_out (request_of_length 64) 1000] ⟨none, none, some 0⟩ := by
  constructor
  · intro silenced
    have printed := congrArg List.length (silenced rfl (by simp) (by decide +kernel))
    exact absurd printed (by decide +kernel)
  · intro silenced
    have printed := congrArg List.length (silenced rfl (by simp) (by decide +kernel))
    exact absurd printed (by decide +kernel)

end Zowex.server

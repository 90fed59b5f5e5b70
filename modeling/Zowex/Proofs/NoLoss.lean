import Zowex.Proofs.Requests

/-! No request gets lost. While a run meets none of the situations that `lossless` names,
every queue with a request in it is going to be served and every request left in a dead
worker is going to be recovered, so that the moves of the requests keep each of them in
exactly one place. -/

namespace Zowex.worker

variable {n : ℕ}

namespace Worker

/-- Nothing waits in a drained queue, a thread is stopped only after its request was read,
and a dead thread leaves a fault for the supervisor to see. -/
structure Served (w : Worker n) : Prop where
  drained : w.drained = true → w.request_queue = []
  stop : w.thread.is_ended = false → w.recovered = false → w.stop_requested = false
  faulted : w.thread.is_ended = true → w.recovered = false → w.state = .Faulted

theorem Served.new (i : Fin n) : Served { id := i } := ⟨nofun, fun _ _ => rfl, nofun⟩

theorem Served.start {w : Worker n} (h : w.Served) : w.start.Served :=
  ⟨h.drained, fun _ _ => rfl, nofun⟩

theorem Served.started {w : Worker n} (h : w.Served) (hended : w.thread.is_ended = false) :
    w.started.Served :=
  ⟨h.drained, h.stop, fun hnot => absurd (hended.symm.trans hnot) (by decide)⟩

theorem Served.add_request {w : Worker n} (h : w.Served) (hdrained : w.drained = false)
    (r : RequestMetadata) : (w.add_request r).Served :=
  ⟨fun hnot => absurd (hdrained.symm.trans hnot) (by decide), h.stop, h.faulted⟩

theorem Served.drain {w : Worker n} (h : w.Served) : w.drain_pending_requests.2.Served :=
  ⟨fun _ => rfl, h.stop, h.faulted⟩

/-- What happens to a worker after its request was read loses nothing. -/
theorem Served.of_recovered {w w' : Worker n} (h : w.Served)
    (hqueue : w'.request_queue = w.request_queue) (hdrained : w'.drained = w.drained)
    (hrecovered : w'.recovered = true) : w'.Served := by
  refine ⟨?_, ?_, ?_⟩
  · rw [hqueue, hdrained]
    exact h.drained
  · exact fun _ hnot => absurd (hrecovered.symm.trans hnot) (by decide)
  · exact fun _ hnot => absurd (hrecovered.symm.trans hnot) (by decide)

theorem Served.transition {w w' : Worker n} {a : LoopStep} (h : w.Served)
    (hstep : w.Transition a w') : w'.Served := by
  obtain ⟨hdrained, hstop, hfaulted⟩ := h
  cases hstep with
  | wait hthread | track hthread | finish hthread | clear hthread =>
    rw [hthread] at hstop
    exact ⟨hdrained, hstop, nofun⟩
  | take hthread hqueue =>
    rw [hthread] at hstop
    refine ⟨fun hnot => ?_, hstop, nofun⟩
    rw [hdrained hnot] at hqueue
    cases hqueue
  | stop hthread hstopped =>
    rw [hthread] at hstop
    refine ⟨hdrained, nofun, fun _ hnot => ?_⟩
    rw [hstop rfl hnot] at hstopped
    cases hstopped
  | fault_waiting | fault_taken | fault_processing => exact ⟨hdrained, nofun, fun _ _ => rfl⟩

/-- The requests of a worker that is served are the ones it was given. -/
theorem Served.requests {w : Worker n} (hok : w.Ok) (h : w.Served) :
    w.requests.map (fun p => Entry.place p.1 p.2) =
      w.request_queue.map (.place .queued) ++ w.hand := by
  have hhand : w.in_flight.map (fun p => Entry.place p.1 p.2) = w.hand := by
    have hfaulted := h.faulted
    cases hthread : w.thread with
    | ended held =>
      rw [hthread] at hfaulted
      cases held with
      | none => simp [in_flight, hand, hthread]
      | some r =>
        cases hrecovered : w.recovered with
        | true => simp [in_flight, hand, hthread, hrecovered]
        | false =>
          have hstate := hfaulted rfl hrecovered
          cases hanswered : w.answered <;>
            simp [in_flight, hand, hthread, hrecovered, hstate, hanswered]
    | processing r => cases hanswered : w.answered <;> simp [in_flight, hand, hthread, hanswered]
    | unstarted | looping | waiting | taken | processed => simp [in_flight, hand, hthread]
  rw [Worker.requests, List.map_append, hhand]
  congr 1
  by_cases hlive : w.is_live = true
  · rw [if_pos hlive, List.map_map]
    rfl
  · -- a queue nobody will serve was drained
    have hqueue : w.request_queue = [] := by
      refine h.drained ?_
      by_contra hdrained
      rw [Bool.not_eq_true] at hdrained
      have hrecovered : w.recovered = false := by
        rw [Bool.eq_false_iff]
        intro hnot
        rw [hok.recovered hnot] at hdrained
        cases hdrained
      refine hlive ?_
      cases hended : w.thread.is_ended with
      | true => simp [is_live, hdrained, hended, h.faulted hended hrecovered]
      | false => simp [is_live, hdrained, hended]
    rw [if_neg hlive, hqueue]
    rfl

end Worker

namespace Pool

def served (s : Pool n) : Prop :=
  ∀ (ref : ℕ) (w : Worker n), s.objects[ref]? = some w → w.Served

theorem served.on {s : Pool n} (h : s.served) {ref : ℕ} {f : Worker n → Worker n}
    (hf : ∀ w, s.objects[ref]? = some w → w.Served → (f w).Served) : (s.on ref f).served :=
  on_objects h fun w hw => hf w hw (h ref w hw)

theorem served.drain {s : Pool n} (h : s.served) (old : Option ℕ) : (s.drain old).2.served := by
  unfold Pool.drain
  split
  · exact h
  split
  · exact h
  · exact h.on fun _ _ hserved => hserved.drain

theorem served.recover_in_flight {s : Pool n} (h : s.served) (old : Option ℕ) (force : Bool) :
    (s.recover_in_flight old force).2.served := by
  cases old with
  | none => exact h
  | some ref =>
    cases hw : s.objects[ref]? with
    | none =>
      simp only [Pool.recover_in_flight, hw]
      exact h
    | some w =>
      rcases recover_cases hw force with ⟨-, heq⟩ | ⟨p, -, -, heq⟩ | ⟨p, -, -, heq⟩
      all_goals
        rw [heq]
        exact h.on fun _ _ hserved => hserved.of_recovered rfl rfl rfl

theorem served.stop_old_worker {s : Pool n} (h : s.served) {i : Fin n} {force : Bool}
    {old : Option ℕ} (hold : s.holds i force old true true) :
    (s.stop_old_worker old force).served := by
  unfold Pool.stop_old_worker
  cases old with
  | none => exact h
  | some ref =>
    obtain ⟨w, hw, -, -, hrecovered, -⟩ := hold.2 ref rfl
    have hread : ∀ v, s.objects[ref]? = some v → v.recovered = true := by
      intro v hv
      obtain rfl := Option.some.inj (hw.symm.trans hv)
      exact hrecovered
    dsimp only
    split
    · exact h.on fun v hv hserved => hserved.of_recovered rfl rfl (hread v hv)
    · refine h.on fun v hv hserved => ?_
      unfold Worker.stop
      split
      · exact hserved
      · exact hserved.of_recovered rfl rfl (hread v hv)

theorem accepts_spec {s : Pool n} {ref : ℕ} (h : s.accepts ref = true) {w : Worker n}
    (hw : s.objects[ref]? = some w) : w.drained = false := by
  simpa [accepts, hw] using h

/-- A step of a run before shutdown that loses nothing keeps every worker served. -/
theorem step_served {s s' : Pool n} {a : Action n} (hok : s.Ok) (h : s.served)
    (hlossless : s.lossless a = true) (hshut : s'.is_shutting_down = false)
    (hstep : s.step a = some s') : s'.served := by
  cases step_sound hstep with
  | @add k r ref hk =>
    have hacc : s.accepts ref = true := by simpa [lossless, hk] using hlossless
    exact h.on fun w hw hserved => hserved.add_request (accepts_spec hacc hw) r
  | @readd r ref rs hphase =>
    have hacc : s.accepts ref = true := by simpa [lossless, hphase] using hlossless
    exact h.on fun w hw hserved => hserved.add_request (accepts_spec hacc hw) r
  | start => exact h.on fun _ _ hserved => hserved.start
  | @started k created i ref threads hk =>
    refine h.on fun w hw hserved => hserved.started ?_
    simpa [lossless, hk, hw] using hlossless
  | ready i threads =>
    have hobjects := (set_worker_ready_parts s i).1
    intro ref w hw
    exact h ref w (hobjects ▸ hw)
  | loop live hw hloop =>
    refine h.on fun v hv hserved => ?_
    obtain rfl := Option.some.inj (hw.symm.trans hv)
    exact hserved.transition hloop
  | @mark i | @abort i =>
    have hobjects := (s.mark_worker_not_ready_parts i).1
    intro ref w hw
    exact h ref w (hobjects ▸ hw)
  | @drain i force ctx hphase => exact h.drain ctx.old_worker
  | @read i force ctx pending hphase => exact h.recover_in_flight ctx.old_worker force
  | @stop_old i force ctx rs hphase =>
    have hold := hok.supervisor
    rw [supervisor_ok, hphase] at hold
    exact h.stop_old_worker hold
  | @spawn i =>
    intro ref w hw
    rcases List.mem_append.mp (List.mem_of_getElem? hw) with hmem | hmem
    · obtain ⟨k, hk⟩ := List.getElem?_of_mem hmem
      exact h k w hk
    · obtain rfl := List.mem_singleton.mp hmem
      exact .new i
  | shutdown => cases hshut
  | stop ref hnot => exact absurd (hshut.symm.trans hnot) (by decide)
  | refuse | distribute | pick | drop | fail | notice | prepare | exit | give_up |
    return_shutdown | return_done | discard | retry | retry_shutdown | repick | redrop => exact h

/-- One for every place and every request of the call `ticket`. -/
def here (ticket : ℕ) : Entry → ℕ
  | .place _ r => if r.data.ticket = ticket then 1 else 0
  | _ => 0

theorem here_map (ticket : ℕ) {p q : Place} (rs : List RequestMetadata) :
    weight (here ticket) (rs.map (.place p)) = weight (here ticket) (rs.map (.place q)) := by
  simp only [weight, List.map_map]
  rfl

/-- Before shutdown a move that loses nothing keeps the number of places of each request. -/
theorem Moves.here {s : Pool n} {a : Action n} {k : ℕ} {out into : List Entry}
    (hmove : s.Moves a k out into) (hlossless : s.lossless a = true)
    (hshut : s.is_shutting_down = false) (ticket : ℕ) :
    weight (here ticket) into =
      weight (here ticket) out + if k = 1 ∧ s.calls = ticket then 1 else 0 := by
  cases hmove with
  | none => simp
  | refuse hnot | retry_shutdown _ hnot => exact absurd (hshut.symm.trans hnot) (by decide)
  | lose _ hlost =>
    rcases hlost with hnot | hnot
    · exact absurd (hshut.symm.trans hnot) (by decide)
    · exact absurd (hlossless.symm.trans hnot) (by decide)
  | distribute text => simp [Pool.here]
  | drain rs => exact here_map ticket rs
  | add | take | hand_over | finish | fault | recover | retry | discard => simp [Pool.here]

/-- Shutdown is never taken back. -/
theorem step_shutting_down {s s' : Pool n} {a : Action n} (hstep : s.step a = some s')
    (hshut : s'.is_shutting_down = false) : s.is_shutting_down = false := by
  cases step_sound hstep with
  | ready i =>
    have : (s.set_worker_ready i).is_shutting_down = s.is_shutting_down := by
      unfold set_worker_ready
      split
      · rfl
      · split <;> rfl
    exact this.symm.trans hshut
  | @mark i | @abort i =>
    have : (s.mark_worker_not_ready i).2.is_shutting_down = s.is_shutting_down := by
      unfold mark_worker_not_ready
      split
      · split <;> rfl
      · rfl
    exact this.symm.trans hshut
  | @drain i force ctx =>
    have : (s.drain ctx.old_worker).2.is_shutting_down = s.is_shutting_down := by
      unfold drain
      split
      · rfl
      · split <;> rfl
    exact this.symm.trans hshut
  | @read i force ctx =>
    have : (s.recover_in_flight ctx.old_worker force).2.is_shutting_down =
        s.is_shutting_down := by
      unfold recover_in_flight
      split
      · rfl
      split
      · rfl
      dsimp only
      split
      · rfl
      · split <;> rfl
    exact this.symm.trans hshut
  | @stop_old i force ctx =>
    have : (s.stop_old_worker ctx.old_worker force).is_shutting_down = s.is_shutting_down := by
      unfold stop_old_worker
      split
      · rfl
      · split <;> rfl
    exact this.symm.trans hshut
  | shutdown => cases hshut
  | refuse | distribute | pick | drop | add | start | fail | started | loop | notice | prepare |
    exit | give_up | spawn | return_shutdown | return_done | discard | retry | retry_shutdown |
    repick | redrop | readd | stop => exact hshut

/-- The number of places of a request is what it counts for in the total. -/
theorem length_places {s : Pool n} (hok : s.Ok) (h : s.served) (ticket : ℕ) :
    (s.places ticket).length = s.total (here ticket) := by
  have hcount := weight_eq_countP (here ticket)
    (g := fun q : Place × RequestMetadata => .place q.1 q.2)
    (p := fun q => q.2.data.ticket = ticket) (by simp [Pool.here]) s.requests
  have hobjects : weight (here ticket)
      ((s.objects.flatMap Worker.requests).map fun q => .place q.1 q.2) =
      (s.objects.map (·.load (here ticket))).sum := by
    rw [List.map_flatMap, weight_flatMap]
    refine congrArg List.sum (List.map_congr_left fun w hw => ?_)
    obtain ⟨ref, href⟩ := List.getElem?_of_mem hw
    rw [(h ref w href).requests (hok.objects ref w href), weight_append, Worker.load]
  have hhanded : weight (here ticket) (s.handed.map .handed) = 0 := by
    simp [weight, Function.comp_def, Pool.here]
  have hretried : weight (here ticket) (s.retried.map .retried) = 0 := by
    simp [weight, Function.comp_def, Pool.here]
  rw [places, List.length_map, ← List.countP_eq_length_filter, ← hcount, total, hhanded, hretried]
  simp only [Pool.requests, List.map_append, weight_append, List.map_map, hobjects,
    Supervisor.load]
  rfl

theorem init_served (n max_replace_attempts : ℕ) : (init n max_replace_attempts).served := by
  intro ref w hw
  obtain ⟨i, -, rfl⟩ := List.mem_map.mp (List.mem_of_getElem? hw)
  exact .new i

/-- Along a run that meets none of the situations `lossless` names, until shutdown begins,
every request ever passed to `distribute_request` is in exactly one place. -/
theorem no_request_lost {max_replace_attempts : ℕ} {tr : List (Pool n × Action n)} {s : Pool n}
    (hrun : Runs.Run step (init n max_replace_attempts) tr s)
    (hok : Runs.Steps (fun u a => u.lossless a = true) tr) :
    ∀ u ∈ Runs.states tr s, u.is_shutting_down = false →
      ∀ ticket < u.calls, ∃ p, u.places ticket = [p] := by
  intro u hu hshut ticket hticket
  have hinv := hrun.always (I := fun u => u.Ok ∧ (u.is_shutting_down = false → u.served ∧
    u.total (here ticket) = if ticket < u.calls then 1 else 0)) hok ?_ ?_ u hu
  · obtain ⟨huok, hrest⟩ := hinv
    obtain ⟨hserved, htotal⟩ := hrest hshut
    rw [← length_places huok hserved, if_pos hticket] at htotal
    exact List.length_eq_one_iff.mp htotal
  · refine ⟨init_ok n _, fun _ => ⟨init_served n _, ?_⟩⟩
    simp [total, init, Worker.load, Worker.hand, Function.comp_def]
  · rintro u a u' ⟨huok, hrest⟩ hlossless hstep
    refine ⟨step_ok huok hstep, fun hshut' => ?_⟩
    have hshut := step_shutting_down hstep hshut'
    obtain ⟨hserved, htotal⟩ := hrest hshut
    refine ⟨step_served huok hserved hlossless hshut' hstep, ?_⟩
    obtain ⟨k, out, into, hmove, hcalls, hshift⟩ := step_shifts huok hstep
    have hmoved := hmove.here hlossless hshut ticket
    have hshift := hshift (here ticket)
    have hk : k ≤ 1 := by cases hmove <;> omega
    split at hmoved <;> split at htotal <;> split <;> omega

/-- The first request ends the worker, and the second finds only its stale entry. -/
def loss_schedule : List (Action 1) :=
  [.initialize_worker 0 true, .initialize_worker 0 true, .initialize_worker 0 true,
    .distribute_request [1], .call 0, .call 0, .worker_loop 0 .wait, .worker_loop 0 .take,
    .worker_loop 0 .track, .worker_loop 0 .fault, .distribute_request [2], .call 0]

/-- A request given to a pool whose one worker has just faulted is nowhere any more. -/
theorem request_lost :
    ¬∀ (n max_replace_attempts : ℕ) (tr : List (Pool n × Action n)) (s : Pool n),
      Runs.Run step (init n max_replace_attempts) tr s → s.is_shutting_down = false →
        ∀ ticket < s.calls, ∃ p, s.places ticket = [p] := by
  intro hall
  have h : (Runs.exec step (fun _ _ => true) (init 1 3) loss_schedule).map
      (fun s => (s.is_shutting_down, s.calls, s.places 1)) = some (false, 2, []) := by
    decide +kernel
  obtain ⟨s, hs, hvalues⟩ := Option.map_eq_some_iff.mp h
  obtain ⟨hshut, hvalues⟩ := Prod.mk.inj hvalues
  obtain ⟨hcalls, hplaces⟩ := Prod.mk.inj hvalues
  obtain ⟨tr, hrun, -⟩ := Runs.run_of_exec hs
  obtain ⟨p, hp⟩ := hall 1 3 tr s hrun hshut 1 (by rw [hcalls]; decide)
  rw [hplaces] at hp
  cases hp

/-- The request that ended the worker is recovered and completed by the replacement. -/
def recovery_schedule : List (Action 1) :=
  loss_schedule.take 10 ++ [.monitor_worker_at ⟨0, Nat.one_pos⟩ false, .supervise, .supervise, .supervise,
    .supervise, .supervise, .supervise, .supervise, .initialize_worker 0 true,
    .initialize_worker 0 true, .initialize_worker 0 true, .supervise, .supervise, .supervise,
    .worker_loop 1 .wait, .worker_loop 1 .take, .worker_loop 1 .track, .worker_loop 1 .finish]

theorem no_request_lost_recovered : ∃ tr s, Runs.Run step (init 1 3) tr s ∧
    s.finished.length = 1 ∧ ∃ p, s.places 0 = [p] := by
  have h : (Runs.exec step lossless (init 1 3) recovery_schedule).map
      (fun s => (s.is_shutting_down, s.calls, s.finished.length)) = some (false, 1, 1) := by
    decide +kernel
  obtain ⟨s, hs, hvalues⟩ := Option.map_eq_some_iff.mp h
  obtain ⟨hshut, hvalues⟩ := Prod.mk.inj hvalues
  obtain ⟨hcalls, hfinished⟩ := Prod.mk.inj hvalues
  obtain ⟨tr, hrun, hok⟩ := Runs.run_of_exec hs
  exact ⟨tr, s, hrun, hfinished, no_request_lost hrun hok s (Runs.last_mem_states tr s) hshut 0
    (by rw [hcalls]; decide)⟩

end Pool

end Zowex.worker

import Zowex.Spec.Requests

/-! What one step of a worker and of the pool can do, as relations with one rule for each
way through the code. Every invariant of the pool is proved from these rules. -/

namespace Zowex.worker

variable {n : ℕ}

namespace Worker

inductive Transition (w : Worker n) : LoopStep → Worker n → Prop
  | wait (hthread : w.thread = .looping) :
    Transition w .wait { w with state := .Idle, thread := .waiting }
  | take {r queue} (hthread : w.thread = .waiting) (hqueue : w.request_queue = r :: queue) :
    Transition w .take { w with request_queue := queue, state := .Running, thread := .taken r }
  | stop (hthread : w.thread = .waiting) (hstop : w.stop_requested = true) :
    Transition w .stop { w with state := .Exited, detached := false, thread := .ended none }
  | track {r} (hthread : w.thread = .taken r) :
    Transition w .track { w with current_request_data := some r.data, thread := .processing r }
  | finish {r} (hthread : w.thread = .processing r) :
    Transition w .finish { w with thread := .processed r }
  | clear {r} (hthread : w.thread = .processed r) :
    Transition w .clear
      { w with current_request_data := none, thread := .looping, answered := false }
  | fault_waiting (hthread : w.thread = .waiting) : Transition w .fault (w.unwind none)
  | fault_taken {r} (hthread : w.thread = .taken r) : Transition w .fault (w.unwind (some r))
  | fault_processing {r} (hthread : w.thread = .processing r) :
    Transition w .fault (w.unwind (some r))

theorem worker_loop_sound {w w' : Worker n} {a : LoopStep} (h : w.worker_loop a = some w') :
    w.Transition a w' := by
  cases a <;> simp only [worker_loop] at h
  case wait =>
    split at h
    case h_1 hthread => cases h; exact .wait hthread
    case h_2 => cases h
  case take =>
    split at h
    case h_1 hthread _ hqueue => cases h; exact .take hthread hqueue
    case h_2 => cases h
  case stop =>
    split at h
    case h_1 hthread hstop => cases h; exact .stop hthread hstop
    case h_2 => cases h
  case track =>
    split at h
    case h_1 hthread => cases h; exact .track hthread
    case h_2 => cases h
  case finish =>
    split at h
    case h_1 hthread => cases h; exact .finish hthread
    case h_2 => cases h
  case clear =>
    split at h
    case h_1 hthread => cases h; exact .clear hthread
    case h_2 => cases h
  case fault =>
    split at h
    case h_1 hthread =>
      split at h
      · cases h
      · cases h; exact .fault_waiting hthread
    case h_2 hthread => cases h; exact .fault_taken hthread
    case h_3 hthread => cases h; exact .fault_processing hthread
    case h_4 => cases h

end Worker

namespace Pool

/-- The pop loop ends at an entry that is ready, or there is none. -/
theorem pop_ready_none {s : Pool n} {queue : List (Fin n)}
    (h : (s.pop_ready queue).1 = none) : queue.any s.worker_is_ready = false := by
  induction queue with
  | nil => rfl
  | cons i queue ih =>
    rw [pop_ready] at h
    split at h
    case isTrue hready =>
      have : s.workers[i] = none := h
      simp [worker_is_ready, this] at hready
    case isFalse hready =>
      rw [List.any_cons, ih h, Bool.eq_false_iff.mpr hready, Bool.or_self]

theorem get_ready_worker_some {s s' : Pool n} {ref : ℕ}
    (h : s.get_ready_worker = some (some ref, s')) : ∃ q, s' = { s with ready_queue := q } := by
  unfold get_ready_worker at h
  split at h
  · cases h
  split at h
  · simp only [Option.some.injEq, Prod.mk.injEq] at h
    exact ⟨_, h.2.symm⟩
  · cases h

theorem get_ready_worker_none {s s' : Pool n} (h : s.get_ready_worker = some (none, s')) :
    (s.is_shutting_down = true ∨ s.has_ready_entry = false) ∧
      ∃ q, s' = { s with ready_queue := q } := by
  unfold get_ready_worker at h
  split at h
  case isTrue hshut =>
    cases h
    exact ⟨.inl hshut, _, rfl⟩
  split at h
  · simp only [Option.some.injEq, Prod.mk.injEq] at h
    exact ⟨.inr (pop_ready_none h.1), _, h.2.symm⟩
  · cases h

inductive Transition (s : Pool n) : Action n → Pool n → Prop
  | refuse text (hshut : s.is_shutting_down = true) :
    Transition s (.distribute_request text) { s with calls := s.calls + 1 }
  | distribute text (hshut : s.is_shutting_down = false) :
    Transition s (.distribute_request text)
      { s with calls := s.calls + 1, callers := s.callers ++ [.waiting ⟨⟨s.calls, text⟩, 0⟩] }
  | pick {k r} ref q (hk : s.callers[k]? = some (.waiting r)) :
    Transition s (.call k)
      { s with ready_queue := q, callers := s.callers.set k (.picked r ref) }
  | drop {k r} q (hk : s.callers[k]? = some (.waiting r))
      (hlost : s.is_shutting_down = true ∨ s.has_ready_entry = false) :
    Transition s (.call k) { s with ready_queue := q, callers := s.callers.eraseIdx k }
  | add {k r ref} (hk : s.callers[k]? = some (.picked r ref)) :
    Transition s (.call k)
      { s.on ref (·.add_request r) with callers := s.callers.eraseIdx k }
  | start {k ref w} {i : Fin n} threads (hslot : s.workers.get i = some ref) (hw : s.objects[ref]? = some w)
      (hthread : w.thread = .unstarted) :
    Transition s (.initialize_worker k true)
      { s.on ref Worker.start with initializer_threads := threads }
  | fail {k} threads :
    Transition s (.initialize_worker k false) { s with initializer_threads := threads }
  | started {k created i ref} threads (hk : s.initializer_threads[k]? = some (.running i ref)) :
    Transition s (.initialize_worker k created)
      { s.on ref Worker.started with initializer_threads := threads }
  | ready {k created} i threads :
    Transition s (.initialize_worker k created)
      { s.set_worker_ready i with initializer_threads := threads }
  | loop {ref a w w'} live (hw : s.objects[ref]? = some w) (hloop : w.Transition a w') :
    Transition s (.worker_loop ref a)
      { s.on ref (fun _ => w') with
        handed := s.handed ++ w.hands_over a
        finished := s.finished ++ w.completes a
        live_detached_workers := live }
  | notice {i : Fin n} {late ref w} force (hslot : s.workers.get i = some ref) (hw : s.objects[ref]? = some w)
      (hscan : s.supervisor = .scanning) (hforce : force = false → w.state = .Faulted) :
    Transition s (.monitor_worker_at i late) { s with supervisor := .marking i force }
  | mark {i force} (hphase : s.supervisor = .marking i force) :
    Transition s .supervise { (s.mark_worker_not_ready i).2 with supervisor := .preparing i force }
  | abort {i force} (hphase : s.supervisor = .marking i force) :
    Transition s .supervise { (s.mark_worker_not_ready i).2 with supervisor := .scanning }
  | prepare {i force} reached attempts (hphase : s.supervisor = .preparing i force) :
    Transition s .supervise
      { s with
        replacement_attempts := attempts
        workers := s.workers.set i none i.isLt
        supervisor := .draining i force ⟨s.workers.get i, reached⟩ }
  | drain {i force ctx} (hphase : s.supervisor = .draining i force ctx) :
    Transition s .supervise
      { (s.drain ctx.old_worker).2 with
        supervisor := .reading i force ctx (s.drain ctx.old_worker).1 }
  | read {i force ctx pending} (hphase : s.supervisor = .reading i force ctx pending) :
    Transition s .supervise
      { (s.recover_in_flight ctx.old_worker force).2 with
        supervisor :=
          .stopping i force ctx (pending ++ (s.recover_in_flight ctx.old_worker force).1) }
  | stop_old {i force ctx rs} (hphase : s.supervisor = .stopping i force ctx rs) :
    Transition s .supervise
      { s.stop_old_worker ctx.old_worker force with supervisor := .replacing i force ctx rs }
  | exit {i force ctx rs} (hphase : s.supervisor = .replacing i force ctx rs)
      (hlimit : force = true ∧ s.max_live_detached < s.live_detached_workers) :
    Transition s .supervise { s with exited := true }
  | give_up {i force ctx rs} (hphase : s.supervisor = .replacing i force ctx rs)
      (hreached : ctx.max_attempts_reached = true) :
    Transition s .supervise { s with supervisor := .redistributing rs }
  | spawn {i force ctx rs} (hphase : s.supervisor = .replacing i force ctx rs)
      (hshut : s.is_shutting_down = false) (hreached : ctx.max_attempts_reached = false)
      (hlimit : ¬(force = true ∧ s.max_live_detached < s.live_detached_workers)) :
    Transition s .supervise
      { s.spawn_replacement_worker i with supervisor := .redistributing rs }
  | return_shutdown {i force ctx rs} (hphase : s.supervisor = .replacing i force ctx rs)
      (hshut : s.is_shutting_down = true) :
    Transition s .supervise { s with supervisor := .scanning }
  | return_done (hphase : s.supervisor = .redistributing []) :
    Transition s .supervise { s with supervisor := .scanning }
  | discard {r rs} (hphase : s.supervisor = .redistributing (r :: rs))
      (hretries : kMaxRequestRetries ≤ r.retry_count) :
    Transition s .supervise
      { s with discarded := s.discarded ++ [r], supervisor := .redistributing rs }
  | retry {r rs} (hphase : s.supervisor = .redistributing (r :: rs))
      (hretries : r.retry_count < kMaxRequestRetries) :
    Transition s .supervise
      { s with
        retried := s.retried ++ [{ r with retry_count := r.retry_count + 1 }]
        supervisor := .waiting { r with retry_count := r.retry_count + 1 } rs }
  | retry_shutdown {r rs} (hphase : s.supervisor = .redistributing (r :: rs))
      (hretries : r.retry_count < kMaxRequestRetries) (hshut : s.is_shutting_down = true) :
    Transition s .supervise
      { s with
        retried := s.retried ++ [{ r with retry_count := r.retry_count + 1 }]
        supervisor := .redistributing rs }
  | repick {r rs} ref q (hphase : s.supervisor = .waiting r rs) :
    Transition s .supervise { s with ready_queue := q, supervisor := .picked r ref rs }
  | redrop {r rs} q (hphase : s.supervisor = .waiting r rs)
      (hlost : s.is_shutting_down = true ∨ s.has_ready_entry = false) :
    Transition s .supervise { s with ready_queue := q, supervisor := .redistributing rs }
  | readd {r ref rs} (hphase : s.supervisor = .picked r ref rs) :
    Transition s .supervise
      { s.on ref (·.add_request r) with supervisor := .redistributing rs }
  | shutdown : Transition s .shutdown { s with is_shutting_down := true }
  | stop {i} ref (hshut : s.is_shutting_down = true) :
    Transition s (.stop i) (s.on ref Worker.stop)

theorem call_sound {s s' : Pool n} {k : ℕ} (h : s.call k = some s') :
    s.Transition (.call k) s' := by
  unfold call at h
  split at h
  case h_1 r hk =>
    split at h
    case h_1 ref t hready =>
      cases h
      obtain ⟨q, rfl⟩ := get_ready_worker_some hready
      exact .pick ref q hk
    case h_2 t hready =>
      cases h
      obtain ⟨hlost, q, rfl⟩ := get_ready_worker_none hready
      exact .drop q hk hlost
    case h_3 => cases h
  case h_2 r ref hk =>
    cases h
    exact .add hk
  case h_3 => cases h

theorem initialize_worker_sound {s s' : Pool n} {k : ℕ} {created : Bool}
    (h : s.initialize_worker k created = some s') :
    s.Transition (.initialize_worker k created) s' := by
  unfold initialize_worker at h
  split at h
  case h_1 i hk =>
    simp only [Option.bind_eq_bind, Option.bind_eq_some_iff] at h
    obtain ⟨ref, hslot, w, hw, h⟩ := h
    split at h
    · cases h
    case isFalse hthread =>
      split at h
      case isTrue hcreated =>
        cases h
        subst hcreated
        exact .start _ hslot hw (not_not.mp hthread)
      case isFalse hcreated =>
        cases h
        rw [Bool.not_eq_true] at hcreated
        subst hcreated
        exact .fail _
  case h_2 i ref hk =>
    cases h
    exact .started _ hk
  case h_3 i hk =>
    cases h
    exact .ready i _
  case h_4 => cases h

theorem loop_sound {s s' : Pool n} {ref : ℕ} {a : Worker.LoopStep}
    (h : s.worker_loop ref a = some s') : s.Transition (.worker_loop ref a) s' := by
  unfold worker_loop at h
  simp only [Option.bind_eq_bind, Option.bind_eq_some_iff] at h
  obtain ⟨w, hw, w', hloop, h⟩ := h
  cases h
  exact .loop _ hw (Worker.worker_loop_sound hloop)

theorem monitor_sound {s s' : Pool n} {i : Fin n} {late : Bool}
    (h : s.monitor_worker_at i late = some s') :
    s.Transition (.monitor_worker_at i late) s' := by
  unfold monitor_worker_at at h
  split at h
  · cases h
  case isFalse hscan =>
    rw [not_or, not_not] at hscan
    simp only [Option.bind_eq_bind, Option.bind_eq_some_iff] at h
    obtain ⟨ref, hslot, w, hw, h⟩ := h
    split at h
    case isTrue hfaulted =>
      cases h
      exact .notice false hslot hw hscan.1 fun _ => hfaulted
    split at h
    case isTrue hexited =>
      -- a worker that exited always counts as asked to stop
      simp [Worker.is_stop_requested, hexited.1] at hexited
    split at h
    · cases h
      exact .notice true hslot hw hscan.1 nofun
    · cases h

theorem supervise_sound {s s' : Pool n} (h : s.supervise = some s') :
    s.Transition .supervise s' := by
  unfold supervise at h
  split at h
  case h_1 => cases h
  case h_2 i force hphase =>
    split at h
    case h_1 t hmark =>
      cases h
      rw [show t = (s.mark_worker_not_ready i).2 by rw [hmark]]
      exact .mark hphase
    case h_2 t hmark =>
      cases h
      rw [show t = (s.mark_worker_not_ready i).2 by rw [hmark]]
      exact .abort hphase
  case h_3 i force hphase =>
    cases h
    exact .prepare _ _ hphase
  case h_4 i force ctx hphase =>
    cases h
    exact .drain hphase
  case h_5 i force ctx pending hphase =>
    cases h
    exact .read hphase
  case h_6 i force ctx rs hphase =>
    cases h
    exact .stop_old hphase
  case h_7 i force ctx rs hphase =>
    split at h
    case isTrue hlimit =>
      cases h
      exact .exit hphase hlimit
    case isFalse hlimit =>
      unfold redistribute_requests at h
      split at h
      case isTrue hreached =>
        cases h
        split
        case isTrue hshut => exact .return_shutdown hphase hshut
        case isFalse hshut => exact .give_up hphase hreached
      case isFalse hreached =>
        rw [Bool.not_eq_true] at hreached
        split at h
        case isTrue hshut =>
          cases h
          exact .return_shutdown hphase hshut
        case isFalse hshut =>
          cases h
          rw [Bool.not_eq_true] at hshut
          rw [if_neg (by simp [spawn_replacement_worker, hshut])]
          exact .spawn hphase hshut hreached hlimit
  case h_8 hphase =>
    cases h
    exact .return_done hphase
  case h_9 r rs hphase =>
    split at h
    case isTrue hretries =>
      cases h
      exact .discard hphase hretries
    case isFalse hretries =>
      cases h
      split
      case isTrue hshut => exact .retry_shutdown hphase (not_le.mp hretries) hshut
      case isFalse => exact .retry hphase (not_le.mp hretries)
  case h_10 r rs hphase =>
    split at h
    case h_1 ref t hready =>
      cases h
      obtain ⟨q, rfl⟩ := get_ready_worker_some hready
      exact .repick ref q hphase
    case h_2 t hready =>
      cases h
      obtain ⟨hlost, q, rfl⟩ := get_ready_worker_none hready
      exact .redrop q hphase hlost
    case h_3 => cases h
  case h_11 r ref rs hphase =>
    cases h
    exact .readd hphase

theorem step_sound {s s' : Pool n} {a : Action n} (h : s.step a = some s') :
    s.Transition a s' := by
  unfold step at h
  split at h
  · cases h
  cases a with
  | distribute_request text =>
    cases h
    unfold distribute_request
    split
    case isTrue hshut => exact .refuse text hshut
    case isFalse hshut => exact .distribute text (Bool.eq_false_iff.mpr hshut)
  | call k => exact call_sound h
  | initialize_worker k created => exact initialize_worker_sound h
  | worker_loop ref a => exact loop_sound h
  | monitor_worker_at i late => exact monitor_sound h
  | supervise => exact supervise_sound h
  | shutdown =>
    cases h
    exact .shutdown
  | stop i =>
    dsimp only at h
    split at h
    case isTrue hshut =>
      split at h
      · cases h
        exact .stop _ hshut.1
      · cases h
    case isFalse => cases h

end Pool

end Zowex.worker

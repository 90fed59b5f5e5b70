import Zowex.Lib.Runs
import Zowex.Proofs.WorkerSteps

/-! The ready count against the ready flags. `spawn_replacement_worker` clears the flag of
its slot without looking at it, and is the one step that can pull the two apart. -/

namespace Zowex.worker.Pool

variable {n : ℕ}

/-- The count is the number of flags that are set. -/
def count_agrees (s : Pool n) : Prop := s.ready_count = s.ready_list.count true

theorem count_set_true {flags : Vector Bool n} {i : Fin n} (h : flags.get i = false) :
    (flags.set i true i.isLt).count true = flags.count true + 1 := by
  have h : flags[i] = false := h
  rw [Vector.count_set]
  simp_all

theorem count_set_false {flags : Vector Bool n} {i : Fin n} (h : flags.get i = true) :
    (flags.set i false i.isLt).count true + 1 = flags.count true := by
  have h : flags[i] = true := h
  have hpos : 0 < flags.count true := by
    rw [Vector.count_pos_iff, ← h]
    exact Vector.getElem_mem i.isLt
  rw [Vector.count_set]
  simp_all

theorem count_agrees.congr {s s' : Pool n} (h : s.count_agrees)
    (heq : s'.ready_count = s.ready_count ∧ s'.ready_list = s.ready_list) : s'.count_agrees := by
  rw [count_agrees, heq.1, heq.2]
  exact h

theorem set_worker_ready_count {s : Pool n} (h : s.count_agrees) (i : Fin n) :
    (s.set_worker_ready i).count_agrees := by
  unfold set_worker_ready
  split
  · exact h
  split
  case isTrue hready =>
    simp only [Bool.and_eq_true, Bool.not_eq_true'] at hready
    simp only [count_agrees] at h ⊢
    rw [count_set_true hready.1, h]
    rfl
  case isFalse => exact h

theorem mark_worker_not_ready_count {s : Pool n} (h : s.count_agrees) (i : Fin n) :
    (s.mark_worker_not_ready i).2.count_agrees := by
  unfold mark_worker_not_ready
  split
  case isTrue hflag =>
    have hcount := count_set_false (i := i) hflag
    unfold count_agrees at h
    split <;> simp only [count_agrees] <;> omega
  case isFalse => exact h

theorem drain_ready (s : Pool n) (old : Option ℕ) :
    (s.drain old).2.ready_count = s.ready_count ∧ (s.drain old).2.ready_list = s.ready_list := by
  unfold drain
  split
  · exact ⟨rfl, rfl⟩
  split <;> exact ⟨rfl, rfl⟩

theorem recover_in_flight_ready (s : Pool n) (old : Option ℕ) (force : Bool) :
    (s.recover_in_flight old force).2.ready_count = s.ready_count ∧
      (s.recover_in_flight old force).2.ready_list = s.ready_list := by
  unfold recover_in_flight
  split
  · exact ⟨rfl, rfl⟩
  split
  · exact ⟨rfl, rfl⟩
  dsimp only
  split
  · exact ⟨rfl, rfl⟩
  split <;> exact ⟨rfl, rfl⟩

theorem stop_old_worker_ready (s : Pool n) (old : Option ℕ) (force : Bool) :
    (s.stop_old_worker old force).ready_count = s.ready_count ∧
      (s.stop_old_worker old force).ready_list = s.ready_list := by
  unfold stop_old_worker
  split
  · exact ⟨rfl, rfl⟩
  split <;> exact ⟨rfl, rfl⟩

theorem spawn_count {s : Pool n} (h : s.count_agrees) (i : Fin n) :
    (s.spawn_replacement_worker i).count_agrees ↔ s.ready_list.get i = false := by
  unfold count_agrees at h
  simp only [count_agrees, spawn_replacement_worker, h, Nat.cast_inj]
  cases hflag : s.ready_list.get i with
  | true =>
    have := count_set_false hflag
    simp only [Bool.true_eq_false, iff_false]
    omega
  | false =>
    have hflag : s.ready_list[i] = false := hflag
    rw [Vector.count_set]
    simp_all

/-- From a state in which they agree, the next state agrees unless the step is the spawn
of a replacement in a slot that is marked ready. -/
theorem step_count {s s' : Pool n} {a : Action n} (h : s.count_agrees)
    (hstep : s.step a = some s') : s'.count_agrees ↔ s.spawns_unready a = true := by
  cases step_sound hstep with
  | spawn hphase hshut hreached hlimit =>
    rename_i i force ctx rs
    have hlimit : (force && decide (s.max_live_detached < s.live_detached_workers)) = false := by
      simpa using hlimit
    simp only [spawns_unready, hphase, hshut, hreached, hlimit, Bool.or_false, Bool.false_or,
      Bool.not_eq_true']
    exact spawn_count h i
  | ready i => exact iff_of_true (set_worker_ready_count h i) rfl
  | mark hphase =>
    exact iff_of_true (mark_worker_not_ready_count h _) (by rw [spawns_unready, hphase])
  | abort hphase =>
    exact iff_of_true (mark_worker_not_ready_count h _) (by rw [spawns_unready, hphase])
  | drain hphase =>
    exact iff_of_true (h.congr (drain_ready s _)) (by rw [spawns_unready, hphase])
  | read hphase =>
    exact iff_of_true (h.congr (recover_in_flight_ready s _ _)) (by rw [spawns_unready, hphase])
  | stop_old hphase =>
    exact iff_of_true (h.congr (stop_old_worker_ready s _ _)) (by rw [spawns_unready, hphase])
  | exit hphase hlimit =>
    exact iff_of_true h (by simp [spawns_unready, hphase, hlimit.1, hlimit.2])
  | give_up hphase hreached =>
    exact iff_of_true h (by simp [spawns_unready, hphase, hreached])
  | return_shutdown hphase hshut =>
    exact iff_of_true h (by simp [spawns_unready, hphase, hshut])
  | prepare _ _ hphase => exact iff_of_true h (by rw [spawns_unready, hphase])
  | return_done hphase => exact iff_of_true h (by rw [spawns_unready, hphase])
  | discard hphase => exact iff_of_true h (by rw [spawns_unready, hphase])
  | retry hphase => exact iff_of_true h (by rw [spawns_unready, hphase])
  | retry_shutdown hphase => exact iff_of_true h (by rw [spawns_unready, hphase])
  | repick _ _ hphase => exact iff_of_true h (by rw [spawns_unready, hphase])
  | redrop _ hphase => exact iff_of_true h (by rw [spawns_unready, hphase])
  | readd hphase => exact iff_of_true h (by rw [spawns_unready, hphase])
  | refuse | distribute | pick | drop | add | start | fail | started | loop | notice | shutdown |
    stop => exact iff_of_true h rfl

theorem init_count (n max_replace_attempts : ℕ) : (init n max_replace_attempts).count_agrees := by
  simp [count_agrees, init, Vector.count_replicate]

/-- The count and the flags agree all along a run exactly when no replacement of the run
is spawned in a slot that is marked ready. -/
theorem ready_count_agrees_iff {max_replace_attempts : ℕ} {tr : List (Pool n × Action n)}
    {s : Pool n} (hrun : Runs.Run step (init n max_replace_attempts) tr s) :
    (∀ u ∈ Runs.states tr s, u.ready_count = u.ready_list.count true) ↔
      Runs.Steps (fun u a => u.spawns_unready a = true) tr := by
  induction hrun with
  | nil =>
    refine iff_of_true ?_ (Runs.Steps.nil _)
    intro u hu
    obtain rfl : u = init n max_replace_attempts := by simpa [Runs.states] using hu
    exact init_count n max_replace_attempts
  | @snoc tr t a t' hrun hstep ih =>
    constructor
    · intro h
      have hbefore : ∀ u ∈ Runs.states tr t, u.ready_count = u.ready_list.count true :=
        fun u hu => h u (Runs.mem_states_snoc.mpr (.inl hu))
      have hlast := (step_count (hbefore t (Runs.last_mem_states tr t)) hstep).mp
        (h t' (Runs.last_mem_states _ _))
      intro p hp
      rcases List.mem_append.mp hp with hp | hp
      · exact ih.mp hbefore p hp
      · obtain rfl := List.mem_singleton.mp hp
        exact hlast
    · intro h u hu
      have hbefore := ih.mpr h.init
      rcases Runs.mem_states_snoc.mp hu with hu | rfl
      · exact hbefore u hu
      · exact (step_count (hbefore t (Runs.last_mem_states tr t)) hstep).mpr h.last

/-- The replacement of worker 0 is given a request through the entry its predecessor left
in the queue, is found hung before its initializer gets to `set_worker_ready`, and that
call then comes between the supervisor's marking and its replacement. -/
def drift_schedule : List (Action 2) :=
  [.initialize_worker 0 true, .initialize_worker 0 true, .initialize_worker 0 true,
    .initialize_worker 0 true, .initialize_worker 0 true, .initialize_worker 0 true,
    .distribute_request [1], .call 0, .call 0,
    .worker_loop 0 .wait, .worker_loop 0 .take, .worker_loop 0 .track, .worker_loop 0 .fault,
    .monitor_worker_at 0 false, .supervise, .supervise, .supervise, .supervise, .supervise,
    .supervise, .initialize_worker 0 true, .initialize_worker 0 true,
    .supervise, .supervise, .supervise, .supervise,
    .distribute_request [2], .call 0, .call 0, .worker_loop 2 .wait, .worker_loop 2 .take,
    .monitor_worker_at 0 true, .supervise, .initialize_worker 0 true,
    .supervise, .supervise, .supervise, .supervise, .supervise]

theorem drift_run : ∃ tr s, Runs.Run step (init 2 3) tr s ∧
    s.ready_count = 2 ∧ s.ready_list.count true = 1 := by
  have h : (Runs.exec step (fun _ _ => true) (init 2 3) drift_schedule).map
      (fun s => (s.ready_count, s.ready_list.toList)) = some (2, [false, true]) := by decide +kernel
  obtain ⟨s, hs, hcounts⟩ := Option.map_eq_some_iff.mp h
  obtain ⟨tr, hrun, -⟩ := Runs.run_of_exec hs
  obtain ⟨hcount, hflags⟩ := Prod.mk.inj hcounts
  refine ⟨tr, s, hrun, hcount, ?_⟩
  rw [← Vector.count_toList, hflags]
  decide

/-- A run of two workers after which one is ready and two are counted. -/
theorem ready_count_drifts :
    ¬∀ (n max_replace_attempts : ℕ) (tr : List (Pool n × Action n)) (s : Pool n),
      Runs.Run step (init n max_replace_attempts) tr s →
        ∀ u ∈ Runs.states tr s, u.ready_count = u.ready_list.count true := by
  intro hall
  obtain ⟨tr, s, hrun, hcount, hflags⟩ := drift_run
  have h := hall 2 3 tr s hrun s (Runs.last_mem_states tr s)
  rw [hcount, hflags] at h
  exact absurd h (by decide)

theorem ready_count_agrees_iff_drift : ∃ tr s, Runs.Run step (init 2 3) tr s ∧
    ¬Runs.Steps (fun u a => u.spawns_unready a = true) tr := by
  obtain ⟨tr, s, hrun, hcount, hflags⟩ := drift_run
  refine ⟨tr, s, hrun, fun hsteps => ?_⟩
  have h := (ready_count_agrees_iff hrun).mpr hsteps s (Runs.last_mem_states tr s)
  rw [hcount, hflags] at h
  exact absurd h (by decide)

end Zowex.worker.Pool

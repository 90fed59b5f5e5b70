import Mathlib.Data.List.Nodup
import Mathlib.Data.List.TakeWhile
import Zowex.Lib.Runs
import Zowex.Proofs.WorkerSteps

/-! The ready queue against the ready flags. A worker marked not ready leaves its entry in the
queue, where its replacement finds it, and an entry that is popped while its worker is not ready is
gone, whatever the flag says. -/

namespace Zowex.worker.Pool

variable {n : ℕ} {s s' : Pool n} {a : Action n}

theorem queued_iff : s.Queued ↔
    s.ready_queue.Nodup ∧ ∀ i, s.ready_list.get i = true → i ∈ s.ready_queue := by
  constructor
  · intro h
    refine ⟨List.nodup_iff_count_le_one.mpr h.at_most_once, fun i hi => ?_⟩
    rw [← List.count_pos_iff, h.marked_once i hi]
    exact Nat.one_pos
  · intro h
    exact ⟨List.nodup_iff_count_le_one.mp h.1,
      fun i hi => List.count_eq_one_of_mem h.1 (h.2 i hi)⟩

/-- There are no more entries than workers. -/
theorem Queued.length_le (h : s.Queued) : s.ready_queue.length ≤ n := by
  have hcard := (queued_iff.mp h).1.length_le_card
  rwa [Fintype.card_fin] at hcard

/-- What is left of the queue when the loop of `get_ready_worker` ends. -/
theorem pop_ready_perm (s : Pool n) (queue : List (Fin n)) :
    (s.pop_ready queue).2.Perm (queue.dropWhile fun i => !s.worker_is_ready i) := by
  induction queue with
  | nil => exact .refl _
  | cons i queue ih =>
    rw [pop_ready]
    by_cases hready : s.worker_is_ready i = true
    · rw [if_pos hready, List.dropWhile_cons_of_neg (by simp [hready])]
      exact List.perm_append_singleton i queue
    · rw [if_neg hready, List.dropWhile_cons_of_pos (by simpa using hready)]
      exact ih

/-- What a step does to the queue and the flags. -/
inductive Queueing (s : Pool n) (a : Action n) (s' : Pool n) : Prop
  | kept : s'.ready_queue = s.ready_queue →
      (∀ i, s'.ready_list.get i = true → s.ready_list.get i = true) →
      s.keeps_entries a = true → Queueing s a s'
  | popped : s'.ready_queue = (s.pop_ready s.ready_queue).2 → s'.ready_list = s.ready_list →
      (s.keeps_entries a = true ↔
        ∀ i ∈ s.ready_queue.takeWhile fun i => !s.worker_is_ready i, s.ready_list.get i = false) →
      Queueing s a s'
  | pushed (i : Fin n) : s'.ready_queue = s.ready_queue ++ [i] →
      s'.ready_list = s.ready_list.set i true i.isLt →
      (s.keeps_entries a = true ↔ i ∉ s.ready_queue) → Queueing s a s'

theorem get_ready_worker_queue {worker : Option ℕ} (h : s.get_ready_worker = some (worker, s')) :
    s' = s ∧ s.pops_unmarked = true ∨
      s' = { s with ready_queue := (s.pop_ready s.ready_queue).2 } ∧
        (s.pops_unmarked = true ↔ ∀ i ∈ s.ready_queue.takeWhile fun i => !s.worker_is_ready i,
          s.ready_list.get i = false) := by
  unfold get_ready_worker at h
  by_cases hshut : s.is_shutting_down = true
  · rw [if_pos hshut] at h
    cases h
    exact .inl ⟨rfl, by rw [pops_unmarked, hshut]; rfl⟩
  rw [if_neg hshut] at h
  by_cases hcount : 0 < s.ready_count
  · rw [if_pos hcount] at h
    cases h
    refine .inr ⟨rfl, ?_⟩
    have hpositive : ¬ s.ready_count ≤ 0 := by omega
    simp [pops_unmarked, hshut, hpositive]
  · rw [if_neg hcount] at h
    cases h

theorem call_queueing {k : ℕ} (h : s.call k = some s') : Queueing s (.call k) s' := by
  unfold call at h
  split at h
  next r hk =>
    have hkeeps : s.keeps_entries (.call k) = s.pops_unmarked := by rw [keeps_entries, hk]
    have hpop : ∃ worker t, s.get_ready_worker = some (worker, t) ∧
        s'.ready_queue = t.ready_queue ∧ s'.ready_list = t.ready_list := by
      split at h
      next worker t hready =>
        cases h
        exact ⟨_, t, hready, rfl, rfl⟩
      next t hready =>
        cases h
        exact ⟨_, t, hready, rfl, rfl⟩
      · cases h
    obtain ⟨worker, t, hready, hqueue, hlist⟩ := hpop
    rcases get_ready_worker_queue hready with ⟨rfl, hpops⟩ | ⟨rfl, hpops⟩
    · exact .kept hqueue (fun i hi => hlist ▸ hi) (hkeeps.trans hpops)
    · exact .popped hqueue hlist (hkeeps ▸ hpops)
  next r ref hk =>
    cases h
    exact .kept rfl (fun _ hi => hi) (by rw [keeps_entries, hk])
  · cases h

theorem set_worker_ready_queue (s : Pool n) (i : Fin n) :
    s.set_worker_ready i = s ∧ (s.ready_list.get i || !s.worker_is_ready i) = true ∨
      (s.set_worker_ready i).ready_queue = s.ready_queue ++ [i] ∧
        (s.set_worker_ready i).ready_list = s.ready_list.set i true i.isLt ∧
        (s.ready_list.get i || !s.worker_is_ready i) = false := by
  unfold set_worker_ready
  split
  next hslot =>
    have hslot : s.workers[i] = none := hslot
    refine .inl ⟨rfl, ?_⟩
    simp [worker_is_ready, hslot]
  split
  next hready =>
    simp only [Bool.and_eq_true, Bool.not_eq_true'] at hready
    refine .inr ⟨rfl, rfl, ?_⟩
    have hflag : s.ready_list.get i = false := hready.1
    rw [hflag, hready.2]
    rfl
  next hready =>
    refine .inl ⟨rfl, ?_⟩
    by_cases hflag : s.ready_list.get i = true
    · rw [hflag, Bool.true_or]
    · have hunmarked : s.ready_list[i] = false := Bool.not_eq_true _ ▸ hflag
      rw [hunmarked, Bool.not_false, Bool.true_and] at hready
      simp [hready]

theorem initialize_worker_queueing {k : ℕ} {created : Bool}
    (h : s.initialize_worker k created = some s') :
    Queueing s (.initialize_worker k created) s' := by
  unfold initialize_worker at h
  split at h
  next i hk =>
    have hkeeps : s.keeps_entries (.initialize_worker k created) = true := by
      rw [keeps_entries, hk]
    simp only [Option.bind_eq_bind, Option.bind_eq_some_iff] at h
    obtain ⟨ref, -, w, -, h⟩ := h
    split at h
    · cases h
    split at h
    · cases h
      exact .kept rfl (fun _ hi => hi) hkeeps
    · cases h
      exact .kept rfl (fun _ hi => hi) hkeeps
  next i ref hk =>
    cases h
    exact .kept rfl (fun _ hi => hi) (by rw [keeps_entries, hk])
  next i hk =>
    have hkeeps : s.keeps_entries (.initialize_worker k created) =
        (s.ready_list.get i || !s.worker_is_ready i || !s.ready_queue.contains i) := by
      rw [keeps_entries, hk]
    cases h
    rcases set_worker_ready_queue s i with ⟨hsame, hready⟩ | ⟨hqueue, hlist, hready⟩
    · refine .kept ?_ ?_ ?_
      · rw [hsame]
      · rw [hsame]
        exact fun _ hi => hi
      · rw [hkeeps, hready, Bool.true_or]
    · refine .pushed i hqueue hlist ?_
      rw [hkeeps, hready]
      simp
  · cases h

/-- The queue, and which flags are on. -/
def entries (s : Pool n) : List (Fin n) × Vector Bool n := (s.ready_queue, s.ready_list)

theorem drain_entries (s : Pool n) (old : Option ℕ) : (s.drain old).2.entries = s.entries := by
  unfold drain
  split
  · rfl
  split
  · rfl
  · rfl

theorem recover_in_flight_entries (s : Pool n) (old : Option ℕ) (force : Bool) :
    (s.recover_in_flight old force).2.entries = s.entries := by
  unfold recover_in_flight
  split
  · rfl
  split
  · rfl
  dsimp only
  split
  · rfl
  split
  · rfl
  · rfl

theorem stop_old_worker_entries (s : Pool n) (old : Option ℕ) (force : Bool) :
    (s.stop_old_worker old force).entries = s.entries := by
  unfold stop_old_worker
  split
  · rfl
  split
  · rfl
  · rfl

/-- Clearing a flag marks no worker. -/
theorem marked_of_cleared {flags : Vector Bool n} {i j : Fin n}
    (h : (flags.set i false i.isLt).get j = true) : flags.get j = true := by
  have hset : (flags.set i false i.isLt).get j = if i.val = j.val then false else flags.get j :=
    Vector.getElem_set i.isLt j.isLt
  rw [hset] at h
  split_ifs at h
  exact h

theorem mark_worker_not_ready_queue (s : Pool n) (i : Fin n) :
    (s.mark_worker_not_ready i).2.ready_queue = s.ready_queue ∧
      ∀ j, (s.mark_worker_not_ready i).2.ready_list.get j = true → s.ready_list.get j = true := by
  unfold mark_worker_not_ready
  split
  · split
    · exact ⟨rfl, fun _ => marked_of_cleared⟩
    · exact ⟨rfl, fun _ => marked_of_cleared⟩
  · exact ⟨rfl, fun _ hj => hj⟩

theorem Queueing.of_entries (h : s'.entries = s.entries) (hkeeps : s.keeps_entries a = true) :
    Queueing s a s' := by
  obtain ⟨hqueue, hlist⟩ := Prod.mk.inj h
  exact .kept hqueue (fun i hi => hlist ▸ hi) hkeeps

theorem supervise_queueing (h : s.supervise = some s') : Queueing s .supervise s' := by
  by_cases hwaiting : ∃ r rs, s.supervisor = .waiting r rs
  · obtain ⟨r, rs, hphase⟩ := hwaiting
    have hkeeps : s.keeps_entries .supervise = s.pops_unmarked := by rw [keeps_entries, hphase]
    have hpop : ∃ worker t, s.get_ready_worker = some (worker, t) ∧
        s'.ready_queue = t.ready_queue ∧ s'.ready_list = t.ready_list := by
      simp only [supervise, hphase] at h
      split at h
      next worker t hready =>
        cases h
        exact ⟨_, t, hready, rfl, rfl⟩
      next t hready =>
        cases h
        exact ⟨_, t, hready, rfl, rfl⟩
      · cases h
    obtain ⟨worker, t, hready, hqueue, hlist⟩ := hpop
    rcases get_ready_worker_queue hready with ⟨rfl, hpops⟩ | ⟨rfl, hpops⟩
    · exact .kept hqueue (fun i hi => hlist ▸ hi) (hkeeps.trans hpops)
    · exact .popped hqueue hlist (hkeeps ▸ hpops)
  · have hkeeps : s.keeps_entries .supervise = true := by
      rw [keeps_entries]
      split
      next r rs hphase => exact absurd ⟨r, rs, hphase⟩ hwaiting
      · rfl
    cases supervise_sound h with
    | mark hphase =>
      obtain ⟨hqueue, hlist⟩ := mark_worker_not_ready_queue s _
      exact .kept hqueue hlist hkeeps
    | abort hphase =>
      obtain ⟨hqueue, hlist⟩ := mark_worker_not_ready_queue s _
      exact .kept hqueue hlist hkeeps
    | spawn => exact .kept rfl (fun _ => marked_of_cleared) hkeeps
    | drain => exact .of_entries (drain_entries s _) hkeeps
    | read => exact .of_entries (recover_in_flight_entries s _ _) hkeeps
    | stop_old => exact .of_entries (stop_old_worker_entries s _ _) hkeeps
    | repick ref q hphase => exact absurd ⟨_, _, hphase⟩ hwaiting
    | redrop q hphase => exact absurd ⟨_, _, hphase⟩ hwaiting
    | _ => exact .of_entries rfl hkeeps

theorem step_queueing (h : s.step a = some s') : Queueing s a s' := by
  have hsound := step_sound h
  unfold step at h
  split at h
  · cases h
  cases a with
  | call k => exact call_queueing h
  | initialize_worker k created => exact initialize_worker_queueing h
  | supervise => exact supervise_queueing h
  | distribute_request text =>
    cases hsound with
    | refuse => exact .of_entries rfl rfl
    | distribute => exact .of_entries rfl rfl
  | worker_loop ref a =>
    cases hsound
    exact .of_entries rfl rfl
  | monitor_worker_at i late =>
    cases hsound
    exact .of_entries rfl rfl
  | shutdown =>
    cases hsound
    exact .of_entries rfl rfl
  | stop i =>
    cases hsound
    exact .of_entries rfl rfl

theorem queued_kept (h : s.Queued) (hqueue : s'.ready_queue = s.ready_queue)
    (hlist : ∀ i, s'.ready_list.get i = true → s.ready_list.get i = true) : s'.Queued := by
  rw [queued_iff] at h ⊢
  rw [hqueue]
  exact ⟨h.1, fun i hi => h.2 i (hlist i hi)⟩

theorem queued_popped (h : s.Queued) (hqueue : s'.ready_queue = (s.pop_ready s.ready_queue).2)
    (hlist : s'.ready_list = s.ready_list) :
    s'.Queued ↔ ∀ i ∈ s.ready_queue.takeWhile fun i => !s.worker_is_ready i,
      s.ready_list.get i = false := by
  obtain ⟨hnodup, hmarked⟩ := queued_iff.mp h
  have hperm := pop_ready_perm s s.ready_queue
  have hsplit := List.takeWhile_append_dropWhile (p := fun i => !s.worker_is_ready i)
    (l := s.ready_queue)
  have hparts := hsplit.symm ▸ hnodup
  obtain ⟨-, hrest, hdisjoint⟩ := List.nodup_append'.mp hparts
  rw [queued_iff, hqueue, hlist, hperm.nodup_iff]
  constructor
  · intro hqueued i hi
    by_contra hflag
    have hmem := hperm.mem_iff.mp (hqueued.2 i (by simpa using hflag))
    exact hdisjoint hi hmem
  · intro hunmarked
    refine ⟨hrest, fun i hi => hperm.mem_iff.mpr ?_⟩
    have hmem := hmarked i hi
    rw [← hsplit] at hmem
    rcases List.mem_append.mp hmem with hdropped | hleft
    · rw [hunmarked i hdropped] at hi
      cases hi
    · exact hleft

theorem queued_pushed (h : s.Queued) {i : Fin n} (hqueue : s'.ready_queue = s.ready_queue ++ [i])
    (hlist : s'.ready_list = s.ready_list.set i true i.isLt) :
    s'.Queued ↔ i ∉ s.ready_queue := by
  obtain ⟨hnodup, hmarked⟩ := queued_iff.mp h
  rw [queued_iff, hqueue, hlist]
  constructor
  · intro hqueued hmem
    have hdisjoint := (List.nodup_append'.mp hqueued.1).2.2
    exact hdisjoint hmem (List.mem_singleton_self i)
  · intro hnew
    refine ⟨List.nodup_append'.mpr ⟨hnodup, List.nodup_singleton i, ?_⟩, fun j hj => ?_⟩
    · rw [List.disjoint_singleton]
      exact hnew
    · by_cases hji : j = i
      · exact List.mem_append_right _ (List.mem_singleton.mpr hji)
      · refine List.mem_append_left _ (hmarked j ?_)
        have hother : (s.ready_list.set i true i.isLt).get j = s.ready_list.get j :=
          Vector.getElem_set_ne i.isLt j.isLt fun heq => hji (Fin.ext heq.symm)
        rwa [hother] at hj

theorem queued_step (h : s.Queued) (hstep : Queueing s a s') :
    s'.Queued ↔ s.keeps_entries a = true := by
  rcases hstep with ⟨hqueue, hlist, hkeeps⟩ | ⟨hqueue, hlist, hkeeps⟩ | ⟨i, hqueue, hlist, hkeeps⟩
  · exact iff_of_true (queued_kept h hqueue hlist) hkeeps
  · rw [hkeeps]
    exact queued_popped h hqueue hlist
  · rw [hkeeps]
    exact queued_pushed h hqueue hlist

theorem queued_init (n max_replace_attempts : ℕ) : (init n max_replace_attempts).Queued := by
  refine queued_iff.mpr ⟨List.nodup_nil, fun i hi => ?_⟩
  have hflag : (init n max_replace_attempts).ready_list.get i = false :=
    Vector.getElem_replicate i.isLt
  rw [hflag] at hi
  cases hi

/-- Every worker has its entry, and one at most, all along a run just when the steps of the run
keep the entries. -/
theorem queued_iff_keeps_entries {max_replace_attempts : ℕ} {trace : List (Pool n × Action n)}
    (hrun : Runs.Run step (init n max_replace_attempts) trace s) :
    (∀ u ∈ Runs.states trace s, u.Queued) ↔
      Runs.Steps (fun u a => u.keeps_entries a = true) trace := by
  constructor
  · intro h p hp
    obtain ⟨u', hu', hstep⟩ := hrun.next_mem hp
    have hbefore := h p.1 (List.mem_append_left _ (List.mem_map_of_mem hp))
    exact (queued_step hbefore (step_queueing hstep)).mp (h u' hu')
  · intro h
    exact hrun.always h (queued_init n max_replace_attempts) fun hqueued hkeeps hstep =>
      (queued_step hqueued (step_queueing hstep)).mpr hkeeps

/-- The worker faults with its entry in the queue, and the worker that replaces it gets ready. -/
def replaced_schedule : List (Action 1) :=
  [.initialize_worker 0 true, .initialize_worker 0 true, .initialize_worker 0 true,
    .distribute_request [1], .call 0, .call 0,
    .worker_loop 0 .wait, .worker_loop 0 .take, .worker_loop 0 .track, .worker_loop 0 .fault,
    .monitor_worker_at 0 false, .supervise, .supervise, .supervise, .supervise, .supervise,
    .supervise, .initialize_worker 0 true, .initialize_worker 0 true, .initialize_worker 0 true]

theorem replaced_run : ∃ trace s, Runs.Run step (init 1 3) trace s ∧ s.ready_queue = [0, 0] := by
  have h : (Runs.exec step (fun _ _ => true) (init 1 3) replaced_schedule).map
      (fun s => s.ready_queue) = some [0, 0] := by decide +kernel
  obtain ⟨s, hs, hqueue⟩ := Option.map_eq_some_iff.mp h
  obtain ⟨trace, hrun, -⟩ := Runs.run_of_exec hs
  exact ⟨trace, s, hrun, hqueue⟩

/-- A pool of one worker that has two entries. -/
theorem worker_queued_twice :
    ¬∀ (n max_replace_attempts : ℕ) (trace : List (Pool n × Action n)) (s : Pool n),
      Runs.Run step (init n max_replace_attempts) trace s →
        ∀ u ∈ Runs.states trace s, u.Queued := by
  intro hall
  obtain ⟨trace, s, hrun, hqueue⟩ := replaced_run
  have hqueued := hall 1 3 trace s hrun s (Runs.last_mem_states trace s)
  have honce := hqueued.at_most_once 0
  rw [hqueue] at honce
  exact absurd honce (by decide)

theorem queued_iff_keeps_entries_replaced : ∃ trace s, Runs.Run step (init 1 3) trace s ∧
    ¬Runs.Steps (fun u a => u.keeps_entries a = true) trace := by
  obtain ⟨trace, s, hrun, hqueue⟩ := replaced_run
  refine ⟨trace, s, hrun, fun hsteps => ?_⟩
  have hqueued := (queued_iff_keeps_entries hrun).mpr hsteps s (Runs.last_mem_states trace s)
  have honce := hqueued.at_most_once 0
  rw [hqueue] at honce
  exact absurd honce (by decide)

end Zowex.worker.Pool

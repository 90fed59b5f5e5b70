import Zowex.Lib.Runs
import Zowex.Proofs.WorkerSteps

/-! What holds of every worker and of the supervisor in every reachable state: a thread
agrees with `current_request_data`, a faulted worker has a dead thread, and the worker
under replacement is out of its slot. -/

namespace Zowex.worker

variable {n : ℕ}

/-- The thread against the request recorded as current and the answer it may have got. -/
def Thread.agrees (thread : Thread) (current : Option Payload) (answered : Bool) : Prop :=
  match thread with
  | processing r | processed r => current = some r.data
  | ended (some r) => current = none ∨ current = some r.data
  | ended none => current = none
  | _ => current = none ∧ answered = false

namespace Worker

structure Ok (w : Worker n) : Prop where
  agrees : w.thread.agrees w.current_request_data w.answered
  faulted : w.state = .Faulted → w.recovered = false → w.thread.is_ended = true
  answered : w.answered = true → w.recovered = true
  recovered : w.recovered = true → w.drained = true

/-- What is not the supervisor's doing leaves its marks alone, and no thread comes back. -/
structure Keeps (w w' : Worker n) : Prop where
  id : w'.id = w.id
  drained : w'.drained = w.drained
  recovered : w'.recovered = w.recovered
  ended : w.thread.is_ended = true → w'.thread.is_ended = true

theorem Ok.new (i : Fin n) : Ok { id := i } := ⟨⟨rfl, rfl⟩, nofun, nofun, nofun⟩

theorem Ok.start {w : Worker n} (h : w.Ok) (hthread : w.thread = .unstarted) : w.start.Ok := by
  obtain ⟨hagrees, -, hanswered, hrecovered⟩ := h
  rw [hthread] at hagrees
  exact ⟨hagrees, nofun, hanswered, hrecovered⟩

theorem Ok.started {w : Worker n} (h : w.Ok) : w.started.Ok :=
  ⟨h.agrees, nofun, h.answered, h.recovered⟩

theorem Ok.add_request {w : Worker n} (h : w.Ok) (r : RequestMetadata) : (w.add_request r).Ok :=
  ⟨h.agrees, h.faulted, h.answered, h.recovered⟩

theorem Ok.stop {w : Worker n} (h : w.Ok) : w.stop.Ok := by
  unfold Worker.stop
  split
  · exact h
  refine ⟨h.agrees, fun hstate => ?_, h.answered, h.recovered⟩
  dsimp only at hstate
  split at hstate
  case isTrue hfaulted => exact h.faulted hfaulted
  case isFalse => cases hstate

theorem Ok.force_detach {w : Worker n} (h : w.Ok) (hrecovered : w.recovered = true) :
    w.force_detach.Ok :=
  ⟨h.agrees, fun _ hnot => absurd (hrecovered.symm.trans hnot) (by decide), h.answered,
    h.recovered⟩

theorem Ok.drain {w : Worker n} (h : w.Ok) : w.drain_pending_requests.2.Ok :=
  ⟨h.agrees, h.faulted, h.answered, fun _ => rfl⟩

theorem Ok.recover {w : Worker n} (h : w.Ok) (hdrained : w.drained = true) :
    Ok { w with recovered := true } :=
  ⟨h.agrees, nofun, fun _ => rfl, fun _ => hdrained⟩

/-- Only a worker that has a request current gets a timeout error. -/
theorem Ok.answer {w : Worker n} (h : w.Ok) (hrecovered : w.recovered = true)
    (hcurrent : w.current_request_data ≠ none) : Ok { w with answered := true } := by
  refine ⟨?_, h.faulted, fun _ => hrecovered, h.recovered⟩
  have hagrees := h.agrees
  cases hthread : w.thread with
  | processing r | processed r =>
    rw [hthread] at hagrees
    exact hagrees
  | ended held =>
    rw [hthread] at hagrees
    cases held <;> exact hagrees
  | unstarted | looping | waiting | taken r =>
    rw [hthread] at hagrees
    exact absurd hagrees.1 hcurrent

/-- A request that is current belongs to a thread that holds it or died with it. -/
theorem Ok.of_current {w : Worker n} (h : w.Ok) {p : Payload}
    (hcurrent : w.current_request_data = some p) :
    (∃ r, w.thread = .processing r ∧ p = r.data) ∨ (∃ r, w.thread = .processed r ∧ p = r.data) ∨
      ∃ r, w.thread = .ended (some r) ∧ p = r.data := by
  have hagrees := h.agrees
  rw [hcurrent] at hagrees
  cases hthread : w.thread with
  | unstarted | looping | waiting | taken r =>
    rw [hthread] at hagrees
    cases hagrees.1
  | processing r =>
    rw [hthread] at hagrees
    exact .inl ⟨r, rfl, Option.some.inj hagrees⟩
  | processed r =>
    rw [hthread] at hagrees
    exact .inr (.inl ⟨r, rfl, Option.some.inj hagrees⟩)
  | ended held =>
    rw [hthread] at hagrees
    cases held with
    | none => cases hagrees
    | some r =>
      rcases hagrees with hagrees | hagrees
      · cases hagrees
      · exact .inr (.inr ⟨r, rfl, Option.some.inj hagrees⟩)

theorem Transition.keeps {w w' : Worker n} {a : LoopStep} (hstep : w.Transition a w') :
    w.Keeps w' := by
  cases hstep with
  | wait h => exact ⟨rfl, rfl, rfl, by simp [h, Thread.is_ended]⟩
  | take h => exact ⟨rfl, rfl, rfl, by simp [h, Thread.is_ended]⟩
  | track h => exact ⟨rfl, rfl, rfl, by simp [h, Thread.is_ended]⟩
  | finish h => exact ⟨rfl, rfl, rfl, by simp [h, Thread.is_ended]⟩
  | clear h => exact ⟨rfl, rfl, rfl, by simp [h, Thread.is_ended]⟩
  | stop | fault_waiting | fault_taken | fault_processing =>
    exact ⟨rfl, rfl, rfl, fun _ => rfl⟩

theorem Ok.unwind {w : Worker n} (h : w.Ok) {held : Option RequestMetadata}
    (hagrees : (Thread.ended held).agrees w.current_request_data w.answered) :
    (w.unwind held).Ok :=
  ⟨hagrees, fun _ _ => rfl, h.answered, h.recovered⟩

theorem Ok.transition {w w' : Worker n} {a : LoopStep} (h : w.Ok) (hstep : w.Transition a w') :
    w'.Ok := by
  have hagrees := h.agrees
  have hfaulted := h.faulted
  cases hstep with
  | wait hthread =>
    rw [hthread] at hagrees
    exact ⟨hagrees, nofun, h.answered, h.recovered⟩
  | take hthread =>
    rw [hthread] at hagrees
    exact ⟨hagrees, nofun, h.answered, h.recovered⟩
  | stop hthread =>
    rw [hthread] at hagrees
    exact ⟨hagrees.1, nofun, h.answered, h.recovered⟩
  | track hthread =>
    rw [hthread] at hfaulted
    exact ⟨rfl, hfaulted, h.answered, h.recovered⟩
  | finish hthread =>
    rw [hthread] at hagrees hfaulted
    exact ⟨hagrees, hfaulted, h.answered, h.recovered⟩
  | clear hthread =>
    rw [hthread] at hfaulted
    exact ⟨⟨rfl, rfl⟩, hfaulted, nofun, h.recovered⟩
  | fault_waiting hthread =>
    rw [hthread] at hagrees
    exact h.unwind hagrees.1
  | fault_taken hthread =>
    rw [hthread] at hagrees
    exact h.unwind (.inl hagrees.1)
  | fault_processing hthread =>
    rw [hthread] at hagrees
    exact h.unwind (.inr hagrees)

end Worker

namespace Pool

/-- The worker that the supervisor has taken out of the slot `i`, and what it has done to
it so far. Unless it is to be detached by force its thread is dead. -/
def holds (s : Pool n) (i : Fin n) (force : Bool) (old : Option ℕ) (drained recovered : Bool) :
    Prop :=
  s.workers.get i = none ∧ ∀ ref, old = some ref → ∃ w, s.objects[ref]? = some w ∧ w.id = i ∧
    w.drained = drained ∧ w.recovered = recovered ∧ (force = false → w.thread.is_ended = true)

def supervisor_ok (s : Pool n) : Prop :=
  match s.supervisor with
  | .marking i force | .preparing i force =>
    ∀ ref, s.workers.get i = some ref →
      ∃ w, s.objects[ref]? = some w ∧ (force = false → w.thread.is_ended = true)
  | .draining i force ctx => s.holds i force ctx.old_worker false false
  | .reading i force ctx _ => s.holds i force ctx.old_worker true false
  | .stopping i force ctx _ => s.holds i force ctx.old_worker true true
  | _ => True

structure Ok (s : Pool n) : Prop where
  objects : ∀ (ref : ℕ) (w : Worker n), s.objects[ref]? = some w → w.Ok
  workers : ∀ (i : Fin n) (ref : ℕ), s.workers.get i = some ref → ∃ w, s.objects[ref]? = some w ∧
    w.id = i ∧ w.drained = false ∧ w.recovered = false
  supervisor : s.supervisor_ok

@[simp]
theorem on_getElem? (s : Pool n) (ref k : ℕ) (f : Worker n → Worker n) :
    (s.on ref f).objects[k]? = if ref = k then (s.objects[k]?).map f else s.objects[k]? := by
  rw [on, List.getElem?_modify]
  split
  · rfl
  · exact Option.map_id'

/-- A worker before a call on `ref` has a counterpart after it. -/
theorem on_find {s : Pool n} {ref k : ℕ} {f : Worker n → Worker n} {w : Worker n}
    (hw : s.objects[k]? = some w) (hf : ∀ w, s.objects[ref]? = some w → w.Keeps (f w)) :
    ∃ w', (s.on ref f).objects[k]? = some w' ∧ w.Keeps w' := by
  by_cases hk : ref = k
  · subst hk
    exact ⟨f w, by rw [on_getElem?, if_pos rfl, hw, Option.map_some], hf w hw⟩
  · exact ⟨w, by rw [on_getElem?, if_neg hk, hw], ⟨rfl, rfl, rfl, id⟩⟩

theorem on_objects {s : Pool n} {ref : ℕ} {f : Worker n → Worker n} {P : Worker n → Prop}
    (h : ∀ (k : ℕ) (w : Worker n), s.objects[k]? = some w → P w)
    (hf : ∀ w, s.objects[ref]? = some w → P (f w)) :
    ∀ (k : ℕ) (w : Worker n), (s.on ref f).objects[k]? = some w → P w := by
  intro k w hw
  rw [on_getElem?] at hw
  split at hw
  case isTrue hk =>
    subst hk
    obtain ⟨v, hv, rfl⟩ := Option.map_eq_some_iff.mp hw
    exact hf v hv
  case isFalse => exact h k w hw

theorem holds.on {s : Pool n} {i : Fin n} {force : Bool} {old : Option ℕ}
    {drained recovered : Bool} {ref : ℕ} {f : Worker n → Worker n}
    (h : s.holds i force old drained recovered)
    (hf : ∀ w, s.objects[ref]? = some w → w.Keeps (f w)) :
    (s.on ref f).holds i force old drained recovered := by
  refine ⟨h.1, fun k hk => ?_⟩
  obtain ⟨w, hw, hid, hdrained, hrecovered, hended⟩ := h.2 k hk
  obtain ⟨w', hw', hkeeps⟩ := on_find hw hf
  exact ⟨w', hw', hkeeps.id.trans hid, hkeeps.drained.trans hdrained,
    hkeeps.recovered.trans hrecovered, fun hforce => hkeeps.ended (hended hforce)⟩

/-- A call that keeps a worker's marks keeps the invariant. -/
theorem Ok.on {s : Pool n} (h : s.Ok) {ref : ℕ} {f : Worker n → Worker n}
    (hok : ∀ w, s.objects[ref]? = some w → w.Ok → (f w).Ok)
    (hf : ∀ w, s.objects[ref]? = some w → w.Keeps (f w)) : (s.on ref f).Ok := by
  refine ⟨on_objects h.objects fun w hw => hok w hw (h.objects ref w hw), fun i k hk => ?_, ?_⟩
  · obtain ⟨w, hw, hid, hdrained, hrecovered⟩ := h.workers i k hk
    obtain ⟨w', hw', hkeeps⟩ := on_find hw hf
    exact ⟨w', hw', hkeeps.id.trans hid, hkeeps.drained.trans hdrained,
      hkeeps.recovered.trans hrecovered⟩
  · have hsup := h.supervisor
    unfold supervisor_ok at hsup ⊢
    rw [show (s.on ref f).supervisor = s.supervisor from rfl]
    cases hphase : s.supervisor with
    | marking i force | preparing i force =>
      rw [hphase] at hsup
      intro k hk
      obtain ⟨w, hw, hended⟩ := hsup k hk
      obtain ⟨w', hw', hkeeps⟩ := on_find hw hf
      exact ⟨w', hw', fun hforce => hkeeps.ended (hended hforce)⟩
    | draining | reading | stopping =>
      rw [hphase] at hsup
      exact holds.on hsup hf
    | scanning | replacing | redistributing | waiting | picked => trivial

/-- A slot never points to the worker the supervisor has taken out. -/
theorem Ok.slot_ne {s : Pool n} (h : s.Ok) {i j : Fin n} {force drained recovered : Bool}
    {ref k : ℕ} (hold : s.holds i force (some ref) drained recovered)
    (hslot : s.workers.get j = some k) : ref ≠ k := by
  rintro rfl
  obtain ⟨w, hw, hid, -⟩ := hold.2 ref rfl
  obtain ⟨w', hw', hid', -⟩ := h.workers j ref hslot
  obtain rfl : w = w' := Option.some.inj (hw.symm.trans hw')
  rw [← hid', hid, hold.1] at hslot
  cases hslot

/-- What the supervisor does to the worker it has taken out leaves the slots right. -/
theorem Ok.on_held {s : Pool n} (h : s.Ok) {i : Fin n} {force drained recovered : Bool} {ref : ℕ}
    {f : Worker n → Worker n} (hold : s.holds i force (some ref) drained recovered)
    (hok : ∀ w, s.objects[ref]? = some w → w.Ok → (f w).Ok) :
    (∀ (k : ℕ) (w : Worker n), (s.on ref f).objects[k]? = some w → w.Ok) ∧
      ∀ (j : Fin n) (k : ℕ), (s.on ref f).workers.get j = some k →
        ∃ w, (s.on ref f).objects[k]? = some w ∧ w.id = j ∧ w.drained = false ∧
          w.recovered = false := by
  refine ⟨on_objects h.objects fun w hw => hok w hw (h.objects ref w hw), fun j k hslot => ?_⟩
  obtain ⟨w, hw, hmarks⟩ := h.workers j k hslot
  exact ⟨w, by rw [on_getElem?, if_neg (h.slot_ne hold hslot), hw], hmarks⟩

theorem holds.mark {s : Pool n} {i : Fin n} {force drained recovered drained' recovered' : Bool}
    {ref : ℕ} {f : Worker n → Worker n} (hold : s.holds i force (some ref) drained recovered)
    (hf : ∀ w : Worker n, w.drained = drained → w.recovered = recovered → (f w).id = w.id ∧
      (f w).drained = drained' ∧ (f w).recovered = recovered' ∧ (f w).thread = w.thread) :
    (s.on ref f).holds i force (some ref) drained' recovered' := by
  refine ⟨hold.1, ?_⟩
  rintro _ ⟨⟩
  obtain ⟨w, hw, hid, hdrained, hrecovered, hended⟩ := hold.2 ref rfl
  obtain ⟨hid', hdrained', hrecovered', hthread⟩ := hf w hdrained hrecovered
  refine ⟨f w, by rw [on_getElem?, if_pos rfl, hw, Option.map_some], hid'.trans hid, hdrained',
    hrecovered', fun hforce => ?_⟩
  rw [hthread]
  exact hended hforce

theorem holds.none (s : Pool n) {i : Fin n} {force drained recovered drained' recovered' : Bool}
    (hold : s.holds i force none drained recovered) :
    s.holds i force none drained' recovered' :=
  ⟨hold.1, nofun⟩

theorem drain_some {s : Pool n} {ref : ℕ} {w : Worker n} (hw : s.objects[ref]? = some w) :
    s.drain (some ref) = (w.request_queue, s.on ref (·.drain_pending_requests.2)) := by
  simp only [drain, hw, Worker.drain_pending_requests]

/-- Reading the request in flight: there is none, it is recovered, or it is answered. -/
theorem recover_cases {s : Pool n} {ref : ℕ} {w : Worker n} (hw : s.objects[ref]? = some w)
    (force : Bool) :
    (w.get_current_request = none ∧ s.recover_in_flight (some ref) force =
      ([], s.on ref fun w => { w with recovered := true })) ∨
    (∃ p, w.get_current_request = some p ∧ force = false ∧
      s.recover_in_flight (some ref) force =
        ([⟨p, 0⟩], s.on ref fun w => { w with recovered := true })) ∨
    (∃ p, w.get_current_request = some p ∧ force = true ∧
      s.recover_in_flight (some ref) force =
        ([], { (s.on ref fun w => { w with recovered := true, answered := true }) with
          finished := s.finished ++ w.in_hand.toList })) := by
  simp only [recover_in_flight, hw]
  cases hcurrent : w.get_current_request with
  | none => exact .inl ⟨rfl, rfl⟩
  | some p =>
    cases force with
    | false => exact .inr (.inl ⟨p, rfl, rfl, rfl⟩)
    | true =>
      refine .inr (.inr ⟨p, rfl, rfl, ?_⟩)
      simp only [on, if_true, List.modify_modify_eq]
      rfl

/-- The parts the invariant speaks of. -/
theorem Ok.congr {s s' : Pool n} (h : s.Ok) (hobjects : s'.objects = s.objects)
    (hworkers : s'.workers = s.workers) (hsupervisor : s'.supervisor = s.supervisor) : s'.Ok := by
  obtain ⟨ho, hw, hs⟩ := h
  unfold supervisor_ok holds at hs
  refine ⟨by rwa [hobjects], by rwa [hobjects, hworkers], ?_⟩
  unfold supervisor_ok holds
  rwa [hobjects, hworkers, hsupervisor]

theorem Ok.notice {s : Pool n} (h : s.Ok) {i : Fin n} {ref : ℕ} {w : Worker n} {force : Bool}
    (hslot : s.workers.get i = some ref) (hw : s.objects[ref]? = some w)
    (hforce : force = false → w.state = .Faulted) :
    Ok { s with supervisor := .marking i force } := by
  refine ⟨h.objects, h.workers, fun k hk => ?_⟩
  obtain rfl : ref = k := Option.some.inj (hslot.symm.trans hk)
  obtain ⟨w', hw', -, -, hrecovered⟩ := h.workers i ref hslot
  obtain rfl : w = w' := Option.some.inj (hw.symm.trans hw')
  exact ⟨w, hw, fun hf => (h.objects ref w hw).faulted (hforce hf) hrecovered⟩

theorem mark_worker_not_ready_parts (s : Pool n) (i : Fin n) :
    (s.mark_worker_not_ready i).2.objects = s.objects ∧
      (s.mark_worker_not_ready i).2.workers = s.workers := by
  unfold mark_worker_not_ready
  split
  · split <;> exact ⟨rfl, rfl⟩
  · exact ⟨rfl, rfl⟩

theorem Ok.mark {s : Pool n} (h : s.Ok) {i : Fin n} {force : Bool}
    (hphase : s.supervisor = .marking i force) :
    Ok { (s.mark_worker_not_ready i).2 with supervisor := .preparing i force } := by
  have hsup := h.supervisor
  rw [supervisor_ok, hphase] at hsup
  have hmark := s.mark_worker_not_ready_parts i
  refine ⟨?_, ?_, ?_⟩
  · exact hmark.1 ▸ h.objects
  · exact hmark.1 ▸ hmark.2 ▸ h.workers
  · intro k hk
    rw [show s.workers = _ from hmark.2.symm] at hsup
    rw [show s.objects = _ from hmark.1.symm] at hsup
    exact hsup k hk

theorem Ok.prepare {s : Pool n} (h : s.Ok) {i : Fin n} {force reached : Bool}
    {attempts : Vector ℕ n} (hphase : s.supervisor = .preparing i force) :
    Ok { s with
      replacement_attempts := attempts
      workers := s.workers.set i none i.isLt
      supervisor := .draining i force ⟨s.workers.get i, reached⟩ } := by
  have hsup := h.supervisor
  rw [supervisor_ok, hphase] at hsup
  refine ⟨h.objects, fun j k hk => ?_, Vector.getElem_set_self _, fun ref hslot => ?_⟩
  · have hk : (s.workers.set i none)[j] = some k := hk
    rw [Fin.getElem_fin, Vector.getElem_set] at hk
    split at hk
    · cases hk
    · exact h.workers j k hk
  · obtain ⟨w, hw, hid, hdrained, hrecovered⟩ := h.workers i ref hslot
    obtain ⟨w', hw', hended⟩ := hsup ref hslot
    obtain rfl : w = w' := Option.some.inj (hw.symm.trans hw')
    exact ⟨w, hw, hid, hdrained, hrecovered, hended⟩

theorem Ok.drain {s : Pool n} (h : s.Ok) {i : Fin n} {force : Bool} {ctx : ReplacementContext}
    (hphase : s.supervisor = .draining i force ctx) :
    Ok { (s.drain ctx.old_worker).2 with
      supervisor := .reading i force ctx (s.drain ctx.old_worker).1 } := by
  have hold := h.supervisor
  rw [supervisor_ok, hphase] at hold
  dsimp only at hold
  cases hctx : ctx.old_worker with
  | none =>
    rw [hctx] at hold
    refine ⟨h.objects, h.workers, ?_⟩
    simp only [supervisor_ok, hctx]
    exact hold.none
  | some ref =>
    rw [hctx] at hold
    obtain ⟨w, hw, -⟩ := hold.2 ref rfl
    rw [drain_some hw]
    obtain ⟨hobjects, hworkers⟩ := h.on_held hold fun w _ hok => hok.drain
    refine ⟨hobjects, hworkers, ?_⟩
    simp only [supervisor_ok, hctx]
    exact hold.mark fun w _ hrecovered => ⟨rfl, rfl, hrecovered, rfl⟩

theorem get_current_request_some {w : Worker n} {p : Payload}
    (h : w.get_current_request = some p) : w.current_request_data = some p :=
  (Option.filter_eq_some_iff.mp h).1

theorem Ok.read {s : Pool n} (h : s.Ok) {i : Fin n} {force : Bool} {ctx : ReplacementContext}
    {pending : List RequestMetadata} (hphase : s.supervisor = .reading i force ctx pending) :
    Ok { (s.recover_in_flight ctx.old_worker force).2 with
      supervisor :=
        .stopping i force ctx (pending ++ (s.recover_in_flight ctx.old_worker force).1) } := by
  have hold := h.supervisor
  rw [supervisor_ok, hphase] at hold
  dsimp only at hold
  cases hctx : ctx.old_worker with
  | none =>
    rw [hctx] at hold
    refine ⟨h.objects, h.workers, ?_⟩
    simp only [supervisor_ok, hctx]
    exact hold.none
  | some ref =>
    rw [hctx] at hold
    obtain ⟨w, hw, -, hdrained, -⟩ := hold.2 ref rfl
    have hok : ∀ v, s.objects[ref]? = some v → v.Ok → Worker.Ok { v with recovered := true } := by
      intro v hv hvok
      obtain rfl : w = v := Option.some.inj (hw.symm.trans hv)
      exact hvok.recover hdrained
    rcases recover_cases hw force with ⟨-, heq⟩ | ⟨p, -, -, heq⟩ | ⟨p, hp, -, heq⟩
    · rw [heq]
      obtain ⟨hobjects, hworkers⟩ := h.on_held hold hok
      refine ⟨hobjects, hworkers, ?_⟩
      simp only [supervisor_ok, hctx]
      exact hold.mark fun w hdrained _ => ⟨rfl, hdrained, rfl, rfl⟩
    · rw [heq]
      obtain ⟨hobjects, hworkers⟩ := h.on_held hold hok
      refine ⟨hobjects, hworkers, ?_⟩
      simp only [supervisor_ok, hctx]
      exact hold.mark fun w hdrained _ => ⟨rfl, hdrained, rfl, rfl⟩
    · rw [heq]
      obtain ⟨hobjects, hworkers⟩ := h.on_held hold
        (f := fun w => { w with recovered := true, answered := true }) fun v hv hvok => by
          obtain rfl : w = v := Option.some.inj (hw.symm.trans hv)
          refine (hok w hv hvok).answer rfl ?_
          rw [show w.current_request_data = some p from get_current_request_some hp]
          exact nofun
      refine ⟨hobjects, hworkers, ?_⟩
      simp only [supervisor_ok, hctx]
      exact hold.mark fun w hdrained _ => ⟨rfl, hdrained, rfl, rfl⟩

theorem Ok.stop_old {s : Pool n} (h : s.Ok) {i : Fin n} {force : Bool}
    {ctx : ReplacementContext} {rs : List RequestMetadata}
    (hphase : s.supervisor = .stopping i force ctx rs) :
    Ok { s.stop_old_worker ctx.old_worker force with supervisor := .replacing i force ctx rs } := by
  have hold := h.supervisor
  rw [supervisor_ok, hphase] at hold
  dsimp only at hold
  unfold stop_old_worker
  cases hctx : ctx.old_worker with
  | none => exact ⟨h.objects, h.workers, trivial⟩
  | some ref =>
    rw [hctx] at hold
    obtain ⟨w, hw, -, -, hrecovered, -⟩ := hold.2 ref rfl
    dsimp only
    split
    · obtain ⟨hobjects, hworkers⟩ := h.on_held hold (f := Worker.force_detach) fun v hv hok => by
        obtain rfl : w = v := Option.some.inj (hw.symm.trans hv)
        exact hok.force_detach hrecovered
      exact ⟨hobjects, hworkers, trivial⟩
    · obtain ⟨hobjects, hworkers⟩ := h.on_held hold (f := Worker.stop) fun _ _ hok => hok.stop
      exact ⟨hobjects, hworkers, trivial⟩

theorem Ok.spawn {s : Pool n} (h : s.Ok) (i : Fin n) (rs : List RequestMetadata) :
    Ok { s.spawn_replacement_worker i with supervisor := .redistributing rs } := by
  refine ⟨fun k w hw => ?_, fun j k hk => ?_, trivial⟩
  · have hw : (s.objects ++ [{ id := i }])[k]? = some w := hw
    rcases List.mem_append.mp (List.mem_of_getElem? hw) with hmem | hmem
    · obtain ⟨k', hk'⟩ := List.getElem?_of_mem hmem
      exact h.objects k' w hk'
    · obtain rfl := List.mem_singleton.mp hmem
      exact .new i
  · have hk : (s.workers.set i (some s.objects.length))[j] = some k := hk
    change ∃ w, (s.objects ++ [{ id := i }])[k]? = some w ∧ _
    rw [Fin.getElem_fin, Vector.getElem_set] at hk
    split at hk
    case isTrue hij =>
      obtain rfl := Option.some.inj hk
      exact ⟨{ id := i }, List.getElem?_concat_length, Fin.ext hij, rfl, rfl⟩
    case isFalse =>
      obtain ⟨w, hw, hmarks⟩ := h.workers j k hk
      have hlt := (List.getElem?_eq_some_iff.mp hw).1
      exact ⟨w, (List.getElem?_append_left hlt).trans hw, hmarks⟩

theorem set_worker_ready_parts (s : Pool n) (i : Fin n) :
    (s.set_worker_ready i).objects = s.objects ∧ (s.set_worker_ready i).workers = s.workers ∧
      (s.set_worker_ready i).supervisor = s.supervisor := by
  unfold set_worker_ready
  split
  · exact ⟨rfl, rfl, rfl⟩
  · split <;> exact ⟨rfl, rfl, rfl⟩

theorem step_ok {s s' : Pool n} {a : Action n} (h : s.Ok) (hstep : s.step a = some s') :
    s'.Ok := by
  cases step_sound hstep with
  | add =>
    refine (h.on ?_ ?_).congr rfl rfl rfl
    · exact fun _ _ hok => hok.add_request _
    · exact fun _ _ => ⟨rfl, rfl, rfl, id⟩
  | start threads hslot hw hthread =>
    refine (h.on (fun v hv hok => ?_) fun v hv => ?_).congr rfl rfl rfl
    · obtain rfl := Option.some.inj (hw.symm.trans hv)
      exact hok.start hthread
    · obtain rfl := Option.some.inj (hw.symm.trans hv)
      exact ⟨rfl, rfl, rfl, by simp [hthread, Thread.is_ended]⟩
  | started =>
    refine (h.on ?_ ?_).congr rfl rfl rfl
    · exact fun _ _ hok => hok.started
    · exact fun _ _ => ⟨rfl, rfl, rfl, id⟩
  | ready i threads =>
    obtain ⟨ho, hw, hs⟩ := set_worker_ready_parts s i
    exact h.congr ho hw hs
  | loop live hw hloop =>
    refine (h.on (fun v hv hok => ?_) fun v hv => ?_).congr rfl rfl rfl
    · obtain rfl := Option.some.inj (hw.symm.trans hv)
      exact hok.transition hloop
    · obtain rfl := Option.some.inj (hw.symm.trans hv)
      exact hloop.keeps
  | notice force hslot hw _ hforce => exact h.notice hslot hw hforce
  | mark hphase => exact h.mark hphase
  | abort hphase =>
    obtain ⟨ho, hw, -⟩ := h.mark hphase
    exact ⟨ho, hw, trivial⟩
  | prepare _ _ hphase => exact h.prepare hphase
  | drain hphase => exact h.drain hphase
  | read hphase => exact h.read hphase
  | stop_old hphase => exact h.stop_old hphase
  | spawn => exact h.spawn _ _
  | readd =>
    obtain ⟨ho, hw, -⟩ := h.on (fun _ _ hok => hok.add_request _) fun _ _ => ⟨rfl, rfl, rfl, id⟩
    exact ⟨ho, hw, trivial⟩
  | stop =>
    refine h.on (fun _ _ hok => hok.stop) fun w _ => ?_
    unfold Worker.stop
    split <;> exact ⟨rfl, rfl, rfl, id⟩
  | give_up | return_shutdown | return_done | discard | retry | retry_shutdown | repick |
    redrop => exact ⟨h.objects, h.workers, trivial⟩
  | refuse | distribute | pick | drop | fail | exit | shutdown => exact h.congr rfl rfl rfl

theorem init_ok (n max_replace_attempts : ℕ) : (init n max_replace_attempts).Ok := by
  refine ⟨fun k w hw => ?_, fun i k hk => ?_, trivial⟩
  · obtain ⟨i, -, rfl⟩ := List.mem_map.mp (List.mem_of_getElem? hw)
    exact .new i
  · have hk : (Vector.ofFn fun j : Fin n => some j.val)[i] = some k := hk
    obtain rfl : i.val = k := by simpa using hk
    exact ⟨{ id := i }, by simp [init], rfl, rfl, rfl⟩

/-- The invariant holds all along every run. -/
theorem run_ok {max_replace_attempts : ℕ} {tr : List (Pool n × Action n)} {s : Pool n}
    (hrun : Runs.Run step (init n max_replace_attempts) tr s) :
    ∀ u ∈ Runs.states tr s, u.Ok := by
  have hsteps : Runs.Steps (fun (_ : Pool n) (_ : Action n) => True) tr := fun _ _ => trivial
  exact hrun.always hsteps (init_ok n max_replace_attempts) fun hok _ hstep => step_ok hok hstep

end Pool

end Zowex.worker

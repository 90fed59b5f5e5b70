import Zowex.Lib.Sums
import Zowex.Proofs.WorkerInvariant

/-! How a step moves requests. Whatever weight the places and the logs give to a request,
the total over the pool changes by what the moved requests weigh before and after. -/

namespace Zowex.worker

variable {n : ℕ}

/-- A request in a place, or an entry of a log. -/
inductive Entry
  | place (p : Place) (r : RequestMetadata)
  | handed (r : RequestMetadata)
  | retried (r : RequestMetadata)

/-- The request in the thread's hands, whether or not the supervisor can still see it. -/
def Worker.hand (w : Worker n) : List Entry :=
  match w.thread with
  | .taken r => [.place .taken r]
  | .processing r => if w.answered then [] else [.place .processing r]
  | .ended (some r) => if w.answered || w.recovered then [] else [.place .faulted r]
  | _ => []

section Totals

variable (W : Entry → ℕ)

def weight (es : List Entry) : ℕ := (es.map W).sum

@[simp]
theorem weight_nil : weight W [] = 0 := rfl

@[simp]
theorem weight_cons (e : Entry) (es : List Entry) : weight W (e :: es) = W e + weight W es := by
  rw [weight, List.map_cons, List.sum_cons, weight]

@[simp]
theorem weight_append (es es' : List Entry) :
    weight W (es ++ es') = weight W es + weight W es' := by
  rw [weight, List.map_append, List.sum_append, weight, weight]

def Worker.load (w : Worker n) : ℕ :=
  weight W (w.request_queue.map (.place .queued)) + weight W w.hand

theorem Worker.add_request_load (w : Worker n) (r : RequestMetadata) :
    (w.add_request r).load W = w.load W + W (.place .queued r) := by
  have hhand : (w.add_request r).hand = w.hand := rfl
  rw [load, load, hhand]
  simp only [add_request, weight, List.map_append, List.sum_append, List.map_cons, List.map_nil,
    List.sum_cons, List.sum_nil]
  omega

theorem Worker.drain_load (w : Worker n) :
    w.drain_pending_requests.2.load W + weight W (w.request_queue.map (.place .queued)) =
      w.load W := by
  have hhand : w.drain_pending_requests.2.hand = w.hand := rfl
  rw [load, load, hhand]
  simp only [drain_pending_requests, weight, List.map_nil, List.sum_nil]
  omega

def Supervisor.load (sup : Supervisor n) : ℕ :=
  weight W (sup.requests.map fun p => .place p.1 p.2)

@[simp]
theorem Supervisor.load_scanning : (scanning : Supervisor n).load W = 0 := rfl

@[simp]
theorem Supervisor.load_marking (i : Fin n) (force : Bool) : (marking i force).load W = 0 := rfl

@[simp]
theorem Supervisor.load_preparing (i : Fin n) (force : Bool) : (preparing i force).load W = 0 :=
  rfl

@[simp]
theorem Supervisor.load_draining (i : Fin n) (force : Bool) (ctx : ReplacementContext) :
    (draining i force ctx).load W = 0 := rfl

section Held

variable (i : Fin n) (force : Bool) (ctx : ReplacementContext) (rs : List RequestMetadata)

@[simp]
theorem Supervisor.load_redistributing :
    (redistributing rs : Supervisor n).load W = weight W (rs.map (.place .recovered)) := by
  rw [load, requests, List.map_map]
  rfl

@[simp]
theorem Supervisor.load_reading :
    (reading i force ctx rs).load W = weight W (rs.map (.place .recovered)) :=
  load_redistributing (n := n) W rs

@[simp]
theorem Supervisor.load_stopping :
    (stopping i force ctx rs).load W = weight W (rs.map (.place .recovered)) :=
  load_redistributing (n := n) W rs

@[simp]
theorem Supervisor.load_replacing :
    (replacing i force ctx rs).load W = weight W (rs.map (.place .recovered)) :=
  load_redistributing (n := n) W rs

@[simp]
theorem Supervisor.load_waiting (r : RequestMetadata) : (waiting r rs : Supervisor n).load W =
    W (.place .rerouted r) + weight W (rs.map (.place .recovered)) := by
  rw [load, requests, List.map_cons, weight_cons, List.map_map]
  rfl

@[simp]
theorem Supervisor.load_picked (r : RequestMetadata) (ref : ℕ) :
    (picked r ref rs : Supervisor n).load W =
      W (.place .rerouted r) + weight W (rs.map (.place .recovered)) :=
  load_waiting (n := n) W rs r

end Held

theorem weight_flatMap {α : Type*} (l : List α) (f : α → List Entry) :
    weight W (l.flatMap f) = (l.map fun a => weight W (f a)).sum := by
  induction l with
  | nil => rfl
  | cons a l ih => rw [List.flatMap_cons, weight_append, ih, List.map_cons, List.sum_cons]

theorem weight_eq_countP {α : Type*} {g : α → Entry} {p : α → Bool}
    (h : ∀ a, W (g a) = if p a then 1 else 0) (l : List α) :
    weight W (l.map g) = l.countP p := by
  induction l with
  | nil => rfl
  | cons a l ih => rw [List.map_cons, weight_cons, ih, h, List.countP_cons, add_comm]

def Pool.total (s : Pool n) : ℕ :=
  weight W (s.callers.map fun c => .place .caller c.request) + (s.objects.map (·.load W)).sum +
    s.supervisor.load W + weight W (s.finished.map (.place .finished)) +
    weight W (s.discarded.map (.place .discarded)) + weight W (s.handed.map .handed) +
    weight W (s.retried.map .retried)

theorem weight_set {α : Type*} {l : List α} {i : ℕ} {a : α} (h : l[i]? = some a) (g : α → Entry)
    (b : α) : weight W ((l.set i b).map g) + W (g a) = weight W (l.map g) + W (g b) := by
  simp only [weight, List.map_map]
  exact Sums.sum_set _ h b

theorem weight_eraseIdx {α : Type*} {l : List α} {i : ℕ} {a : α} (h : l[i]? = some a)
    (g : α → Entry) : weight W ((l.eraseIdx i).map g) + W (g a) = weight W (l.map g) := by
  simp only [weight, List.map_map]
  exact Sums.sum_eraseIdx _ h

theorem loads_on {s : Pool n} {ref : ℕ} {w : Worker n} (hw : s.objects[ref]? = some w)
    (f : Worker n → Worker n) :
    ((s.on ref f).objects.map (·.load W)).sum + w.load W =
      (s.objects.map (·.load W)).sum + (f w).load W :=
  Sums.sum_modify _ hw f

theorem loads_on_none {s : Pool n} {ref : ℕ} (hw : s.objects[ref]? = none)
    (f : Worker n → Worker n) : (s.on ref f).objects = s.objects :=
  List.modify_eq_self (List.getElem?_eq_none_iff.mp hw)

end Totals

namespace Pool

/-- What a step can do to the requests: how many new calls it counts, the entries it takes
away and those it puts in their stead. Only `lose` takes a request away for good. -/
inductive Moves (s : Pool n) (a : Action n) : ℕ → List Entry → List Entry → Prop
  | none : Moves s a 0 [] []
  | refuse (h : s.is_shutting_down = true) : Moves s a 1 [] []
  | distribute text : Moves s a 1 [] [.place .caller ⟨⟨s.calls, text⟩, 0⟩]
  | add {p r} (hp : p = .caller ∨ p = .rerouted) : Moves s a 0 [.place p r] [.place .queued r]
  | take r : Moves s a 0 [.place .queued r] [.place .taken r]
  | hand_over r : Moves s a 0 [.place .taken r] [.place .processing r, .handed r]
  | finish {p r} (hp : p = .processing ∨ p = .faulted) :
    Moves s a 0 [.place p r] [.place .finished r]
  | fault {p r} (hp : p = .taken ∨ p = .processing) : Moves s a 0 [.place p r] [.place .faulted r]
  | drain (rs : List RequestMetadata) : Moves s a 0 (rs.map (.place .queued)) (rs.map (.place .recovered))
  | recover {r} (hfresh : s.forgets_no_retry a = true → r.retry_count = 0) :
    Moves s a 0 [.place .faulted r] [.place .recovered ⟨r.data, 0⟩]
  | retry {r} (h : r.retry_count < kMaxRequestRetries) :
    Moves s a 0 [.place .recovered r]
      [.place .rerouted ⟨r.data, r.retry_count + 1⟩, .retried ⟨r.data, r.retry_count + 1⟩]
  | retry_shutdown {r} (h : r.retry_count < kMaxRequestRetries)
      (hshut : s.is_shutting_down = true) :
    Moves s a 0 [.place .recovered r] [.retried ⟨r.data, r.retry_count + 1⟩]
  | discard {r} (h : kMaxRequestRetries ≤ r.retry_count) :
    Moves s a 0 [.place .recovered r] [.place .discarded r]
  | lose (es : List Entry) (h : s.is_shutting_down = true ∨ s.lossless a = false) : Moves s a 0 es []

/-- The step from `s` to `s'` does to the requests what the rule says. -/
def Shifts (s : Pool n) (a : Action n) (s' : Pool n) : Prop :=
  ∃ k out into, s.Moves a k out into ∧ s'.calls = s.calls + k ∧
    ∀ W, s'.total W + weight W out = s.total W + weight W into

theorem Shifts.of_same {s s' : Pool n} {a : Action n} (hcalls : s'.calls = s.calls)
    (htotal : ∀ W, s'.total W = s.total W) : s.Shifts a s' :=
  ⟨0, [], [], .none, hcalls, fun W => by rw [htotal]⟩

theorem total_loop (W : Entry → ℕ) {s : Pool n} {ref : ℕ} {w : Worker n}
    (hw : s.objects[ref]? = some w) (w' : Worker n) (hs fs : List RequestMetadata) (live : ℕ) :
    total W { s.on ref (fun _ => w') with
      handed := s.handed ++ hs
      finished := s.finished ++ fs
      live_detached_workers := live } + w.load W =
    s.total W + w'.load W + weight W (hs.map .handed) + weight W (fs.map (.place .finished)) := by
  have hsum := loads_on W hw fun _ => w'
  simp only [total, List.map_append, weight_append, on] at hsum ⊢
  omega

theorem shifts_loop {s : Pool n} {ref : ℕ} {a : Worker.LoopStep} {w w' : Worker n} {live : ℕ}
    (hok : w.Ok) (hw : s.objects[ref]? = some w) (hloop : w.Transition a w') :
    s.Shifts (.worker_loop ref a)
      { s.on ref (fun _ => w') with
        handed := s.handed ++ w.hands_over a
        finished := s.finished ++ w.completes a
        live_detached_workers := live } := by
  have htotal := fun W => total_loop W hw w' (w.hands_over a) (w.completes a) live
  have hagrees := hok.agrees
  cases hloop with
  | wait hthread | stop hthread | clear hthread | fault_waiting hthread =>
    refine .of_same rfl fun W => ?_
    specialize htotal W
    simp [Worker.load, Worker.hand, Worker.hands_over, Worker.completes, Worker.unwind,
      hthread] at htotal ⊢
    omega
  | @take r queue hthread hqueue =>
    refine ⟨0, _, _, .take r, rfl, fun W => ?_⟩
    specialize htotal W
    simp [Worker.load, Worker.hand, Worker.hands_over, Worker.completes, hthread, hqueue]
      at htotal ⊢
    omega
  | @track r hthread =>
    rw [hthread] at hagrees
    refine ⟨0, _, _, .hand_over r, rfl, fun W => ?_⟩
    specialize htotal W
    simp [Worker.load, Worker.hand, Worker.hands_over, Worker.completes, hthread, hagrees.2]
      at htotal ⊢
    omega
  | @finish r hthread =>
    by_cases hanswered : w.answered = true
    · refine .of_same rfl fun W => ?_
      specialize htotal W
      simp [Worker.load, Worker.hand, Worker.hands_over, Worker.completes, hthread, hanswered]
        at htotal ⊢
      omega
    · refine ⟨0, _, _, .finish (r := r) (.inl rfl), rfl, fun W => ?_⟩
      specialize htotal W
      simp [Worker.load, Worker.hand, Worker.hands_over, Worker.completes, hthread, hanswered]
        at htotal ⊢
      omega
  | @fault_taken r hthread =>
    rw [hthread] at hagrees
    by_cases hrecovered : w.recovered = true
    · refine ⟨0, _, _, .lose [.place .taken r] (.inr ?_), rfl, fun W => ?_⟩
      · simp [lossless, hw, hrecovered, Worker.in_hand, hthread]
      · specialize htotal W
        simp [Worker.load, Worker.hand, Worker.hands_over, Worker.completes, Worker.unwind,
          hthread, hrecovered] at htotal ⊢
        omega
    · refine ⟨0, _, _, .fault (r := r) (.inl rfl), rfl, fun W => ?_⟩
      specialize htotal W
      simp [Worker.load, Worker.hand, Worker.hands_over, Worker.completes, Worker.unwind,
        hthread, hrecovered, hagrees.2] at htotal ⊢
      omega
  | @fault_processing r hthread =>
    by_cases hanswered : w.answered = true
    · refine .of_same rfl fun W => ?_
      specialize htotal W
      simp [Worker.load, Worker.hand, Worker.hands_over, Worker.completes, Worker.unwind,
        hthread, hanswered] at htotal ⊢
      omega
    by_cases hrecovered : w.recovered = true
    · refine ⟨0, _, _, .lose [.place .processing r] (.inr ?_), rfl, fun W => ?_⟩
      · simp [lossless, hw, hrecovered, Worker.in_hand, hthread, hanswered]
      · specialize htotal W
        simp [Worker.load, Worker.hand, Worker.hands_over, Worker.completes, Worker.unwind,
          hthread, hrecovered, hanswered] at htotal ⊢
        omega
    · refine ⟨0, _, _, .fault (r := r) (.inr rfl), rfl, fun W => ?_⟩
      specialize htotal W
      simp [Worker.load, Worker.hand, Worker.hands_over, Worker.completes, Worker.unwind,
        hthread, hrecovered, hanswered] at htotal ⊢
      omega

/-- A call on a worker that leaves its load alone. -/
theorem total_on_same (W : Entry → ℕ) {s : Pool n} {ref : ℕ} {f : Worker n → Worker n}
    (hf : ∀ w, s.objects[ref]? = some w → (f w).load W = w.load W) :
    (s.on ref f).total W = s.total W := by
  cases hw : s.objects[ref]? with
  | none => rw [total, loads_on_none hw f]; rfl
  | some w =>
    have hsum := loads_on W hw f
    rw [hf w hw] at hsum
    simp only [total, on] at hsum ⊢
    omega

/-- A step of the supervisor that leaves everything else alone. -/
theorem total_supervisor (W : Entry → ℕ) (s : Pool n) (sup : Supervisor n) :
    total W { s with supervisor := sup } + s.supervisor.load W = s.total W + sup.load W := by
  simp only [total]
  omega

theorem shifts_supervisor {s : Pool n} {sup : Supervisor n}
    (h : ∀ W, sup.load W = s.supervisor.load W) :
    s.Shifts .supervise { s with supervisor := sup } := by
  refine .of_same rfl fun W => ?_
  have htotal := total_supervisor W s sup
  rw [h] at htotal
  omega

theorem shifts_add {s : Pool n} {k ref : ℕ} {r : RequestMetadata}
    (hk : s.callers[k]? = some (.picked r ref)) :
    s.Shifts (.call k) { s.on ref (·.add_request r) with callers := s.callers.eraseIdx k } := by
  have hcallers := fun W => weight_eraseIdx W hk fun c => .place .caller c.request
  cases hw : s.objects[ref]? with
  | none =>
    refine ⟨0, _, _, .lose [.place .caller r] (.inr ?_), rfl, fun W => ?_⟩
    · simp [lossless, hk, accepts, hw]
    · specialize hcallers W
      rw [total, loads_on_none hw]
      simp [total, on, Call.request] at hcallers ⊢
      omega
  | some w =>
    refine ⟨0, _, _, .add (p := .caller) (r := r) (.inl rfl), rfl, fun W => ?_⟩
    specialize hcallers W
    have hsum := loads_on W hw (·.add_request r)
    rw [Worker.add_request_load] at hsum
    simp only [total, on, Call.request, weight_cons, weight_nil] at hcallers hsum ⊢
    omega

theorem shifts_readd {s : Pool n} {ref : ℕ} {r : RequestMetadata} {rs : List RequestMetadata}
    (hphase : s.supervisor = .picked r ref rs) :
    s.Shifts .supervise
      { s.on ref (·.add_request r) with supervisor := .redistributing rs } := by
  have hsup := fun W => total_supervisor W (s.on ref (·.add_request r)) (.redistributing rs)
  have hphase' : (s.on ref (·.add_request r)).supervisor = .picked r ref rs := hphase
  cases hw : s.objects[ref]? with
  | none =>
    refine ⟨0, _, _, .lose [.place .rerouted r] (.inr ?_), rfl, fun W => ?_⟩
    · simp [lossless, hphase, accepts, hw]
    · specialize hsup W
      rw [total_on_same W (fun w h => by simp [hw] at h), hphase'] at hsup
      simp only [Supervisor.load_redistributing, Supervisor.load_picked, weight_cons, weight_nil]
        at hsup ⊢
      omega
  | some w =>
    refine ⟨0, _, _, .add (p := .rerouted) (r := r) (.inr rfl), rfl, fun W => ?_⟩
    specialize hsup W
    have hsum := loads_on W hw (·.add_request r)
    rw [Worker.add_request_load] at hsum
    rw [hphase'] at hsup
    simp only [total, on, hphase, Supervisor.load_redistributing, Supervisor.load_picked,
      weight_cons, weight_nil] at hsum hsup ⊢
    omega

theorem shifts_drain {s : Pool n} (hok : s.Ok) {i : Fin n} {force : Bool}
    {ctx : ReplacementContext} (hphase : s.supervisor = .draining i force ctx) :
    s.Shifts .supervise
      { (s.drain ctx.old_worker).2 with
        supervisor := .reading i force ctx (s.drain ctx.old_worker).1 } := by
  have hold := hok.supervisor
  rw [supervisor_ok, hphase] at hold
  dsimp only at hold
  cases hctx : ctx.old_worker with
  | none => exact shifts_supervisor fun W => by simp [hphase, drain]
  | some ref =>
    rw [hctx] at hold
    obtain ⟨w, hw, -⟩ := hold.2 ref rfl
    rw [drain_some hw]
    refine ⟨0, _, _, .drain w.request_queue, rfl, fun W => ?_⟩
    have hsum := loads_on W hw (·.drain_pending_requests.2)
    have hload := w.drain_load W
    simp only [total, on, hphase, Supervisor.load_reading, Supervisor.load_draining]
      at hsum hload ⊢
    omega

/-- The total after the supervisor has done something to the worker `ref`. -/
theorem total_held (W : Entry → ℕ) {s : Pool n} {ref : ℕ} {w : Worker n}
    (hw : s.objects[ref]? = some w) (f : Worker n → Worker n) (sup : Supervisor n) :
    total W { s.on ref f with supervisor := sup } + w.load W + s.supervisor.load W =
      s.total W + (f w).load W + sup.load W := by
  have hsum := loads_on W hw f
  simp only [total, on] at hsum ⊢
  omega

theorem total_answered (W : Entry → ℕ) {s : Pool n} {ref : ℕ} {w : Worker n}
    (hw : s.objects[ref]? = some w) (f : Worker n → Worker n) (fs : List RequestMetadata)
    (sup : Supervisor n) :
    total W { s.on ref f with finished := s.finished ++ fs, supervisor := sup } + w.load W +
        s.supervisor.load W =
      s.total W + (f w).load W + sup.load W + weight W (fs.map (.place .finished)) := by
  have hsum := loads_on W hw f
  simp only [total, on, List.map_append, weight_append] at hsum ⊢
  omega

section Reading

variable {s : Pool n} {i : Fin n} {force : Bool} {ctx : ReplacementContext}
  {pending : List RequestMetadata} {ref : ℕ} {w : Worker n}

theorem shifts_read_nothing (hphase : s.supervisor = .reading i force ctx pending)
    (hctx : ctx.old_worker = some ref) (hw : s.objects[ref]? = some w)
    (hrecovered : w.recovered = false) (hanswered : w.answered = false)
    (hcurrent : w.get_current_request = none) :
    s.Shifts .supervise { s.on ref (fun w => { w with recovered := true }) with
      supervisor := .stopping i force ctx (pending ++ []) } := by
  have htotal := fun W => total_held W hw (fun w => { w with recovered := true })
    (.stopping i force ctx (pending ++ []))
  simp only [hphase, Supervisor.load_reading, Supervisor.load_stopping, List.append_nil] at htotal
  cases hthread : w.thread with
  | ended held =>
    cases held with
    | none =>
      refine .of_same rfl fun W => ?_
      specialize htotal W
      simp [Worker.load, Worker.hand, hthread] at htotal ⊢
      omega
    | some r =>
      refine ⟨0, _, _, .lose [.place .faulted r] (.inr ?_), rfl, fun W => ?_⟩
      · simp [lossless, hphase, hctx, hw, hthread, Thread.is_ended, Worker.in_hand, hanswered,
          hcurrent]
      · specialize htotal W
        simp [Worker.load, Worker.hand, hthread, hanswered, hrecovered] at htotal ⊢
        omega
  | unstarted | looping | waiting | taken | processing | processed =>
    refine .of_same rfl fun W => ?_
    specialize htotal W
    simp [Worker.load, Worker.hand, hthread] at htotal ⊢
    omega

theorem shifts_read_recover {p : Payload} (hok : w.Ok)
    (hphase : s.supervisor = .reading i false ctx pending)
    (hctx : ctx.old_worker = some ref) (hw : s.objects[ref]? = some w)
    (hrecovered : w.recovered = false) (hanswered : w.answered = false)
    (hended : w.thread.is_ended = true) (hcurrent : w.get_current_request = some p) :
    s.Shifts .supervise { s.on ref (fun w => { w with recovered := true }) with
      supervisor := .stopping i false ctx (pending ++ [⟨p, 0⟩]) } := by
  have htotal := fun W => total_held W hw (fun w => { w with recovered := true })
    (.stopping i false ctx (pending ++ [⟨p, 0⟩]))
  have hagrees := hok.agrees
  have hcur := get_current_request_some hcurrent
  cases hthread : w.thread with
  | unstarted | looping | waiting | taken | processing | processed =>
    simp [hthread, Thread.is_ended] at hended
  | ended held =>
    rw [hthread, hcur] at hagrees
    cases held with
    | none => cases hagrees
    | some r =>
      obtain rfl : p = r.data := by simpa [Thread.agrees] using hagrees
      refine ⟨0, _, _, .recover (r := r) fun hfresh => ?_, rfl, fun W => ?_⟩
      · simpa [forgets_no_retry, hphase, hctx, hw, hcurrent, Worker.in_hand, hthread, hanswered]
          using hfresh
      · specialize htotal W
        simp [Worker.load, Worker.hand, hthread, hanswered, hrecovered, hphase] at htotal ⊢
        omega

theorem shifts_read_answer {p : Payload} (hok : w.Ok)
    (hphase : s.supervisor = .reading i true ctx pending) (hw : s.objects[ref]? = some w)
    (hrecovered : w.recovered = false) (hanswered : w.answered = false)
    (hcurrent : w.get_current_request = some p) :
    s.Shifts .supervise
      { s.on ref (fun w => { w with recovered := true, answered := true }) with
        finished := s.finished ++ w.in_hand.toList
        supervisor := .stopping i true ctx (pending ++ []) } := by
  have htotal := fun W => total_answered W hw
    (fun w => { w with recovered := true, answered := true }) w.in_hand.toList
    (.stopping i true ctx (pending ++ []))
  simp only [hphase, Supervisor.load_reading, Supervisor.load_stopping, List.append_nil] at htotal
  rcases hok.of_current (get_current_request_some hcurrent) with
    ⟨r, hthread, -⟩ | ⟨r, hthread, -⟩ | ⟨r, hthread, -⟩
  · refine ⟨0, _, _, .finish (r := r) (.inl rfl), rfl, fun W => ?_⟩
    specialize htotal W
    simp [Worker.load, Worker.hand, Worker.in_hand, hthread, hanswered] at htotal ⊢
    omega
  · refine .of_same rfl fun W => ?_
    specialize htotal W
    simp [Worker.load, Worker.hand, Worker.in_hand, hthread] at htotal ⊢
    omega
  · refine ⟨0, _, _, .finish (r := r) (.inr rfl), rfl, fun W => ?_⟩
    specialize htotal W
    simp [Worker.load, Worker.hand, Worker.in_hand, hthread, hanswered, hrecovered] at htotal ⊢
    omega

end Reading

theorem shifts_read {s : Pool n} (hok : s.Ok) {i : Fin n} {force : Bool}
    {ctx : ReplacementContext} {pending : List RequestMetadata}
    (hphase : s.supervisor = .reading i force ctx pending) :
    s.Shifts .supervise
      { (s.recover_in_flight ctx.old_worker force).2 with
        supervisor :=
          .stopping i force ctx (pending ++ (s.recover_in_flight ctx.old_worker force).1) } := by
  have hold := hok.supervisor
  rw [supervisor_ok, hphase] at hold
  dsimp only at hold
  cases hctx : ctx.old_worker with
  | none => exact shifts_supervisor fun W => by simp [hphase, recover_in_flight]
  | some ref =>
    rw [hctx] at hold
    obtain ⟨w, hw, -, -, hrecovered, hended⟩ := hold.2 ref rfl
    have hwok := hok.objects ref w hw
    have hanswered : w.answered = false := by
      rw [Bool.eq_false_iff]
      intro h
      rw [hwok.answered h] at hrecovered
      cases hrecovered
    rcases recover_cases hw force with ⟨hcur, heq⟩ | ⟨p, hcur, rfl, heq⟩ | ⟨p, hcur, rfl, heq⟩
    · rw [heq]
      exact shifts_read_nothing hphase hctx hw hrecovered hanswered hcur
    · rw [heq]
      exact shifts_read_recover hwok hphase hctx hw hrecovered hanswered (hended rfl) hcur
    · rw [heq]
      exact shifts_read_answer hwok hphase hw hrecovered hanswered hcur

theorem stop_load (W : Entry → ℕ) (w : Worker n) : w.stop.load W = w.load W := by
  unfold Worker.stop
  split <;> rfl

theorem stop_old_worker_rest (s : Pool n) (old : Option ℕ) (force : Bool) :
    (s.stop_old_worker old force).calls = s.calls ∧
      (s.stop_old_worker old force).supervisor = s.supervisor ∧
        ∀ W, (s.stop_old_worker old force).total W = s.total W := by
  unfold stop_old_worker
  cases old with
  | none => exact ⟨rfl, rfl, fun _ => rfl⟩
  | some ref =>
    dsimp only
    split
    · refine ⟨rfl, rfl, fun W => ?_⟩
      change (s.on ref Worker.force_detach).total W = _
      exact total_on_same W fun _ _ => rfl
    · exact ⟨rfl, rfl, fun W => total_on_same W fun w _ => stop_load W w⟩

theorem mark_worker_not_ready_rest (s : Pool n) (i : Fin n) :
    (s.mark_worker_not_ready i).2.calls = s.calls ∧
      (s.mark_worker_not_ready i).2.supervisor = s.supervisor ∧
        ∀ W, (s.mark_worker_not_ready i).2.total W = s.total W := by
  unfold mark_worker_not_ready
  split
  · split <;> exact ⟨rfl, rfl, fun _ => rfl⟩
  · exact ⟨rfl, rfl, fun _ => rfl⟩

/-- Every step shifts requests by one of the rules. -/
theorem step_shifts {s s' : Pool n} {a : Action n} (hok : s.Ok) (hstep : s.step a = some s') :
    s.Shifts a s' := by
  cases step_sound hstep with
  | refuse _ hshut => exact ⟨1, [], [], .refuse hshut, rfl, fun W => rfl⟩
  | distribute text hshut =>
    refine ⟨1, _, _, .distribute text, rfl, fun W => ?_⟩
    simp [total, Call.request]
    omega
  | @pick k r ref q hk =>
    refine .of_same rfl fun W => ?_
    have hcallers := weight_set W hk (fun c => .place .caller c.request) (.picked r ref)
    simp only [total, Call.request] at hcallers ⊢
    omega
  | @drop k r q hk hlost =>
    refine ⟨0, _, _, .lose [.place .caller r] ?_, rfl, fun W => ?_⟩
    · rwa [lossless, hk]
    · have hcallers := weight_eraseIdx W hk fun c => .place .caller c.request
      simp only [total, Call.request, weight_cons, weight_nil] at hcallers ⊢
      omega
  | add hk => exact shifts_add hk
  | @start k ref w i threads hslot hw hthread =>
    refine .of_same rfl fun W => ?_
    change (s.on ref Worker.start).total W = s.total W
    refine total_on_same W fun v hv => ?_
    obtain rfl := Option.some.inj (hw.symm.trans hv)
    simp [Worker.load, Worker.start, Worker.hand, hthread]
  | @started k created i ref threads hk =>
    refine .of_same rfl fun W => ?_
    change (s.on ref Worker.started).total W = s.total W
    exact total_on_same W fun _ _ => rfl
  | ready i threads =>
    refine .of_same ?_ fun W => ?_
    · change (s.set_worker_ready i).calls = _
      unfold set_worker_ready
      split
      · rfl
      · split <;> rfl
    · change (s.set_worker_ready i).total W = _
      unfold set_worker_ready
      split
      · rfl
      · split <;> rfl
  | loop live hw hloop => exact shifts_loop (hok.objects _ _ hw) hw hloop
  | notice force hslot hw hscan =>
    refine .of_same rfl fun W => ?_
    simp [total, hscan]
  | @mark i force hphase =>
    have hmark := s.mark_worker_not_ready_rest i
    refine .of_same hmark.1 fun W => ?_
    have htotal := total_supervisor W (s.mark_worker_not_ready i).2 (.preparing i force)
    rw [hmark.2.2, hmark.2.1, hphase] at htotal
    exact htotal
  | @abort i force hphase =>
    have hmark := s.mark_worker_not_ready_rest i
    refine .of_same hmark.1 fun W => ?_
    have htotal := total_supervisor W (s.mark_worker_not_ready i).2 .scanning
    rw [hmark.2.2, hmark.2.1, hphase] at htotal
    exact htotal
  | prepare _ _ hphase =>
    refine .of_same rfl fun W => ?_
    simp [total, hphase]
  | drain hphase => exact shifts_drain hok hphase
  | read hphase => exact shifts_read hok hphase
  | @stop_old i force ctx rs hphase =>
    obtain ⟨hcalls, hsup, hsame⟩ := s.stop_old_worker_rest ctx.old_worker force
    refine .of_same hcalls fun W => ?_
    have htotal := total_supervisor W (s.stop_old_worker ctx.old_worker force)
      (.replacing i force ctx rs)
    rw [hsup, hsame, hphase, Supervisor.load_stopping, Supervisor.load_replacing] at htotal
    exact Nat.add_right_cancel htotal
  | @spawn i force ctx rs hphase =>
    refine .of_same rfl fun W => ?_
    simp [total, hphase, spawn_replacement_worker, Worker.load, Worker.hand]
  | give_up hphase => exact shifts_supervisor fun W => by simp [hphase]
  | @return_shutdown _ _ _ rs hphase hshut =>
    refine ⟨0, _, _, .lose (rs.map (.place .recovered)) (.inl hshut), rfl, fun W => ?_⟩
    have htotal := total_supervisor W s .scanning
    simp only [hphase, Supervisor.load_replacing, Supervisor.load_scanning, weight_nil] at htotal ⊢
    exact htotal
  | return_done hphase => exact shifts_supervisor fun W => by simp [hphase]
  | @discard r rs hphase hretries =>
    refine ⟨0, _, _, .discard hretries, rfl, fun W => ?_⟩
    simp [total, hphase]
    omega
  | @retry r rs hphase hretries =>
    refine ⟨0, _, _, .retry hretries, rfl, fun W => ?_⟩
    simp [total, hphase]
    omega
  | @retry_shutdown r rs hphase hretries hshut =>
    refine ⟨0, _, _, .retry_shutdown hretries hshut, rfl, fun W => ?_⟩
    simp [total, hphase]
    omega
  | repick ref q hphase =>
    refine .of_same rfl fun W => ?_
    simp [total, hphase]
  | @redrop r rs q hphase hlost =>
    refine ⟨0, _, _, .lose [.place .rerouted r] ?_, rfl, fun W => ?_⟩
    · rwa [lossless, hphase]
    · simp [total, hphase]
      omega
  | readd hphase => exact shifts_readd hphase
  | stop ref =>
    refine .of_same rfl fun W => ?_
    exact total_on_same W fun w _ => stop_load W w
  | fail | exit | shutdown => exact .of_same rfl fun W => rfl

end Pool

end Zowex.worker

import Zowex.Proofs.Requests

/-! The retry limit. Each place allows a request the attempts its retry count leaves it,
and no step raises what a request has used and is still allowed, except the one that
recovers it in flight with a fresh count. -/

namespace Zowex.worker.Pool

variable {n : ℕ}

/-- How often the request may still be handed over, and how often it was. -/
def hand_budget (ticket : ℕ) : Entry → ℕ
  | .place p r =>
    if r.data.ticket = ticket then
      match p with
      | .caller | .queued | .taken | .rerouted => kMaxRequestRetries - r.retry_count + 1
      | .processing | .faulted | .recovered => kMaxRequestRetries - r.retry_count
      | .finished | .discarded => 0
    else 0
  | .handed r => if r.data.ticket = ticket then 1 else 0
  | .retried _ => 0

/-- How often the request may still be re-routed, and how often it was. -/
def retry_budget (ticket : ℕ) : Entry → ℕ
  | .place p r =>
    if r.data.ticket = ticket then
      match p with
      | .finished | .discarded => 0
      | _ => kMaxRequestRetries - r.retry_count
    else 0
  | .handed _ => 0
  | .retried r => if r.data.ticket = ticket then 1 else 0

/-- No move gives a request more than it had, save for the `b` a new one starts with. -/
def bounded (W : ℕ → Entry → ℕ) (b : ℕ) : Prop :=
  ∀ {n : ℕ} {s : Pool n} {a : Action n} {k : ℕ} {out into : List Entry} (ticket : ℕ),
    s.Moves a k out into → s.forgets_no_retry a = true →
      weight (W ticket) into ≤ weight (W ticket) out + if k = 1 ∧ s.calls = ticket then b else 0

theorem weight_map_le {W : Entry → ℕ} {g g' : RequestMetadata → Entry}
    (h : ∀ r, W (g' r) ≤ W (g r)) (rs : List RequestMetadata) :
    weight W (rs.map g') ≤ weight W (rs.map g) := by
  induction rs with
  | nil => exact le_rfl
  | cons r rs ih =>
    have := h r
    simp only [List.map_cons, weight_cons]
    omega

theorem hand_budget_bounded : bounded hand_budget (kMaxRequestRetries + 1) := by
  intro n s a k out into ticket hmove hfresh
  cases hmove with
  | none | refuse | lose => simp
  | distribute text =>
    simp only [weight_cons, weight_nil, hand_budget]
    split <;> simp_all
  | drain rs =>
    refine le_add_right (weight_map_le (fun r => ?_) rs)
    simp only [hand_budget]
    split <;> omega
  | recover hr =>
    simp only [weight_cons, weight_nil, hand_budget, hr hfresh]
    omega
  | add hp | finish hp | fault hp =>
    rcases hp with rfl | rfl <;> simp only [weight_cons, weight_nil, hand_budget] <;>
      split <;> omega
  | take | hand_over | retry | retry_shutdown | discard =>
    simp only [weight_cons, weight_nil, hand_budget]
    split <;> omega

theorem retry_budget_bounded : bounded retry_budget kMaxRequestRetries := by
  intro n s a k out into ticket hmove hfresh
  cases hmove with
  | none | refuse | lose => simp
  | distribute text =>
    simp only [weight_cons, weight_nil, retry_budget]
    split <;> simp_all
  | drain rs =>
    refine le_add_right (weight_map_le (fun r => ?_) rs)
    simp only [retry_budget]
    exact le_rfl
  | recover hr =>
    simp only [weight_cons, weight_nil, retry_budget, hr hfresh]
    omega
  | add hp | finish hp | fault hp =>
    rcases hp with rfl | rfl <;> simp only [weight_cons, weight_nil, retry_budget] <;>
      split <;> omega
  | take | hand_over | retry | retry_shutdown | discard =>
    simp only [weight_cons, weight_nil, retry_budget]
    split <;> omega

/-- What a run can ever make of one request. -/
theorem total_le {W : ℕ → Entry → ℕ} {b : ℕ} (hW : bounded W b) {max_replace_attempts : ℕ}
    {tr : List (Pool n × Action n)} {s : Pool n}
    (hrun : Runs.Run step (init n max_replace_attempts) tr s)
    (hok : Runs.Steps (fun u a => u.forgets_no_retry a = true) tr) (ticket : ℕ) :
    s.total (W ticket) ≤ if ticket < s.calls then b else 0 := by
  refine (hrun.invariant (I := fun u => u.Ok ∧ u.total (W ticket) ≤ if ticket < u.calls then b else 0)
    hok ⟨init_ok n _, ?_⟩ ?_).2
  · simp [total, init, Worker.load, Worker.hand, Function.comp_def]
  · rintro u a u' ⟨huok, hle⟩ hfresh hstep
    refine ⟨step_ok huok hstep, ?_⟩
    obtain ⟨k, out, into, hmove, hcalls, htotal⟩ := step_shifts huok hstep
    have hmoved := hW ticket hmove hfresh
    have htotal := htotal (W ticket)
    split at hmoved <;> split at hle <;> split <;> omega

theorem times_handed_le (s : Pool n) (ticket : ℕ) :
    s.times_handed ticket ≤ s.total (hand_budget ticket) := by
  have h := weight_eq_countP (hand_budget ticket) (g := .handed)
    (p := fun r => r.data.ticket = ticket) (by simp [hand_budget]) s.handed
  rw [times_handed, ← h, total]
  omega

theorem times_retried_le (s : Pool n) (ticket : ℕ) :
    s.times_retried ticket ≤ s.total (retry_budget ticket) := by
  have h := weight_eq_countP (retry_budget ticket) (g := .retried)
    (p := fun r => r.data.ticket = ticket) (by simp [retry_budget]) s.retried
  rw [times_retried, ← h, total]
  omega

/-- In a run that recovers in flight only requests not retried before, every request is
handed over at most once more than it may be retried, is retried that often at most, and
is discarded when it comes up again. -/
theorem poison_pill_bound {max_replace_attempts : ℕ} {tr : List (Pool n × Action n)} {s : Pool n}
    (hrun : Runs.Run step (init n max_replace_attempts) tr s)
    (hok : Runs.Steps (fun u a => u.forgets_no_retry a = true) tr) :
    (∀ ticket, s.times_handed ticket ≤ kMaxRequestRetries + 1) ∧
      (∀ ticket, s.times_retried ticket ≤ kMaxRequestRetries) ∧
      ∀ r rs, s.exited = false → s.supervisor = .redistributing (r :: rs) →
        kMaxRequestRetries ≤ r.retry_count →
        ∃ s', s.step .supervise = some s' ∧ s'.discarded = s.discarded ++ [r] ∧
          s'.supervisor = .redistributing rs := by
  refine ⟨fun ticket => ?_, fun ticket => ?_, fun r rs hexited hphase hretries => ?_⟩
  · have hle := total_le hand_budget_bounded hrun hok ticket
    have := s.times_handed_le ticket
    split at hle <;> omega
  · have hle := total_le retry_budget_bounded hrun hok ticket
    have := s.times_retried_le ticket
    split at hle <;> omega
  · refine ⟨{ s with discarded := s.discarded ++ [r], supervisor := .redistributing rs },
      ?_, rfl, rfl⟩
    simp only [step, hexited, supervise, hphase, hretries, if_true, Bool.false_eq_true, if_false]

/-- The initializer of the one worker of a pool, from its creation to `set_worker_ready`. -/
def boot : List (Action 1) :=
  [.initialize_worker 0 true, .initialize_worker 0 true, .initialize_worker 0 true]

/-- The worker `ref` takes a request that ends it, and the supervisor replaces the worker
and gives the request to the next one. -/
def fatal_request (ref : ℕ) : List (Action 1) :=
  [.worker_loop ref .wait, .worker_loop ref .take, .worker_loop ref .track,
    .worker_loop ref .fault, .monitor_worker_at ⟨0, Nat.one_pos⟩ false, .supervise, .supervise, .supervise,
    .supervise, .supervise, .supervise, .supervise] ++ boot ++ [.supervise, .supervise, .supervise]

def one_request : List (Action 1) := boot ++ [.distribute_request [1], .call 0, .call 0]

/-- A request that ends four workers one after the other is handed over four times. -/
theorem poison_pill_unbounded :
    ¬∀ (n max_replace_attempts : ℕ) (tr : List (Pool n × Action n)) (s : Pool n),
      Runs.Run step (init n max_replace_attempts) tr s →
        ∀ ticket, s.times_handed ticket ≤ kMaxRequestRetries + 1 := by
  intro hall
  have h : (Runs.exec step (fun _ _ => true) (init 1 3)
      (one_request ++ fatal_request 0 ++ fatal_request 1 ++ fatal_request 2 ++
        fatal_request 3)).map (·.times_handed 0) = some 4 := by decide +kernel
  obtain ⟨s, hs, hcount⟩ := Option.map_eq_some_iff.mp h
  obtain ⟨tr, hrun, -⟩ := Runs.run_of_exec hs
  have hle := hall 1 3 tr s hrun 0
  rw [hcount] at hle
  exact absurd hle (by decide)

/-- A request that ends one worker and is completed by the next keeps to the bound. -/
theorem poison_pill_bound_retried : ∃ tr s, Runs.Run step (init 1 3) tr s ∧
    s.times_handed 0 = 2 ∧ s.times_handed 0 ≤ kMaxRequestRetries + 1 := by
  have h : (Runs.exec step forgets_no_retry (init 1 3) (one_request ++ fatal_request 0 ++
      [.worker_loop 1 .wait, .worker_loop 1 .take, .worker_loop 1 .track,
        .worker_loop 1 .finish])).map (·.times_handed 0) = some 2 := by decide +kernel
  obtain ⟨s, hs, hcount⟩ := Option.map_eq_some_iff.mp h
  obtain ⟨tr, hrun, hok⟩ := Runs.run_of_exec hs
  exact ⟨tr, s, hrun, hcount, (poison_pill_bound hrun hok).1 0⟩

end Zowex.worker.Pool

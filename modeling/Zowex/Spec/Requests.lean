import Zowex.Spec.WorkerPool

/-! Where the requests of a pool are, and what a step must not meet for none of them to
get lost, for no retry count to be forgotten and for the ready count to stay right. -/

namespace Zowex.worker

/-- A request is `taken` from a queue, handed over for `processing`, and left behind as
`faulted` when that ends the worker. The supervisor holds it as `recovered`, and as
`rerouted` once its retry count is increased. -/
inductive Place
  | caller
  | queued
  | taken
  | processing
  | faulted
  | recovered
  | rerouted
  | finished
  | discarded
deriving DecidableEq, Repr

variable {n : ℕ}

/-- The queue will be served: by the thread, or by the supervisor that sees the fault. -/
def Worker.is_live (w : Worker n) : Bool :=
  !w.drained && (!w.thread.is_ended || w.state = .Faulted)

/-- The request the thread holds. That of a dead thread counts while the supervisor can
still see the fault and has not read it. -/
def Worker.in_flight (w : Worker n) : List (Place × RequestMetadata) :=
  match w.thread with
  | .taken r => [(.taken, r)]
  | .processing r => if w.answered then [] else [(.processing, r)]
  | .ended (some r) =>
    if w.answered || w.recovered || w.state ≠ .Faulted then [] else [(.faulted, r)]
  | _ => []

def Worker.requests (w : Worker n) : List (Place × RequestMetadata) :=
  (if w.is_live then w.request_queue.map (.queued, ·) else []) ++ w.in_flight

def Supervisor.requests : Supervisor n → List (Place × RequestMetadata)
  | reading _ _ _ rs | stopping _ _ _ rs | replacing _ _ _ rs | redistributing rs =>
    rs.map (.recovered, ·)
  | waiting r rs | picked r _ rs => (.rerouted, r) :: rs.map (.recovered, ·)
  | _ => []

namespace Pool

def requests (s : Pool n) : List (Place × RequestMetadata) :=
  s.callers.map (fun c => (.caller, c.request)) ++ s.objects.flatMap Worker.requests ++
    s.supervisor.requests ++ s.finished.map (.finished, ·) ++ s.discarded.map (.discarded, ·)

/-- The places of the request that the call number `ticket` passed in. -/
def places (s : Pool n) (ticket : ℕ) : List Place :=
  (s.requests.filter fun p => p.2.data.ticket = ticket).map Prod.fst

/-- How often that request was handed to `process_request`, and how often re-routed. -/
def times_handed (s : Pool n) (ticket : ℕ) : ℕ := s.handed.countP (·.data.ticket = ticket)

def times_retried (s : Pool n) (ticket : ℕ) : ℕ := s.retried.countP (·.data.ticket = ticket)

/-- `ready_queue` has an entry that is not stale. -/
def has_ready_entry (s : Pool n) : Bool := s.ready_queue.any s.worker_is_ready

/-- The queue of the worker has not been drained. -/
def accepts (s : Pool n) (worker : ℕ) : Bool := (s.objects[worker]?).any (!·.drained)

/-- The step meets none of the situations in which the pool forgets a request: a ready
queue whose entries are all stale; a worker picked and then drained before the request is
added; a fault that `start` overwrites with `Idle`; a fault of a worker given up as hung,
with a request no timeout error was sent for; and a dead worker whose request is empty or
not yet its `current_request_data`. -/
def lossless (s : Pool n) : Action n → Bool
  | .call k =>
    match s.callers[k]? with
    | some (.waiting _) => s.has_ready_entry
    | some (.picked _ worker) => s.accepts worker
    | none => true
  | .initialize_worker k _ =>
    match s.initializer_threads[k]? with
    | some (.running _ worker) => (s.objects[worker]?).all (!·.thread.is_ended)
    | _ => true
  | .worker_loop worker .fault =>
    (s.objects[worker]?).all fun w => !w.recovered || w.in_hand.isNone
  | .supervise =>
    match s.supervisor with
    | .waiting _ _ => s.has_ready_entry
    | .picked _ worker _ => s.accepts worker
    | .reading _ _ ctx _ =>
      (ctx.old_worker.bind (s.objects[·]?)).all fun w =>
        !w.thread.is_ended || w.in_hand.isNone || w.get_current_request.isSome
    | _ => true
  | _ => true

/-- A request that is recovered in flight has not been retried before. -/
def forgets_no_retry (s : Pool n) : Action n → Bool
  | .supervise =>
    match s.supervisor with
    | .reading _ false ctx _ =>
      (ctx.old_worker.bind (s.objects[·]?)).all fun w =>
        w.get_current_request.isNone || w.in_hand.all (·.retry_count = 0)
    | _ => true
  | _ => true

/-- A replacement is put into a slot only while that slot is not marked ready. -/
def spawns_unready (s : Pool n) : Action n → Bool
  | .supervise =>
    match s.supervisor with
    | .replacing i force_detach ctx _ =>
      (force_detach && s.max_live_detached < s.live_detached_workers) ||
        ctx.max_attempts_reached || s.is_shutting_down || !s.ready_list.get i
    | _ => true
  | _ => true

/-- Whether `get_ready_worker` takes no entry of a worker marked ready out of the queue for good. -/
def pops_unmarked (s : Pool n) : Bool :=
  s.is_shutting_down || s.ready_count ≤ 0 ||
    (s.ready_queue.takeWhile fun i => !s.worker_is_ready i).all fun i => !s.ready_list.get i

/-- An entry is queued only for a worker that has none, and none is dropped for good whose worker
is marked ready. -/
def keeps_entries (s : Pool n) : Action n → Bool
  | .call k =>
    match s.callers[k]? with
    | some (.waiting _) => s.pops_unmarked
    | _ => true
  | .initialize_worker k _ =>
    match s.initializer_threads[k]? with
    | some (.started i) =>
      s.ready_list.get i || !s.worker_is_ready i || !s.ready_queue.contains i
    | _ => true
  | .supervise =>
    match s.supervisor with
    | .waiting _ _ => s.pops_unmarked
    | _ => true
  | _ => true

/-- No worker has two entries in the ready queue, and one that is marked ready has one. -/
structure Queued (s : Pool n) : Prop where
  at_most_once (i : Fin n) : s.ready_queue.count i ≤ 1
  marked_once (i : Fin n) : s.ready_list.get i = true → s.ready_queue.count i = 1

end Pool

end Zowex.worker

import Zowex.Spec.Worker

/-! `WorkerPool` of `worker.cpp` as a step function. One action is one section that a
mutex protects, or the stores between two of them. The vectors of the pool get their
size in the constructor and keep it, so an index into them is a `Fin n`. -/

namespace Zowex.worker

/-- Maximum retry attempts for poison pill protection. -/
def kMaxRequestRetries : ℕ := 2

/-- What is left of `initialize_worker` on a thread of `spawn_initializer`. `running` has
created the thread of a worker and not yet left its `start`. -/
inductive Initializer (n : ℕ)
  | created (worker_id : Fin n)
  | running (worker_id : Fin n) (worker : ℕ)
  | started (worker_id : Fin n)
deriving DecidableEq

/-- What is left of a call of `distribute_request`. -/
inductive Call
  | waiting (request : RequestMetadata)
  | picked (request : RequestMetadata) (worker : ℕ)
deriving DecidableEq

def Call.request : Call → RequestMetadata
  | waiting r => r
  | picked r _ => r

structure ReplacementContext where
  old_worker : Option ℕ
  max_attempts_reached : Bool
deriving DecidableEq

/-- Where the supervisor is: between two workers, in one of the sections of
`replace_worker`, or in the loop of `redistribute_requests`. -/
inductive Supervisor (n : ℕ)
  | scanning
  | marking (worker_index : Fin n) (force_detach : Bool)
  | preparing (worker_index : Fin n) (force_detach : Bool)
  | draining (worker_index : Fin n) (force_detach : Bool) (ctx : ReplacementContext)
  | reading (worker_index : Fin n) (force_detach : Bool) (ctx : ReplacementContext)
      (recovered_requests : List RequestMetadata)
  | stopping (worker_index : Fin n) (force_detach : Bool) (ctx : ReplacementContext)
      (recovered_requests : List RequestMetadata)
  | replacing (worker_index : Fin n) (force_detach : Bool) (ctx : ReplacementContext)
      (recovered_requests : List RequestMetadata)
  | redistributing (requests : List RequestMetadata)
  | waiting (request : RequestMetadata) (requests : List RequestMetadata)
  | picked (request : RequestMetadata) (worker : ℕ) (requests : List RequestMetadata)
deriving DecidableEq

/-- `objects` are the workers ever made, and the slots of `workers` point into them. The
last five fields are logs: the calls so far, what was handed to `process_request`, what was
answered, what was re-routed and what was discarded. -/
structure Pool (n : ℕ) where
  objects : List (Worker n)
  workers : Vector (Option ℕ) n
  ready_list : Vector Bool n
  ready_count : ℤ := 0
  replacement_attempts : Vector ℕ n
  max_replace_attempts : ℕ
  ready_queue : List (Fin n) := []
  is_shutting_down : Bool := false
  initializer_threads : List (Initializer n)
  supervisor : Supervisor n := .scanning
  callers : List Call := []
  live_detached_workers : ℕ := 0
  exited : Bool := false
  calls : ℕ := 0
  handed : List RequestMetadata := []
  finished : List RequestMetadata := []
  retried : List RequestMetadata := []
  discarded : List RequestMetadata := []

namespace Pool

variable {n : ℕ}

/-- The pool the constructor leaves behind. -/
def init (n : ℕ) (max_replace_attempts : ℕ) : Pool n where
  objects := (List.finRange n).map fun i => { id := i }
  workers := Vector.ofFn fun i => some i
  ready_list := Vector.replicate n false
  replacement_attempts := Vector.replicate n 0
  max_replace_attempts := max_replace_attempts
  initializer_threads := (List.finRange n).map .created

def max_live_detached (_ : Pool n) : ℕ := max 2 n

/-- Whether the slot `i` holds a worker that is ready. -/
def worker_is_ready (s : Pool n) (i : Fin n) : Bool :=
  match s.workers[i] with
  | some ref => (s.objects[ref]?).any Worker.is_ready
  | none => false

/-- The loop of `get_ready_worker`: the worker it settles on, and the queue it leaves. -/
def pop_ready (s : Pool n) : List (Fin n) → Option ℕ × List (Fin n)
  | [] => (none, [])
  | i :: queue => if s.worker_is_ready i then (s.workers[i], queue ++ [i]) else s.pop_ready queue

/-- `get_ready_worker`, or nothing while its wait goes on. -/
def get_ready_worker (s : Pool n) : Option (Option ℕ × Pool n) :=
  if s.is_shutting_down then some (none, s)
  else if 0 < s.ready_count then
    let (worker, ready_queue) := s.pop_ready s.ready_queue
    some (worker, { s with ready_queue := ready_queue })
  else none

/-- A member function called on the worker `ref`. -/
def on (s : Pool n) (ref : ℕ) (f : Worker n → Worker n) : Pool n :=
  { s with objects := s.objects.modify ref f }

/-- `distribute_request_internal` up to the wait of `get_ready_worker`. -/
def distribute_request (s : Pool n) (text : Bytes) : Pool n :=
  let request := ⟨⟨s.calls, text⟩, 0⟩
  if s.is_shutting_down then { s with calls := s.calls + 1 }
  else { s with calls := s.calls + 1, callers := s.callers ++ [.waiting request] }

/-- The caller `k` goes on. -/
def call (s : Pool n) (k : ℕ) : Option (Pool n) :=
  match s.callers[k]? with
  | some (.waiting request) =>
    match s.get_ready_worker with
    | some (some worker, s) => some { s with callers := s.callers.set k (.picked request worker) }
    | some (none, s) => some { s with callers := s.callers.eraseIdx k }
    | none => none
  | some (.picked request worker) =>
    some { s.on worker (·.add_request request) with callers := s.callers.eraseIdx k }
  | none => none

def set_worker_ready (s : Pool n) (i : Fin n) : Pool n :=
  match s.workers[i] with
  | none => s
  | some _ =>
    if !s.ready_list[i] && s.worker_is_ready i then
      { s with
        ready_list := s.ready_list.set i true
        ready_count := s.ready_count + 1
        replacement_attempts := s.replacement_attempts.set i 0
        ready_queue := s.ready_queue ++ [i] }
    else s

/-- The initializer thread `k` goes on. The thread of the worker cannot be created when
`created` is false, and the exception then ends the initializer. -/
def initialize_worker (s : Pool n) (k : ℕ) (created : Bool) : Option (Pool n) :=
  match s.initializer_threads[k]? with
  | some (.created i) => do
    let ref ← s.workers[i]
    let w ← s.objects[ref]?
    if w.thread ≠ .unstarted then none
    else if created then
      some { s.on ref Worker.start with
        initializer_threads := s.initializer_threads.set k (.running i ref) }
    else some { s with initializer_threads := s.initializer_threads.eraseIdx k }
  | some (.running i ref) =>
    some { s.on ref Worker.started with
      initializer_threads := s.initializer_threads.set k (.started i) }
  | some (.started i) =>
    some { s.set_worker_ready i with
      initializer_threads := s.initializer_threads.eraseIdx k }
  | none => none

/-- The thread of the worker `ref` goes on. -/
def worker_loop (s : Pool n) (ref : ℕ) (a : Worker.LoopStep) : Option (Pool n) := do
  let w ← s.objects[ref]?
  let w' ← w.worker_loop a
  some { s.on ref (fun _ => w') with
    handed := s.handed ++ w.hands_over a
    finished := s.finished ++ w.completes a
    live_detached_workers :=
      if w.detached && !w'.detached then s.live_detached_workers - 1 else s.live_detached_workers }

/-- `monitor_worker_at`; `late` says whether the heartbeat is older than the timeout. A
scan that finds nothing to do is no step. -/
def monitor_worker_at (s : Pool n) (i : Fin n) (late : Bool) : Option (Pool n) :=
  if s.supervisor ≠ .scanning ∨ s.is_shutting_down then none
  else do
    let ref ← s.workers[i]
    let w ← s.objects[ref]?
    if w.state = .Faulted then some { s with supervisor := .marking i false }
    else if w.state = .Exited ∧ !w.is_stop_requested then
      some { s with supervisor := .marking i false }
    else if w.state = .Running ∧ late then some { s with supervisor := .marking i true }
    else none

def mark_worker_not_ready (s : Pool n) (i : Fin n) : Bool × Pool n :=
  if s.ready_list[i] then
    let ready_list := s.ready_list.set i false
    if s.ready_count ≤ 0 then (false, { s with ready_list, ready_count := 0 })
    else (true, { s with ready_list, ready_count := s.ready_count - 1 })
  else (true, s)

def prepare_worker_replacement (s : Pool n) (i : Fin n) : ReplacementContext × Pool n :=
  let attempts := s.replacement_attempts[i]
  let max_attempts_reached : Bool := s.max_replace_attempts ≤ attempts
  (⟨s.workers[i], max_attempts_reached⟩,
    { s with
      replacement_attempts :=
        if max_attempts_reached then s.replacement_attempts
        else s.replacement_attempts.set i (attempts + 1)
      workers := s.workers.set i none })

/-- The pending requests of the old worker, taken from its queue. -/
def drain (s : Pool n) (old_worker : Option ℕ) : List RequestMetadata × Pool n :=
  match old_worker with
  | none => ([], s)
  | some ref =>
    match s.objects[ref]? with
    | none => ([], s)
    | some w => (w.drain_pending_requests.1, s.on ref (·.drain_pending_requests.2))

/-- The request in flight in the old worker: recovered, or answered with a timeout error. -/
def recover_in_flight (s : Pool n) (old_worker : Option ℕ) (force_detach : Bool) :
    List RequestMetadata × Pool n :=
  match old_worker with
  | none => ([], s)
  | some ref =>
    match s.objects[ref]? with
    | none => ([], s)
    | some w =>
      let s := s.on ref fun w => { w with recovered := true }
      match w.get_current_request with
      | none => ([], s)
      | some current_req =>
        if force_detach then
          ([], { s.on ref (fun w => { w with answered := true }) with
            finished := s.finished ++ w.in_hand.toList })
        else ([⟨current_req, 0⟩], s)

def stop_old_worker (s : Pool n) (old_worker : Option ℕ) (force_detach : Bool) : Pool n :=
  match old_worker with
  | none => s
  | some ref =>
    if force_detach then
      { s.on ref Worker.force_detach with
        live_detached_workers :=
          if (s.objects[ref]?).any Worker.joinable then s.live_detached_workers + 1
          else s.live_detached_workers }
    else s.on ref Worker.stop

def spawn_replacement_worker (s : Pool n) (i : Fin n) : Pool n :=
  { s with
    objects := s.objects ++ [{ id := i }]
    workers := s.workers.set i (some s.objects.length)
    ready_list := s.ready_list.set i false
    initializer_threads := s.initializer_threads ++ [.created i] }

def redistribute_requests (s : Pool n) (requests : List RequestMetadata) : Pool n :=
  { s with supervisor := if s.is_shutting_down then .scanning else .redistributing requests }

/-- The supervisor goes on with a replacement it has begun. -/
def supervise (s : Pool n) : Option (Pool n) :=
  match s.supervisor with
  | .scanning => none
  | .marking i force_detach =>
    match s.mark_worker_not_ready i with
    | (true, s) => some { s with supervisor := .preparing i force_detach }
    | (false, s) => some { s with supervisor := .scanning }
  | .preparing i force_detach =>
    let (ctx, s) := s.prepare_worker_replacement i
    some { s with supervisor := .draining i force_detach ctx }
  | .draining i force_detach ctx =>
    let (pending, s) := s.drain ctx.old_worker
    some { s with supervisor := .reading i force_detach ctx pending }
  | .reading i force_detach ctx pending =>
    let (current, s) := s.recover_in_flight ctx.old_worker force_detach
    some { s with supervisor := .stopping i force_detach ctx (pending ++ current) }
  | .stopping i force_detach ctx recovered_requests =>
    some { s.stop_old_worker ctx.old_worker force_detach with
      supervisor := .replacing i force_detach ctx recovered_requests }
  | .replacing i force_detach ctx recovered_requests =>
    -- `enforce_detached_worker_limit` does not return when it exits the process
    if force_detach ∧ s.max_live_detached < s.live_detached_workers then
      some { s with exited := true }
    else if ctx.max_attempts_reached then some (s.redistribute_requests recovered_requests)
    else if s.is_shutting_down then some { s with supervisor := .scanning }
    else some ((s.spawn_replacement_worker i).redistribute_requests recovered_requests)
  | .redistributing [] => some { s with supervisor := .scanning }
  | .redistributing (req :: requests) =>
    if kMaxRequestRetries ≤ req.retry_count then
      some { s with
        discarded := s.discarded ++ [req]
        supervisor := .redistributing requests }
    else
      let req := { req with retry_count := req.retry_count + 1 }
      some { s with
        retried := s.retried ++ [req]
        supervisor :=
          if s.is_shutting_down then .redistributing requests else .waiting req requests }
  | .waiting req requests =>
    match s.get_ready_worker with
    | some (some worker, s) => some { s with supervisor := .picked req worker requests }
    | some (none, s) => some { s with supervisor := .redistributing requests }
    | none => none
  | .picked req worker requests =>
    some { s.on worker (·.add_request req) with supervisor := .redistributing requests }

inductive Action (n : ℕ)
  | distribute_request (text : Bytes)
  | call (k : ℕ)
  | initialize_worker (k : ℕ) (created : Bool)
  | worker_loop (worker : ℕ) (a : Worker.LoopStep)
  | monitor_worker_at (i : Fin n) (late : Bool)
  | supervise
  | shutdown
  | stop (i : Fin n)
deriving DecidableEq

def step (s : Pool n) (a : Action n) : Option (Pool n) :=
  if s.exited then none
  else
    match a with
    | .distribute_request text => some (s.distribute_request text)
    | .call k => s.call k
    | .initialize_worker k created => s.initialize_worker k created
    | .worker_loop ref a => s.worker_loop ref a
    | .monitor_worker_at i late => s.monitor_worker_at i late
    | .supervise => s.supervise
    | .shutdown => some { s with is_shutting_down := true }
    | .stop i =>
      -- by now `shutdown` has joined the supervisor and the initializers
      if s.is_shutting_down ∧ s.supervisor = .scanning ∧ s.initializer_threads = [] then
        match s.workers[i] with
        | some ref => some (s.on ref Worker.stop)
        | none => none
      else none

end Pool

end Zowex.worker

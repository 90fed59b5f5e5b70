import Mathlib.Data.List.Basic
import Zowex.Spec.Charset

/-! One `Worker` of `worker.cpp`, its request queue, and its thread, at the granularity
of the sections its mutexes protect. Time is left out: a heartbeat may be late whenever
the state is `Running`. -/

namespace Zowex.worker

inductive WorkerState
  | Starting
  | Idle
  | Running
  | Stopping
  | Faulted
  | Exited
deriving DecidableEq, Repr

/-- The text given to `distribute_request`. The code never sees `ticket`, the number of
that call, which tells requests with equal texts apart. -/
structure Payload where
  ticket : ℕ
  text : Bytes
deriving DecidableEq, Repr

structure RequestMetadata where
  data : Payload
  retry_count : ℕ
deriving DecidableEq, Repr

/-- Where `worker_loop` is, with the request it has in hand. -/
inductive Thread
  | unstarted
  | looping
  | waiting
  | taken (request_metadata : RequestMetadata)
  | processing (request_metadata : RequestMetadata)
  | processed (request_metadata : RequestMetadata)
  | ended (request_metadata : Option RequestMetadata)
deriving DecidableEq, Repr

def Thread.is_ended : Thread → Bool
  | ended _ => true
  | _ => false

/-- The last three fields record what the supervisor did to the worker: whether it took
the queue, whether it read the request in flight, and whether it answered that request. -/
structure Worker (n : ℕ) where
  id : Fin n
  state : WorkerState := .Starting
  stop_requested : Bool := false
  detached : Bool := false
  request_queue : List RequestMetadata := []
  current_request_data : Option Payload := none
  thread : Thread := .unstarted
  drained : Bool := false
  recovered : Bool := false
  answered : Bool := false
deriving DecidableEq

variable {n : ℕ}

namespace Worker

def is_ready (w : Worker n) : Bool := w.state = .Idle || w.state = .Running

def is_stop_requested (w : Worker n) : Bool :=
  w.state = .Stopping || w.state = .Exited || w.state = .Faulted || w.stop_requested

def add_request (w : Worker n) (request : RequestMetadata) : Worker n :=
  { w with request_queue := w.request_queue ++ [request] }

/-- `current_req.empty()` as the supervisor tests it: nothing in flight, or an empty text. -/
def get_current_request (w : Worker n) : Option Payload :=
  w.current_request_data.filter (·.text ≠ [])

/-- `start` up to the creation of the thread. -/
def start (w : Worker n) : Worker n :=
  { w with stop_requested := false, state := .Starting, thread := .looping }

/-- The store that ends `start`. The thread is running by then. -/
def started (w : Worker n) : Worker n := { w with state := .Idle }

/-- `stop`, without the wait for the thread that follows. -/
def stop (w : Worker n) : Worker n :=
  if w.state = .Exited then w
  else { w with
    stop_requested := true
    state := if w.state = .Faulted then .Faulted else .Stopping }

def joinable (w : Worker n) : Bool := w.thread ≠ .unstarted && !w.detached

def force_detach (w : Worker n) : Worker n :=
  { w with
    stop_requested := true
    state := .Faulted
    detached := w.detached || w.joinable }

def drain_pending_requests (w : Worker n) : List RequestMetadata × Worker n :=
  (w.request_queue, { w with request_queue := [], drained := true })

/-- The sections of `worker_loop`, and the exception that ends it. -/
inductive LoopStep
  | wait
  | take
  | stop
  | track
  | finish
  | clear
  | fault
deriving DecidableEq, Repr

/-- The handler around `worker_loop`, with what follows it. -/
def unwind (w : Worker n) (request_metadata : Option RequestMetadata) : Worker n :=
  { w with
    state := .Faulted
    stop_requested := true
    detached := false
    thread := .ended request_metadata }

def worker_loop (w : Worker n) : LoopStep → Option (Worker n)
  | .wait =>
    match w.thread with
    | .looping => some { w with state := .Idle, thread := .waiting }
    | _ => none
  | .take =>
    match w.thread, w.stop_requested, w.request_queue with
    | .waiting, false, r :: queue =>
      some { w with request_queue := queue, state := .Running, thread := .taken r }
    | _, _, _ => none
  | .stop =>
    match w.thread, w.stop_requested with
    | .waiting, true => some { w with state := .Exited, detached := false, thread := .ended none }
    | _, _ => none
  | .track =>
    match w.thread with
    | .taken r => some { w with current_request_data := some r.data, thread := .processing r }
    | _ => none
  | .finish =>
    match w.thread with
    | .processing r => some { w with thread := .processed r }
    | _ => none
  | .clear =>
    match w.thread with
    | .processed _ =>
      some { w with current_request_data := none, thread := .looping, answered := false }
    | _ => none
  | .fault =>
    match w.thread with
    -- copying the front of the queue may throw, before anything is popped
    | .waiting => if w.stop_requested ∨ w.request_queue = [] then none else some (w.unwind none)
    | .taken r => some (w.unwind (some r))
    | .processing r => some (w.unwind (some r))
    | _ => none

/-- The request a step hands to `process_request`. -/
def hands_over (w : Worker n) : LoopStep → List RequestMetadata
  | .track =>
    match w.thread with
    | .taken r => [r]
    | _ => []
  | _ => []

/-- The request a step completes, unless it was answered before. -/
def completes (w : Worker n) : LoopStep → List RequestMetadata
  | .finish =>
    match w.thread with
    | .processing r => if w.answered then [] else [r]
    | _ => []
  | _ => []

/-- The request in hand, taken from the queue and not answered yet. -/
def in_hand (w : Worker n) : Option RequestMetadata :=
  match w.thread with
  | .taken r => some r
  | .processing r => if w.answered then none else some r
  | .ended (some r) => if w.answered then none else some r
  | _ => none

end Worker

end Zowex.worker

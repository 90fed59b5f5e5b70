import Zowex.Lib.Lines
import Zowex.Lib.Utf8

/-! The request map of `ZSshClient.ts`, with the stream links of `RpcStreamManager.ts`: what
each event of the client does to the requests in flight, their timers and their promises. -/

namespace Zowex.sdk

/-- The id of a message. Any other JSON value is the key of no request. -/
inductive RpcId
  | number (id : ℕ)
  | other
  deriving DecidableEq, Repr

/-- An `RpcResponse` or `RpcNotification`; `none` where the message has no such member. -/
inductive Message (R : Type)
  | response (id : RpcId) (error : Option R) (result : R)
  | notification (id : Option RpcId) (method : String) (params_id : Option RpcId)

inductive Disconnect
  | connection_closed
  | server_process_ended
  deriving DecidableEq, Repr

/-- Why a promise is rejected. -/
inductive Rejection (R : Type)
  | response (error : R)
  | timed_out
  | stream
  | shutting_down
  | restarting
  | closed (reason : Disconnect)
  deriving DecidableEq, Repr

/-- A call of the functions that settle the promise of a request. -/
inductive Settle (R : Type)
  | resolve (id : ℕ) (result : R)
  | reject (id : ℕ) (why : Rejection R)
  deriving DecidableEq, Repr

def Settle.id {R : Type} : Settle R → ℕ
  | .resolve id _ => id
  | .reject id _ => id

/-- What is told to `mErrHandler`. -/
inductive Report (R : Type)
  | invalid_json (line : List Char)
  | missing_promise (id : Option RpcId)
  | notification (method : String)
  | timed_out
  | server_error (text : List Char)

inductive Timer
  | armed
  | fired
  | cleared
  deriving DecidableEq, Repr

/-- What the stream function of a request returns. -/
structure Stream where
  readable : Bool
  writable : Bool
  deriving DecidableEq, Repr

structure PendingStream where
  id : ℕ
  /-- What the function returns, call after call. -/
  streams : List Stream

/-- An entry of `mRequestMap`. Its `rpc.resolve` waits for that many stream promises. -/
structure ExistingClientRequest where
  id : ℕ
  links : ℕ
  silenced : Bool
  deriving DecidableEq, Repr

/-- A response on its way through the stream promises that its request waits for. -/
structure Awaiting (R : Type) where
  id : ℕ
  links : ℕ
  response : R
  deriving DecidableEq, Repr

structure ZSshClient (R : Type) where
  closed : Bool
  disconnect_handled : Bool
  /-- `rejectPendingRequests` runs when the `onClose` hook is done. -/
  reject_due : Option Disconnect
  request_id : ℕ
  request_map : List ExistingClientRequest
  timers : ℕ → Timer
  pending_streams : List PendingStream
  open_streams : List ℕ
  awaiting : List (Awaiting R)
  partial_stdout : List Char
  partial_stderr : List Char
  settled : List (Settle R)
  reports : List (Report R)

namespace ZSshClient

variable {R : Type}

def start : ZSshClient R where
  closed := false
  disconnect_handled := false
  reject_due := none
  request_id := 0
  request_map := []
  timers := fun _ => .cleared
  pending_streams := []
  open_streams := []
  awaiting := []
  partial_stdout := []
  partial_stderr := []
  settled := []
  reports := []

def report (c : ZSshClient R) (r : Report R) : ZSshClient R :=
  { c with reports := c.reports ++ [r] }

def find (c : ZSshClient R) : Option RpcId → Option ExistingClientRequest
  | some (.number id) => c.request_map.find? (·.id = id)
  | _ => none

def delete (c : ZSshClient R) (id : ℕ) : ZSshClient R :=
  { c with request_map := c.request_map.filter (·.id ≠ id) }

def clear_timeout (c : ZSshClient R) (id : ℕ) : ZSshClient R :=
  { c with timers := Function.update c.timers id .cleared }

/-- The promise settles, and its `finally` clears the timer. -/
def settle (c : ZSshClient R) (s : Settle R) : ZSshClient R :=
  clear_timeout { c with settled := c.settled ++ [s] } s.id

/-- `timeoutId.refresh()`; a cleared timer stays so. -/
def refresh (c : ZSshClient R) (id : ℕ) : ZSshClient R :=
  if c.timers id = .cleared then c
  else { c with timers := Function.update c.timers id .armed }

/-- `request`, with the stream function it registers. -/
def request (c : ZSshClient R) (stdin_writable : Bool) (streams : Option (List Stream)) :
    ZSshClient R :=
  if c.closed || !stdin_writable then c
  else
    let id := c.request_id + 1
    { c with
      request_id := id
      timers := Function.update c.timers id .armed
      pending_streams := c.pending_streams ++ (streams.map (PendingStream.mk id)).toList
      request_map := c.request_map ++ [⟨id, 0, false⟩] }

/-- The callback of the timer that `request` sets. -/
def on_timeout (c : ZSshClient R) (id : ℕ) : ZSshClient R :=
  let c := { c with timers := Function.update c.timers id .fired }
  match c.find (some (.number id)) with
  | none => c
  | some request =>
    let c := c.delete id
    if request.silenced then c
    else (c.report .timed_out).settle (.reject id .timed_out)

/-- `linkStreamToPromise`; none if it throws. -/
def link_stream_to_promise (c : ZSshClient R) (id : ℕ) (usable : Stream → Bool) :
    Option (ZSshClient R) :=
  match c.pending_streams.find? (·.id = id) with
  | none => none
  | some pending =>
    let linked := { c with
      request_map := c.request_map.map fun r =>
        if r.id = id then { r with links := r.links + 1 } else r }
    match pending.streams with
    | [] => some linked
    | stream :: later =>
      if usable stream then
        some { linked with
          pending_streams := c.pending_streams.filter (·.id ≠ id)
          open_streams := c.open_streams ++ [id] }
      else
        some { linked with
          pending_streams := c.pending_streams.map fun p =>
            if p.id = id then { p with streams := later } else p }

def handle_notification (c : ZSshClient R) (method : String) (params_id : Option RpcId) :
    ZSshClient R :=
  let linked :=
    match c.find params_id with
    | none => none
    | some request =>
      if method = "receiveStream" then c.link_stream_to_promise request.id (·.writable)
      else if method = "sendStream" then c.link_stream_to_promise request.id (·.readable)
      else none
  match linked with
  | some linked => linked
  | none => c.report (.notification method)

def handle_response (c : ZSshClient R) (request : ExistingClientRequest) (error : Option R)
    (result : R) : ZSshClient R :=
  if request.silenced then c.delete request.id
  else
    let called :=
      match error with
      | some error => c.settle (.reject request.id (.response error))
      | none =>
        if request.links = 0 then c.settle (.resolve request.id result)
        else { c with awaiting := c.awaiting ++ [Awaiting.mk request.id request.links result] }
    called.delete request.id

/-- One message of the loop in `processResponses`. -/
def on_message (c : ZSshClient R) : Message R → ZSshClient R
  | .response id error result =>
    match c.find (some id) with
    | none => c.report (.missing_promise (some id))
    | some request => c.handle_response request error result
  | .notification id method params_id =>
    match c.find (id.or params_id) with
    | none => c.report (.missing_promise (id.or params_id))
    | some _ => c.handle_notification method params_id

/-- One line of `processResponses`. -/
def on_line (parse : List Char → Option (Message R)) (c : ZSshClient R) (line : List Char) :
    ZSshClient R :=
  if line = [] then c
  else
    match parse line with
    | none => c.report (.invalid_json line)
    | some m => c.on_message m

def process_responses (parse : List Char → Option (Message R)) (c : ZSshClient R)
    (data : List Char) : ZSshClient R × List Char :=
  ((Lines.complete '\n' data).foldl (on_line parse) c, Lines.unfinished '\n' data)

def on_out_data (parse : List Char → Option (Message R)) (c : ZSshClient R) (chunk : List UInt8) :
    ZSshClient R :=
  let (c, rest) := c.process_responses parse (c.partial_stdout ++ Utf8.decode chunk)
  { c with partial_stdout := rest }

def on_err_data (parse : List Char → Option (Message R)) (c : ZSshClient R) (chunk : List UInt8) :
    ZSshClient R :=
  if c.request_map = [] then c.report (.server_error (Utf8.decode chunk))
  else
    let (c, rest) := c.process_responses parse (c.partial_stderr ++ Utf8.decode chunk)
    { c with partial_stderr := rest }

/-- `collectAllRequests`; the entries it returns stay in the map. -/
def collect_all_requests (c : ZSshClient R) (silence : Bool) : ZSshClient R :=
  { c with
    request_map := c.request_map.map fun r => { r with silenced := silence }
    timers := fun id => if ∃ r ∈ c.request_map, r.id = id then .cleared else c.timers id }

/-- Rejects the requests that are not silenced. -/
def reject_all (c : ZSshClient R) (why : Rejection R) : ZSshClient R :=
  ((c.request_map.filter (!·.silenced)).map (·.id)).foldl (fun c id => c.settle (.reject id why)) c

def dispose (c : ZSshClient R) (is_restart : Bool) : ZSshClient R :=
  { reject_all { c with closed := true } (if is_restart then .restarting else .shutting_down) with
    request_map := [] }

def handle_disconnect (c : ZSshClient R) (reason : Disconnect) : ZSshClient R :=
  if c.disconnect_handled then c
  else { c with disconnect_handled := true, closed := true, reject_due := some reason }

def reject_pending_requests (c : ZSshClient R) (reason : Disconnect) : ZSshClient R :=
  { c.reject_all (.closed reason) with
    request_map := c.request_map.filter (·.silenced)
    reject_due := none }

/-- A stream promise that a response waits for is done. -/
def on_stream_end (c : ZSshClient R) (waiting : Awaiting R) (ok : Bool) : ZSshClient R :=
  let c := { c with awaiting := c.awaiting.filter (·.id ≠ waiting.id) }
  if !ok then c.settle (.reject waiting.id .stream)
  else if waiting.links ≤ 1 then c.settle (.resolve waiting.id waiting.response)
  else { c with awaiting := c.awaiting ++ [{ waiting with links := waiting.links - 1 }] }

end ZSshClient

/-- What happens to a client, one event after the other. -/
inductive Event
  | request (stdin_writable : Bool) (streams : Option (List Stream))
  | line (line : List Char)
  | timeout (id : ℕ)
  | keep_alive (id : ℕ)
  | stream_end (id : ℕ) (ok : Bool)
  | collect_all_requests (silence : Bool)
  | dispose (is_restart : Bool)
  | disconnect (reason : Disconnect)
  | on_close_done

/-- The client after an event; none if the event cannot happen. -/
def step {R : Type} (parse : List Char → Option (Message R)) (c : ZSshClient R) :
    Event → Option (ZSshClient R)
  | .request stdin_writable streams => some (c.request stdin_writable streams)
  | .line line => some (c.on_line parse line)
  | .timeout id => if c.timers id = .armed then some (c.on_timeout id) else none
  | .keep_alive id => if id ∈ c.open_streams then some (c.refresh id) else none
  | .stream_end id ok => (c.awaiting.find? (·.id = id)).map (c.on_stream_end · ok)
  | .collect_all_requests silence => some (c.collect_all_requests silence)
  | .dispose is_restart => some (c.dispose is_restart)
  | .disconnect reason => some (c.handle_disconnect reason)
  | .on_close_done => c.reject_due.map c.reject_pending_requests

end Zowex.sdk

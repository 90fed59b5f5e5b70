import Mathlib.Data.Finset.Basic
import Zowex.Spec.RpcServer

/-! The requests that `RpcServer` has answered with a timeout error. Timeouts, requests and
responses come one after the other, each of them as a whole. -/

namespace Zowex.server

open zjson

def RpcErrorCode.REQUEST_TIMEOUT : ℤ := -32001

/-- The static members of `RpcServer`, and the responses written to the streams. -/
structure RpcServer where
  abandoned_ids : Finset ℤ := ∅
  abandoned_order : List ℤ := []
  printed : List RpcResponse := []

def kMaxAbandonedIds : ℕ := 64

namespace RpcServer

variable (sys : Platform) (server : RpcServer)

def is_abandoned (request_id : ℤ) : Bool :=
  if request_id < 0 then false else request_id ∈ server.abandoned_ids

def clear_abandoned (request_id : ℤ) : RpcServer :=
  if request_id < 0 then server
  else if request_id ∉ server.abandoned_ids then server
  else
    { server with
      abandoned_ids := server.abandoned_ids.erase request_id
      abandoned_order := server.abandoned_order.erase request_id }

def print_response (response : RpcResponse) : RpcServer :=
  if response.id.any server.is_abandoned then server
  else { server with printed := server.printed ++ [response] }

/-- `while (abandoned_order().size() > kMaxAbandonedIds)` -/
def drop_oldest (ids : Finset ℤ) : List ℤ → Finset ℤ × List ℤ
  | [] => (ids, [])
  | front :: order =>
    if (front :: order).length > kMaxAbandonedIds then drop_oldest (ids.erase front) order
    else (ids, front :: order)

/-- `static_cast<int>` of an integer. -/
def timed_out_id : Option Value → ℤ
  | none => -1
  | some (.integer i) => i.bmod (2 ^ 32)
  | some _ => -1

def timed_out_method : Option Value → Bytes
  | none => sys.cs.str "unknown"
  | some (.string method) => method
  | some _ => sys.cs.str "unknown"

/-- The ID and the method of the request, as far as it can be parsed. -/
def timed_out_request (request_data : Bytes) : ℤ × Bytes :=
  match sys.from_str request_data with
  | .error _ => (-1, sys.cs.str "unknown")
  | .ok json =>
    if !json.is_object then (-1, sys.cs.str "unknown")
    else
      (timed_out_id json.as_object[sys.cs.str "id"]?,
        timed_out_method sys json.as_object[sys.cs.str "method"]?)

def timeout_message (method : Bytes) (timeout_ms : ℤ) : Bytes :=
  sys.cs.str "Request timed out after " ++ decimal sys timeout_ms ++ sys.cs.str " ms (method: " ++
    method ++ sys.cs.str ")"

/-- The ID is marked when its timeout error has been printed. -/
def mark_abandoned (request_id : ℤ) : RpcServer :=
  if request_id ≥ 0 ∧ request_id ∉ server.abandoned_ids then
    let (abandoned_ids, abandoned_order) := drop_oldest (insert request_id server.abandoned_ids)
      (server.abandoned_order ++ [request_id])
    { server with abandoned_ids, abandoned_order }
  else server

def send_timeout_error (request_data : Bytes) (timeout_ms : ℤ) : RpcServer :=
  let (request_id, method) := timed_out_request sys request_data
  let server := server.print_response
    (print_error request_id RpcErrorCode.REQUEST_TIMEOUT
      (timeout_message sys method timeout_ms) none)
  server.mark_abandoned request_id

end RpcServer

/-- What happens on the server: a worker is given up, `process_request` has parsed a request,
a response is handed over. -/
inductive RpcEvent
  | timed_out (request_data : Bytes) (timeout_ms : ℤ)
  | received (request_id : ℤ)
  | responded (response : RpcResponse)

def RpcServer.step (sys : Platform) (server : RpcServer) : RpcEvent → RpcServer
  | .timed_out request_data timeout_ms => server.send_timeout_error sys request_data timeout_ms
  | .received request_id => server.clear_abandoned request_id
  | .responded response => server.print_response response

def RpcServer.run (sys : Platform) (events : List RpcEvent) : RpcServer :=
  events.foldl (RpcServer.step sys) {}

end Zowex.server

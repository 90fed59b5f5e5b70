import Zowex.Spec.Charset

/-! The SSH client and the channel of `ssh-rs`: what each event of the connection, and each call,
does to the fields and makes them emit. -/

namespace Zowex.sdk.ssh_rs

/-- What `connectAsync` waits for. -/
inductive Connecting
  | open_transport
  | handshake
  | authenticate
  | done
  deriving DecidableEq, Repr

/-- What `execAsync` waits for. -/
inductive Executing
  | open_session_channel
  | activate_channel
  | request_exec
  | done
  deriving DecidableEq, Repr

inductive Emitted
  | ready
  | close
  | error
  deriving DecidableEq, Repr

/-- A connection has the number of the call of `connect` that it is for. -/
structure Client where
  ssh_client : Option ℕ
  disconnect_sub : Option ℕ
  closed : Bool
  /-- The connections whose `disconnect$` has a subscriber. -/
  subscribed : List ℕ
  connects : List Connecting
  execs : List Executing
  /-- The channels that were handed to a callback. -/
  channels : ℕ
  emitted : List Emitted

namespace Client

def start : Client where
  ssh_client := none
  disconnect_sub := none
  closed := false
  subscribed := []
  connects := []
  execs := []
  channels := 0
  emitted := []

def emit (c : Client) (e : Emitted) : Client := { c with emitted := c.emitted ++ [e] }

def unsubscribe (c : Client) : Client :=
  { c with
    subscribed := c.subscribed.filter fun k => c.disconnect_sub ≠ some k
    disconnect_sub := none }

def cleanup (c : Client) : Client := { c.unsubscribe with ssh_client := none }

def emit_close (c : Client) : Client :=
  if c.closed then c else emit { c with closed := true } .close

/-- A call on a closed client throws. -/
def connect (c : Client) : Client :=
  if c.closed then c else { c with connects := c.connects ++ [.open_transport] }

def end_ (c : Client) : Client := c.cleanup.emit_close

/-- `connectAsync` rejects. -/
def fail (c : Client) (k : ℕ) : Client :=
  emit { c with connects := c.connects.set k .done } .error

/-- `connectAsync` goes on, with what it waited for or with an error. -/
def connect_async (c : Client) (k : ℕ) (ok : Bool) : Option Client :=
  match c.connects[k]?, ok with
  | some .open_transport, true => some { c with connects := c.connects.set k .handshake }
  | some .handshake, true =>
    some { c with
      connects := c.connects.set k .authenticate
      subscribed := c.subscribed ++ [k]
      disconnect_sub := some k }
  | some .authenticate, true =>
    some (emit { c with connects := c.connects.set k .done, ssh_client := some k } .ready)
  | some .open_transport, false => some (c.fail k)
  | some .handshake, false => some (c.fail k)
  -- where nothing is subscribed any more, the call on `null` is the error
  | some .authenticate, false => some (c.unsubscribe.fail k)
  | _, _ => none

/-- The server has disconnected the connection. -/
def disconnected (c : Client) (k : ℕ) : Client :=
  if c.subscribed.contains k then c.cleanup.emit_close else c

/-- Without a connection, the callback gets an error at once. -/
def exec (c : Client) : Client :=
  if c.ssh_client = none then c else { c with execs := c.execs ++ [.open_session_channel] }

/-- `execAsync` goes on, with what it waited for or with an error. -/
def exec_async (c : Client) (k : ℕ) (ok : Bool) : Option Client :=
  match c.execs[k]? with
  | some .open_session_channel =>
    if ok && c.ssh_client ≠ none then some { c with execs := c.execs.set k .activate_channel }
    else some { c with execs := c.execs.set k .done }
  | some .activate_channel =>
    some { c with execs := c.execs.set k (if ok then .request_exec else .done) }
  | some .request_exec =>
    some { c with
      execs := c.execs.set k .done
      channels := if ok then c.channels + 1 else c.channels }
  | _ => none

inductive Event
  | connect
  | connect_async (k : ℕ) (ok : Bool)
  | disconnected (k : ℕ)
  | end_
  | exec
  | exec_async (k : ℕ) (ok : Bool)
  deriving DecidableEq, Repr

def step (c : Client) : Event → Option Client
  | .connect => some c.connect
  | .connect_async k ok => c.connect_async k ok
  | .disconnected k => some (c.disconnected k)
  | .end_ => some c.end_
  | .exec => some c.exec
  | .exec_async k ok => c.exec_async k ok

/-- A connection is authenticated only while the client is open and has none. -/
def in_time (c : Client) : Event → Prop
  | .connect_async k true =>
    c.connects[k]? = some .authenticate → c.closed = false ∧ c.ssh_client = none
  | _ => True

end Client

/-! The channel. -/

inductive ChannelEvent
  | data (bytes : Bytes)
  | extended_data (type : ℕ) (bytes : Bytes)
  | data_complete
  | extended_data_complete
  | data_error
  | extended_data_error
  | eof
  | closed
  /-- A call of `close`. -/
  | close
  deriving DecidableEq, Repr

inductive Delivered
  | stdout (bytes : Bytes)
  | stderr (bytes : Bytes)
  | close
  deriving DecidableEq, Repr

structure ClientChannel where
  ended : Bool
  /-- A stream that was destroyed, or ended by the clean-up. -/
  stdout_done : Bool
  stderr_done : Bool
  delivered : List Delivered

namespace ClientChannel

def start : ClientChannel where
  ended := false
  stdout_done := false
  stderr_done := false
  delivered := []

/-- All subscriptions end. -/
def cleanup (c : ClientChannel) : ClientChannel :=
  if c.ended then c else { c with ended := true, stdout_done := true, stderr_done := true }

def deliver (c : ClientChannel) (d : Delivered) : ClientChannel :=
  { c with delivered := c.delivered ++ [d] }

/-- After the clean-up nothing is subscribed, so that no event arrives. -/
def on (c : ClientChannel) (e : ChannelEvent) : ClientChannel :=
  if c.ended then c
  else
    match e with
    | .data bytes => if c.stdout_done then c else c.deliver (.stdout bytes)
    | .extended_data type bytes =>
      if type = 1 && !c.stderr_done then c.deliver (.stderr bytes) else c
    | .data_complete => c.cleanup
    | .extended_data_complete => c.cleanup
    | .data_error => { c with stdout_done := true }
    | .extended_data_error => { c with stderr_done := true }
    | .eof => c.cleanup
    | .closed => c.cleanup.deliver .close
    | .close => c.cleanup

end ClientChannel

def stdout_bytes (events : List ChannelEvent) : Bytes :=
  events.flatMap fun e => match e with
    | .data bytes => bytes
    | _ => []

def stderr_bytes (events : List ChannelEvent) : Bytes :=
  events.flatMap fun e => match e with
    | .extended_data 1 bytes => bytes
    | _ => []

def stdout_pushed (delivered : List Delivered) : Bytes :=
  delivered.flatMap fun d => match d with
    | .stdout bytes => bytes
    | _ => []

def stderr_pushed (delivered : List Delivered) : Bytes :=
  delivered.flatMap fun d => match d with
    | .stderr bytes => bytes
    | _ => []

/-- What is expected of a channel after some events. -/
structure Faithful (events : List ChannelEvent) (delivered : List Delivered) : Prop where
  stdout : stdout_pushed delivered = stdout_bytes events
  stderr : stderr_pushed delivered = stderr_bytes events
  close : .closed ∈ events → ∃ before, delivered = before ++ [.close] ∧ .close ∉ before

/-- The events that a clean-up follows. -/
def cleans_up : ChannelEvent → Bool
  | .data_complete => true
  | .extended_data_complete => true
  | .eof => true
  | .closed => true
  | .close => true
  | _ => false

/-- After these events nothing is pushed to `stdout`. -/
def ends_stdout (e : ChannelEvent) : Bool := cleans_up e || e = .data_error

def ends_stderr (e : ChannelEvent) : Bool := cleans_up e || e = .extended_data_error

/-- No byte arrives after its stream has ended, and the first clean-up is the one that the close of
the remote side asks for, if it closes. -/
structure Uninterrupted (events : List ChannelEvent) : Prop where
  stdout : stdout_bytes (events.dropWhile fun e => !ends_stdout e) = []
  stderr : stderr_bytes (events.dropWhile fun e => !ends_stderr e) = []
  close : .closed ∈ events → events.find? cleans_up = some .closed

end Zowex.sdk.ssh_rs

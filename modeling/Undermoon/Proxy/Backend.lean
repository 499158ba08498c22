import Undermoon.Lib.Machine

/-!
# The pipeline of one backend connection

`handle_conn` (`proxy/backend.rs`) keeps two deques per connection: `tasks`,
every task received and not yet answered, and `packets`, the packets of
those not yet written. A task that arrives, from the channel or carried over
as a retry task when the connection starts, is pushed on both; the write loop
pops the front packet, writes it and looks up the task it belongs to at index
`tasks.len() - (packets.len() + 1)`; the read loop pops the front task for
each reply. On a write, read or timeout error the tasks left are drained, in
order, to `handle_conn_err`.

The two deques are `ConnQueues` and the three loop bodies its functions, each
returning `InvalidState` where the code does. `Pipeline` is one connection
with the backend at its other end and a record of what the code has handed
out; the backend answers, in order, only packets it has been sent. Tasks,
packets and replies are of any type, and `get_packet` is a function.
Batching, flushing and the time of the timeout tick decide when a step
happens, not what it does, and are left out.
-/

namespace Undermoon

/-- `BackendError`; the IO errors are one constructor. -/
inductive BackendError where
  | io
  | nodeNotFound
  | invalidProtocol
  | invalidAddress
  | canceled
  | invalidState
  | timeout
deriving DecidableEq, Repr

/-- `MAX_BACKEND_RETRY`. -/
def maxBackendRetry : Nat := 3

/-- `RetryState`: the tasks a new connection starts with. -/
structure RetryState (T : Type) where
  retryTimes : Nat
  tasks : List T
deriving DecidableEq, Repr

/-- `handle_conn_err`: past the retry limit every task gets the error and
nothing is retried; otherwise all of them are, once more. -/
def handleConnErr {T : Type} (retryTimesOpt : Option Nat) (tasks : List T) : Option (RetryState T) :=
  let retryTimes := retryTimesOpt.getD 0
  if retryTimes ≥ maxBackendRetry then none else some ⟨retryTimes + 1, tasks⟩

/-- The two deques of `handle_conn`. -/
structure ConnQueues (T P : Type) where
  tasks : List T
  packets : List P
deriving DecidableEq, Repr

namespace ConnQueues

variable {T P : Type}

/-- A task received: its packet and the task, each at the back. -/
def push (getPacket : T → P) (q : ConnQueues T P) (t : T) : ConnQueues T P :=
  ⟨q.tasks ++ [t], q.packets ++ [getPacket t]⟩

/-- `usize::checked_sub`. -/
def checkedSub (a b : Nat) : Option Nat := if b ≤ a then some (a - b) else none

/-- One round of the write loop once the writer is ready: `none` when no
packet waits (the flush branch); otherwise the packet written and the task
looked up for it, or `InvalidState` when the index is out of range. -/
def send (q : ConnQueues T P) : Option (Except BackendError (ConnQueues T P × P × T)) :=
  match q.packets with
  | [] => none
  | packet :: packets =>
      match (checkedSub q.tasks.length (packets.length + 1)).bind fun index => q.tasks[index]? with
      | some task => some (.ok (⟨q.tasks, packets⟩, packet, task))
      | none => some (.error .invalidState)

/-- One round of the read loop on a reply: the task it is handed to, or
`InvalidState` when no task waits. -/
def receive (q : ConnQueues T P) : Except BackendError (ConnQueues T P × T) :=
  match q.tasks with
  | [] => .error .invalidState
  | task :: tasks => .ok (⟨tasks, q.packets⟩, task)

end ConnQueues

/-- One connection, the backend's side of it, and what the code has handed
out so far. -/
structure Pipeline (T P R : Type) where
  queues : ConnQueues T P
  /-- Every task received, in order. -/
  arrived : List T
  /-- Each packet written, with the task looked up for it. -/
  sent : List (P × T)
  /-- Each reply, with the task it was handed to. -/
  handed : List (T × R)
  /-- The tasks drained to `handle_conn_err` when the connection failed. -/
  failed : Option (List T)
  /-- What `handle_conn_err` gave back for the next connection. -/
  retry : Option (RetryState T)

/-- What can happen next on a connection. -/
inductive PipelineOp (T R : Type) where
  /-- A task arrives, from the channel or as a retry task. -/
  | arrive (t : T)
  /-- The writer is ready and a packet is written. -/
  | send
  /-- The backend answers the oldest packet it has not answered. -/
  | reply (r : R)
  /-- A write, read or timeout error; the timeout passes `Some(MAX_BACKEND_RETRY)`. -/
  | fail (retryTimesOpt : Option Nat)

namespace Pipeline

variable {T P R : Type}

/-- A new connection: both deques empty. -/
def init : Pipeline T P R := ⟨⟨[], []⟩, [], [], [], none, none⟩

/-- One step; `none` when it cannot happen: after the connection failed, a
write with nothing to write, a reply the backend owes nobody, or an
`InvalidState`, which ends the connection. -/
def step (getPacket : T → P) (op : PipelineOp T R) (s : Pipeline T P R) : Option (Pipeline T P R) :=
  if s.failed.isSome then none
  else
    match op with
    | .arrive t => some { s with queues := s.queues.push getPacket t, arrived := s.arrived ++ [t] }
    | .send =>
        match s.queues.send with
        | some (.ok (q, packet, task)) => some { s with queues := q, sent := s.sent ++ [(packet, task)] }
        | _ => none
    | .reply r =>
        if s.handed.length < s.sent.length then
          match s.queues.receive with
          | .ok (q, task) => some { s with queues := q, handed := s.handed ++ [(task, r)] }
          | .error _ => none
        else none
    | .fail retryTimesOpt =>
        some { s with
          queues := { s.queues with tasks := [] }
          failed := some s.queues.tasks
          retry := handleConnErr retryTimesOpt s.queues.tasks }

/-- The states of a connection. -/
def Reachable (getPacket : T → P) : Pipeline T P R → Prop := Machine.Reachable (step getPacket) init

end Pipeline

end Undermoon

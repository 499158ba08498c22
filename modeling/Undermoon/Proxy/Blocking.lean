import Undermoon.Lib.Machine

/-!
# The blocking queue of one backend

`TaskBlockingQueue` (`proxy/blocking.rs`) holds back commands while a
migration blocks their backend. Its state is one `BiAtomicU32`, the
blocking count and the term, and an unbounded channel; what acts on it runs
in any number of threads at once:

* `BlockingHandle::new` and its `drop` change count and term in one
  `compare_and_apply`, and the drop of the last handle runs `release_all`;
* `stop_blocking` runs `release_all`;
* `TaskBlockingQueue::send` loads the state; when it is not blocking the
  command's hint decides between forwarding it and `Retry`, and when it is
  the command is pushed on the channel, the state is loaded again and
  `release_all` runs if the blocking has ended;
* `release_all` takes commands off the channel one `try_recv` at a time and
  passes each to `blocking_task_sender` until the channel is empty.

Each atomic step of these is one `BlockingOp`. A call of `send` in progress
is its `SendPc`, a `release_all` in progress is the command it holds, if any,
and the state keeps both as lists, one entry per thread. The histories
`pushed`, `released`, `forwarded` and `retried` record where each command
went. The channel is never disconnected while the queue exists, since the
queue holds its receiver, so the push always succeeds; `running_cmd` only
serves `blocking_done` and is left out, as are the errors logged.
-/

namespace Undermoon

/-- `BlockingHint`. -/
inductive BlockingHint where
  | notBlocking
  | notBlockingInMigration (term : Nat)
  | blocking
deriving DecidableEq, Repr

/-- The hint's verdict in the branch of `send` that found no blocking: a
command routed during a migration of a later term must be retried. -/
def BlockingHint.blocks (term : Nat) : BlockingHint → Bool
  | .notBlocking => false
  | .notBlockingInMigration cmdTerm => !decide (term ≤ cmdTerm)
  | .blocking => true

/-- Where a call of `TaskBlockingQueue::send` is. -/
inductive SendPc (T : Type) where
  /-- About to load the blocking state. -/
  | load (t : T) (hint : BlockingHint)
  /-- Found blocking; about to push the command on the channel. -/
  | push (t : T)
  /-- Pushed; about to load the state again. -/
  | recheck
deriving DecidableEq, Repr

/-- One `TaskBlockingQueue` and every thread acting on it. -/
structure BlockingQueue (T : Type) where
  blockingCount : Nat
  term : Nat
  /-- The `BlockingHandle`s alive. -/
  handles : Nat
  /-- The channel, oldest first. -/
  queue : List T
  /-- The calls of `send` in progress. -/
  sends : List (SendPc T)
  /-- The `release_all` loops in progress and the command each holds. -/
  releases : List (Option T)
  /-- Every command pushed on the channel. -/
  pushed : List T
  /-- Every command passed to `blocking_task_sender`. -/
  released : List T
  /-- Every command passed to `inner_sender`. -/
  forwarded : List T
  /-- Every command sent back as `Retry`. -/
  retried : List T
deriving DecidableEq, Repr

/-- What can happen next. -/
inductive BlockingOp (T : Type) where
  /-- A call of `send` begins. -/
  | callSend (t : T) (hint : BlockingHint)
  /-- The next step of call `i` of `send`. -/
  | send (i : Nat)
  /-- `start_blocking`: a handle is made. -/
  | startBlocking
  /-- A handle is dropped. -/
  | dropHandle
  /-- `stop_blocking`. -/
  | stopBlocking
  /-- The next step of `release_all` loop `i`. -/
  | release (i : Nat)
deriving DecidableEq, Repr

namespace BlockingQueue

variable {T : Type}

/-- `TaskBlockingQueue::new`. -/
def new : BlockingQueue T := ⟨0, 0, 0, [], [], [], [], [], [], []⟩

/-- `get_blocking_state().blocking`. -/
def blocking (s : BlockingQueue T) : Bool := decide (0 < s.blockingCount)

/-- A `release_all` begins. -/
def startRelease (s : BlockingQueue T) : BlockingQueue T :=
  { s with releases := s.releases ++ [none] }

/-- The next step of call `i` of `send`. -/
def sendStep (i : Nat) (s : BlockingQueue T) : Option (BlockingQueue T) :=
  match s.sends[i]? with
  | none => none
  | some (.load t hint) =>
      if s.blocking then some { s with sends := s.sends.set i (.push t) }
      else if hint.blocks s.term then
        some { s with sends := s.sends.eraseIdx i, retried := s.retried ++ [t] }
      else some { s with sends := s.sends.eraseIdx i, forwarded := s.forwarded ++ [t] }
  | some (.push t) =>
      some { s with
        sends := s.sends.set i .recheck
        queue := s.queue ++ [t]
        pushed := s.pushed ++ [t] }
  | some .recheck =>
      -- the call ends here, running `release_all` first if the blocking has ended
      let s' := { s with sends := s.sends.eraseIdx i }
      some (if s.blocking then s' else s'.startRelease)

/-- The next step of `release_all` loop `i`: a `try_recv`, which ends the
loop on an empty channel, or the hand-over of the command it took. -/
def releaseStep (i : Nat) (s : BlockingQueue T) : Option (BlockingQueue T) :=
  match s.releases[i]? with
  | none => none
  | some none =>
      match s.queue with
      | [] => some { s with releases := s.releases.eraseIdx i }
      | t :: queue => some { s with releases := s.releases.set i (some t), queue := queue }
  | some (some t) =>
      some { s with releases := s.releases.set i none, released := s.released ++ [t] }

/-- One atomic step; `none` when it cannot happen: no such thread, or no
handle to drop. -/
def step (op : BlockingOp T) (s : BlockingQueue T) : Option (BlockingQueue T) :=
  match op with
  | .callSend t hint => some { s with sends := s.sends ++ [.load t hint] }
  | .send i => s.sendStep i
  | .startBlocking =>
      some { s with blockingCount := s.blockingCount + 1, term := s.term + 1, handles := s.handles + 1 }
  | .dropHandle =>
      if s.handles = 0 then none
      else
        let s' := { s with
          blockingCount := s.blockingCount - 1
          term := s.term + 1
          handles := s.handles - 1 }
        -- `prev_blocking_count == 1`: the last handle releases the queue
        some (if s.blockingCount = 1 then s'.startRelease else s')
  | .stopBlocking => some s.startRelease
  | .release i => s.releaseStep i

/-- The states of a queue. -/
def Reachable : BlockingQueue T → Prop := Machine.Reachable step new

end BlockingQueue

end Undermoon

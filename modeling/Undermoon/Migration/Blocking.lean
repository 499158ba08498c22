import Undermoon.Migration.Switch
import Undermoon.Proxy.Blocking

/-!
# Blocking on the source of a migration

While a `RedisScanMigratingTask` switches its range over, commands for the
range must not reach the source node: they are held in the
`TaskBlockingQueue` of the source backend and sent again once the switch is
done. Four shared objects carry this, each an atomic of its own: the task's
`MigrationState`, the packed `(blocking count, term)` of the queue, its
`running_cmd` counter, and its channel. What acts on them:

* the task (`run_migration`): `handle_pre_check` sets `PreBlocking`;
  `pre_block` makes a `BlockingHandle` (count + 1, term + 1), polls
  `blocking_done` until `running_cmd` is zero and sets `PreSwitch`;
  `handle_pre_switch` sets `Scanning`; `stop` drops the handle (count - 1,
  term + 1, `release_all` when the count was one). These three run as the
  `blocking` future, which `select!` races against `blocking_timeout`: when
  the timeout comes first the future is dropped, and the handle with it if
  `pre_block` had made one, while the state stays where it was;
* every command for the range, through `send_cmd_ctx`:
  `RedisScanMigratingTask::send` loads the state, then `(blocking, term)`,
  and either redirects the command (from `Scanning` on) or answers
  `SlotNotFound` with a `BlockingHint`, on which `TaskBlockingQueue::send`
  takes the counter (`RefAutoCounter`), loads `(blocking, term)` again and
  hands a `CounterTask` to the backend, sends `Retry`, or pushes the command
  on the channel and loads the state once more;
* the backend's reply, which drops the `CounterTask` and its count;
* `release_all`, which hands each command on the channel to
  `BlockingTaskRetrySender`, that is to a new `send_cmd_ctx`.

Each atomic step is one `SourceOp`; a command in progress is its `CmdPc`.
`Retry` and a released command start the route again, as
`loop_send_cmd_ctx` does. The timeout of the whole migration
(`max_migration_time`), the scan and the final switch are left out.
`toSource` records each command handed to the source node with the task's
state at that moment.
-/

namespace Undermoon

/-- Where a command is on its way through `send_cmd_ctx`. -/
inductive CmdPc (T : Type) where
  /-- `RedisScanMigratingTask::send`, about to load the migration state. -/
  | route (t : T)
  /-- Loaded state `state`; about to load `(blocking, term)`. -/
  | hint (t : T) (state : MigrationState)
  /-- `SlotNotFound` with `hint`: `TaskBlockingQueue::send`, about to take
  the counter. -/
  | enqueue (t : T) (hint : BlockingHint)
  /-- Holding the counter; about to load `(blocking, term)`. -/
  | check (t : T) (hint : BlockingHint)
  /-- Found blocking and dropped the counter; about to push. -/
  | push (t : T)
  /-- Pushed; about to load the blocking state again. -/
  | recheck
deriving DecidableEq, Repr

/-- The source proxy's side of one migration: the task, the queue of its
source backend, and every command for the range. -/
structure MigratingSource (T : Type) where
  state : MigrationState
  /-- The task's `BlockingHandle` is alive. -/
  handle : Bool
  /-- `blocking_timeout` fired: the `blocking` future is gone. -/
  timedOut : Bool
  blockingCount : Nat
  term : Nat
  runningCmd : Nat
  queue : List T
  /-- The commands in progress. -/
  cmds : List (CmdPc T)
  /-- The `release_all` loops in progress and the command each holds. -/
  releases : List (Option T)
  /-- The `CounterTask`s the source node has not answered. -/
  inFlight : List T
  /-- Every command handed to the source node, with the task's state then. -/
  toSource : List (T × MigrationState)
  /-- Every command redirected to the destination. -/
  redirected : List T
deriving DecidableEq, Repr

/-- What can happen next. -/
inductive SourceOp (T : Type) where
  /-- A command for the range enters `send_cmd_ctx`. -/
  | command (t : T)
  /-- The next step of command `i`. -/
  | step (i : Nat)
  /-- The source node answers the `i`-th command in flight. -/
  | reply (i : Nat)
  /-- The destination accepts `PRECHECK`. -/
  | ackPreCheck
  /-- `pre_block` makes the handle. -/
  | startBlocking
  /-- `blocking_done` holds at a poll. -/
  | blockingDone
  /-- The destination accepts `PRESWITCH`. -/
  | ackPreSwitch
  /-- `stop` drops the handle. -/
  | stop
  /-- `blocking_timeout` fires while `blocking` is not done. -/
  | blockingTimeout
  /-- The next step of `release_all` loop `i`. -/
  | release (i : Nat)
deriving DecidableEq, Repr

/-- A step of the task itself. -/
def SourceOp.isTask {T : Type} : SourceOp T → Bool
  | .ackPreCheck | .startBlocking | .blockingDone | .ackPreSwitch | .stop | .blockingTimeout => true
  | _ => false

namespace MigratingSource

variable {T : Type}

/-- A new task in `PreCheck` over a queue without blocking. -/
def new : MigratingSource T := ⟨.preCheck, false, false, 0, 0, 0, [], [], [], [], [], []⟩

/-- `get_blocking_state().blocking`. -/
def blocking (s : MigratingSource T) : Bool := decide (0 < s.blockingCount)

/-- The hint `RedisScanMigratingTask::send` builds from the state it loaded
and the `(blocking, term)` it loads now; `none` from `Scanning` on, where it
redirects instead. -/
def routeHint (state : MigrationState) (blocking : Bool) (term : Nat) : Option BlockingHint :=
  match state with
  | .preCheck => some (.notBlockingInMigration term)
  | .preBlocking | .preSwitch => some (if blocking then .blocking else .notBlockingInMigration term)
  | _ => none

/-- A `release_all` begins. -/
def startRelease (s : MigratingSource T) : MigratingSource T :=
  { s with releases := s.releases ++ [none] }

/-- `Drop for BlockingHandle`. -/
def dropHandle (s : MigratingSource T) : MigratingSource T :=
  let s' := { s with
    handle := false
    blockingCount := s.blockingCount - 1
    term := s.term + 1 }
  -- `prev_blocking_count == 1`: the last handle releases the queue
  if s.blockingCount = 1 then s'.startRelease else s'

theorem dropHandle_cases (s : MigratingSource T) :
    s.dropHandle = { s with handle := false, blockingCount := s.blockingCount - 1, term := s.term + 1 } ∨
      s.dropHandle =
        startRelease { s with handle := false, blockingCount := s.blockingCount - 1, term := s.term + 1 } := by
  unfold dropHandle
  split
  · exact .inr rfl
  · exact .inl rfl

/-- Dropping the handle is a move of the task alone: the commands, what was
sent and the timeout flag are as they were. -/
theorem dropHandle_frame (s : MigratingSource T) :
    s.dropHandle.timedOut = s.timedOut ∧ s.dropHandle.cmds = s.cmds ∧
      s.dropHandle.inFlight = s.inFlight ∧ s.dropHandle.toSource = s.toSource := by
  unfold dropHandle startRelease
  split <;> exact ⟨rfl, rfl, rfl, rfl⟩

/-- The next step of command `i`. -/
def cmdStep (i : Nat) (s : MigratingSource T) : Option (MigratingSource T) :=
  match s.cmds[i]? with
  | none => none
  | some (.route t) => some { s with cmds := s.cmds.set i (.hint t s.state) }
  | some (.hint t state) =>
      match routeHint state s.blocking s.term with
      | some hint => some { s with cmds := s.cmds.set i (.enqueue t hint) }
      | none => some { s with cmds := s.cmds.eraseIdx i, redirected := s.redirected ++ [t] }
  | some (.enqueue t hint) =>
      some { s with cmds := s.cmds.set i (.check t hint), runningCmd := s.runningCmd + 1 }
  | some (.check t hint) =>
      if s.blocking then
        some { s with cmds := s.cmds.set i (.push t), runningCmd := s.runningCmd - 1 }
      else if hint.blocks s.term then
        -- `Retry`: `loop_send_cmd_ctx` routes the command again
        some { s with cmds := s.cmds.set i (.route t), runningCmd := s.runningCmd - 1 }
      else
        -- the `CounterTask` takes the count over from the `RefAutoCounter`
        some { s with
          cmds := s.cmds.eraseIdx i
          inFlight := s.inFlight ++ [t]
          toSource := s.toSource ++ [(t, s.state)] }
  | some (.push t) =>
      some { s with cmds := s.cmds.set i .recheck, queue := s.queue ++ [t] }
  | some .recheck =>
      let s' := { s with cmds := s.cmds.eraseIdx i }
      some (if s.blocking then s' else s'.startRelease)

/-- The next step of `release_all` loop `i`: a `try_recv`, which ends the
loop on an empty channel, or the hand-over of the command it took to a new
`send_cmd_ctx`. -/
def releaseStep (i : Nat) (s : MigratingSource T) : Option (MigratingSource T) :=
  match s.releases[i]? with
  | none => none
  | some none =>
      match s.queue with
      | [] => some { s with releases := s.releases.eraseIdx i }
      | t :: queue => some { s with releases := s.releases.set i (some t), queue := queue }
  | some (some t) =>
      some { s with releases := s.releases.set i none, cmds := s.cmds ++ [.route t] }

/-- One atomic step; `none` when it cannot happen. -/
def step (op : SourceOp T) (s : MigratingSource T) : Option (MigratingSource T) :=
  match op with
  | .command t => some { s with cmds := s.cmds ++ [.route t] }
  | .step i => s.cmdStep i
  | .reply i =>
      if i < s.inFlight.length then
        some { s with inFlight := s.inFlight.eraseIdx i, runningCmd := s.runningCmd - 1 }
      else none
  | .ackPreCheck =>
      if s.state = .preCheck then some { s with state := .preBlocking } else none
  | .startBlocking =>
      if s.state = .preBlocking ∧ s.handle = false ∧ s.timedOut = false then
        some { s with
          handle := true
          blockingCount := s.blockingCount + 1
          term := s.term + 1 }
      else none
  | .blockingDone =>
      if s.state = .preBlocking ∧ s.handle = true ∧ s.runningCmd = 0 ∧ s.timedOut = false then
        some { s with state := .preSwitch }
      else none
  | .ackPreSwitch =>
      if s.state = .preSwitch ∧ s.timedOut = false then some { s with state := .scanning } else none
  | .stop =>
      if s.state = .scanning ∧ s.handle = true ∧ s.timedOut = false then some s.dropHandle else none
  | .blockingTimeout =>
      -- `blocking` runs from `PreBlocking` until `stop`; the state is left as it is
      if s.timedOut = false ∧
          (s.state = .preBlocking ∨ s.state = .preSwitch ∨ (s.state = .scanning ∧ s.handle = true)) then
        let s' := { s with timedOut := true }
        some (if s.handle then s'.dropHandle else s')
      else none
  | .release i => s.releaseStep i

/-- The states of the source side. -/
def Reachable : MigratingSource T → Prop := Machine.Reachable step new

/-- The task steps only while no command is between loading the migration
state and acting on what it loaded: each command's route is atomic with
respect to the task. -/
def serialStep (op : SourceOp T) (s : MigratingSource T) : Option (MigratingSource T) :=
  if op.isTask && !s.cmds.isEmpty then none else step op s

/-- The states of the source side when routes do not interleave with the
task. -/
def SerialReachable : MigratingSource T → Prop := Machine.Reachable serialStep new

end MigratingSource

end Undermoon

import Undermoon.Lib.Machine

/-!
# The switch handshake of one migration

`migration/scan_task.rs` moves a range of slots from a source proxy, which
runs a `RedisScanMigratingTask`, to a destination proxy, which runs a
`RedisScanImportingTask`. The source walks its `MigrationState` forward and,
at three of its phases, keeps sending one switch request (`UMCTL PRECHECK`,
`PRESWITCH`, `FINALSWITCH`) to the destination until a reply is not an error
(`keep_connecting_and_sending_cmd`); the destination sets its own state to
whatever the request it handles names (`handle_switch`).

The two tasks and the messages between them are one machine. A request that
is sent stays in flight until the destination handles it, and a resend after
an error or a timeout is a new request on a new client, so an earlier copy
can still arrive, later and in any order. The destination's epoch check
(`NOT_READY_FOR_SWITCHING`) is the `accepted` flag of a delivery; an error
reply changes no state. Blocking and the migration timeouts are left out.
-/

namespace Undermoon

/-- `MigrationState`. -/
inductive MigrationState where
  | preCheck
  | preBlocking
  | preSwitch
  | scanning
  | finalSwitch
  | switchCommitted
deriving DecidableEq, Repr

/-- `MgrSubCmd`: the switch requests. -/
inductive MgrSubCmd where
  | preCheck
  | preSwitch
  | finalSwitch
deriving DecidableEq, Repr

namespace MigrationState

/-- The request the source keeps sending in a phase (`pre_check`,
`pre_switch`, `final_switch`). -/
def request : MigrationState → Option MgrSubCmd
  | preCheck => some .preCheck
  | preSwitch => some .preSwitch
  | finalSwitch => some .finalSwitch
  | _ => none

/-- Where an OK to that request takes the source (`handle_pre_check`,
`handle_pre_switch`, `handle_final_switch`). -/
def acknowledged : MigrationState → MigrationState
  | preCheck => preBlocking
  | preSwitch => scanning
  | finalSwitch => switchCommitted
  | s => s

/-- `RedisScanMigratingTask::send`: from `Scanning` on, commands for the
range are redirected to the destination. -/
def migratingRedirects : MigrationState → Bool
  | preCheck | preBlocking | preSwitch => false
  | _ => true

/-- `RedisScanImportingTask::send`: in `PreCheck`, commands for the range are
redirected back to the source. -/
def importingRedirects (s : MigrationState) : Bool := s == preCheck

end MigrationState

/-- `RedisScanImportingTask::handle_switch`: the state a request sets. -/
def MgrSubCmd.target : MgrSubCmd → MigrationState
  | preCheck => .preCheck
  | preSwitch => .preSwitch
  | finalSwitch => .switchCommitted

/-- Both tasks and the messages in flight between them. -/
structure SwitchState where
  src : MigrationState
  dst : MigrationState
  requests : List MgrSubCmd
  replies : List (MgrSubCmd × Bool)
deriving DecidableEq, Repr

/-- Both tasks start in `PreCheck` (`AtomicMigrationState::initial_state`),
with nothing sent. -/
def SwitchState.init : SwitchState := ⟨.preCheck, .preCheck, [], []⟩

/-- What can happen next. -/
inductive SwitchOp where
  /-- The source sends the request of its phase, again after an error. -/
  | send
  /-- The destination handles request `i`; `accepted` is its epoch check. -/
  | deliver (i : Nat) (accepted : Bool)
  /-- Reply `i` reaches the source. -/
  | reply (i : Nat)
  /-- `blocking_done()` holds: `pre_block` sets `PreSwitch`. -/
  | blockingDone
  /-- The scan finishes: `scan_migrate` sets `FinalSwitch`. -/
  | scanDone
deriving DecidableEq, Repr

namespace SwitchState

/-- One step; `none` when the step cannot happen in `s`. A reply to a
request of a phase the source has left goes to a client that is gone. -/
def step : SwitchOp → SwitchState → Option SwitchState
  | .send, s => s.src.request.map fun c => { s with requests := s.requests ++ [c] }
  | .deliver i accepted, s => s.requests[i]?.map fun c =>
      { s with
        dst := if accepted then c.target else s.dst
        requests := s.requests.eraseIdx i
        replies := s.replies ++ [(c, accepted)] }
  | .reply i, s => s.replies[i]?.map fun (c, ok) =>
      { s with
        src := if ok ∧ s.src.request = some c then s.src.acknowledged else s.src
        replies := s.replies.eraseIdx i }
  | .blockingDone, s => if s.src = .preBlocking then some { s with src := .preSwitch } else none
  | .scanDone, s => if s.src = .scanning then some { s with src := .finalSwitch } else none

/-- The states of the handshake. -/
def Reachable : SwitchState → Prop := Machine.Reachable step init

end SwitchState

end Undermoon

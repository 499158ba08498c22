import Undermoon.Migration.Blocking
import Undermoon.Lib.Writes

/-!
# A command that reaches the source after the switch

`RedisScanMigratingTask::send` loads the migration state and only then the
queue's `(blocking, term)`. A command that loads `PreCheck` and is then held
up while the task runs its whole blocking cycle (`PreBlocking`, the handle
made, `PreSwitch`, `Scanning`, the handle dropped) loads
`(false, 2)` afterwards: its hint is `NotBlockingInMigration(2)`, the queue
finds no blocking and term `2 ≤ 2`, and the command goes to the source node
while the task is `Scanning`. The term check
of `TaskBlockingQueue::send` cannot catch it: the term it compares with was
read after the blocking had already ended.

When no command is between its loads while the task steps
(`MigratingSource.serialStep`), the design holds as long as the blocking
does not time out: every command sent to the source is sent in `PreCheck`
or `PreBlocking`, and from `PreSwitch` on none is still unanswered.

In every interleaving without that timeout the counter does its part:
nothing is sent in `PreSwitch`, and while the handle lives past
`PreBlocking` no command is unanswered.
`Inv` carries both; `SerialInv` adds that what a command in progress loaded
is still current. Both hold until `blocking_timeout` fires, which the task
never undoes, so they are carried over runs by
`Machine.Reachable.invariant_until`. The timeout is a real exception: it
drops the handle in `PreSwitch`, and the released commands and every later
one go to the source in `PreSwitch` (`timeout_sends_in_preSwitch`).
-/

namespace Undermoon

/-- What a command in progress loaded still holds: the state it loaded is the
task's, and its hint is the one the task's state and blocking give now. -/
def CmdPc.Current {T : Type} (s : MigratingSource T) : CmdPc T → Prop
  | .hint _ state => state = s.state
  | .enqueue _ h | .check _ h => MigratingSource.routeHint s.state s.blocking s.term = some h
  | _ => True

/-- The command holds the `RefAutoCounter`. -/
def CmdPc.isCheck {T : Type} : CmdPc T → Bool
  | .check _ _ => true
  | _ => false

namespace MigratingSource

variable {T : Type} {s s' : MigratingSource T}

/-- The fields the task writes: its state, its handle, whether its blocking
timed out, and the queue's count and term. -/
def taskPart (s : MigratingSource T) : MigrationState × Bool × Bool × Nat × Nat :=
  (s.state, s.handle, s.timedOut, s.blockingCount, s.term)

/-- `running_cmd` counts the commands that hold the counter and those the
source has not answered. -/
def Counted (s : MigratingSource T) : Prop :=
  s.runningCmd = s.inFlight.length + s.cmds.countP CmdPc.isCheck

/-- What holds in every interleaving: the count is the handle's, the handle
lives from `pre_block` to `stop`, `running_cmd` counts, and from `PreSwitch`
until `stop` nothing is unanswered and nothing is sent. -/
structure Inv (s : MigratingSource T) : Prop where
  count : s.blockingCount = if s.handle then 1 else 0
  preCheck_handle : s.state = .preCheck → s.handle = false
  preSwitch_handle : s.state = .preSwitch → s.handle = true
  counted : s.Counted
  quiet_while_blocked : s.handle = true → s.state ≠ .preCheck → s.state ≠ .preBlocking →
    s.inFlight = []
  toSource_ne_preSwitch : ∀ p ∈ s.toSource, p.2 ≠ .preSwitch

/-- What holds when routes do not interleave with the task. -/
structure SerialInv (s : MigratingSource T) : Prop extends Inv s where
  current : ∀ pc ∈ s.cmds, pc.Current s
  toSource_before_switch : ∀ p ∈ s.toSource, p.2 = .preCheck ∨ p.2 = .preBlocking
  quiet : s.state ≠ .preCheck → s.state ≠ .preBlocking → s.inFlight = []

theorem serialInv_new : SerialInv (new : MigratingSource T) where
  count := rfl
  preCheck_handle _ := rfl
  preSwitch_handle h := by cases h
  counted := rfl
  quiet_while_blocked h := by cases h
  toSource_ne_preSwitch _ h := by cases h
  current _ h := by cases h
  toSource_before_switch _ h := by cases h
  quiet h := absurd rfl h

/-! ## What a command's step can do -/

/-- Every outcome of `cmdStep`, with what the command was at. -/
theorem cmdStep_cases {i : Nat} (h : s.cmdStep i = some s') :
    (∃ t, s.cmds[i]? = some (.route t) ∧
      s' = { s with cmds := s.cmds.set i (.hint t s.state) }) ∨
    (∃ t state hint, s.cmds[i]? = some (.hint t state) ∧
      routeHint state s.blocking s.term = some hint ∧
      s' = { s with cmds := s.cmds.set i (.enqueue t hint) }) ∨
    (∃ t state, s.cmds[i]? = some (.hint t state) ∧ routeHint state s.blocking s.term = none ∧
      s' = { s with cmds := s.cmds.eraseIdx i, redirected := s.redirected ++ [t] }) ∨
    (∃ t hint, s.cmds[i]? = some (.enqueue t hint) ∧
      s' = { s with cmds := s.cmds.set i (.check t hint), runningCmd := s.runningCmd + 1 }) ∨
    (∃ t hint pc, s.cmds[i]? = some (.check t hint) ∧ (pc = .push t ∨ pc = .route t) ∧
      s' = { s with cmds := s.cmds.set i pc, runningCmd := s.runningCmd - 1 }) ∨
    (∃ t hint, s.cmds[i]? = some (.check t hint) ∧ s.blocking = false ∧
      s' = { s with
        cmds := s.cmds.eraseIdx i
        inFlight := s.inFlight ++ [t]
        toSource := s.toSource ++ [(t, s.state)] }) ∨
    (∃ t, s.cmds[i]? = some (.push t) ∧
      s' = { s with cmds := s.cmds.set i .recheck, queue := s.queue ++ [t] }) ∨
    (s.cmds[i]? = some .recheck ∧
      (s' = { s with cmds := s.cmds.eraseIdx i } ∨
        s' = startRelease { s with cmds := s.cmds.eraseIdx i })) := by
  cases hpc : s.cmds[i]? with
  | none => simp [cmdStep, hpc] at h
  | some pc =>
    rw [cmdStep, hpc] at h
    cases pc with
    | route t =>
        simp only [Option.some.injEq] at h
        exact .inl ⟨t, rfl, h.symm⟩
    | hint t state =>
        cases hr : routeHint state s.blocking s.term with
        | some hint =>
            simp only [hr, Option.some.injEq] at h
            exact .inr <| .inl ⟨t, state, hint, rfl, hr, h.symm⟩
        | none =>
            simp only [hr, Option.some.injEq] at h
            exact .inr <| .inr <| .inl ⟨t, state, rfl, hr, h.symm⟩
    | enqueue t hint =>
        simp only [Option.some.injEq] at h
        exact .inr <| .inr <| .inr <| .inl ⟨t, hint, rfl, h.symm⟩
    | check t hint =>
        -- blocking pushes the command, a stale term retries it, and
        -- otherwise it is sent
        by_cases hb : s.blocking
        · simp only [hb, if_true, Option.some.injEq] at h
          exact .inr <| .inr <| .inr <| .inr <| .inl ⟨t, hint, .push t, rfl, .inl rfl, h.symm⟩
        · by_cases hbl : hint.blocks s.term
          · simp only [hb, hbl, if_true, if_false, Bool.false_eq_true, Option.some.injEq] at h
            exact .inr <| .inr <| .inr <| .inr <| .inl ⟨t, hint, .route t, rfl, .inr rfl, h.symm⟩
          · simp only [hb, hbl, if_false, Bool.false_eq_true, Option.some.injEq] at h
            exact .inr <| .inr <| .inr <| .inr <| .inr <| .inl
              ⟨t, hint, rfl, Bool.eq_false_iff.mpr hb, h.symm⟩
    | push t =>
        simp only [Option.some.injEq] at h
        exact .inr <| .inr <| .inr <| .inr <| .inr <| .inr <| .inl ⟨t, rfl, h.symm⟩
    | recheck =>
        refine .inr <| .inr <| .inr <| .inr <| .inr <| .inr <| .inr ⟨rfl, ?_⟩
        by_cases hb : s.blocking
        · simp only [hb, if_true, Option.some.injEq] at h
          exact .inl h.symm
        · simp only [hb, if_false, Bool.false_eq_true, Option.some.injEq] at h
          exact .inr h.symm


theorem taskPart_eq_iff :
    s'.taskPart = s.taskPart ↔ s'.state = s.state ∧ s'.handle = s.handle ∧
      s'.timedOut = s.timedOut ∧ s'.blockingCount = s.blockingCount ∧ s'.term = s.term := by
  simp [taskPart]

@[simp] theorem taskPart_startRelease (s : MigratingSource T) :
    s.startRelease.taskPart = s.taskPart := rfl

/-- Whether what a command loaded is current depends on the task's fields
only. -/
theorem current_iff_of_taskPart (h : s'.taskPart = s.taskPart) {pc : CmdPc T} :
    pc.Current s' ↔ pc.Current s := by
  obtain ⟨hst, -, -, hc, ht⟩ := taskPart_eq_iff.mp h
  cases pc <;> simp [CmdPc.Current, blocking, hst, hc, ht]

theorem cmdStep_taskPart {i : Nat} (h : s.cmdStep i = some s') : s'.taskPart = s.taskPart := by
  rcases cmdStep_cases h with ⟨_, _, rfl⟩ | ⟨_, _, _, _, _, rfl⟩ | ⟨_, _, _, _, rfl⟩ |
    ⟨_, _, _, rfl⟩ | ⟨_, _, _, _, _, rfl⟩ | ⟨_, _, _, _, rfl⟩ | ⟨_, _, rfl⟩ | ⟨_, rfl | rfl⟩ <;> rfl

/-- A command takes the counter on `enqueue`, gives it back on a push or a
retry, and hands it to the `CounterTask` when it is sent. -/
theorem cmdStep_counted {i : Nat} (h : s.cmdStep i = some s') (hc : s.Counted) : s'.Counted := by
  unfold Counted at hc ⊢
  rcases cmdStep_cases h with ⟨t, hpc, rfl⟩ | ⟨t, st, hint, hpc, -, rfl⟩ | ⟨t, st, hpc, -, rfl⟩ |
    ⟨t, hint, hpc, rfl⟩ | ⟨t, hint, pc, hpc, hpc', rfl⟩ | ⟨t, hint, hpc, -, rfl⟩ | ⟨t, hpc, rfl⟩ |
    ⟨hpc, rfl | rfl⟩
  · have := List.countP_set_add (p := CmdPc.isCheck) hpc (.hint t s.state)
    simp [CmdPc.isCheck] at this
    simp only; omega
  · have := List.countP_set_add (p := CmdPc.isCheck) hpc (.enqueue t hint)
    simp [CmdPc.isCheck] at this
    simp only; omega
  · have := List.countP_eraseIdx_add (p := CmdPc.isCheck) hpc
    simp [CmdPc.isCheck] at this
    simp only; omega
  · have := List.countP_set_add (p := CmdPc.isCheck) hpc (.check t hint)
    simp [CmdPc.isCheck] at this
    simp only; omega
  · have hnc : pc.isCheck = false := by rcases hpc' with rfl | rfl <;> rfl
    have := List.countP_set_add (p := CmdPc.isCheck) hpc pc
    rw [hnc] at this
    simp [CmdPc.isCheck] at this
    simp only; omega
  · have := List.countP_eraseIdx_add (p := CmdPc.isCheck) hpc
    simp [CmdPc.isCheck] at this
    simp only [List.length_append, List.length_singleton]; omega
  · have := List.countP_set_add (p := CmdPc.isCheck) hpc .recheck
    simp [CmdPc.isCheck] at this
    simp only; omega
  · have := List.countP_eraseIdx_add (p := CmdPc.isCheck) hpc
    simp [CmdPc.isCheck] at this
    simp only; omega
  · have := List.countP_eraseIdx_add (p := CmdPc.isCheck) hpc
    simp [CmdPc.isCheck] at this
    simp only [startRelease]; omega

/-- A command's step sends it to the source, and then only from the counter
and while not blocking, or sends nothing. -/
theorem cmdStep_sent {i : Nat} (h : s.cmdStep i = some s') :
    (s'.inFlight = s.inFlight ∧ s'.toSource = s.toSource) ∨
    ∃ t hint, s.cmds[i]? = some (.check t hint) ∧ s.blocking = false ∧
      s'.inFlight = s.inFlight ++ [t] ∧ s'.toSource = s.toSource ++ [(t, s.state)] := by
  rcases cmdStep_cases h with ⟨_, _, rfl⟩ | ⟨_, _, _, _, _, rfl⟩ | ⟨_, _, _, _, rfl⟩ |
    ⟨_, _, _, rfl⟩ | ⟨_, _, _, _, _, rfl⟩ | ⟨t, hint, hpc, hb, rfl⟩ | ⟨_, _, rfl⟩ | ⟨_, rfl | rfl⟩ <;>
    first
    | exact .inl ⟨rfl, rfl⟩
    | exact .inr ⟨t, hint, hpc, hb, rfl, rfl⟩

/-- A command's step writes at its position a command whose loads are
current, or takes it out. -/
theorem cmdStep_current {i : Nat} (h : s.cmdStep i = some s')
    (hc : ∀ pc ∈ s.cmds, pc.Current s) : ∀ pc ∈ s'.cmds, pc.Current s' := by
  have hcmds : (∃ pc, pc.Current s ∧ s'.cmds = s.cmds.set i pc) ∨ s'.cmds = s.cmds.eraseIdx i := by
    rcases cmdStep_cases h with ⟨t, -, rfl⟩ | ⟨t, st, hint, hpc, hr, rfl⟩ | ⟨_, _, _, _, rfl⟩ |
      ⟨t, hint, hpc, rfl⟩ | ⟨t, hint, pc, -, hpc', rfl⟩ | ⟨_, _, _, _, rfl⟩ | ⟨t, _, rfl⟩ |
      ⟨_, rfl | rfl⟩
    · exact .inl ⟨.hint t s.state, rfl, rfl⟩
    · -- the hint is built from the state the command loaded, which is the task's
      have hst : st = s.state := hc _ (List.mem_of_getElem? hpc)
      subst hst
      exact .inl ⟨.enqueue t hint, hr, rfl⟩
    · exact .inr rfl
    · -- the counter does not change the hint
      have hcur : (CmdPc.enqueue t hint).Current s := hc _ (List.mem_of_getElem? hpc)
      exact .inl ⟨.check t hint, hcur, rfl⟩
    · have hpc : pc.Current s := by rcases hpc' with rfl | rfl <;> trivial
      exact .inl ⟨pc, hpc, rfl⟩
    · exact .inr rfl
    · exact .inl ⟨.recheck, trivial, rfl⟩
    · exact .inr rfl
    · exact .inr rfl
  intro pc hmem
  rw [current_iff_of_taskPart (cmdStep_taskPart h)]
  rcases hcmds with ⟨new, hnew, heq⟩ | heq <;> rw [heq] at hmem
  · rcases List.mem_or_eq_of_mem_set hmem with hmem | rfl
    · exact hc pc hmem
    · exact hnew
  · exact hc pc (List.mem_of_mem_eraseIdx hmem)

/-! ## What the other steps can do -/

/-- `s'` has new commands at the start of their route, and nothing else a
command or the task reads changed. -/
def AddsRoutes (s s' : MigratingSource T) : Prop :=
  s'.taskPart = s.taskPart ∧ s'.runningCmd = s.runningCmd ∧ s'.inFlight = s.inFlight ∧
    s'.toSource = s.toSource ∧ ∃ ts : List T, s'.cmds = s.cmds ++ ts.map .route

/-- `release_all` takes a command off the channel or hands it to a new
`send_cmd_ctx`. -/
theorem releaseStep_addsRoutes {i : Nat} (h : s.releaseStep i = some s') : AddsRoutes s s' := by
  unfold releaseStep at h
  split at h
  · cases h
  · split at h <;>
    · obtain rfl := Option.some.inj h
      exact ⟨rfl, rfl, rfl, rfl, [], (List.append_nil _).symm⟩
  · obtain rfl := Option.some.inj h
    exact ⟨rfl, rfl, rfl, rfl, [_], rfl⟩

/-- Every outcome of a step of the task: the four steps of `blocking` only
while it has not timed out, and the timeout itself. -/
theorem step_task_cases {op : SourceOp T} (hop : op.isTask = true) (h : step op s = some s') :
    (s.state = .preCheck ∧ s' = { s with state := .preBlocking }) ∨
    (s.state = .preBlocking ∧ s.handle = false ∧ s.timedOut = false ∧
      s' = { s with handle := true, blockingCount := s.blockingCount + 1, term := s.term + 1 }) ∨
    (s.state = .preBlocking ∧ s.handle = true ∧ s.runningCmd = 0 ∧ s.timedOut = false ∧
      s' = { s with state := .preSwitch }) ∨
    (s.state = .preSwitch ∧ s.timedOut = false ∧ s' = { s with state := .scanning }) ∨
    (s.state = .scanning ∧ s.handle = true ∧ s.timedOut = false ∧ s' = s.dropHandle) ∨
    (s.timedOut = false ∧ s'.timedOut = true) := by
  cases op <;> simp only [SourceOp.isTask, Bool.false_eq_true] at hop <;> simp only [step] at h
  case ackPreCheck =>
    split at h
    · next hst => exact .inl ⟨hst, (Option.some.inj h).symm⟩
    · cases h
  case startBlocking =>
    split at h
    · next hg => exact .inr <| .inl ⟨hg.1, hg.2.1, hg.2.2, (Option.some.inj h).symm⟩
    · cases h
  case blockingDone =>
    split at h
    · next hg =>
        exact .inr <| .inr <| .inl ⟨hg.1, hg.2.1, hg.2.2.1, hg.2.2.2, (Option.some.inj h).symm⟩
    · cases h
  case ackPreSwitch =>
    split at h
    · next hg => exact .inr <| .inr <| .inr <| .inl ⟨hg.1, hg.2, (Option.some.inj h).symm⟩
    · cases h
  case stop =>
    split at h
    · next hg => exact .inr <| .inr <| .inr <| .inr <| .inl ⟨hg.1, hg.2.1, hg.2.2, (Option.some.inj h).symm⟩
    · cases h
  case blockingTimeout =>
    split at h
    · next hg =>
        refine .inr <| .inr <| .inr <| .inr <| .inr ⟨hg.1, ?_⟩
        obtain rfl := Option.some.inj h
        -- the flag is raised before the handle, if any, is dropped
        split
        · exact (dropHandle_frame _).1
        · rfl
    · cases h

/-- Every outcome of a step that is not the task's: a new command or a
`release_all` step, a command's step, or an answer from the source. -/
theorem step_cmd_cases {op : SourceOp T} (hop : op.isTask = false) (h : step op s = some s') :
    AddsRoutes s s' ∨ (∃ i, s.cmdStep i = some s') ∨
    (∃ i, i < s.inFlight.length ∧
      s' = { s with inFlight := s.inFlight.eraseIdx i, runningCmd := s.runningCmd - 1 }) := by
  cases op <;> simp only [SourceOp.isTask, Bool.true_eq_false] at hop <;> simp only [step] at h
  case command t =>
    obtain rfl := Option.some.inj h
    exact .inl ⟨rfl, rfl, rfl, rfl, [t], rfl⟩
  case step i => exact .inr <| .inl ⟨i, h⟩
  case reply i =>
    split at h
    · next hi => exact .inr <| .inr ⟨i, hi, (Option.some.inj h).symm⟩
    · cases h
  case release i => exact .inl (releaseStep_addsRoutes h)

/-! ## The invariant in every interleaving -/

theorem Inv.handle_of_not_blocking (hinv : Inv s) (hb : s.blocking = false) :
    s.handle = false := by
  cases hh : s.handle
  · rfl
  · simp [blocking, hinv.count, hh] at hb

/-- A step that leaves the task's fields alone keeps `Inv` if it keeps the
count, and sends a command, if at all, only while not blocking. -/
theorem Inv.of_taskPart (hinv : Inv s) (htask : s'.taskPart = s.taskPart) (hc : s'.Counted)
    (hsent : (s'.inFlight ⊆ s.inFlight ∧ s'.toSource = s.toSource) ∨
      (s.blocking = false ∧
        ∃ t, s'.inFlight = s.inFlight ++ [t] ∧ s'.toSource = s.toSource ++ [(t, s.state)])) :
    Inv s' := by
  obtain ⟨hst, hh, -, hcount, -⟩ := taskPart_eq_iff.mp htask
  refine ⟨by rw [hcount, hh]; exact hinv.count, fun h => ?_, fun h => ?_, hc, fun h h1 h2 => ?_,
    fun p hp => ?_⟩
  · rw [hh]; exact hinv.preCheck_handle (hst ▸ h)
  · rw [hh]; exact hinv.preSwitch_handle (hst ▸ h)
  · rcases hsent with ⟨hsub, -⟩ | ⟨hb, -⟩
    · have hq := hinv.quiet_while_blocked (hh ▸ h) (hst ▸ h1) (hst ▸ h2)
      exact List.eq_nil_iff_forall_not_mem.mpr fun x hx => by simpa [hq] using hsub hx
    · -- a command was sent, so the handle is gone
      rw [hh, hinv.handle_of_not_blocking hb] at h
      cases h
  · rcases hsent with ⟨-, hsrc⟩ | ⟨hb, t, -, hsrc⟩
    · exact hinv.toSource_ne_preSwitch p (hsrc ▸ hp)
    · rw [hsrc, List.mem_append, List.mem_singleton] at hp
      rcases hp with hp | rfl
      · exact hinv.toSource_ne_preSwitch p hp
      · -- in `PreSwitch` the handle blocks
        intro hps
        have := hinv.preSwitch_handle hps
        rw [hinv.handle_of_not_blocking hb] at this
        cases this

theorem Inv.cmdStep {i : Nat} (hinv : Inv s) (h : s.cmdStep i = some s') : Inv s' := by
  refine hinv.of_taskPart (cmdStep_taskPart h) (cmdStep_counted h hinv.counted) ?_
  rcases cmdStep_sent h with ⟨hin, hsrc⟩ | ⟨t, _, _, hb, hin, hsrc⟩
  · exact .inl ⟨hin ▸ List.Subset.refl _, hsrc⟩
  · exact .inr ⟨hb, t, hin, hsrc⟩

theorem Inv.of_addsRoutes (hinv : Inv s) (h : AddsRoutes s s') : Inv s' := by
  obtain ⟨htask, hrun, hin, hsrc, ts, hcmds⟩ := h
  refine hinv.of_taskPart htask ?_ (.inl ⟨hin ▸ List.Subset.refl _, hsrc⟩)
  have hroutes : (ts.map CmdPc.route).countP CmdPc.isCheck = 0 := by
    simp [List.countP_eq_zero, CmdPc.isCheck]
  rw [Counted, hrun, hin, hcmds, List.countP_append, hroutes]
  exact hinv.counted

/-- The source's answer drops the `CounterTask` and its count. -/
theorem Inv.reply {i : Nat} (hinv : Inv s) (hi : i < s.inFlight.length) :
    Inv { s with inFlight := s.inFlight.eraseIdx i, runningCmd := s.runningCmd - 1 } := by
  refine hinv.of_taskPart rfl ?_ (.inl ⟨fun _ hx => List.mem_of_mem_eraseIdx hx, rfl⟩)
  have hc := hinv.counted
  unfold Counted at hc ⊢
  simp only [List.length_eraseIdx, hi, if_true]
  omega

/-- A new `release_all` reads nothing the invariant does. -/
theorem Inv.startRelease (hinv : Inv s) : Inv s.startRelease :=
  ⟨hinv.count, hinv.preCheck_handle, hinv.preSwitch_handle, hinv.counted,
    hinv.quiet_while_blocked, hinv.toSource_ne_preSwitch⟩

theorem Inv.taskStep {op : SourceOp T} (hop : op.isTask = true) (hinv : Inv s)
    (h : step op s = some s') (hin : s'.timedOut = false) : Inv s' := by
  rcases step_task_cases hop h with ⟨hst, rfl⟩ | ⟨hst, hh, -, rfl⟩ | ⟨hst, hh, hrun, -, rfl⟩ |
    ⟨hst, -, rfl⟩ | ⟨hst, hh, -, rfl⟩ | ⟨-, hto⟩
  · -- `PreCheck` to `PreBlocking`: no handle yet
    have hh := hinv.preCheck_handle hst
    exact ⟨hinv.count, by simp, by simp, hinv.counted, by simp [hh],
      hinv.toSource_ne_preSwitch⟩
  · -- `pre_block` makes the only handle
    have hc := hinv.count
    simp only [hh, Bool.false_eq_true, if_false] at hc
    exact ⟨by simp [hc], by simp [hst], by simp [hst], hinv.counted, by simp [hst],
      hinv.toSource_ne_preSwitch⟩
  · -- `blocking_done`: the counter is zero, so nothing is unanswered
    have hc := hinv.counted
    unfold Counted at hc
    have hq : s.inFlight = [] := List.eq_nil_of_length_eq_zero (by omega)
    exact ⟨hinv.count, by simp, fun _ => hh, hinv.counted, fun _ _ _ => hq,
      hinv.toSource_ne_preSwitch⟩
  · -- `PreSwitch` to `Scanning`, quiet already
    have hh := hinv.preSwitch_handle hst
    have hq := hinv.quiet_while_blocked hh (by simp [hst]) (by simp [hst])
    exact ⟨hinv.count, by simp, by simp, hinv.counted, fun _ _ _ => hq,
      hinv.toSource_ne_preSwitch⟩
  · -- `stop` drops the only handle
    have hc := hinv.count
    simp only [hh, if_true] at hc
    have hinv' : Inv ({ s with
        handle := false
        blockingCount := s.blockingCount - 1
        term := s.term + 1 } : MigratingSource T) :=
      ⟨by simp [hc], fun _ => rfl, by simp [hst], hinv.counted, by simp,
        hinv.toSource_ne_preSwitch⟩
    rcases dropHandle_cases s with h | h <;> rw [h]
    · exact hinv'
    · exact hinv'.startRelease
  · -- the timeout raised the flag, which the step must have left down
    rw [hin] at hto
    cases hto

theorem Inv.step {op : SourceOp T} (hinv : Inv s) (h : step op s = some s')
    (hin : s'.timedOut = false) : Inv s' := by
  cases hop : op.isTask
  · rcases step_cmd_cases hop h with hadd | ⟨i, hi⟩ | ⟨i, hi, rfl⟩
    · exact hinv.of_addsRoutes hadd
    · exact hinv.cmdStep hi
    · exact hinv.reply hi
  · exact hinv.taskStep hop h hin

/-- Nothing lowers the flag: only the task writes it, and only the timeout
does, once. -/
theorem step_timedOut {op : SourceOp T} (h : step op s = some s') (ht : s.timedOut = true) :
    s'.timedOut = true := by
  cases hop : op.isTask
  · have htask : s'.taskPart = s.taskPart := by
      rcases step_cmd_cases hop h with hadd | ⟨i, hi⟩ | ⟨i, -, rfl⟩
      · exact hadd.1
      · exact cmdStep_taskPart hi
      · rfl
    rw [(taskPart_eq_iff.mp htask).2.2.1, ht]
  · -- the steps of `blocking` need the flag down, so only `ack_pre_check` is left
    have hraised : s.timedOut ≠ false := by rw [ht]; decide
    rcases step_task_cases hop h with ⟨-, rfl⟩ | ⟨-, -, hto, -⟩ | ⟨-, -, -, hto, -⟩ |
      ⟨-, hto, -⟩ | ⟨-, -, hto, -⟩ | ⟨-, hto⟩
    · exact ht
    · exact absurd hto hraised
    · exact absurd hto hraised
    · exact absurd hto hraised
    · exact absurd hto hraised
    · exact hto

/-- The invariant rule of either machine for the runs before the timeout: an
invariant that every step keeps while the flag stays down holds in every state
reached with the flag down. -/
theorem invariant_before_timeout {step : SourceOp T → MigratingSource T → Option (MigratingSource T)}
    (inv : MigratingSource T → Prop) (h0 : inv new)
    (hmono : ∀ op s s', s.timedOut = true → step op s = some s' → s'.timedOut = true)
    (hstep : ∀ op s s', inv s → step op s = some s' → s'.timedOut = false → inv s')
    (h : Machine.Reachable step new s) (hin : s.timedOut = false) : inv s :=
  Machine.Reachable.invariant_until (fun s => s.timedOut = true) inv h0 hmono
    (fun op _ _ hi hs hs' => hstep op _ _ hi hs (Bool.eq_false_iff.mpr hs')) h
    (Bool.eq_false_iff.mp hin)

/-- A command is sent only in `PreCheck` or `PreBlocking` when its hint is
current: there is a hint only up to `PreSwitch`, and in `PreSwitch` the
handle blocks. -/
theorem Inv.sent_state (hinv : Inv s) {hint : BlockingHint}
    (hr : routeHint s.state s.blocking s.term = some hint) (hb : s.blocking = false) :
    s.state = .preCheck ∨ s.state = .preBlocking := by
  have hh := hinv.handle_of_not_blocking hb
  cases hst : s.state <;> simp only [routeHint, hst, reduceCtorEq] at hr
  · exact .inl rfl
  · exact .inr rfl
  · rw [hinv.preSwitch_handle hst] at hh
    cases hh

/-- A command is sent and answered, and the task reaches `PreSwitch`. -/
def sentThenSwitchedRun : List (SourceOp Nat) :=
  [.command 0, .step 0, .step 0, .step 0, .step 0,
   .ackPreCheck, .startBlocking, .reply 0, .blockingDone]

def sentThenSwitched : MigratingSource Nat :=
  ⟨.preSwitch, true, false, 1, 1, 0, [], [], [], [], [(0, .preCheck)], []⟩

/-- The blocking times out in `PreSwitch`, and a command then arrives. -/
def timeoutRun (t : T) : List (SourceOp T) :=
  [.ackPreCheck, .startBlocking, .blockingDone, .blockingTimeout,
   .command t, .step 0, .step 0, .step 0, .step 0]

/-- Without the hypothesis the property fails: once `blocking_timeout` has
dropped the handle in `PreSwitch`, a command for the range loads
`PreSwitch`, finds no blocking, and goes to the source node. -/
theorem timeout_sends_in_preSwitch (t : T) :
    ∃ s, Reachable s ∧ s.timedOut = true ∧ s.state = .preSwitch ∧
      (t, MigrationState.preSwitch) ∈ s.toSource := by
  have hrun : Machine.run step (timeoutRun t) new = some _ := rfl
  refine ⟨_, Machine.reachable_of_run hrun, rfl, rfl, ?_⟩
  exact List.mem_singleton.mpr rfl

/-! ## The invariant when routes are atomic -/

theorem serialStep_eq_some {op : SourceOp T} (h : serialStep op s = some s') :
    (op.isTask = true → s.cmds = []) ∧ step op s = some s' := by
  unfold serialStep at h
  split at h
  · cases h
  · next hg =>
      refine ⟨fun hop => ?_, h⟩
      simpa [hop] using hg

/-- A step that leaves the task's fields alone keeps `SerialInv` if it keeps
`Inv`, keeps what commands loaded current, and sends only in `PreCheck` or
`PreBlocking`. -/
theorem SerialInv.of_taskPart (hinv : SerialInv s) (hbase : Inv s')
    (htask : s'.taskPart = s.taskPart) (hcur : ∀ pc ∈ s'.cmds, pc.Current s')
    (hsent : (s'.inFlight ⊆ s.inFlight ∧ s'.toSource = s.toSource) ∨
      ((s.state = .preCheck ∨ s.state = .preBlocking) ∧
        ∃ t, s'.inFlight = s.inFlight ++ [t] ∧ s'.toSource = s.toSource ++ [(t, s.state)])) :
    SerialInv s' := by
  obtain ⟨hst, -⟩ := taskPart_eq_iff.mp htask
  refine ⟨hbase, hcur, fun p hp => ?_, fun h1 h2 => ?_⟩
  · rcases hsent with ⟨-, hsrc⟩ | ⟨hstate, t, -, hsrc⟩
    · exact hinv.toSource_before_switch p (hsrc ▸ hp)
    · rw [hsrc, List.mem_append, List.mem_singleton] at hp
      rcases hp with hp | rfl
      · exact hinv.toSource_before_switch p hp
      · exact hstate
  · rw [hst] at h1 h2
    rcases hsent with ⟨hsub, -⟩ | ⟨hstate, -⟩
    · have hq := hinv.quiet h1 h2
      exact List.eq_nil_iff_forall_not_mem.mpr fun x hx => by simpa [hq] using hsub hx
    · rcases hstate with h | h
      · exact absurd h h1
      · exact absurd h h2

theorem SerialInv.cmdStep {i : Nat} (hinv : SerialInv s) (h : s.cmdStep i = some s') :
    SerialInv s' := by
  refine hinv.of_taskPart (hinv.toInv.cmdStep h) (cmdStep_taskPart h)
    (cmdStep_current h hinv.current) ?_
  rcases cmdStep_sent h with ⟨hin, hsrc⟩ | ⟨t, hint, hpc, hb, hin, hsrc⟩
  · exact .inl ⟨hin ▸ List.Subset.refl _, hsrc⟩
  · -- the command held a current hint, so the task is before the switch
    have hr : (CmdPc.check t hint).Current s := hinv.current _ (List.mem_of_getElem? hpc)
    exact .inr ⟨hinv.sent_state hr hb, t, hin, hsrc⟩

theorem SerialInv.of_addsRoutes (hinv : SerialInv s) (h : AddsRoutes s s') : SerialInv s' := by
  have hbase := hinv.toInv.of_addsRoutes h
  obtain ⟨htask, -, hin, hsrc, ts, hcmds⟩ := h
  refine hinv.of_taskPart hbase htask (fun pc hpc => ?_)
    (.inl ⟨hin ▸ List.Subset.refl _, hsrc⟩)
  rw [hcmds, List.mem_append, List.mem_map] at hpc
  rcases hpc with hpc | ⟨t, -, rfl⟩
  · exact (current_iff_of_taskPart htask).mpr (hinv.current pc hpc)
  · trivial

theorem SerialInv.reply {i : Nat} (hinv : SerialInv s) (hi : i < s.inFlight.length) :
    SerialInv { s with inFlight := s.inFlight.eraseIdx i, runningCmd := s.runningCmd - 1 } :=
  hinv.of_taskPart (hinv.toInv.reply hi) rfl hinv.current
    (.inl ⟨fun _ hx => List.mem_of_mem_eraseIdx hx, rfl⟩)

/-- The task steps only with no command in progress, and moves nothing a
command holds. -/
theorem SerialInv.taskStep {op : SourceOp T} (hop : op.isTask = true) (hinv : SerialInv s)
    (hempty : s.cmds = []) (h : step op s = some s') (hin : s'.timedOut = false) :
    SerialInv s' := by
  have hbase := hinv.toInv.taskStep hop h hin
  rcases step_task_cases hop h with ⟨hst, rfl⟩ | ⟨hst, -, -, rfl⟩ | ⟨-, hh, -, -, rfl⟩ |
    ⟨hst, -, rfl⟩ | ⟨hst, -, -, rfl⟩ | ⟨-, hto⟩
  · -- `PreCheck` to `PreBlocking`
    exact ⟨hbase, by simp [hempty], hinv.toSource_before_switch, fun _ h2 => absurd rfl h2⟩
  · -- the handle is made in `PreBlocking`
    exact ⟨hbase, by simp [hempty], hinv.toSource_before_switch, fun _ h2 => absurd hst h2⟩
  · -- `blocking_done`: the handle is alive in `PreSwitch`
    exact ⟨hbase, by simp [hempty], hinv.toSource_before_switch,
      fun h1 h2 => hbase.quiet_while_blocked hh h1 h2⟩
  · -- `PreSwitch` to `Scanning`, quiet already
    exact ⟨hbase, by simp [hempty], hinv.toSource_before_switch,
      fun _ _ => hinv.quiet (by simp [hst]) (by simp [hst])⟩
  · -- `stop` moves no command
    obtain ⟨-, hcmds, hinf, hsrc⟩ := dropHandle_frame s
    refine ⟨hbase, by simp [hcmds, hempty], hsrc ▸ hinv.toSource_before_switch, fun _ _ => ?_⟩
    rw [hinf]
    exact hinv.quiet (by simp [hst]) (by simp [hst])
  · rw [hin] at hto
    cases hto

theorem SerialInv.step {op : SourceOp T} (hinv : SerialInv s) (h : serialStep op s = some s')
    (hin : s'.timedOut = false) : SerialInv s' := by
  obtain ⟨hguard, h⟩ := serialStep_eq_some h
  cases hop : op.isTask
  · rcases step_cmd_cases hop h with hadd | ⟨i, hi⟩ | ⟨i, hi, rfl⟩
    · exact hinv.of_addsRoutes hadd
    · exact hinv.cmdStep hi
    · exact hinv.reply hi
  · exact hinv.taskStep hop (hguard hop) h hin

/-- A whole cycle with atomic routes: a command is sent and answered in
`PreCheck`, the task runs to `Scanning` and drops the handle, and a second
command is redirected. -/
def serialCycleRun : List (SourceOp Nat) :=
  [.command 0, .step 0, .step 0, .step 0, .step 0, .reply 0,
   .ackPreCheck, .startBlocking, .blockingDone, .ackPreSwitch, .stop, .release 0,
   .command 1, .step 0, .step 0]

def serialCycle : MigratingSource Nat :=
  ⟨.scanning, false, false, 0, 2, 0, [], [], [], [], [(0, .preCheck)], [1]⟩

/-- The schedule: the command loads `PreCheck`, the task runs its blocking
cycle to the end, and the command goes on. -/
def staleHintRun (t : T) : List (SourceOp T) :=
  [.command t, .step 0,
   .ackPreCheck, .startBlocking, .blockingDone, .ackPreSwitch, .stop,
   .step 0, .step 0, .step 0]

theorem stale_hint_reaches_source (t : T) :
    ∃ s, Reachable s ∧ s.state = .scanning ∧ s.handle = false ∧
      (t, MigrationState.scanning) ∈ s.toSource := by
  have hrun : Machine.run step (staleHintRun t) new = some _ := rfl
  refine ⟨_, Machine.reachable_of_run hrun, rfl, rfl, ?_⟩
  exact List.mem_singleton.mpr rfl

end MigratingSource

end Undermoon

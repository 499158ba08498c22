import Undermoon.Proxy.Backend

/-!
# Replies go to their requests, in order

Both deques of `handle_conn` are fed at the back together and read at the
front, so they stay a suffix of the tasks received: `tasks` is what has not
been answered, `packets` what has not been written, and the packets written
are, in order, those of the tasks received (`PipelineInv`). From this shape
the index `tasks.len() - (packets.len() + 1)` the write loop computes is the
position of the task whose packet it just wrote, a reply the backend owes
always finds a task, the `k`-th reply goes to the task of the `k`-th packet
written, and a failure drains the unanswered tasks in the order they came.
-/

namespace Undermoon

namespace ConnQueues

variable {T P : Type}

/-- The write loop on deques that are suffixes of `arrived`: the packet of the
`S`-th task received, logged against that task. -/
theorem send_of_suffix (getPacket : T → P) {q : ConnQueues T P} {arrived : List T} {h S : Nat}
    (hS : S < arrived.length) (hh : h ≤ S) (ht : q.tasks = arrived.drop h)
    (hp : q.packets = (arrived.drop S).map getPacket) :
    q.send = some (.ok (⟨q.tasks, (arrived.drop (S + 1)).map getPacket⟩,
      getPacket arrived[S], arrived[S])) := by
  have hcons : arrived.drop S = arrived[S] :: arrived.drop (S + 1) := List.drop_eq_getElem_cons hS
  -- the index is the task's position in `tasks`: `S - h`
  have hidx : checkedSub q.tasks.length (((arrived.drop (S + 1)).map getPacket).length + 1) =
      some (S - h) := by
    simp only [checkedSub, ht, List.length_drop, List.length_map]
    rw [if_pos (by omega)]
    congr 1
    omega
  have hget : q.tasks[S - h]? = some arrived[S] := by
    rw [ht, List.getElem?_drop, show h + (S - h) = S by omega, List.getElem?_eq_getElem hS]
  unfold send
  rw [hp, hcons, List.map_cons]
  dsimp only
  rw [hidx, Option.bind_some, hget]

/-- No packet waits once every task received has been written. -/
theorem send_of_written (getPacket : T → P) {q : ConnQueues T P} {arrived : List T} {S : Nat}
    (hS : arrived.length ≤ S) (hp : q.packets = (arrived.drop S).map getPacket) : q.send = none := by
  rw [send, hp, List.drop_eq_nil_of_le hS, List.map_nil]

/-- The read loop on a `tasks` deque that is a suffix of `arrived`. -/
theorem receive_of_suffix {q : ConnQueues T P} {arrived : List T} {h : Nat} (hh : h < arrived.length)
    (ht : q.tasks = arrived.drop h) :
    q.receive = .ok (⟨arrived.drop (h + 1), q.packets⟩, arrived[h]) := by
  rw [receive, ht, List.drop_eq_getElem_cons hh]

end ConnQueues

namespace Pipeline

variable {T P R : Type} {getPacket : T → P}

/-- The shape of a connection: the deques are the unanswered and the
unwritten tasks received, and the history is read off the tasks received. -/
structure PipelineInv (getPacket : T → P) (s : Pipeline T P R) : Prop where
  tasks_eq : s.failed = none → s.queues.tasks = s.arrived.drop s.handed.length
  packets_eq : s.queues.packets = (s.arrived.drop s.sent.length).map getPacket
  sent_eq : s.sent = (s.arrived.take s.sent.length).map fun t => (getPacket t, t)
  handed_eq : s.handed.map Prod.fst = s.arrived.take s.handed.length
  handed_le : s.handed.length ≤ s.sent.length
  sent_le : s.sent.length ≤ s.arrived.length
  failed_eq : ∀ ts, s.failed = some ts → ts = s.arrived.drop s.handed.length

theorem pipelineInv_init : PipelineInv getPacket (init : Pipeline T P R) :=
  ⟨fun _ => rfl, rfl, rfl, rfl, Nat.le_refl _, Nat.le_refl _, fun _ h => nomatch h⟩

section Step

variable {s : Pipeline T P R} (h : PipelineInv getPacket s) (hlive : s.failed = none)
include h hlive

theorem PipelineInv.arrive (t : T) :
    PipelineInv getPacket { s with queues := s.queues.push getPacket t, arrived := s.arrived ++ [t] } := by
  have hh := h.handed_le
  have hs := h.sent_le
  refine ⟨fun _ => ?_, ?_, ?_, ?_, h.handed_le, ?_, fun _ hf => ?_⟩
  · dsimp only
    rw [ConnQueues.push, h.tasks_eq hlive, List.drop_append_of_le_length (by omega)]
  · rw [ConnQueues.push, h.packets_eq, List.drop_append_of_le_length hs, List.map_append]
    rfl
  · rw [List.take_append_of_le_length hs]
    exact h.sent_eq
  · dsimp only
    rw [List.take_append_of_le_length (by omega)]
    exact h.handed_eq
  · dsimp only
    rw [List.length_append]
    omega
  · rw [hlive] at hf
    cases hf

theorem PipelineInv.send {q : ConnQueues T P} {packet : P} {task : T}
    (hsend : s.queues.send = some (.ok (q, packet, task))) :
    s.arrived[s.sent.length]? = some task ∧ packet = getPacket task ∧
      PipelineInv getPacket { s with queues := q, sent := s.sent ++ [(packet, task)] } := by
  by_cases hS : s.sent.length < s.arrived.length
  · rw [ConnQueues.send_of_suffix getPacket hS h.handed_le (h.tasks_eq hlive) h.packets_eq] at hsend
    simp only [Option.some.injEq, Except.ok.injEq, Prod.mk.injEq] at hsend
    obtain ⟨rfl, rfl, rfl⟩ := hsend
    refine ⟨List.getElem?_eq_getElem hS, rfl, fun _ => h.tasks_eq hlive, ?_, ?_, h.handed_eq, ?_, ?_,
      h.failed_eq⟩
    · rw [List.length_append, List.length_singleton]
    · rw [List.length_append, List.length_singleton, List.take_add_one, List.getElem?_eq_getElem hS,
        Option.toList_some, List.map_append, ← h.sent_eq]
      rfl
    · dsimp only
      rw [List.length_append]
      have := h.handed_le
      omega
    · dsimp only
      rw [List.length_append, List.length_singleton]
      omega
  · rw [ConnQueues.send_of_written getPacket (by omega) h.packets_eq] at hsend
    cases hsend

/-- A reply the backend owes finds the next task not answered, which is the
task of the next packet written and not answered. -/
theorem PipelineInv.receive (hdue : s.handed.length < s.sent.length) :
    ∃ task, s.queues.receive = .ok (⟨s.arrived.drop (s.handed.length + 1), s.queues.packets⟩, task) ∧
      s.arrived[s.handed.length]? = some task ∧ (s.sent.map Prod.snd)[s.handed.length]? = some task := by
  have hh : s.handed.length < s.arrived.length := by
    have := h.sent_le
    omega
  refine ⟨s.arrived[s.handed.length], ConnQueues.receive_of_suffix hh (h.tasks_eq hlive),
    List.getElem?_eq_getElem hh, ?_⟩
  rw [h.sent_eq, List.map_map, List.getElem?_map, List.getElem?_take_of_lt hdue,
    List.getElem?_eq_getElem hh]
  rfl

theorem PipelineInv.reply {q : ConnQueues T P} {task : T} (r : R) (hdue : s.handed.length < s.sent.length)
    (hrecv : s.queues.receive = .ok (q, task)) :
    PipelineInv getPacket { s with queues := q, handed := s.handed ++ [(task, r)] } := by
  obtain ⟨task', hrecv', harr, -⟩ := h.receive hlive hdue
  rw [hrecv'] at hrecv
  simp only [Except.ok.injEq, Prod.mk.injEq] at hrecv
  obtain ⟨rfl, rfl⟩ := hrecv
  refine ⟨fun _ => ?_, h.packets_eq, h.sent_eq, ?_, ?_, h.sent_le, fun _ hf => ?_⟩
  · rw [List.length_append, List.length_singleton]
  · rw [List.map_append, h.handed_eq, List.length_append, List.length_singleton, List.take_add_one, harr,
      Option.toList_some]
    rfl
  · dsimp only
    rw [List.length_append, List.length_singleton]
    omega
  · rw [hlive] at hf
    cases hf

theorem PipelineInv.fail (retryTimesOpt : Option Nat) :
    PipelineInv getPacket { s with
      queues := { s.queues with tasks := [] }
      failed := some s.queues.tasks
      retry := handleConnErr retryTimesOpt s.queues.tasks } := by
  refine ⟨(fun hf => nomatch hf), h.packets_eq, h.sent_eq, h.handed_eq, h.handed_le, h.sent_le,
    fun ts hf => ?_⟩
  cases hf
  exact h.tasks_eq hlive

end Step

/-- Every step keeps the shape. -/
theorem PipelineInv.of_step {s s' : Pipeline T P R} {op : PipelineOp T R} (h : PipelineInv getPacket s)
    (hs : step getPacket op s = some s') : PipelineInv getPacket s' := by
  unfold Pipeline.step at hs
  split at hs
  · cases hs
  · next hlive =>
      have hlive : s.failed = none := Option.not_isSome_iff_eq_none.mp hlive
      cases op with
      | arrive t =>
          cases hs
          exact h.arrive hlive t
      | send =>
          dsimp only at hs
          split at hs
          · next q packet task hsend =>
              cases hs
              exact (h.send hlive hsend).2.2
          · cases hs
      | reply r =>
          dsimp only at hs
          split at hs
          · next hdue =>
              split at hs
              · next q task hrecv =>
                  cases hs
                  exact h.reply hlive r hdue hrecv
              · cases hs
          · cases hs
      | fail retryTimesOpt =>
          cases hs
          exact h.fail hlive retryTimesOpt

theorem Reachable.pipelineInv {s : Pipeline T P R} (hr : s.Reachable getPacket) :
    PipelineInv getPacket s :=
  Machine.Reachable.invariant _ pipelineInv_init (fun _ _ _ hinv hs => hinv.of_step hs) hr

/-- On every connection whose backend answers only packets it was sent: the
packets waiting are those of the last tasks waiting; a write looks up the
task whose packet it writes, the next task received, and never meets
`InvalidState`; a reply the backend owes finds the task of the next packet
written and not answered; the `k`-th reply goes to the task of the `k`-th
packet written, and the `k`-th packet written is that of the `k`-th task
received; and a failure passes `handle_conn_err` exactly the unanswered
tasks, in the order they came. -/
theorem pipeline_fifo {s : Pipeline T P R} (hr : s.Reachable getPacket) :
    (s.failed = none → s.queues.packets.length ≤ s.queues.tasks.length ∧
      s.queues.packets =
        (s.queues.tasks.drop (s.queues.tasks.length - s.queues.packets.length)).map getPacket) ∧
    (s.failed = none → ∀ e, s.queues.send ≠ some (.error e)) ∧
    (s.failed = none → ∀ q packet task, s.queues.send = some (.ok (q, packet, task)) →
      s.arrived[s.sent.length]? = some task ∧ packet = getPacket task) ∧
    (s.failed = none → s.handed.length < s.sent.length →
      ∃ q task, s.queues.receive = .ok (q, task) ∧ (s.sent.map Prod.snd)[s.handed.length]? = some task) ∧
    s.handed.map Prod.fst = (s.sent.map Prod.snd).take s.handed.length ∧
    s.sent = (s.arrived.take s.sent.length).map (fun t => (getPacket t, t)) ∧
    (∀ ts, s.failed = some ts → ts = s.arrived.drop s.handed.length) := by
  have h := hr.pipelineInv
  have hh := h.handed_le
  have hs := h.sent_le
  -- what has been written, as tasks: a prefix of the tasks received
  have hwritten : (s.sent.map Prod.snd) = s.arrived.take s.sent.length := by
    conv_lhs => rw [h.sent_eq]
    rw [List.map_map]
    exact List.map_id _
  refine ⟨fun hlive => ?_, fun hlive e he => ?_, fun hlive q packet task hsend => ?_,
    fun hlive hdue => ?_, ?_, h.sent_eq, h.failed_eq⟩
  · rw [h.tasks_eq hlive, h.packets_eq, List.length_map, List.length_drop, List.length_drop,
      List.drop_drop]
    refine ⟨by omega, ?_⟩
    rw [show s.handed.length + (s.arrived.length - s.handed.length - (s.arrived.length - s.sent.length)) =
      s.sent.length by omega]
  · by_cases hS : s.sent.length < s.arrived.length
    · rw [ConnQueues.send_of_suffix getPacket hS hh (h.tasks_eq hlive) h.packets_eq] at he
      cases he
    · rw [ConnQueues.send_of_written getPacket (by omega) h.packets_eq] at he
      cases he
  · obtain ⟨htask, hpacket, -⟩ := h.send hlive hsend
    exact ⟨htask, hpacket⟩
  · obtain ⟨task, hrecv, -, hsent⟩ := h.receive hlive hdue
    exact ⟨_, task, hrecv, hsent⟩
  · rw [h.handed_eq, hwritten, List.take_take, Nat.min_eq_left hh]

/-- Two requests pipelined: both written before the first reply comes
back. -/
def pipelineRun : List (PipelineOp Nat String) :=
  [.arrive 1, .arrive 2, .send, .send, .reply "a"]

theorem pipeline_fifo_pipelineRun :
    ∃ s : Pipeline Nat Nat String, Machine.run (step id) pipelineRun init = some s ∧
      s.handed.map Prod.fst = (s.sent.map Prod.snd).take s.handed.length ∧
      ∀ ts, s.failed = some ts → ts = s.arrived.drop s.handed.length := by
  have hrun : Machine.run (step id) pipelineRun init =
      some ⟨⟨[2], []⟩, [1, 2], [(1, 1), (2, 2)], [(1, "a")], none, none⟩ := rfl
  obtain ⟨-, -, -, -, hhanded, -, hfailed⟩ := pipeline_fifo (Machine.reachable_of_run hrun)
  exact ⟨_, hrun, hhanded, hfailed⟩

end Pipeline

end Undermoon
